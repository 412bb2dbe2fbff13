import TypedQuery.Proofs.OperatorReading
/-!
Which of several functions a call means.

The functions of a name are tried in turn, and those that do not fit leave nothing behind but
used numbers. They do not fit again when the arguments are read again: either nothing that
matters is expected of the arguments, or the suffix of a literal tells the functions apart.
-/
namespace TypedQuery

namespace Setting

variable {s : Setting} {scope : List Param} {args : List Operand} {front back : List Mapping}
  {mapping : Mapping} {n k m : Nat} {e : Expr}

theorem firstFit_cons_of_none (h : s.attempt mapping args scope n = .ok (none, k)) :
    s.firstFit args scope (mapping :: back) n = s.firstFit args scope back k := by
  rw [firstFit]
  simp only [bind, StateT.bind, Except.bind, h]

theorem firstFit_append (h : s.firstFit args scope front n = .ok (none, k)) :
    s.firstFit args scope (front ++ back) n = s.firstFit args scope back k := by
  induction front generalizing n with
  | nil =>
    obtain ⟨-, rfl⟩ := Compiler.pure_eq_ok.mp h
    rfl
  | cons mapping front ih =>
    rw [firstFit] at h
    obtain ⟨found, j, hfound, h⟩ := Compiler.bind_eq_ok.mp h
    cases found with
    | some e => simp at h
    | none => rw [List.cons_append, firstFit_cons_of_none hfound, ih h]

theorem firstFit_cons_of_some (h : s.attempt mapping args scope n = .ok (some e, m)) :
    s.firstFit args scope (mapping :: back) n = .ok (some e, m) := by
  rw [firstFit]
  exact Compiler.bind_eq_ok.mpr ⟨some e, m, h, rfl⟩

/-- The function that fits, and those that were tried before. -/
theorem firstFit_eq_some {mappings : List Mapping}
    (h : s.firstFit args scope mappings n = .ok (some e, m)) :
    ∃ front mapping back k, mappings = front ++ mapping :: back ∧
      s.firstFit args scope front n = .ok (none, k) ∧
      s.attempt mapping args scope k = .ok (some e, m) := by
  induction mappings generalizing n with
  | nil => simp [firstFit] at h
  | cons mapping mappings ih =>
    rw [firstFit] at h
    obtain ⟨found, j, hfound, h⟩ := Compiler.bind_eq_ok.mp h
    cases found with
    | some e' =>
      obtain ⟨he, rfl⟩ := Compiler.pure_eq_ok.mp h
      cases he
      exact ⟨[], mapping, mappings, n, rfl, rfl, hfound⟩
    | none =>
      obtain ⟨front, mapping', back, k, rfl, hfront, hfit⟩ := ih h
      refine ⟨mapping :: front, mapping', back, k, rfl, ?_, hfit⟩
      rw [firstFit_cons_of_none hfound, hfront]

end Setting
/-! ## Functions of numbers -/

namespace Query

variable {s : Setting} {scope : List Param} {q : Query} {c : Expr}

/-- A literal is an argument of a function of a `Double` that it fits, or of none. -/
theorem matchArgs_double (hq : ∀ n, q.meaning s scope none (some .double) n = .ok (c, n))
    (b : Bindings) (n : Nat) :
    ∃ matched, s.matchArgs scope [operand s q] [.double] b n = .ok (matched, n) ∧
      (c.type = .decimal → matched = none) := by
  have hread : (operand s q).meaning scope none (some (b.resolve .double)) n = .ok (c, n) := hq n
  cases herror : (b.infer s.hierarchy .double c.type).error? with
  | some error =>
    refine ⟨none, ?_, fun _ => rfl⟩
    rw [Setting.matchArgs]
    refine Compiler.bind_eq_ok.mpr ⟨c, n, hread, ?_⟩
    rw [herror]
    rfl
  | none =>
    refine ⟨some ([c], (b.infer s.hierarchy .double c.type).bindings), ?_, fun hdecimal => ?_⟩
    · rw [Setting.matchArgs]
      refine Compiler.bind_eq_ok.mpr ⟨c, n, hread, ?_⟩
      rw [herror]
      rfl
    · rw [hdecimal] at herror
      exact absurd herror (by simp [Bindings.infer, Bindings.matchType, Ty.hasPlaceholder,
        Ty.accepts, MatchOutcome.fail])

theorem attempt_double {mapping : Mapping} (hkind : mapping.member.kind = .staticMethod [.double])
    (hq : ∀ n, q.meaning s scope none (some .double) n = .ok (c, n)) (n : Nat) :
    ∃ found, s.attempt mapping [operand s q] scope n = .ok (found, n) ∧
      (c.type = .decimal → found = none) := by
  have hreceiver : mapping.member.hasReceiver = false := by rw [Member.hasReceiver, hkind]; rfl
  have hparams : mapping.member.template.params = [.double] := by
    rw [MemberTemplate.params, ← Member.kind, hkind]
    rfl
  unfold Setting.attempt
  cases hr : mapping.reorder? [operand s q] with
  | none => exact ⟨none, rfl, fun _ => rfl⟩
  | some native =>
    have hlen : native.length = 1 := by
      rw [Mapping.length_of_reorder? hr, Member.arity, hparams, hreceiver]
      rfl
    obtain ⟨o, rfl⟩ := List.length_eq_one_iff.mp hlen
    obtain rfl : o = operand s q := by
      simpa using Mapping.mem_of_reorder? hr List.mem_cons_self
    obtain ⟨matched, hmatched, hnone⟩ := matchArgs_double hq (.ofMember mapping.member) n
    simp only [hreceiver, Bool.false_eq_true, if_false, Setting.complete, hparams,
      Compiler.bind_eq_ok, Compiler.pure_eq_ok]
    refine ⟨_, ⟨_, _, ⟨matched, n, hmatched, rfl, rfl⟩, rfl, rfl⟩, fun hdecimal => ?_⟩
    rw [hnone hdecimal]
    rfl

/-- Functions of a `Double` do not see a `Decimal`, and a literal leaves nothing behind. -/
theorem firstFit_double {front : List Mapping}
    (hkind : ∀ mapping ∈ front, mapping.member.kind = .staticMethod [.double])
    (hq : ∀ n, q.meaning s scope none (some .double) n = .ok (c, n)) (n : Nat) :
    ∃ found, s.firstFit [operand s q] scope front n = .ok (found, n) ∧
      (c.type = .decimal → found = none) := by
  induction front with
  | nil => exact ⟨none, rfl, fun _ => rfl⟩
  | cons mapping front ih =>
    obtain ⟨hmapping, hfront⟩ := List.forall_mem_cons.mp hkind
    obtain ⟨found, hfound, hnone⟩ := attempt_double hmapping hq n
    cases found with
    | none =>
      rw [Setting.firstFit_cons_of_none hfound]
      exact ih hfront
    | some e => exact ⟨some e, Setting.firstFit_cons_of_some hfound, hnone⟩

end Query
/-! ## Functions that do not fit again -/

/-- The part that the query `q` stands for, among arguments that begin with the number `n`. -/
structure Part.WrittenAs (s : Setting) (style : RenderStyle) (scope : List Param) (n : Nat)
    (u : Part) (q : Query) : Prop where
  compiled : u.Compiled s scope
  le_before : n ≤ u.before
  recompiles : u.query.Recompiles s style
  written : (s.renderer style).query u.graph = .ok q
  rereads : u.graph.Rereads s style scope u.expected u.before u.after

section Rejection

variable {s : Setting} {style : RenderStyle} {scope : List Param} {n k : Nat} {u : Part}
  {q : Query} {expected : Option Ty} {front : List Mapping} {pairs : List (Query × Query)}

/-- What is expected of an argument may change as long as the argument ignores it. -/
theorem Part.WrittenAs.tracks (hw : u.WrittenAs s style scope n q) (hygienic : s.Hygienic scope n)
    (hscope : ∀ p ∈ scope, p.type.Native s.model.enums) (hu : u.query.Ignores u.expected)
    (hold : u.query.Ignores expected) (hnew : q.Ignores expected) :
    Compiler.Tracks False (Expr.relabel .settling) n 0 (u.query.meaning s scope none expected)
      (q.meaning s scope none expected) := by
  refine ⟨fun n' a m hn' h => ?_, False.elim⟩
  have ha := (Query.meaning_iff_of_ignores hold).mp h
  have hcompiled := (Query.meaning_iff_of_ignores hu).mp hw.compiled
  have hwritten : (s.renderer style).query a = .ok q := by
    rw [← hw.written]
    refine Query.query_eq_of_meaning hygienic.this_lt hygienic.scope_lt ?_ hn' hw.le_before ha
      hcompiled
    rintro _ ⟨⟩
    exact hygienic.this_lt
  have hread := hw.recompiles (hygienic.mono hn') ⟨hscope, by simp, by simp⟩ .none (by simp) ha q
    hwritten
  exact ⟨Nat.le_trans hn' (Query.elaborates_of_meaning _ h).le,
    (Query.meaning_iff_of_ignores hnew).mpr hread⟩

variable (hygienic : s.Hygienic scope n) (hscope : ∀ p ∈ scope, p.type.Native s.model.enums)
  (hpairs : ∀ p ∈ pairs, ∃ u : Part, u.query = p.1 ∧ u.WrittenAs s style scope n p.2 ∧
    p.1.Ignores u.expected)

include hygienic hscope hpairs

/-- Functions that expect nothing that makes a difference do not fit again. -/
theorem firstFit_again {Wanted : Option Ty → Prop}
    (hignored : ∀ p ∈ pairs, ∀ expected, Wanted expected →
      p.1.Ignores expected ∧ p.2.Ignores expected)
    (hfront : ∀ mapping ∈ front, Setting.Expects Wanted mapping)
    (h : s.firstFit ((pairs.map Prod.fst).map (Query.operand s)) scope front n = .ok (none, k)) :
    s.firstFit ((pairs.map Prod.snd).map (Query.operand s)) scope front n = .ok (none, k) := by
  let operands := pairs.map fun p => (p.1.operand s, p.2.operand s)
  have hfst : operands.map Prod.fst = (pairs.map Prod.fst).map (Query.operand s) := by
    simp [operands]
  have hsnd : operands.map Prod.snd = (pairs.map Prod.snd).map (Query.operand s) := by
    simp [operands]
  have htrack : Setting.OperandsTrack False .settling n 0 scope scope Wanted operands := by
    intro o ho expected hwanted
    obtain ⟨p, hp, rfl⟩ := List.mem_map.mp ho
    obtain ⟨u, hu, hw, hexpected⟩ := hpairs p hp
    obtain ⟨hold, hnew⟩ := hignored p hp expected hwanted
    rw [← hu] at hexpected hold
    have := hw.tracks hygienic hscope hexpected hold hnew
    rwa [hu] at this
  rw [← hfst] at h
  rw [← hsnd]
  exact ((Setting.tracks_firstFit htrack hfront).ends (Nat.le_refl n) h).2

end Rejection

section Decimals

variable {s : Setting} {style : RenderStyle} {scope : List Param} {n k : Nat} {u : Part}
  {q : Query} {front : List Mapping}

/-- An argument of the type `Decimal` that is written as a literal was one. -/
theorem Part.WrittenAs.exists_decimal {text : String}
    (hw : u.WrittenAs s style scope n (.number text))
    (hmeets : u.graph.type.isNumeric = true → u.graph.type = .decimal) :
    (∃ x : Number.Decimal, text = String.ofList (x.text ++ ['m'])) ∧
      ∃ text', u.query = .number text' := by
  obtain ⟨-, hread, -⟩ := Query.meaning_number_eq_ok.mp (hw.rereads _ hw.written)
  have hnumeric := Query.isNumeric_of_numberConstant hread
  obtain ⟨w, hw'⟩ := Query.constant_of_numberConstant hread
  have htype : u.graph.type = .decimal :=
    hmeets (by rwa [Expr.settle, Expr.type_relabel] at hnumeric)
  obtain ⟨v, hv⟩ : ∃ v, u.graph = .constant v := by
    cases hgraph : u.graph with
    | constant v => exact ⟨v, rfl⟩
    | _ => simp [hgraph, Expr.settle, Expr.relabel] at hw'
  have hel := Query.elaborates_of_meaning _ hw.compiled
  constructor
  · have hwritten := hw.written
    rw [hv] at hwritten
    rw [hv, Expr.type] at htype
    cases v with
    | decimal x =>
      cases hwritten
      exact ⟨x, rfl⟩
    | integer k => cases k <;> cases htype
    | _ => cases htype
  · obtain ⟨_, ⟨t, ht⟩ | ⟨_, hnumber⟩⟩ := hel.constant_root hv
    · rw [hv, Expr.type, ht] at htype
      cases htype
    · obtain ⟨text', hquery, _⟩ := hnumber (by rw [← Expr.type, ← hv, htype]; rfl)
      exact ⟨text', hquery⟩

/-- An argument that was a literal is written as one. -/
theorem Part.WrittenAs.exists_number {text : String} (hw : u.WrittenAs s style scope n q)
    (hquery : u.query = .number text) (hexpected : u.expected = some .decimal)
    (hmeets : u.graph.type.isNumeric = true → u.graph.type = .decimal) :
    ∃ text', q = .number text' := by
  have hcompiled := hw.compiled
  rw [Part.Compiled, hquery] at hcompiled
  obtain ⟨-, hconstant, -⟩ := Query.meaning_number_eq_ok.mp hcompiled
  obtain ⟨v, text', hv, hrender, _⟩ := Query.numberConstant_again hconstant fun t ht hn => by
    rw [hexpected] at ht
    cases ht
    exact hmeets (Query.isNumeric_of_numberConstant hconstant)
  have hwritten := hw.written
  rw [hv] at hwritten
  exact ⟨text', Except.ok.inj (hwritten.symm.trans hrender)⟩

/-- Functions of a `Double` do not fit a `Decimal` again, since its suffix says what it is. -/
theorem firstFit_again_of_double (hygienic : s.Hygienic scope n)
    (hscope : ∀ p ∈ scope, p.type.Native s.model.enums) (hw : u.WrittenAs s style scope n q)
    (hexpected : u.expected = some .decimal)
    (hmeets : u.graph.type.isNumeric = true → u.graph.type = .decimal)
    (hkind : ∀ mapping ∈ front, mapping.member.kind = .staticMethod [.double])
    (h : s.firstFit [u.query.operand s] scope front n = .ok (none, k)) :
    s.firstFit [q.operand s] scope front n = .ok (none, k) := by
  have hliteral {text : String} {c : Expr} (hc : Query.numberConstant text (some .double) = .ok c)
      (n : Nat) : (Query.number text).meaning s scope none (some .double) n = .ok (c, n) :=
    Query.meaning_number_eq_ok.mpr ⟨rfl, hc, rfl⟩
  by_cases hnumber : ∃ text, q = .number text
  · obtain ⟨text, rfl⟩ := hnumber
    obtain ⟨⟨x, rfl⟩, text', hquery⟩ := hw.exists_decimal hmeets
    have hcompiled := hw.compiled
    rw [Part.Compiled, hquery] at hcompiled
    obtain ⟨-, hconstant, -⟩ := Query.meaning_number_eq_ok.mp hcompiled
    obtain ⟨c, hc⟩ := Query.exists_numberConstant hconstant (some .double)
    obtain ⟨found, hfound, _⟩ := Query.firstFit_double hkind (hliteral hc) n
    rw [hquery, hfound] at h
    cases h
    obtain ⟨found, hfound, hnone⟩ := Query.firstFit_double hkind
      (hliteral (Query.numberConstant_decimal x (some .double))) n
    rw [hfound, hnone rfl]
  · have hquery : ∀ text, u.query ≠ .number text :=
      fun text hq => hnumber (hw.exists_number hq hexpected hmeets)
    have hnumber : ∀ text, q ≠ .number text := fun text hq => hnumber ⟨text, hq⟩
    have hignores {q : Query} (hq : ∀ text, q ≠ .number text) {p : Primitive} :
        q.Ignores (some (.primitive p)) := by
      rintro _ ⟨⟩
      exact .inr ⟨⟨p, rfl⟩, hq⟩
    have hpairs : ∀ p ∈ [(u.query, q)], ∃ u : Part, u.query = p.1 ∧
        u.WrittenAs s style scope n p.2 ∧ p.1.Ignores u.expected :=
      List.forall_mem_singleton.mpr ⟨u, rfl, hw, hexpected ▸ hignores hquery⟩
    have hignored : ∀ p ∈ [(u.query, q)], ∀ expected : Option Ty, expected = some .double →
        p.1.Ignores expected ∧ p.2.Ignores expected := by
      rw [List.forall_mem_singleton]
      rintro _ rfl
      exact ⟨hignores hquery, hignores hnumber⟩
    exact firstFit_again hygienic hscope hpairs hignored
      (fun mapping hmapping => Mapping.expects_of_kind (hkind mapping hmapping)) h

end Decimals

end TypedQuery
