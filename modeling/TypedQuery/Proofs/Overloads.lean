import TypedQuery.Proofs.CallReading
/-!
Which of several functions a call takes.

The functions of a name are tried in turn, and an attempt can end in three ways. A function that
takes the arguments is called; one that does not fit is passed over; and an argument that does not
compile ends the call, even if a function behind would take it. The number that an attempt begins
with changes nothing, so the first function that is not passed over decides about the call.

The arguments are compiled anew for what each function expects of them. Arrays and lambdas are
the only ones that may compile for one function and not for another.
-/
namespace TypedQuery

/-- The member that a node is a use of. -/
def Expr.member? : Expr → Option Member
  | .memberAccess _ member | .call member _ | .callOn _ member _ => some member
  | _ => none

/-- The types that neither arrays nor lambdas are written for, whatever placeholders stand for. -/
def Ty.isSimple : Ty → Bool
  | .primitive _ | .enum _ | .entity _ | .applied .. => true
  | _ => false

/-- The function has a simple type for every argument. -/
def Mapping.isSimple (m : Mapping) : Bool :=
  (!m.member.hasReceiver || m.member.template.declaring.isSimple) &&
    m.member.template.params.all Ty.isSimple

namespace Setting

variable (s : Setting) (mapping : Mapping) (args : List Operand) (scope : List Param) (n : Nat)

/-- The function takes the arguments: there is a call of its member. -/
def Accepts : Prop := ∃ e m, s.attempt mapping args scope n = .ok (some e, m)

/-- Trying the function ends the compilation. -/
def Raises (error : CompileError) : Prop := s.attempt mapping args scope n = .error error

variable {s mapping args scope n}

/-- A function that neither takes the arguments nor ends the compilation is passed over. -/
theorem attempt_eq_none (haccepts : ¬ s.Accepts mapping args scope n)
    (hraises : ∀ error, ¬ s.Raises mapping args scope n error) :
    ∃ k, s.attempt mapping args scope n = .ok (none, k) := by
  cases h : s.attempt mapping args scope n with
  | error error => exact absurd h (hraises error)
  | ok v =>
    obtain ⟨found, k⟩ := v
    cases found with
    | none => exact ⟨k, rfl⟩
    | some e => exact absurd ⟨e, k, h⟩ haccepts

theorem firstFit_cons_of_error {back : List Mapping} {error : CompileError}
    (h : s.attempt mapping args scope n = .error error) :
    s.firstFit args scope (mapping :: back) n = .error error :=
  Compiler.bind_eq_error.mpr (.inl h)

end Setting

namespace Query

variable {s : Setting} {scope : List Param} {mapping : Mapping} {front back : List Mapping}
  {name : String} {args : List Query} {n m : Nat} {e : Expr}

/-- A function that takes some arguments has its own member called. -/
theorem Applied.exists_member (h : Applied s mapping args scope n e m) :
    ∃ member, e.member? = some member ∧ member.template = mapping.member.template := by
  cases h with
  | access _ _ _ _ hbind => exact ⟨_, rfl, Member.template_of_bindDeclaring hbind⟩
  | callOn _ _ _ _ hbind =>
    have htemplate := Member.template_of_bindDeclaring hbind
    exact ⟨_, rfl, htemplate⟩
  | call => exact ⟨_, rfl, rfl⟩

/-! ## Attempts in turn -/

section Turns

variable (hthis : s.this.id < n) (hscope : ∀ p ∈ scope, p.id < n)

include hthis hscope

/-- Functions that are passed over leave nothing behind but used numbers. -/
theorem firstFit_of_none
    (hfront : ∀ r ∈ front, ∃ k, s.attempt r (args.map (operand s)) scope n = .ok (none, k))
    (d : Nat) :
    ∃ d', s.firstFit (args.map (operand s)) scope front (n + d) = .ok (none, n + d') := by
  induction front generalizing d with
  | nil => exact ⟨d, rfl⟩
  | cons r front ih =>
    obtain ⟨⟨k, hk⟩, hfront⟩ := List.forall_mem_cons.mp hfront
    obtain ⟨hle, hagain⟩ := (tracks_attempt (d := d) hthis hscope r args).ends (Nat.le_refl n) hk
    obtain ⟨j, rfl⟩ := Nat.exists_eq_add_of_le hle
    obtain ⟨d', hd'⟩ := ih hfront (j + d)
    refine ⟨d', ?_⟩
    rw [Setting.firstFit_cons_of_none hagain, Nat.add_assoc, hd']

variable (hname : TypeOperator.ofName? name = none)
  (hc : s.registry.candidates name args.length = front ++ mapping :: back)
  (hfront : ∀ r ∈ front, ∃ k, s.attempt r (args.map (operand s)) scope n = .ok (none, k))

include hname hc hfront

/-- The first function that is not passed over is called if it takes the arguments. -/
theorem call_of_some
    (h : s.attempt mapping (args.map (operand s)) scope n = .ok (some e, m)) :
    ∃ d, s.call name (args.map (operand s)) scope n =
      .ok (e.relabel (.raising n d), m + d) := by
  obtain ⟨d, hd⟩ := firstFit_of_none hthis hscope hfront 0
  rw [Nat.add_zero] at hd
  have hagain := ((tracks_attempt (d := d) hthis hscope mapping args).ends (Nat.le_refl n) h).2
  refine ⟨d, ?_⟩
  rw [Setting.call_eq_ok hname, List.length_map, hc, Setting.firstFit_append hd]
  exact Setting.firstFit_cons_of_some hagain

/-- The first function that is not passed over ends the call if an argument does not compile. -/
theorem call_of_error {error : CompileError}
    (h : s.attempt mapping (args.map (operand s)) scope n = .error error) :
    s.call name (args.map (operand s)) scope n = .error error := by
  obtain ⟨d, hd⟩ := firstFit_of_none hthis hscope hfront 0
  rw [Nat.add_zero] at hd
  have hagain := (tracks_attempt (d := d) hthis hscope mapping args).fails trivial
    (Nat.le_refl n) h
  rw [Setting.call, hname]
  refine Compiler.bind_eq_error.mpr (.inl ?_)
  rw [List.length_map, hc, Setting.firstFit_append hd]
  exact Setting.firstFit_cons_of_error hagain

end Turns

/-! ## Arguments that compile for every function -/

/-- A number that compiles for one type compiles for every other, and only lambdas and arrays
may not. -/
theorem exists_meaning_of_expected {q : Query} {expected expected' : Option Ty}
    (hlambda : q.kind ≠ .lambda)
    (harray : q.kind = .arrayLiteral → expectedElement expected = expectedElement expected')
    (h : ∃ e m, q.meaning s scope none expected n = .ok (e, m)) :
    ∃ e m, q.meaning s scope none expected' n = .ok (e, m) := by
  by_cases hnumber : q.kind = .numberLiteral
  · cases q with
    | number text =>
      obtain ⟨_, _, h⟩ := h
      obtain ⟨-, hc, -⟩ := meaning_number_eq_ok.mp h
      obtain ⟨c, hc⟩ := exists_numberConstant hc expected'
      exact ⟨c, n, meaning_number_eq_ok.mpr ⟨rfl, hc, rfl⟩⟩
    | _ => cases hnumber
  · rwa [← meaning_eq_of_expected hlambda hnumber harray]

/-- If the query compiles for one of these types, it compiles for all of them. -/
def Indifferent (s : Setting) (Wanted : Option Ty → Prop) (q : Query) : Prop :=
  ∀ ⦃scope : List Param⦄ ⦃n : Nat⦄ ⦃expected expected' : Option Ty⦄, Wanted expected →
    Wanted expected' → (∃ e m, q.meaning s scope none expected n = .ok (e, m)) →
    ∃ e m, q.meaning s scope none expected' n = .ok (e, m)

/-- Only what is expected of a lambda or an array can decide whether it compiles. -/
theorem indifferent_of_kind {q : Query} (h : q.kind ≠ .lambda ∧ q.kind ≠ .arrayLiteral) :
    q.Indifferent s fun _ => True :=
  fun _ _ _ _ _ _ => exists_meaning_of_expected h.1 fun harray => absurd harray h.2

/-- Nothing is expected, or a type that neither arrays nor lambdas are written for. -/
def ExpectsSimple (expected : Option Ty) : Prop := ∀ t ∈ expected, t.isSimple = true

theorem not_lambda_of_meaning {q : Query} {expected : Option Ty} (h : ExpectsSimple expected)
    (hq : q.meaning s scope none expected n = .ok (e, m)) : q.kind ≠ .lambda := by
  cases q with
  | lambda names body =>
    obtain ⟨-, t, rfl, hq⟩ := meaning_lambda_eq_ok.mp hq
    have ht := h t rfl
    cases t with
    | primitive | enum | entity | applied => exact absurd hq Compiler.throw_ne_ok
    | _ => cases ht
  | _ => exact nofun

/-- Lambdas compile for none of these types, and arrays for all of them alike. -/
theorem indifferent_of_simple (q : Query) : q.Indifferent s ExpectsSimple := by
  have helement : ∀ {expected : Option Ty}, ExpectsSimple expected →
      expectedElement expected = none := by
    intro expected h
    cases expected with
    | none => rfl
    | some t =>
      have ht := h t rfl
      cases t with
      | array => cases ht
      | _ => rfl
  rintro scope n expected expected' h h' ⟨e, m, hq⟩
  exact exists_meaning_of_expected (not_lambda_of_meaning h hq)
    (fun _ => (helement h).trans (helement h').symm) ⟨e, m, hq⟩

end Query

/-! ## Functions of simple types -/

theorem Ty.isSimple_resolve {w : Ty} (h : w.isSimple = true) (b : Bindings) :
    (b.resolve w).isSimple = true := by
  cases w with
  | primitive | enum | entity | applied => rfl
  | function | quoted | array | placeholder | wildcard => cases h

theorem Ty.isSimple_of_isQuiet {t : Ty} (h : t.isQuiet = true) : t.isSimple = true := by
  cases t with
  | primitive | enum | entity | applied => rfl
  | function | quoted | array | placeholder | wildcard => cases h

theorem Mapping.expects_of_isSimple {mapping : Mapping} (h : mapping.isSimple = true) :
    Setting.Expects Query.ExpectsSimple mapping := by
  simp only [isSimple, Bool.and_eq_true, Bool.or_eq_true, Bool.not_eq_true',
    List.all_eq_true] at h
  obtain ⟨hdeclaring, hparams⟩ := h
  refine ⟨fun hreceiver => Setting.forall_mem_known ?_, fun w hw b => ?_⟩
  · exact hdeclaring.resolve_left (by simp [hreceiver])
  · rintro t ⟨⟩
    exact Ty.isSimple_resolve (hparams w hw) b

theorem Mapping.isSimple_of_isQuiet {m : Mapping} (h : m.isQuiet = true) : m.isSimple = true := by
  obtain ⟨hdeclaring, hparams⟩ := List.forall_mem_cons.mp (List.all_eq_true.mp h)
  simp only [isSimple, Bool.and_eq_true, Bool.or_eq_true, List.all_eq_true]
  exact ⟨.inr (Ty.isSimple_of_isQuiet hdeclaring),
    fun t ht => Ty.isSimple_of_isQuiet (hparams t ht)⟩

theorem Mapping.isSimple_of_kind {m : Mapping} {p : Primitive}
    (h : m.member.kind = .staticMethod [.primitive p]) : m.isSimple = true := by
  rw [isSimple, Member.hasReceiver, MemberTemplate.params, ← Member.kind, h]
  rfl

/-- Functions of one name have simple types where they are told apart by what is written. -/
theorem Mapping.Rivals.isSimple {m m' : Mapping} (h : m.Rivals m') :
    m.isSimple = true ∧ m'.isSimple = true := by
  rcases h with ⟨hm, hm'⟩ | ⟨hm, hm'⟩
  · exact ⟨isSimple_of_isQuiet hm, isSimple_of_isQuiet hm'⟩
  · exact ⟨isSimple_of_kind hm, isSimple_of_kind hm'⟩

namespace Query

variable {s : Setting} {scope : List Param} {mapping : Mapping} {front back : List Mapping}
  {name : String} {args : List Query} {n m : Nat} {e : Expr}

/-- What a function is applied to compiles for the types that the function expects. -/
theorem Applied.exists_meaning (h : Applied s mapping args scope n e m)
    {Wanted : Option Ty → Prop} (hwanted : Setting.Expects Wanted mapping) :
    ∀ q ∈ args, ∃ expected k, Wanted expected ∧ n ≤ k ∧
      ∃ e m, q.meaning s scope none expected k = .ok (e, m) := by
  intro q hq
  obtain ⟨us, ha⟩ := h.exists_parts
  obtain ⟨u, hu, rfl⟩ := List.mem_map.mp (Mapping.mem_reordered ha.reorder hq)
  have hsound : ∀ u ∈ us, Sound s u.query := fun u _ => elaborates_of_meaning u.query
  have hbefore := (consecutive_of_contiguous hsound ha.contiguous ha.compiled).le_before u hu
  exact ⟨u.expected, u.before, ha.wanted _ hwanted u hu, hbefore, u.graph, u.after,
    ha.compiled u hu⟩

section Completeness

variable (hthis : s.this.id < n) (hscope : ∀ p ∈ scope, p.id < n)

include hthis hscope

/-- A query that compiles once compiles with any other numbers free. -/
theorem succeeds_of_meaning {q : Query} {expected : Option Ty} {k : Nat} (hk : n ≤ k)
    (h : ∃ e m, q.meaning s scope none expected k = .ok (e, m)) :
    Compiler.Succeeds n (q.meaning s scope none expected) := by
  obtain ⟨e, m, h⟩ := h
  intro j hj
  rcases Nat.le_total k j with hle | hle
  · obtain ⟨d, rfl⟩ := Nat.exists_eq_add_of_le hle
    obtain ⟨hm, hagain⟩ := (tracks_meaning (d := d) hthis hscope q expected).ends hk h
    exact ⟨_, _, Nat.le_add_right_of_le hm, hagain⟩
  · obtain ⟨d, rfl⟩ := Nat.exists_eq_add_of_le hle
    have htracks := tracks_meaning (d := d) hthis hscope q expected
    cases hq : q.meaning s scope none expected j with
    | ok v => exact ⟨v.1, v.2, (htracks.ends hj hq).1, rfl⟩
    | error error =>
      have := htracks.fails trivial hj hq
      rw [h] at this
      cases this

/-- Where one function takes the arguments, others can be tried on them, if the arguments compile
for all that these functions expect or for nothing of it. -/
theorem not_raises_of_accepts {Wanted : Option Ty → Prop} {r : Mapping}
    (hargs : ∀ q ∈ args, q.Indifferent s Wanted)
    (haccepts : s.attempt mapping (args.map (operand s)) scope n = .ok (some e, m))
    (hmapping : Setting.Expects Wanted mapping) (hr : Setting.Expects Wanted r)
    (error : CompileError) : ¬ s.Raises r (args.map (operand s)) scope n error := by
  have hcompiles : ∀ o ∈ args.map (operand s), ∀ expected, Wanted expected →
      Compiler.Succeeds n (o.meaning scope none expected) := by
    rw [List.forall_mem_map]
    intro q hq expected hexpected
    obtain ⟨expected', k, hexpected', hk, h⟩ :=
      (applied_of_attempt haccepts).exists_meaning hmapping q hq
    exact succeeds_of_meaning hthis hscope hk (hargs q hq hexpected' hexpected h)
  obtain ⟨found, k, _, hfound⟩ :=
    Setting.compositional_attempt (Compiler.compositional_succeeds n) hcompiles hr n
      (Nat.le_refl n)
  intro herror
  rw [Setting.Raises, hfound] at herror
  cases herror

end Completeness

/-! ## Calls -/

/-- Of the functions that take the arguments a call takes the first one, unless a function before
it ends the compilation; then the call fails for the reason of the first one that does. This
cannot happen if no argument is a lambda or an array, nor if the functions have simple types, as
those of an unambiguous registry have where they share a name. The numbers in a scope are always
below the next free one, since a compilation begins `above` what is given. -/
theorem call_of_accepts (hname : TypeOperator.ofName? name = none) (hthis : s.this.id < n)
    (hscope : ∀ p ∈ scope, p.id < n)
    (hc : s.registry.candidates name args.length = front ++ mapping :: back)
    (haccepts : s.attempt mapping (operands s args) scope n = .ok (some e, m))
    (hfirst : ∀ r ∈ front, ¬ s.Accepts r (operands s args) scope n) :
    (∃ member, e.member? = some member ∧ member.template = mapping.member.template) ∧
    ((∀ r ∈ front, ∀ error, ¬ s.Raises r (operands s args) scope n error) →
      ∃ d, s.call name (operands s args) scope n = .ok (e.relabel (.raising n d), m + d)) ∧
    (∀ before r after error, front = before ++ r :: after →
      (∀ r' ∈ before, ∀ error, ¬ s.Raises r' (operands s args) scope n error) →
      s.Raises r (operands s args) scope n error →
      s.call name (operands s args) scope n = .error error) ∧
    ((∀ q ∈ args, q.kind ≠ .lambda ∧ q.kind ≠ .arrayLiteral) ∨
        (∀ r ∈ mapping :: front, r.isSimple = true) ∨ s.registry.Unambiguous →
      ∀ r ∈ front, ∀ error, ¬ s.Raises r (operands s args) scope n error) := by
  rw [operands_eq_map] at haccepts hfirst ⊢
  refine ⟨(applied_of_attempt haccepts).exists_member, fun hraises => ?_, ?_, ?_⟩
  · exact call_of_some hthis hscope hname hc
      (fun r hr => Setting.attempt_eq_none (hfirst r hr) (hraises r hr)) haccepts
  · rintro before r after error rfl hraises hr
    rw [List.append_assoc] at hc
    refine call_of_error hthis hscope hname hc (fun r' hr' => ?_) hr
    exact Setting.attempt_eq_none (hfirst r' (List.mem_append_left _ hr')) (hraises r' hr')
  · have hsimple (hsimple : ∀ r ∈ mapping :: front, r.isSimple = true) :
        ∀ r ∈ front, ∀ error, ¬ s.Raises r (args.map (operand s)) scope n error := by
      obtain ⟨hmapping, hfront⟩ := List.forall_mem_cons.mp hsimple
      intro r hr
      exact not_raises_of_accepts hthis hscope (fun q _ => indifferent_of_simple q) haccepts
        (Mapping.expects_of_isSimple hmapping) (Mapping.expects_of_isSimple (hfront r hr))
    rintro (hargs | hsimple' | hunambiguous)
    · intro r _
      exact not_raises_of_accepts hthis hscope (fun q hq => indifferent_of_kind (hargs q hq))
        haccepts (Setting.expects_anything mapping) (Setting.expects_anything r)
    · exact hsimple hsimple'
    · have hrivals := hunambiguous.rivals_of_candidates hc
      intro r hr
      exact hsimple (List.forall_mem_cons.mpr
        ⟨(hrivals r hr).isSimple.2, fun r hr => (hrivals r hr).isSimple.1⟩) r hr

/-- The rounding of a `Double` is passed over for a `Decimal`. -/
theorem call_of_accepts_round :
    ∃ (s : Setting) (front : List Mapping) (mapping : Mapping) (e : Expr) (m : Nat),
      s.registry = .standard ∧ front ≠ [] ∧
      s.registry.candidates "round" 1 = front ++ mapping :: [] ∧
      s.attempt mapping (operands s [.symbol "price"]) [] 1 = .ok (some e, m) ∧
      (∃ member, e.member? = some member ∧ member.template = mapping.member.template) ∧
      ∃ d, s.call "round" (operands s [.symbol "price"]) [] 1 =
        .ok (e.relabel (.raising 1 d), m + d) := by
  have happlied : ∃ (s : Setting) (first second : Mapping) (e : Expr) (m : Nat),
      s.registry = .standard ∧ s.this.id < 1 ∧
      s.registry.candidates "round" 1 = [first] ++ second :: [] ∧
      s.attempt first (operands s [.symbol "price"]) [] 1 = .ok (none, 1) ∧
      s.attempt second (operands s [.symbol "price"]) [] 1 = .ok (some e, m) :=
    ⟨⟨.standard, ⟨[], [⟨"Item", none, [("price", .decimal)]⟩]⟩, receiverParam (.entity "Item")⟩,
      _, _, _, _, rfl, by decide, rfl, rfl, rfl⟩
  obtain ⟨s, first, second, e, m, hstandard, hthis, hc, hfirst, hsecond⟩ := happlied
  have hrejected : ∀ r ∈ [first], ¬ s.Accepts r (operands s [.symbol "price"]) [] 1 := by
    rw [List.forall_mem_singleton]
    rintro ⟨e, m, h⟩
    rw [hfirst] at h
    cases h
  obtain ⟨hmember, hcall, _, hraises⟩ :=
    call_of_accepts rfl hthis (by simp) hc hsecond hrejected
  exact ⟨s, [first], second, e, m, hstandard, by simp, hc, hsecond, hmember,
    hcall (hraises (.inl (by simp [kind])))⟩

theorem lt_length_singleton_zero : ∀ i ∈ [0], i < [0].length := by decide

theorem nodup_singleton_zero : [0].Nodup := List.nodup_singleton 0

/-- `joined`, a function of arrays of `element`. -/
def joinedOver (id : String) (element : Ty) : Mapping :=
  Registry.plain "joined" [0] ⟨id, "Join", .staticMethod [.array element], .entity "Lists", .bool⟩
    lt_length_singleton_zero nodup_singleton_zero rfl

/-- A setting with a function for arrays of numbers and one for arrays of texts. -/
def joinedSetting : Setting where
  registry := ⟨[joinedOver "lists.join(int)" .int32, joinedOver "lists.join(string)" .string]⟩
  model := ⟨[], [⟨"Critter", none, [("tags", .list .string)]⟩]⟩
  this := receiverParam (.entity "Critter")

/-- An array of texts is not passed on to the function that takes it: it does not compile for
the one before, which takes arrays of numbers. -/
theorem call_raised_before_accepted :
    (∃ e m, joinedSetting.attempt (joinedOver "lists.join(string)" .string)
      (operands joinedSetting [.array [.string "a"]]) [] 1 = .ok (some e, m)) ∧
    joinedSetting.call "joined" (operands joinedSetting [.array [.string "a"]]) [] 1 =
      .error (.typeMismatch (.arrayItem .int32 .string)) ∧
    (Query.call "joined" [.array [.string "a"]]).compilePredicate joinedSetting.registry
      joinedSetting.model (.entity "Critter") =
        .error (.typeMismatch (.arrayItem .int32 .string)) :=
  ⟨⟨_, _, rfl⟩, rfl, rfl⟩

end Query
end TypedQuery
