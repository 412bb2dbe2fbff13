import TypedQuery.Proofs.Calls
import TypedQuery.Proofs.ElaborationSound
import TypedQuery.Proofs.Relabelling
import TypedQuery.Rendering
/-!
What a query compiles to from another number on.

Compilation never looks at the number it is given, so it makes the same graph with later
numbers, or fails for the same reason. That is why an argument can be compiled once more for
every function it may belong to, and why the numbers that were lost on functions that do not fit
are the same numbers again when a query is compiled once more.
-/
namespace TypedQuery

namespace Compiler

variable {α β γ δ : Type} {strict : Prop} {base d : Nat}

/-- Where `x` ends from a number on that is not below `base`, `x'` ends `d` numbers later, with
`f` of the result. Where `x` fails, `x'` fails for the same reason, if that is asked for. -/
structure Tracks (strict : Prop) (f : α → β) (base d : Nat) (x : Compiler α)
    (x' : Compiler β) : Prop where
  ends : ∀ ⦃n : Nat⦄ ⦃a : α⦄ ⦃m : Nat⦄, base ≤ n → x n = .ok (a, m) →
    base ≤ m ∧ x' (n + d) = .ok (f a, m + d)
  fails : strict → ∀ ⦃n : Nat⦄ ⦃error : CompileError⦄, base ≤ n → x n = .error error →
    x' (n + d) = .error error

theorem tracks_pure {f : α → β} {a : α} {b : β} (h : f a = b) :
    Tracks strict f base d (pure a) (pure b) where
  ends n a' m hn hx := by
    obtain ⟨rfl, rfl⟩ := pure_eq_ok.mp hx
    exact ⟨hn, h ▸ rfl⟩
  fails _ _ _ _ hx := absurd hx pure_ne_error

theorem tracks_throw {f : α → β} {error : CompileError} :
    Tracks strict f base d (throw error) (throw error) where
  ends _ _ _ _ hx := absurd hx throw_ne_ok
  fails _ _ _ _ hx := throw_eq_error.mpr (throw_eq_error.mp hx)

theorem tracks_liftM {f : α → β} {x : Except CompileError α} {x' : Except CompileError β}
    (h : x' = x.map f) :
    Tracks strict f base d (liftM x : Compiler α) (liftM x' : Compiler β) where
  ends n a m hn hx := by
    obtain ⟨rfl, rfl⟩ := liftM_eq_ok.mp hx
    exact ⟨hn, liftM_eq_ok.mpr ⟨h, rfl⟩⟩
  fails _ n error _ hx := by
    rw [liftM_eq_error.mp hx] at h
    exact liftM_eq_error.mpr h

theorem Tracks.bind {f : α → β} {g : γ → δ} {x : Compiler α} {x' : Compiler β}
    {k : α → Compiler γ} {k' : β → Compiler δ} (hx : Tracks strict f base d x x')
    (hk : ∀ a, Tracks strict g base d (k a) (k' (f a))) :
    Tracks strict g base d (x >>= k) (x' >>= k') where
  ends n c m hn h := by
    obtain ⟨a, j, ha, hc⟩ := bind_eq_ok.mp h
    obtain ⟨hj, ha'⟩ := hx.ends hn ha
    obtain ⟨hm, hc'⟩ := (hk a).ends hj hc
    exact ⟨hm, bind_eq_ok.mpr ⟨_, _, ha', hc'⟩⟩
  fails hs n error hn h := by
    rcases bind_eq_error.mp h with he | ⟨a, j, ha, he⟩
    · exact bind_eq_error.mpr (.inl (hx.fails hs hn he))
    · obtain ⟨hj, ha'⟩ := hx.ends hn ha
      exact bind_eq_error.mpr (.inr ⟨_, _, ha', (hk a).fails hs hj he⟩)

end Compiler

open Compiler

/-! ## Calls -/

namespace Setting

variable {s : Setting} {strict : Prop} {ρ : Relabelling} {base d : Nat}
  {scope scope' : List Param} {pairs : List (Operand × Operand)} {Wanted : Option Ty → Prop}

/-- The second operands of the pairs track the first ones, for the types that satisfy
`Wanted`. -/
def OperandsTrack (strict : Prop) (ρ : Relabelling) (base d : Nat) (scope scope' : List Param)
    (Wanted : Option Ty → Prop) (pairs : List (Operand × Operand)) : Prop :=
  ∀ p ∈ pairs, ∀ expected, Wanted expected → Tracks strict (Expr.relabel ρ) base d
    (p.1.meaning scope none expected) (p.2.meaning scope' none expected)

theorem tracks_matchArgs (hpairs : OperandsTrack strict ρ base d scope scope' Wanted pairs)
    {signature : List Ty}
    (hwanted : ∀ w ∈ signature, ∀ b : Bindings, Wanted (some (b.resolve w))) (b : Bindings) :
    Tracks strict (Option.map fun (es, b) => (es.map (Expr.relabel ρ), b)) base d
      (s.matchArgs scope (pairs.map Prod.fst) signature b)
      (s.matchArgs scope' (pairs.map Prod.snd) signature b) := by
  induction pairs generalizing signature b with
  | nil =>
    cases signature <;> exact tracks_pure rfl
  | cons p pairs ih =>
    cases signature with
    | nil => exact tracks_pure rfl
    | cons w signature =>
      obtain ⟨hp, hpairs⟩ := List.forall_mem_cons.mp hpairs
      obtain ⟨hw, hsignature⟩ := List.forall_mem_cons.mp hwanted
      rw [List.map_cons, List.map_cons, matchArgs, matchArgs]
      refine (hp _ (hw b)).bind fun e => ?_
      simp only [Expr.type_relabel]
      split
      · exact tracks_pure rfl
      · refine (ih hpairs hsignature _).bind fun rest => tracks_pure ?_
        cases rest <;> rfl

theorem tracks_complete (hpairs : OperandsTrack strict ρ base d scope scope' Wanted pairs)
    {member : Member}
    (hwanted : ∀ w ∈ member.template.params, ∀ b : Bindings, Wanted (some (b.resolve w))) :
    Tracks strict (Option.map fun (m, es) => (m, es.map (Expr.relabel ρ))) base d
      (s.complete member (pairs.map Prod.fst) scope)
      (s.complete member (pairs.map Prod.snd) scope') := by
  refine (tracks_matchArgs hpairs hwanted _).bind fun matched => tracks_pure ?_
  cases matched with
  | none => rfl
  | some matched =>
    dsimp only [Option.map_some, Option.bind_some]
    split <;> rfl

theorem tracks_attempt (hpairs : OperandsTrack strict ρ base d scope scope' Wanted pairs)
    {mapping : Mapping} (hwanted : Expects Wanted mapping) :
    Tracks strict (Option.map (Expr.relabel ρ)) base d
      (s.attempt mapping (pairs.map Prod.fst) scope)
      (s.attempt mapping (pairs.map Prod.snd) scope') := by
  unfold attempt
  rw [Mapping.reorder?_map, Mapping.reorder?_map]
  cases hr : mapping.reorder? pairs with
  | none => exact tracks_pure rfl
  | some native =>
    have hnative : OperandsTrack strict ρ base d scope scope' Wanted native :=
      fun p hp => hpairs p (Mapping.mem_of_reorder? hr hp)
    dsimp only [Option.map_some]
    split
    · next hreceiver =>
      cases native with
      | nil => exact tracks_pure rfl
      | cons p native =>
        obtain ⟨hp, hnative⟩ := List.forall_mem_cons.mp hnative
        refine (hp _ (hwanted.1 hreceiver)).bind fun receiver => ?_
        rw [Expr.type_relabel]
        split
        · exact tracks_pure rfl
        · next member hbind =>
          split
          · exact tracks_pure rfl
          · have hparams := Member.template_of_bindDeclaring hbind ▸ hwanted.2
            refine (tracks_complete hnative hparams).bind fun completed => tracks_pure ?_
            cases completed <;> simp [Expr.relabel, Expr.relabels_eq_map]
    · refine (tracks_complete hnative hwanted.2).bind fun completed => tracks_pure ?_
      cases completed <;> simp [Expr.relabel, Expr.relabels_eq_map]

theorem tracks_firstFit (hpairs : OperandsTrack strict ρ base d scope scope' Wanted pairs)
    {mappings : List Mapping} (hwanted : ∀ mapping ∈ mappings, Expects Wanted mapping) :
    Tracks strict (Option.map (Expr.relabel ρ)) base d
      (s.firstFit (pairs.map Prod.fst) scope mappings)
      (s.firstFit (pairs.map Prod.snd) scope' mappings) := by
  induction mappings with
  | nil => exact tracks_pure rfl
  | cons mapping mappings ih =>
    obtain ⟨hmapping, hmappings⟩ := List.forall_mem_cons.mp hwanted
    refine (tracks_attempt hpairs hmapping).bind fun found => ?_
    cases found with
    | none => exact ih hmappings
    | some e => exact tracks_pure rfl

end Setting

/-! ## Later numbers -/

/-- The numbers from `base` on are raised by `d`. -/
def Relabelling.raising (base d : Nat) : Relabelling :=
  .renumbering fun n => if n < base then n else n + d

theorem Relabelling.raising_param {base d : Nat} {p : Param} (hp : p.id < base) :
    (raising base d).param p = p := by
  simp [raising, renumbering, Param.renumber, hp]

theorem Relabelling.map_raising_param {base d : Nat} {params : List Param}
    (h : ∀ p ∈ params, p.id < base) : params.map (raising base d).param = params :=
  (List.map_congr_left fun p hp => raising_param (h p hp)).trans (List.map_id params)

namespace Setting

variable {s : Setting} {base d : Nat} {scope : List Param}

theorem map_raising_paramsFrom {n : Nat} (hn : base ≤ n) (names : List String)
    (types : List Ty) :
    (paramsFrom n names types).map (Relabelling.raising base d).param =
      paramsFrom (n + d) names types := by
  induction names generalizing n types with
  | nil => rfl
  | cons name names ih =>
    cases types with
    | nil => rfl
    | cons t types =>
      rw [paramsFrom, List.map_cons, ih (Nat.le_succ_of_le hn), paramsFrom, Nat.add_right_comm]
      have : ¬ n < base := Nat.not_lt.mpr hn
      simp [Relabelling.raising, Relabelling.renumbering, Param.renumber, this]

theorem tracks_freshParams (names : List String) (types : List Ty) :
    Tracks True (List.map (Relabelling.raising base d).param) base d (freshParams names types)
      (freshParams names types) := by
  refine ⟨fun n params m hn h => ?_, fun _ _ _ _ h => nomatch h⟩
  cases h
  refine ⟨by omega, ?_⟩
  rw [freshParams, ← map_raising_paramsFrom hn, List.length_map, Nat.add_right_comm]

theorem find?_map_param (ρ : Relabelling) (scope : List Param) (name : String) :
    ((scope.map ρ.param).find? fun p => p.name == name) =
      (scope.find? fun p => p.name == name).map ρ.param := by
  rw [List.find?_map]
  congr 2
  funext p
  exact congrArg (· == name) (ρ.name_param p)

theorem property_relabel (ρ : Relabelling) (e : Expr) (name : String) :
    s.property (e.relabel ρ) name = (s.property e name).map (Expr.relabel ρ) := by
  unfold property
  rw [Expr.type_relabel]
  split <;> rfl

/-- Keywords mean the same after a change that leaves `this` alone. -/
theorem relabel_keyword {ρ : Relabelling} (hthis : ρ.param s.this = s.this) {name : String}
    {e : Expr} (h : s.keyword? name = some e) : e.relabel ρ = e := by
  cases keyword?_eq_some_iff.mp h with
  | this => rw [Expr.relabel, hthis]
  | true | false => rw [Expr.relabel, ρ.value_bool]
  | null => rw [Expr.relabel, ρ.value_null]

theorem symbol_relabel {ρ : Relabelling} (hthis : ρ.param s.this = s.this) (name : String)
    (receiver : Option Expr) :
    s.symbol name (scope.map ρ.param) (receiver.map (Expr.relabel ρ)) =
      (s.symbol name scope receiver).map (Expr.relabel ρ) := by
  cases receiver with
  | some base => exact property_relabel ρ base name
  | none =>
    unfold symbol
    rw [find?_map_param]
    dsimp only [Option.map_none]
    cases hk : s.keyword? name with
    | some e => exact congrArg _ (relabel_keyword hthis hk).symm
    | none =>
      cases scope.find? fun p => p.name == name with
      | some p => rfl
      | none =>
        have := property_relabel ρ (.parameter s.this) (s := s) name
        rwa [Expr.relabel, hthis] at this

theorem tracks_lambda {names : List String} {body : Meaning}
    (hbody : ∀ scope expected, Tracks True (Expr.relabel (.raising base d)) base d
      (body scope none expected)
      (body (scope.map (Relabelling.raising base d).param) none expected)) :
    ∀ t : Ty, Tracks True (Expr.relabel (.raising base d)) base d (lambda names body scope t)
      (lambda names body (scope.map (Relabelling.raising base d).param) t)
  | .quoted inner => (tracks_lambda hbody inner).bind fun _ => tracks_pure rfl
  | .function types result => by
    unfold lambda
    split
    · exact tracks_throw
    · split
      · exact tracks_throw
      · refine (tracks_freshParams names types).bind fun params => ?_
        rw [← List.map_append]
        exact (hbody _ _).bind fun _ => tracks_pure rfl
  | .primitive _ | .enum _ | .entity _ | .array _ | .applied .. | .placeholder _ | .wildcard =>
    tracks_throw

end Setting

namespace Query

variable {s : Setting} {base d : Nat} {scope : List Param}

/-- Compilation is the same from a later number on. -/
def Shifts (s : Setting) (base d : Nat) (q : Query) : Prop :=
  ∀ scope receiver expected, Tracks True (Expr.relabel (.raising base d)) base d
    (q.meaning s scope receiver expected)
    (q.meaning s (scope.map (Relabelling.raising base d).param)
      (receiver.map (Expr.relabel (.raising base d))) expected)

theorem operandsTrack_of_shifts {args : List Query} (hargs : ∀ q ∈ args, Shifts s base d q)
    (scope : List Param) :
    Setting.OperandsTrack True (.raising base d) base d scope
      (scope.map (Relabelling.raising base d).param) (fun _ => True)
      (args.map fun q => (operand s q, operand s q)) := by
  intro p hp expected _
  obtain ⟨q, hq, rfl⟩ := List.mem_map.mp hp
  exact hargs q hq scope none expected

theorem applyType_relabel (ρ : Relabelling) (op : TypeOperator) (e : Expr) (type : Query) :
    s.applyType op (e.relabel ρ) (type.operand s) =
      (s.applyType op e (type.operand s)).map (Expr.relabel ρ) := by
  unfold Setting.applyType
  cases s.typeNamed op (type.operand s) with
  | error => rfl
  | ok t =>
    cases op with
    | isof => rfl
    | cast =>
      simp only [bind, Except.bind, Expr.type_relabel]
      split <;> rfl

theorem tracks_typeCall (hthis : s.this.id < base) {args : List Query}
    (hargs : ∀ q ∈ args, Shifts s base d q) {op : TypeOperator} :
    Tracks True (Expr.relabel (.raising base d)) base d
      (s.typeCall op (args.map (operand s)) scope)
      (s.typeCall op (args.map (operand s))
        (scope.map (Relabelling.raising base d).param)) := by
  match args, hargs with
  | [], _ => exact tracks_throw
  | [type], _ =>
    refine tracks_liftM ?_
    rw [← applyType_relabel, Expr.relabel, Relabelling.raising_param hthis]
  | [x, type], hargs =>
    refine (hargs x List.mem_cons_self scope none none).bind fun e => tracks_liftM ?_
    exact applyType_relabel _ op e type
  | _ :: _ :: _ :: _, _ => exact tracks_throw

theorem tracks_call (hthis : s.this.id < base) {name : String} {args : List Query}
    (hargs : ∀ q ∈ args, Shifts s base d q) :
    Tracks True (Expr.relabel (.raising base d)) base d
      (s.call name (args.map (operand s)) scope)
      (s.call name (args.map (operand s)) (scope.map (Relabelling.raising base d).param)) := by
  unfold Setting.call
  split
  · exact tracks_typeCall hthis hargs
  · have hfit := Setting.tracks_firstFit (s := s) (operandsTrack_of_shifts hargs scope)
      fun (mapping : Mapping)
        (_ : mapping ∈ s.registry.candidates name (args.map (operand s)).length) =>
          Setting.expects_anything mapping
    rw [List.map_map, List.map_map] at hfit
    refine hfit.bind fun found => ?_
    cases found with
    | none => exact tracks_throw
    | some e => exact tracks_pure rfl

theorem tracks_indexer (hthis : s.this.id < base) {name : String} {args : List Query}
    (hargs : ∀ q ∈ args, Shifts s base d q) {receiver : Option Expr} :
    Tracks True (Expr.relabel (.raising base d)) base d
      (s.indexer name (args.map (operand s)) scope receiver)
      (s.indexer name (args.map (operand s)) (scope.map (Relabelling.raising base d).param)
        (receiver.map (Expr.relabel (.raising base d)))) := by
  have hbase : (receiver.map (Expr.relabel (.raising base d))).getD (.parameter s.this) =
      (receiver.getD (.parameter s.this)).relabel (.raising base d) := by
    cases receiver with
    | none =>
      dsimp only [Option.map_none, Option.getD_none]
      rw [Expr.relabel, Relabelling.raising_param hthis]
    | some e => rfl
  unfold Setting.indexer
  rw [hbase]
  refine (tracks_liftM (Setting.property_relabel _ _ name)).bind fun dictionary => ?_
  rw [Expr.type_relabel]
  split
  · match args, hargs with
    | [], _ => exact tracks_throw
    | [arg], hargs =>
      refine (hargs arg List.mem_cons_self scope none _).bind fun key => ?_
      rw [Expr.type_relabel]
      split
      · exact tracks_pure rfl
      · exact tracks_throw
    | _ :: _ :: _, _ => exact tracks_throw
  · exact tracks_throw

theorem tracks_mapM {items : List Query} (hitems : ∀ q ∈ items, Shifts s base d q)
    (element : Option Ty) :
    Tracks True (List.map (Expr.relabel (.raising base d))) base d
      ((items.map (operand s)).mapM fun item : Operand => item.meaning scope none element)
      ((items.map (operand s)).mapM fun item : Operand =>
        item.meaning (scope.map (Relabelling.raising base d).param) none element) := by
  induction items with
  | nil => exact tracks_pure rfl
  | cons q items ih =>
    obtain ⟨hq, hitems⟩ := List.forall_mem_cons.mp hitems
    simp only [List.map_cons, List.mapM_cons]
    exact (hq scope none element).bind fun e => (ih hitems).bind fun es => tracks_pure rfl

theorem tracks_standalone {kind : Kind} {f f' : List Param → Option Ty → Compiler Expr}
    {scope' : List Param} {receiver : Option Expr} {expected : Option Ty} {ρ : Relabelling}
    (h : Tracks True (Expr.relabel ρ) base d (f scope expected) (f' scope' expected)) :
    Tracks True (Expr.relabel ρ) base d (Setting.standalone kind f scope receiver expected)
      (Setting.standalone kind f' scope' (receiver.map (Expr.relabel ρ)) expected) := by
  cases receiver with
  | none => exact h
  | some base => exact tracks_throw

mutual
/-- The numbers that are free when a query is compiled do not matter. -/
theorem shifts (hthis : s.this.id < base) : ∀ q : Query, Shifts s base d q
  | .symbol name => by
    intro scope receiver expected
    rw [meaning]
    exact tracks_liftM (Setting.symbol_relabel (Relabelling.raising_param hthis) name receiver)
  | .indexer name args => by
    intro scope receiver expected
    rw [meaning, operands_eq_map]
    exact tracks_indexer hthis (shifts_each hthis args)
  | .binary op left right => by
    intro scope receiver expected
    have hleft : Shifts s base d left := shifts hthis left
    have hright : Shifts s base d right := shifts hthis right
    cases op with
    | dot =>
      by_cases hcall : ∃ name args, right = .call name args
      · obtain ⟨name, args, rfl⟩ := hcall
        have hargs : ∀ q ∈ left :: args, Shifts s base d q :=
          List.forall_mem_cons.mpr ⟨hleft, shifts_each hthis args⟩
        cases receiver with
        | some base => exact tracks_throw
        | none =>
          simp only [meaning, operands_eq_map]
          exact tracks_call hthis hargs
      · rw [meaning_path fun name args hr => hcall ⟨name, args, hr⟩]
        exact (hleft scope receiver none).bind fun l => hright scope (some l) none
    | isIn =>
      rw [meaning]
      refine tracks_standalone ((hleft scope none none).bind fun value => ?_)
      rw [Expr.type_relabel]
      refine (hright scope none _).bind fun array => tracks_liftM ?_
      exact Expr.search_relabel _ value array
    | value op =>
      rw [meaning]
      refine tracks_standalone ((hleft scope none none).bind fun l => ?_)
      refine (hright scope none none).bind fun r => tracks_liftM ?_
      exact Expr.combine_relabel _ _ op l r
  | .call name args => by
    intro scope receiver expected
    rw [meaning, operands_eq_map]
    exact tracks_standalone (tracks_call hthis (shifts_each hthis args))
  | .lambda names body => by
    intro scope receiver expected
    have hbody : Shifts s base d body := shifts hthis body
    rw [meaning]
    refine tracks_standalone ?_
    cases expected with
    | none => exact tracks_throw
    | some t => exact Setting.tracks_lambda (fun scope => hbody scope none) t
  | .array items => by
    intro scope receiver expected
    rw [meaning, operands_eq_map]
    refine tracks_standalone ((tracks_mapM (shifts_each hthis items) _).bind fun es => ?_)
    exact tracks_liftM (Expr.arrayOf_relabel _ _ es)
  | .string value | .guid value | .dateTime value => by
    intro scope receiver expected
    rw [meaning]
    exact tracks_standalone (tracks_pure rfl)
  | .number text => by
    intro scope receiver expected
    rw [meaning]
    refine tracks_standalone (tracks_liftM ?_)
    cases h : numberConstant text expected with
    | error => rfl
    | ok e =>
      obtain ⟨v, rfl⟩ := constant_of_numberConstant h
      rfl

theorem shifts_each (hthis : s.this.id < base) : ∀ qs : List Query, ∀ q ∈ qs, Shifts s base d q
  | [], _, h => absurd h List.not_mem_nil
  | q :: qs, q', h => by
    rcases List.mem_cons.mp h with h | h
    · exact h ▸ shifts hthis q
    · exact shifts_each hthis qs q' h
end

end Query

/-! ## Rendering -/

namespace Renderer

variable {r : Renderer} {base d : Nat}

theorem isReceiver_raising (hr : ∀ id ∈ r.receiver?, id < base) (e : Expr) :
    r.isReceiver (e.relabel (.raising base d)) = r.isReceiver e := by
  unfold isReceiver
  cases hid : r.receiver? with
  | none => rfl
  | some id =>
    have hlt := hr id hid
    cases e with
    | parameter p =>
      simp only [Expr.relabel, Relabelling.raising, Relabelling.renumbering, Param.renumber,
        Expr.isParameter]
      split
      · rfl
      · have h₁ : p.id ≠ id := by omega
        have h₂ : p.id + d ≠ id := by omega
        rw [beq_false_of_ne h₁, beq_false_of_ne h₂]
    | _ => rfl

theorem caseName?_raising (l r : Expr) :
    caseName? (l.relabel (.raising base d)) (r.relabel (.raising base d)) = caseName? l r := by
  have hconstant : (r.relabel (.raising base d)).constant? = r.constant? := by
    cases r <;> rfl
  cases l with
  | convert e t explicit =>
    cases explicit
    · simp only [Expr.relabel, caseName?, Expr.type_relabel, hconstant]
    · rfl
  | _ => rfl

mutual
/-- Numbers of parameters are not written. -/
theorem query_raising (hr : ∀ id ∈ r.receiver?, id < base) :
    ∀ e : Expr, r.query (e.relabel (.raising base d)) = r.query e
  | .constant v => rfl
  | .parameter p => by
    have := isReceiver_raising (d := d) hr (.parameter p)
    rw [Expr.relabel] at this
    simp only [Expr.relabel, query, this]
    rfl
  | .property e name t => by
    simp only [Expr.relabel, query, isReceiver_raising hr, query_raising hr e]
  | .memberAccess e member => by
    simp only [Expr.relabel, query, query_raising hr e]
  | .call member args => by
    have hargs := queries_raising hr args
    rw [Expr.relabel]
    match args with
    | [] => rfl
    | [_] | _ :: _ :: _ :: _ =>
      simp only [Expr.relabels] at hargs ⊢
      simp [query, hargs]
    | [array, value] =>
      simp only [Expr.relabels] at hargs ⊢
      simp only [query, hargs, query_raising hr array, query_raising hr value]
  | .callOn e member args => by
    have he := query_raising hr e
    have hargs := queries_raising hr args
    rw [Expr.relabel]
    match args with
    | [] | _ :: _ :: _ :: _ =>
      simp only [Expr.relabels] at hargs ⊢
      simp [query, he, hargs]
    | [array, value] =>
      simp only [Expr.relabels] at hargs ⊢
      simp [query, he, hargs, query_raising hr array, query_raising hr value]
    | [key] =>
      simp only [Expr.relabels] at hargs ⊢
      cases e with
      | property receiver name t =>
        simp only [Expr.relabel]
        simp [query, hargs, query_raising hr key, query_raising hr receiver,
          isReceiver_raising hr]
      | _ =>
        simp only [Expr.relabel, query] at he ⊢
        simp only [he, hargs]
  | .binary op left right t => by
    simp only [Expr.relabel, query, caseName?_raising, query_raising hr left,
      query_raising hr right]
  | .convert e t explicit => by
    simp only [Expr.relabel, query, isReceiver_raising hr, query_raising hr e]
  | .typeIs e t => by
    simp only [Expr.relabel, query, isReceiver_raising hr, query_raising hr e]
  | .newArray t es => by
    simp only [Expr.relabel, query, queries_raising hr es]
  | .lambda ps e => by
    simp only [Expr.relabel, query, query_raising hr e]
    rw [List.map_map]
    rfl
  | .quote e => by
    simp only [Expr.relabel, query, query_raising hr e]

theorem queries_raising (hr : ∀ id ∈ r.receiver?, id < base) :
    ∀ es : List Expr, r.queries (Expr.relabels (.raising base d) es) = r.queries es
  | [] => rfl
  | e :: es => by
    simp only [Expr.relabels, queries, query_raising hr e, queries_raising hr es]
end

end Renderer
namespace Query

variable {s : Setting} {q : Query} {scope : List Param} {expected : Option Ty} {base d : Nat}
  (hthis : s.this.id < base) (hscope : ∀ p ∈ scope, p.id < base)

include hthis hscope

/-- Whether a query compiles, and why it does not, is the same from a later number on. -/
theorem tracks_meaning (q : Query) (expected : Option Ty) :
    Tracks True (Expr.relabel (.raising base d)) base d (q.meaning s scope none expected)
      (q.meaning s scope none expected) := by
  have := shifts (d := d) hthis q scope none expected
  rwa [Relabelling.map_raising_param hscope] at this

/-- Whether a function takes some arguments is the same from a later number on. -/
theorem tracks_attempt (mapping : Mapping) (args : List Query) :
    Tracks True (Option.map (Expr.relabel (.raising base d))) base d
      (s.attempt mapping (args.map (operand s)) scope)
      (s.attempt mapping (args.map (operand s)) scope) := by
  have hargs : ∀ q ∈ args, Shifts s base d q := fun q _ => shifts hthis q
  have := Setting.tracks_attempt (s := s) (operandsTrack_of_shifts hargs scope)
    (Setting.expects_anything mapping)
  rwa [List.map_map, List.map_map, Relabelling.map_raising_param hscope] at this

/-- A query is written in the same way whichever numbers were free when it was compiled. -/
theorem query_eq_of_meaning {r : Renderer} {n n' m m' : Nat} {e e' : Expr}
    (hr : ∀ id ∈ r.receiver?, id < base) (hn : base ≤ n) (hn' : base ≤ n')
    (h : q.meaning s scope none expected n = .ok (e, m))
    (h' : q.meaning s scope none expected n' = .ok (e', m')) : r.query e = r.query e' := by
  rcases Nat.le_total n n' with hle | hle
  · obtain ⟨d, rfl⟩ := Nat.exists_eq_add_of_le hle
    rw [((tracks_meaning hthis hscope q expected).ends hn h).2] at h'
    cases h'
    exact (Renderer.query_raising hr e).symm
  · obtain ⟨d, rfl⟩ := Nat.exists_eq_add_of_le hle
    rw [((tracks_meaning hthis hscope q expected).ends hn' h').2] at h
    cases h
    exact Renderer.query_raising hr e'

end Query
end TypedQuery
