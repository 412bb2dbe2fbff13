import TypedQuery.Proofs.ElaborationSound
/-!
Compilations that are related part by part.

Two compilations that put their steps together in the same way are related if their steps are,
for every relation that composition respects. One relation says that both end with the same
graph, or fail for reasons of one kind; another says that the second one ends with whatever the
first one ends with. So what changes in a query or in the registry is followed through operands,
attempts and calls once for both of them.
-/
namespace TypedQuery

/-- Two parts that end alike up to the errors are followed by parts that do. -/
theorem mapError_bind {ε κ α β : Type} {g : ε → κ} {x x' : Except ε α} {f f' : α → Except ε β}
    (hx : x'.mapError g = x.mapError g) (hf : ∀ a, (f' a).mapError g = (f a).mapError g) :
    (x' >>= f').mapError g = (x >>= f).mapError g := by
  cases x with
  | error e =>
    cases x' with
    | error e' => exact congrArg Except.error (Except.error.inj hx)
    | ok => cases hx
  | ok a =>
    cases x' with
    | error => cases hx
    | ok a' =>
      cases hx
      exact hf a

namespace Compiler

variable {α β : Type}

/-- A relation of steps that holds of a step and itself and of failures of one kind, and that
steps put together inherit from their parts. -/
structure Congruence (R : {α : Type} → Compiler α → Compiler α → Prop) : Prop where
  refl : ∀ {α : Type} (x : Compiler α), R x x
  throw : ∀ {α : Type} {e e' : CompileError}, e.kind = e'.kind →
    R (throw e : Compiler α) (throw e')
  bind : ∀ {α β : Type} {x x' : Compiler α} {f f' : α → Compiler β}, R x x' →
    (∀ a, R (f a) (f' a)) → R (x >>= f) (x' >>= f')

/-- Both steps end alike from every number: with the same result and the same next number, or
with errors of one kind. -/
def SameOutcome (x x' : Compiler α) : Prop :=
  ∀ n, (x' n).mapError CompileError.kind = (x n).mapError CompileError.kind

theorem congruence_sameOutcome : Congruence SameOutcome where
  refl _ _ := rfl
  throw h _ := congrArg Except.error h.symm
  bind hx hf n := mapError_bind (hx n) fun v => hf v.1 v.2

/-- The second step ends with whatever the first one ends with. Where the first one fails,
nothing is said. -/
def Refines (x x' : Compiler α) : Prop := ∀ n v, x n = .ok v → x' n = .ok v

theorem congruence_refines : Congruence Refines where
  refl _ _ _ h := h
  throw _ _ _ h := absurd h throw_ne_ok
  bind hx hf n v h := by
    obtain ⟨a, k, ha, hv⟩ := bind_eq_ok.mp h
    exact bind_eq_ok.mpr ⟨a, k, hx n _ ha, hf a k v hv⟩

theorem Congruence.liftM {R : {α : Type} → Compiler α → Compiler α → Prop} (hR : Congruence R)
    {x x' : Except CompileError α}
    (h : x'.mapError CompileError.kind = x.mapError CompileError.kind) :
    R (liftM x : Compiler α) (liftM x') := by
  cases x with
  | ok a =>
    cases x' with
    | ok a' => cases h; exact hR.refl _
    | error => cases h
  | error e =>
    cases x' with
    | ok => cases h
    | error e' => exact hR.throw (Except.error.inj h).symm

end Compiler

open Compiler

namespace Setting

variable {s : Setting} {r : Registry} {scope : List Param}

/-- The setting with other functions in it. -/
def withRegistry (s : Setting) (r : Registry) : Setting := { s with registry := r }

@[simp]
theorem hierarchy_withRegistry : (s.withRegistry r).hierarchy = s.hierarchy := rfl

section Steps

variable {R : {α : Type} → Compiler α → Compiler α → Prop} (hR : Congruence R)
  {pairs : List (Operand × Operand)}

/-- The operands of each pair name the same type and have related meanings. -/
def OperandsRelated (R : {α : Type} → Compiler α → Compiler α → Prop)
    (pairs : List (Operand × Operand)) : Prop :=
  ∀ p ∈ pairs, p.1.typeName? = p.2.typeName? ∧
    ∀ scope expected, R (p.1.meaning scope none expected) (p.2.meaning scope none expected)

include hR

/-! ## Calls -/

theorem related_matchArgs (hpairs : OperandsRelated R pairs) (signature : List Ty)
    (b : Bindings) :
    R (s.matchArgs scope (pairs.map Prod.fst) signature b)
      ((s.withRegistry r).matchArgs scope (pairs.map Prod.snd) signature b) := by
  induction pairs generalizing signature b with
  | nil => cases signature <;> exact hR.refl _
  | cons p pairs ih =>
    cases signature with
    | nil => exact hR.refl _
    | cons wanted signature =>
      obtain ⟨hp, hpairs⟩ := List.forall_mem_cons.mp hpairs
      refine hR.bind (hp.2 scope _) fun e => ?_
      simp only [hierarchy_withRegistry]
      split
      · exact hR.refl _
      · exact hR.bind (ih hpairs signature _) fun _ => hR.refl _

theorem related_complete (hpairs : OperandsRelated R pairs) (member : Member) :
    R (s.complete member (pairs.map Prod.fst) scope)
      ((s.withRegistry r).complete member (pairs.map Prod.snd) scope) :=
  hR.bind (related_matchArgs hR hpairs _ _) fun _ => hR.refl _

theorem related_attemptOn (hpairs : OperandsRelated R pairs) (member : Member)
    {first first' : Operand}
    (hfirst : ∀ scope expected, R (first.meaning scope none expected)
      (first'.meaning scope none expected)) :
    R (s.attemptOn member first (pairs.map Prod.fst) scope)
      ((s.withRegistry r).attemptOn member first' (pairs.map Prod.snd) scope) := by
  refine hR.bind (hfirst scope _) fun receiver => ?_
  simp only [hierarchy_withRegistry]
  split
  · exact hR.refl _
  · split
    · exact hR.refl _
    · exact hR.bind (related_complete hR hpairs _) fun _ => hR.refl _

theorem related_attempt (hpairs : OperandsRelated R pairs) (mapping : Mapping) :
    R (s.attempt mapping (pairs.map Prod.fst) scope)
      ((s.withRegistry r).attempt mapping (pairs.map Prod.snd) scope) := by
  unfold attempt
  rw [Mapping.reorder?_map, Mapping.reorder?_map]
  cases hr : mapping.reorder? pairs with
  | none => exact hR.refl _
  | some native =>
    have hnative : OperandsRelated R native :=
      fun p hp => hpairs p (Mapping.mem_of_reorder? hr hp)
    dsimp only [Option.map_some]
    split
    · cases native with
      | nil => exact hR.refl _
      | cons p native =>
        obtain ⟨hp, hnative⟩ := List.forall_mem_cons.mp hnative
        exact related_attemptOn hR hnative _ hp.2
    · exact hR.bind (related_complete hR hnative _) fun _ => hR.refl _

theorem related_firstFit (hpairs : OperandsRelated R pairs) (mappings : List Mapping) :
    R (s.firstFit (pairs.map Prod.fst) scope mappings)
      ((s.withRegistry r).firstFit (pairs.map Prod.snd) scope mappings) := by
  induction mappings with
  | nil => exact hR.refl _
  | cons mapping mappings ih =>
    refine hR.bind (related_attempt hR hpairs mapping) fun found => ?_
    cases found with
    | none => exact ih
    | some e => exact hR.refl _

omit hR in
/-- Where a type is wanted and an operand names none, the error tells of its form, but it is of
one kind for all forms. -/
theorem mapError_applyType (op : TypeOperator) (e : Expr) {type type' : Operand}
    (h : type.typeName? = type'.typeName?) :
    ((s.withRegistry r).applyType op e type').mapError CompileError.kind =
      (s.applyType op e type).mapError CompileError.kind := by
  have hnamed : ((s.withRegistry r).typeNamed op type').mapError CompileError.kind =
      (s.typeNamed op type).mapError CompileError.kind := by
    unfold typeNamed
    rw [h]
    cases type'.typeName? <;> rfl
  exact mapError_bind hnamed fun _ => rfl

theorem related_typeCall (hpairs : OperandsRelated R pairs) (op : TypeOperator) :
    R (s.typeCall op (pairs.map Prod.fst) scope)
      ((s.withRegistry r).typeCall op (pairs.map Prod.snd) scope) := by
  rcases pairs with _ | ⟨first, _ | ⟨second, _ | ⟨_, _⟩⟩⟩
  · exact hR.throw rfl
  · exact hR.liftM (mapError_applyType op _ (hpairs first (by simp)).1)
  · refine hR.bind ((hpairs first (by simp)).2 scope none) fun e => ?_
    exact hR.liftM (mapError_applyType op e (hpairs second (by simp)).1)
  · simp only [List.map_cons, typeCall]
    exact hR.throw rfl

/-- Calls are related if the same functions may be meant. -/
theorem related_call (hpairs : OperandsRelated R pairs) (name : String)
    (hr : r.candidates name pairs.length = s.registry.candidates name pairs.length) :
    R (s.call name (pairs.map Prod.fst) scope)
      ((s.withRegistry r).call name (pairs.map Prod.snd) scope) := by
  unfold call
  split
  · exact related_typeCall hR hpairs _
  · rw [List.length_map, List.length_map]
    change R (s.firstFit _ scope (s.registry.candidates name pairs.length) >>= _)
      ((s.withRegistry r).firstFit _ scope (r.candidates name pairs.length) >>= _)
    rw [hr]
    refine hR.bind (related_firstFit hR hpairs _) fun found => ?_
    cases found with
    | none => exact hR.throw rfl
    | some e => exact hR.refl _

/-! ## The other constructs -/

theorem related_indexer (hpairs : OperandsRelated R pairs) (name : String) (scope : List Param)
    (receiver : Option Expr) :
    R (s.indexer name (pairs.map Prod.fst) scope receiver)
      ((s.withRegistry r).indexer name (pairs.map Prod.snd) scope receiver) := by
  refine hR.bind (hR.refl _) fun dictionary => ?_
  simp only [hierarchy_withRegistry]
  split
  · rcases pairs with _ | ⟨key, _ | ⟨_, _⟩⟩
    · exact hR.throw rfl
    · exact hR.bind ((hpairs key (by simp)).2 scope _) fun _ => hR.refl _
    · exact hR.throw rfl
  · exact hR.throw rfl

theorem related_lambda {body body' : Meaning} (names : List String)
    (hbody : ∀ scope expected, R (body scope none expected) (body' scope none expected)) :
    ∀ t : Ty, R (lambda names body scope t) (lambda names body' scope t)
  | .quoted inner => hR.bind (related_lambda names hbody inner) fun _ => hR.refl _
  | .function types result => by
    unfold lambda
    split
    · exact hR.refl _
    · split
      · exact hR.refl _
      · exact hR.bind (hR.refl _) fun params => hR.bind (hbody _ _) fun _ => hR.refl _
  | .primitive _ | .enum _ | .entity _ | .array _ | .applied .. | .placeholder _ | .wildcard =>
    hR.refl _

theorem related_items (hpairs : OperandsRelated R pairs) (scope : List Param)
    (element : Option Ty) :
    R ((pairs.map Prod.fst).mapM fun item : Operand => item.meaning scope none element)
      ((pairs.map Prod.snd).mapM fun item : Operand => item.meaning scope none element) := by
  induction pairs with
  | nil => exact hR.refl _
  | cons p pairs ih =>
    obtain ⟨hp, hpairs⟩ := List.forall_mem_cons.mp hpairs
    simp only [List.map_cons, List.mapM_cons]
    exact hR.bind (hp.2 scope element) fun e => hR.bind (ih hpairs) fun _ => hR.refl _

theorem related_standalone {kind : Query.Kind} {f f' : List Param → Option Ty → Compiler Expr}
    {receiver : Option Expr} {expected : Option Ty} (h : R (f scope expected) (f' scope expected)) :
    R (standalone kind f scope receiver expected)
      (standalone kind f' scope receiver expected) := by
  cases receiver with
  | none => exact h
  | some _ => exact hR.refl _

end Steps

end Setting
end TypedQuery
