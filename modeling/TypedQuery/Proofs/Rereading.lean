import TypedQuery.Proofs.Enumerations
import TypedQuery.Proofs.Expectations
import TypedQuery.Proofs.Literals
/-!
Queries that stand for graphs, and what they are read as.

A graph is written with bare names for the properties of the implicit receiver, so a name must
not stand for anything else as well. Apart from that a query is read where the one before it was
read: in the same scope, with the same numbers free, and for the same type.
-/
namespace TypedQuery

/-- No two names differ in the case of letters only. -/
def EnumDef.Distinct (d : EnumDef) : Prop :=
  d.cases.Pairwise fun c c' => sameName c.1 c'.1 = false

namespace Setting

/-- The renderer of graphs that were compiled in a setting. -/
def renderer (s : Setting) (style : RenderStyle) : Renderer where
  registry := s.registry
  style := style
  receiver? := some s.this.id

/-- Names of properties, functions and cases say what they stand for. -/
structure Readable (s : Setting) : Prop where
  unambiguous : s.registry.Unambiguous
  enumFree : s.registry.EnumFree
  native : s.model.IsNative
  native_this : s.this.type.Native s.model.enums
  distinct : ∀ d ∈ s.model.enums, d.Distinct
  keywords : ∀ name e, s.keyword? name = some e → s.model.property? s.this.type name = none

/-- The parameters in scope are told apart from the implicit receiver and its properties, and
from those that are numbered from `n` on. -/
structure Hygienic (s : Setting) (scope : List Param) (n : Nat) : Prop where
  this_lt : s.this.id < n
  scope_lt : ∀ p ∈ scope, p.id < n
  ne_this : ∀ p ∈ scope, p.id ≠ s.this.id
  unshadowed : ∀ p ∈ scope, s.model.property? s.this.type p.name = none

theorem Hygienic.mono {s : Setting} {scope : List Param} {n m : Nat} (h : s.Hygienic scope n)
    (hle : n ≤ m) : s.Hygienic scope m where
  this_lt := Nat.lt_of_lt_of_le h.this_lt hle
  scope_lt p hp := Nat.lt_of_lt_of_le (h.scope_lt p hp) hle
  ne_this := h.ne_this
  unshadowed := h.unshadowed

end Setting

/-- The query that stands for `e` is read as `e` again, with the numbers from `n` up to `m`. -/
def Expr.Rereads (s : Setting) (style : RenderStyle) (scope : List Param) (expected : Option Ty)
    (e : Expr) (n m : Nat) : Prop :=
  ∀ q, (s.renderer style).query e = .ok q → q.meaning s scope none expected n = .ok (e.settle, m)

/-- The implicit receiver is written as `this`, so it is what it is read as. -/
theorem Expr.Rereads.eq_this {s : Setting} {style : RenderStyle} {scope : List Param}
    {expected : Option Ty} {e : Expr} {n m : Nat} (h : e.Rereads s style scope expected n m)
    (hthis : (s.renderer style).isReceiver e = true) :
    e.settle = .parameter s.this ∧ m = n := by
  obtain ⟨p, rfl⟩ : ∃ p, e = .parameter p := by
    cases e with
    | parameter p => exact ⟨p, rfl⟩
    | _ => cases hthis
  have hread := h (.symbol "this") (by rw [Renderer.query, if_pos hthis])
  simp only [Query.meaning, Compiler.liftM_eq_ok] at hread
  exact ⟨(Except.ok.inj hread.1).symm, hread.2.symm⟩

namespace Query

mutual
/-- The names of all parameters of lambdas. -/
def lambdaNames : Query → List String
  | .binary _ left right => left.lambdaNames ++ right.lambdaNames
  | .call _ args | .indexer _ args => lambdaNamesOf args
  | .lambda params body => params ++ body.lambdaNames
  | .array items => lambdaNamesOf items
  | _ => []

def lambdaNamesOf : List Query → List String
  | [] => []
  | q :: qs => q.lambdaNames ++ lambdaNamesOf qs
end

/-- What stands before a dot is read with the numbers from `n₀` up to `n`. -/
inductive Anchored (s : Setting) (style : RenderStyle) (scope : List Param) :
    Option Expr → Nat → Nat → Prop
  | none {n : Nat} : Anchored s style scope none n n
  | some {base : Expr} {n₀ n : Nat} : n₀ ≤ n → base.Rereads s style scope none n₀ n →
    Anchored s style scope (some base) n₀ n

theorem Anchored.le {s : Setting} {style : RenderStyle} {scope : List Param}
    {receiver : Option Expr} {n₀ n : Nat} (h : Anchored s style scope receiver n₀ n) : n₀ ≤ n := by
  cases h with
  | none => exact Nat.le_refl _
  | some hle _ => exact hle

/-- Whatever the query compiles to is read again from the query it is written as. -/
def Recompiles (s : Setting) (style : RenderStyle) (q : Query) : Prop :=
  ∀ ⦃scope : List Param⦄ ⦃receiver : Option Expr⦄ ⦃expected : Option Ty⦄ ⦃n₀ n m : Nat⦄
    ⦃e : Expr⦄, s.Hygienic scope n₀ → NativeContext s scope receiver expected →
    Anchored s style scope receiver n₀ n → (∀ t ∈ expected, t.Meets e.type) →
    q.meaning s scope receiver expected n = .ok (e, m) →
    e.Rereads s style scope expected n₀ m

end Query
end TypedQuery
