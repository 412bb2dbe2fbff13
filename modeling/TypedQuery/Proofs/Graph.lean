import TypedQuery.Expr.Basic
/-!
The nodes of a graph.

Laws about graphs are laws about each of their nodes. They are proved of a graph from the same
laws of the graphs right below its root.
-/
namespace TypedQuery
namespace Expr

/-- The graphs right below the root. -/
def children : Expr → List Expr
  | .constant _ | .parameter _ => []
  | .property e _ _ | .memberAccess e _ | .convert e _ _ | .typeIs e _ | .quote e
  | .lambda _ e => [e]
  | .call _ es | .newArray _ es => es
  | .callOn e _ es => e :: es
  | .binary _ l r _ => [l, r]

/-- `Within x e` says that `x` is a node of `e`, which may be `e` itself. -/
inductive Within : Expr → Expr → Prop
  | root {x : Expr} : Within x x
  | child {x c e : Expr} : c ∈ e.children → Within x c → Within x e

/-- A law that holds at every node of a graph. -/
def Everywhere (law : Expr → Prop) (e : Expr) : Prop :=
  ∀ x, Within x e → law x

theorem Everywhere.root {law : Expr → Prop} {e : Expr} (h : Everywhere law e) : law e :=
  h e .root

theorem Everywhere.mono {law law' : Expr → Prop} {e : Expr} (h : Everywhere law e)
    (himp : ∀ x, law x → law' x) : Everywhere law' e :=
  fun x hx => himp x (h x hx)

theorem everywhere_iff {law : Expr → Prop} {e : Expr} :
    Everywhere law e ↔ law e ∧ ∀ child ∈ e.children, Everywhere law child := by
  constructor
  · exact fun h => ⟨h.root, fun child hchild x hx => h x (.child hchild hx)⟩
  · rintro ⟨hroot, hchildren⟩ x hx
    cases hx with
    | root => exact hroot
    | child hchild hx => exact hchildren _ hchild x hx

end Expr
end TypedQuery
