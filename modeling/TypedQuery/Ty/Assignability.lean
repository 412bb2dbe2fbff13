import TypedQuery.Ty.Hierarchy
/-!
Where a value of one type may stand for another.

Assignment follows identity and references only: numbers are not widened here. Operators
widen their operands separately, by `Ty.promote?`.
-/
namespace TypedQuery
namespace Ty

/-- Whether a value of type `source` may be used where `target` is expected.

Functions may return a narrower type, and a sequence of references may be one of narrower
references; both look inside `target`, which is what the recursion is on. -/
def accepts (h : Hierarchy) (target source : Ty) : Bool :=
  target == source ||
    match target with
    | .object => true
    | .function ps r =>
      match source with
      | .null => true
      | .function qs s => ps == qs && r.accepts h s
      | _ => false
    | .quoted t =>
      match source with
      | .null => true
      | .quoted s => t.accepts h s
      | _ => false
    | .applied .enumerable (t :: ts) =>
      source == .null || (h.closure source).any fun u =>
        u == .applied .enumerable (t :: ts) ||
          match u with
          | .applied .enumerable (s :: _) => t.isReference && s.isReference && t.accepts h s
          | _ => false
    | .applied c ts => source == .null || (h.closure source).contains (.applied c ts)
    | .entity name => source == .null || (h.closure source).contains (.entity name)
    | t => source == .null && t.isReference
termination_by structural target

theorem accepts_self (h : Hierarchy) (t : Ty) : t.accepts h t = true := by
  unfold accepts
  simp

/-- Numbers and enumerations convert into each other. -/
def isNumberLike (t : Ty) : Bool := t.isNumeric || t.enum?.isSome

/-- Whether a cast can turn a `source` value into a `target` value: between numbers and
enumerations, between characters and whole numbers, and up and down the hierarchy. -/
def castsFrom (h : Hierarchy) (target source : Ty) : Bool :=
  (target.isNumberLike && source.isNumberLike) ||
    (target == .char && source.isIntegral) ||
    (source == .char && target.isIntegral) ||
    target.accepts h source || source.accepts h target

/-- The place of a type in the order `Byte`, `Int16`, `Int32`, `Int64`, `Single`, `Double`,
in which each type widens to all later ones. -/
def wideningRank? : Ty → Option Nat
  | .byte => some 0
  | .int16 => some 1
  | .int32 => some 2
  | .int64 => some 3
  | .single => some 4
  | .double => some 5
  | _ => none

/-- The type in which an operator computes with two numeric operands. Whole numbers widen to
`Decimal` as well, which does not mix with binary floating point. -/
def promote? (left right : Ty) : Option Ty :=
  if left.isNumeric && right.isNumeric then
    if left = right then some left
    else if left = .decimal then (if right.isIntegral then some .decimal else none)
    else if right = .decimal then (if left.isIntegral then some .decimal else none)
    else
      match left.wideningRank?, right.wideningRank? with
      | some l, some r => some (if r ≤ l then left else right)
      | _, _ => none
  else none

end Ty
end TypedQuery
