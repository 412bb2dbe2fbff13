import TypedQuery.Compile.Error
import TypedQuery.Expr.Basic
import TypedQuery.Member.Catalogue
import TypedQuery.Ty.Assignability
/-!
Nodes over operands that have been compiled already.

Operators bring both operands to one type, and an enumeration is compared with the name of
one of its cases. None of this looks at the queries the operands come from.
-/
namespace TypedQuery
namespace Expr

/-- The conflict of an operator with the types of its operands. -/
def conflict (op : BinaryOp) (left right : Expr) : CompileError :=
  .typeMismatch (.operands op left.type right.type)

/-- `e` as a `target`: a constant is converted in place where nothing is lost, anything else
gets a conversion around it. -/
def coerce (e : Expr) (target : Ty) : Expr :=
  if e.type = target then e
  else
    match e.constant?.bind (Value.convert? target) with
    | some v => .constant v
    | none => .convert e target false

/-- The integral constant that stands for the case of an enumeration called `name`. -/
def caseConstant (d : EnumDef) (name : String) : Except CompileError Expr :=
  match d.valueOf? name with
  | none => .error (.typeMismatch (.notAnEnumCase name d))
  | some n =>
    match Value.ofInt? d.underlying n with
    | none => .error (.typeMismatch (.enumCaseOutOfRange name d))
    | some v => .ok (.constant v)

/-- The enumeration that a comparison is about and the name it is compared with, if `side` is
of an enumeration and `other` is a text. -/
def enumComparison? (side other : Expr) : Option (EnumDef × String) :=
  match side.type.enum?, other.constant?.bind Value.string? with
  | some d, some name => some (d, name)
  | _, _ => none

/-- The operands of an equality, where an enumeration may meet the name of a case: that side
is converted to the underlying type, and the name becomes a number. -/
def compareByNumber (left right : Expr) : Except CompileError (Expr × Expr) :=
  match enumComparison? left right with
  | some (d, name) => do
    let constant ← caseConstant d name
    .ok (.convert left (.integral d.underlying) false, constant)
  | none =>
    match enumComparison? right left with
    | some (d, name) => do
      let constant ← caseConstant d name
      .ok (constant, .convert right (.integral d.underlying) false)
    | none => .ok (left, right)

/-- Both operands in the type they promote to. -/
def promoted? (left right : Expr) : Option (Ty × Expr × Expr) :=
  (Ty.promote? left.type right.type).map fun t => (t, left.coerce t, right.coerce t)

/-- The operands of an equality in a common type, or as they are if one of them may stand for
the other. -/
def equated (h : Hierarchy) (op : BinaryOp) (left right : Expr) :
    Except CompileError (Expr × Expr) :=
  if left.type = right.type then .ok (left, right)
  else
    match promoted? left right with
    | some (_, left, right) => .ok (left, right)
    | none =>
      if left.type.accepts h right.type || right.type.accepts h left.type then .ok (left, right)
      else .error (conflict op left right)

/-- The operands of a comparison by size. -/
def ordered (op : BinaryOp) (left right : Expr) : Except CompileError (Expr × Expr) :=
  match promoted? left right with
  | some (_, left, right) => .ok (left, right)
  | none =>
    if left.type = right.type && left.type.isOrdered then .ok (left, right)
    else .error (conflict op left right)

/-- `left op right`. -/
def combine (h : Hierarchy) (op : BinaryOp) (left right : Expr) : Except CompileError Expr :=
  if op.isLogical then
    if left.type = .bool && right.type = .bool then .ok (.binary op left right .bool)
    else .error (conflict op left right)
  else if op.isArithmetic then
    match promoted? left right with
    | some (t, left, right) => .ok (.binary op left right t)
    | none => .error (conflict op left right)
  else if op.isEquality then do
    let (left, right) ← compareByNumber left right
    let (left, right) ← equated h op left right
    .ok (.binary op left right .bool)
  else do
    let (left, right) ← ordered op left right
    .ok (.binary op left right .bool)

/-- `value in array`. The elements have to be of exactly the type of the value. -/
def search (value array : Expr) : Except CompileError Expr :=
  match array.type with
  | .array element =>
    if element = value.type then
      .ok (.call (.instantiate Catalogue.enumerableContains [] [value.type]) [array, value])
    else .error (.typeMismatch (.searchedElement value.type element))
  | t => .error (.typeMismatch (.searchedType t))

/-- Whether a value of type `found` may stand in an array of `element`. -/
def fitsArray (element found : Ty) : Bool :=
  found = element || (found = .null && element.isReference)

/-- The element type of an array: the one expected, or else that of the first item that is
not `null`. -/
def elementType? (expected : Option Ty) (items : List Expr) : Option Ty :=
  expected.orElse fun _ => (items.map type).find? fun t => t ≠ .null

/-- An array of items. If all of them are constants it is a constant itself. -/
def arrayOf (expected : Option Ty) (items : List Expr) : Except CompileError Expr :=
  match elementType? expected items with
  | none => .error (.unsupported .untypedArray)
  | some element =>
    match (items.map type).find? fun t => !fitsArray element t with
    | some odd => .error (.typeMismatch (.arrayItem element odd))
    | none =>
      match items.mapM constant? with
      | some values => .ok (.constant (.array element values))
      | none => .ok (.newArray element items)

theorem type_coerce (e : Expr) (target : Ty) (h : ∀ v w, Value.convert? target v = some w →
    w.type = target) : (e.coerce target).type = target := by
  unfold coerce
  split
  · assumption
  · split
    · next v hv =>
      obtain ⟨w, _, hw⟩ := Option.bind_eq_some_iff.mp hv
      exact h w v hw
    · rfl

end Expr
end TypedQuery
