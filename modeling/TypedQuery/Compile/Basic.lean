import TypedQuery.Compile.Literal
import TypedQuery.Compile.Setting
/-!
Compilation of queries into typed graphs.

The meaning of a query is put together from the meanings of its parts, so the recursion is on
the query itself. Compilation ends on every query, and laws about it go by induction on the
query.
-/
namespace TypedQuery
namespace Query

/-- The name of a type, written as a symbol or as a text. -/
def typeName? : Query → Option String
  | .symbol name => some name
  | .string value => some value
  | _ => none

/-- The constant that a number literal is where `expected` is wanted. -/
def numberConstant (text : String) (expected : Option Ty) : Except CompileError Expr :=
  match NumberLiteral.read? text.toList with
  | some literal => .ok (.constant (literal.valueFor expected))
  | none => .error (.unsupported (.numberText text))

/-- The element type that an expected type asks of an array, as long as all of it is known. -/
def expectedElement (expected : Option Ty) : Option Ty :=
  (expected.bind Ty.element?).bind Setting.known

mutual
/-- What a query compiles to. A call behind a dot takes what stands before it as its first
argument. -/
def meaning (s : Setting) : Query → Meaning
  | .symbol name => fun scope receiver _ => s.symbol name scope receiver
  | .indexer name args => fun scope receiver _ => s.indexer name (operands s args) scope receiver
  | .binary .dot left (.call name args) => fun scope receiver _ =>
    match receiver with
    | some _ => throw (.unsupported (.callInsidePath name))
    | none =>
      s.call name (⟨left.kind, left.typeName?, left.meaning s⟩ :: operands s args) scope
  | .binary .dot left right => fun scope receiver _ => do
    let receiver ← left.meaning s scope receiver none
    right.meaning s scope (some receiver) none
  | .binary .isIn left right => Setting.standalone .binaryOperator fun scope _ => do
    let value ← left.meaning s scope none none
    let array ← right.meaning s scope none (some (.array value.type))
    Expr.search value array
  | .binary (.value op) left right => Setting.standalone .binaryOperator fun scope _ => do
    let left ← left.meaning s scope none none
    let right ← right.meaning s scope none none
    Expr.combine s.hierarchy op left right
  | .call name args => Setting.standalone .methodCall fun scope _ =>
    s.call name (operands s args) scope
  | .lambda params body => Setting.standalone .lambda fun scope expected =>
    match expected with
    | some t => Setting.lambda params (body.meaning s) scope t
    | none => throw (.typeMismatch .lambdaForNothing)
  | .array items => Setting.standalone .arrayLiteral fun scope expected => do
    let element := expectedElement expected
    let items ← (operands s items).mapM fun item => item.meaning scope none element
    Expr.arrayOf element items
  | .string value => Setting.standalone .stringLiteral fun _ _ =>
    return .constant (.string value)
  | .number text => Setting.standalone .numberLiteral fun _ expected =>
    numberConstant text expected
  | .guid value => Setting.standalone .guidLiteral fun _ _ => return .constant (.guid value)
  | .dateTime value => Setting.standalone .dateTimeLiteral fun _ _ =>
    return .constant (.dateTime value)

def operands (s : Setting) : List Query → List Operand
  | [] => []
  | q :: qs => ⟨q.kind, q.typeName?, q.meaning s⟩ :: operands s qs
end

/-! ## Whole queries

The ids of parameters are words of 32 bits, and behind the last word comes 0. Parts of a query are
compiled with numbers in their place, which have no last one: what is bound is numbered from above
all that is given. No part ever looks at the numbers, so it is enough to make them words when a
graph is complete. -/

/-- Behind the last word comes 0. -/
def word (n : Nat) : Nat := n % 4294967296

/-- The least number above those of some parameters. -/
def above (given : List Param) : Nat := given.foldl (fun next p => max next (p.id + 1)) 0

/-- The first id for what is bound next to some parameters: the greatest of the words behind
theirs. -/
def nextId (given : List Param) : Nat := given.foldl (fun next p => max next (word (p.id + 1))) 0

/-- The id that stands for a number. The numbers of the given parameters are their ids, and the
others are counted from `nextId` on. -/
def idOf (given : List Param) (n : Nat) : Nat :=
  if n < above given then n else word (nextId given + (n - above given))

/-- The body of a query compiled into a lambda over `params`, which binds the numbers from `next`
on. Names stand for these parameters, then for those of `outer`, then for properties of `this`,
which may be one of the parameters itself and is then not seen by its name. -/
def bodyFrom (next : Nat) (registry : Registry) (model : Model) (q : Query) (this : Param)
    (params outer : List Param) : Except CompileError Expr := do
  let setting : Setting := { registry := registry, model := model, this := this }
  let scope := params.filter (fun p => p.id ≠ this.id) ++ outer
  let (body, _) ← q.meaning setting scope none none next
  .ok body

/-- Compile a query into a lambda over `params`. -/
def compile (registry : Registry) (model : Model) (q : Query) (this : Param)
    (params outer : List Param) : Except CompileError Expr := do
  let given := this :: params ++ outer
  let body ← bodyFrom (above given) registry model q this params outer
  .ok (.lambda params (body.renumber (idOf given)))

/-- The parameter that a predicate is about. -/
def receiverParam (t : Ty) : Param := { id := 0, name := "_this", type := t }

/-- Compile a query into a lambda over a single receiver. It has number 0, and what is bound is
numbered from 1 on, so up to the last word the numbers are the ids. -/
def compilePredicate (registry : Registry) (model : Model) (t : Ty) (q : Query) :
    Except CompileError Expr := do
  let this := receiverParam t
  let body ← bodyFrom (above [this]) registry model q this [this] []
  .ok (.lambda [this] body)

end Query
end TypedQuery
