import TypedQuery.Compile.Operands
import TypedQuery.Member.Matching
import TypedQuery.Registry.Basic
import TypedQuery.Schema.Model
/-!
Compiling the constructs of a query, each from the compilations of its parts.

A part is seen through what it compiles to and never through the query it came from. That is
what lets a call reorder its arguments, and compile the same one again for every function it
may mean.

Compilation numbers the parameters of lambdas. The next free number is the only state, and it
is not reset when a function turns out not to fit. The numbers become ids of 32 bits when the graph
of a whole query is complete.
-/
namespace TypedQuery

/-- A step of compilation: it may fail, and it may take numbers for parameters. -/
abbrev Compiler (α : Type) := StateT Nat (Except CompileError) α

/-- What a query compiles to: in a scope, where a member of some receiver may be named, and
where some type may be expected. Without a receiver, names are looked up in the scope first
and then on the implicit receiver. -/
abbrev Meaning :=
  (scope : List Param) → (receiver : Option Expr) → (expected : Option Ty) → Compiler Expr

/-- What a call can see of an argument. -/
structure Operand where
  kind : Query.Kind
  /-- The type that the argument names, where a type is wanted. -/
  typeName? : Option String
  meaning : Meaning

/-- What a query is compiled against: the functions, the resource model, and the parameter
that names belong to when nothing else is said. -/
structure Setting where
  registry : Registry
  model : Model
  this : Param

namespace Setting

variable (s : Setting)

def hierarchy : Hierarchy := s.model.hierarchy

/-- A query that is no member, so that it cannot follow a dot. -/
def standalone (kind : Query.Kind) (meaning : List Param → Option Ty → Compiler Expr) :
    Meaning := fun scope receiver expected =>
  match receiver with
  | some _ => throw (.unsupported (.afterDot kind))
  | none => meaning scope expected

/-! ## Names -/

/-- A property of a receiver. -/
def property (receiver : Expr) (name : String) : Except CompileError Expr :=
  match s.model.property? receiver.type name with
  | some t => .ok (.property receiver name t)
  | none => .error (.unknownSymbol name receiver.type)

/-- The names that nothing can be declared under. -/
def keyword? (name : String) : Option Expr :=
  match name with
  | "this" => some (.parameter s.this)
  | "true" => some (.constant (.bool true))
  | "false" => some (.constant (.bool false))
  | "null" => some (.constant .null)
  | _ => none

/-- A name. The innermost parameter of that name hides the others and the properties of the
implicit receiver; behind a dot only properties are meant. -/
def symbol (name : String) (scope : List Param) (receiver : Option Expr) :
    Except CompileError Expr :=
  match receiver with
  | some receiver => s.property receiver name
  | none =>
    match s.keyword? name with
    | some e => .ok e
    | none =>
      match scope.find? fun p => p.name == name with
      | some p => .ok (.parameter p)
      | none => s.property (.parameter s.this) name

/-- `name[key]`, on a property that is a dictionary with texts for keys. -/
def indexer (name : String) (args : List Operand) (scope : List Param)
    (receiver : Option Expr) : Compiler Expr := do
  let dictionary ← s.property (receiver.getD (.parameter s.this)) name
  match s.hierarchy.instance? .dictionary dictionary.type with
  | some [.string, value] =>
    match args with
    | [arg] => do
      let key ← arg.meaning scope none (some .string)
      if key.type = .string then
        return .callOn dictionary
          (.instantiate Catalogue.dictionaryGet [.string, value] []) [key]
      else throw (.typeMismatch (.dictionaryKey key.type))
    | _ => throw (.argumentCount (.indexer name) args.length)
  | _ => throw (.unsupported (.indexed name dictionary.type))

/-! ## Lambdas -/

/-- Parameters with these names and types, numbered from `next` on. -/
def paramsFrom (next : Nat) : List String → List Ty → List Param
  | name :: names, t :: ts => { id := next, name := name, type := t } ::
      paramsFrom (next + 1) names ts
  | _, _ => []

/-- Parameters with numbers of their own. -/
def freshParams (names : List String) (types : List Ty) : Compiler (List Param) := fun next =>
  let params := paramsFrom next names types
  .ok (params, next + params.length)

/-- An expected type, as long as all of it is known. -/
def known (t : Ty) : Option Ty := if t.hasPlaceholder then none else some t

/-- A lambda where some type is expected, which says what its parameters are. -/
def lambda (names : List String) (body : Meaning) (scope : List Param) :
    (expected : Ty) → Compiler Expr
  | .quoted inner => do return .quote (← lambda names body scope inner)
  | .function types result =>
    if types.length ≠ names.length then
      throw (.typeMismatch (.lambdaArity names.length types.length))
    else if types.any Ty.hasPlaceholder then throw (.typeMismatch .lambdaParams)
    else do
      let params ← freshParams names types
      return .lambda params (← body (params ++ scope) none (known result))
  | t => throw (.typeMismatch (.lambdaForOther t))

/-! ## Calls -/

/-- The type that an argument names. -/
def typeNamed (op : TypeOperator) (arg : Operand) : Except CompileError Ty :=
  match arg.typeName? with
  | none => .error (.unsupported (.typeName op arg.kind))
  | some name =>
    match s.model.resolveType? name with
    | some t => .ok t
    | none => .error (.unknownType name)

/-- A type operator on a compiled operand. -/
def applyType (op : TypeOperator) (operand : Expr) (arg : Operand) :
    Except CompileError Expr := do
  let target ← s.typeNamed op arg
  match op with
  | .isof => .ok (.typeIs operand target)
  | .cast =>
    if target.castsFrom s.hierarchy operand.type then .ok (.convert operand target true)
    else .error (.typeMismatch (.castOperand operand.type target))

/-- `isof` and `cast`. With one argument they are about the implicit receiver. -/
def typeCall (op : TypeOperator) (args : List Operand) (scope : List Param) : Compiler Expr :=
  match args with
  | [type] => s.applyType op (.parameter s.this) type
  | [operand, type] => do
    let operand ← operand.meaning scope none none
    s.applyType op operand type
  | _ => throw (.argumentCount (.typeOperator op) args.length)

/-- Compile arguments one after the other for the types of a signature. What an argument
binds is known to those behind it. There is no result if one of them does not fit. -/
def matchArgs (scope : List Param) :
    List Operand → List Ty → Bindings → Compiler (Option (List Expr × Bindings))
  | arg :: args, wanted :: signature, b => do
    let e ← arg.meaning scope none (some (b.resolve wanted))
    let outcome := b.infer s.hierarchy wanted e.type
    match outcome.error? with
    | some _ => return none
    | none =>
      let rest ← matchArgs scope args signature outcome.bindings
      return rest.map fun (es, b) => (e :: es, b)
  | _, _, b => return some ([], b)

/-- The arguments of a call of `member`, and the member with all of its type arguments. There
is no result if an argument does not fit or a type argument stays open. -/
def complete (member : Member) (args : List Operand) (scope : List Param) :
    Compiler (Option (Member × List Expr)) := do
  let matched ← s.matchArgs scope args member.template.params (.ofMember member)
  return matched.bind fun (es, b) =>
    let member := b.instantiate member
    if member.hasOpenDeclaring || member.hasOpenMethod then none else some (member, es)

/-- A use of `member` on a receiver that the first argument is. -/
def attemptOn (member : Member) (first : Operand) (rest : List Operand)
    (scope : List Param) : Compiler (Option Expr) := do
  let receiver ← first.meaning scope none (known member.template.declaring)
  match member.bindDeclaring s.hierarchy receiver.type with
  | .error _ => return none
  | .ok member =>
    if member.kind.isProperty then return some (.memberAccess receiver member)
    else
      let completed ← s.complete member rest scope
      return completed.map fun (member, es) => .callOn receiver member es

/-- Try one function. There is no result if the arguments do not fit its member. -/
def attempt (mapping : Mapping) (args : List Operand) (scope : List Param) :
    Compiler (Option Expr) :=
  match mapping.reorder? args with
  | none => return none
  | some args =>
    if mapping.member.hasReceiver then
      match args with
      | [] => return none
      | first :: rest => s.attemptOn mapping.member first rest scope
    else do
      let completed ← s.complete mapping.member args scope
      return completed.map fun (member, es) => .call member es

/-- The first of some functions that fits. -/
def firstFit (args : List Operand) (scope : List Param) :
    List Mapping → Compiler (Option Expr)
  | [] => return none
  | mapping :: mappings => do
    match ← s.attempt mapping args scope with
    | some e => return some e
    | none => firstFit args scope mappings

/-- `name(args)`. -/
def call (name : String) (args : List Operand) (scope : List Param) : Compiler Expr :=
  match TypeOperator.ofName? name with
  | some op => s.typeCall op args scope
  | none => do
    match ← s.firstFit args scope (s.registry.candidates name args.length) with
    | some e => return e
    | none => throw (.unknownFunction name args.length)

end Setting
end TypedQuery
