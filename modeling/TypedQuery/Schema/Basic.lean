import TypedQuery.Ty.Expression
/-!
Schemas: the declarations of a resource model, as they are written.
-/
namespace TypedQuery

structure EnumDecl where
  name : String
  underlying : Option String
  cases : List (String × Int)
deriving DecidableEq, Repr

/-- An entity. Properties map names to type expressions, in the order of the names. -/
structure EntityDecl where
  name : String
  base : Option String
  properties : List (String × String)
deriving DecidableEq, Repr

structure Schema where
  enums : List EnumDecl
  entities : List EntityDecl
deriving DecidableEq, Repr

/-- Why a schema is not accepted. -/
inductive SchemaError where
  | duplicateName (name : String)
  | invalidUnderlying (name underlying : String)
  | unknownBase (entity base : String)
  | inheritanceCycle (entity : String)
  | property (entity name expression : String) (fault : TypeExpression.Fault)
deriving DecidableEq, Repr

def TypeExpression.Fault.message (expression : String) : TypeExpression.Fault → String
  | .unknownName name => "unknown type `" ++ name ++ "`"
  | .malformed fault => "malformed type expression `" ++ expression ++ "`: " ++ fault.text

def SchemaError.message : SchemaError → String
  | .duplicateName name => "`" ++ name ++ "` is declared more than once"
  | .invalidUnderlying name underlying =>
    "enum `" ++ name ++ "` has non-integral underlying type `" ++ underlying ++ "`"
  | .unknownBase entity base => "entity `" ++ entity ++ "` has unknown base `" ++ base ++ "`"
  | .inheritanceCycle entity => "entity `" ++ entity ++ "` inherits from itself"
  | .property entity name expression fault =>
    "property `" ++ entity ++ "." ++ name ++ "`: " ++ fault.message expression

/-- `table` with the entry of a key set; the keys stay in order. -/
def EntityDecl.setProperty (name expression : String) :
    List (String × String) → List (String × String)
  | [] => [(name, expression)]
  | (n, e) :: rest =>
    if name < n then (name, expression) :: (n, e) :: rest
    else if name = n then (name, expression) :: rest
    else (n, e) :: setProperty name expression rest

end TypedQuery
