import TypedQuery.Query.Basic
import TypedQuery.Query.Operator
import TypedQuery.Ty.Text
/-!
Why a query does not compile.

Every fault keeps what it is about. Its wording is put together in one place, and so is the
code that stays the same when wordings change.
-/
namespace TypedQuery

/-- The two calls that take the name of a type. -/
inductive TypeOperator where
  | isof | cast
deriving DecidableEq, Repr

namespace TypeOperator

def name : TypeOperator → String
  | .isof => "isof"
  | .cast => "cast"

def ofName? : String → Option TypeOperator
  | "isof" => some .isof
  | "cast" => some .cast
  | _ => none

theorem ofName?_eq_some_iff {s : String} {op : TypeOperator} :
    ofName? s = some op ↔ s = op.name := by
  constructor
  · intro h
    unfold ofName? at h
    split at h <;> first | (cases h; rfl) | cases h
  · rintro rfl
    cases op <;> rfl

end TypeOperator

/-- The constructs with a fixed number of arguments. -/
inductive FixedArity where
  | typeOperator (op : TypeOperator)
  | indexer (name : String)
deriving DecidableEq, Repr

namespace FixedArity

def text : FixedArity → String
  | .typeOperator op => op.name
  | .indexer name => name ++ "[]"

def expected : FixedArity → String
  | .typeOperator _ => "1 or 2"
  | .indexer _ => "1"

end FixedArity

/-- Types that do not go together. -/
inductive TypeConflict where
  | operands (op : BinaryOp) (left right : Ty)
  | notAnEnumCase (name : String) (d : EnumDef)
  | enumCaseOutOfRange (name : String) (d : EnumDef)
  | searchedType (found : Ty)
  | searchedElement (value element : Ty)
  | arrayItem (element found : Ty)
  | dictionaryKey (found : Ty)
  | castOperand (source target : Ty)
  | lambdaForOther (expected : Ty)
  | lambdaForNothing
  | lambdaArity (found expected : Nat)
  | lambdaParams
deriving DecidableEq, Repr

def TypeConflict.message : TypeConflict → String
  | .operands op left right =>
    "`" ++ op.keyword ++ "` cannot be applied to " ++ left.text ++ " and " ++ right.text
  | .notAnEnumCase name d => "`" ++ name ++ "` is not a member of " ++ d.name
  | .enumCaseOutOfRange name d =>
    d.name ++ "." ++ name ++ " does not fit in " ++ (Ty.integral d.underlying).text
  | .searchedType found => "`in` requires an array on the right, found " ++ found.text
  | .searchedElement value element =>
    "`in` tests a " ++ value.text ++ " against an array of " ++ element.text
  | .arrayItem element found =>
    "array of " ++ element.text ++ " cannot hold an element of type " ++ found.text
  | .dictionaryKey found => "dictionary key must be String, found " ++ found.text
  | .castOperand source target => "cannot cast " ++ source.text ++ " to " ++ target.text
  | .lambdaForOther expected => "lambda used where " ++ expected.text ++ " is expected"
  | .lambdaForNothing => "lambda used where no function type is expected"
  | .lambdaArity found expected =>
    "lambda takes " ++ toString found ++ " parameter(s) but " ++ toString expected ++
      " are expected"
  | .lambdaParams => "unable to infer lambda parameter types"

/-- Queries of a form that has no meaning where it stands. -/
inductive Unsupported where
  | afterDot (kind : Query.Kind)
  | callInsidePath (name : String)
  | indexed (name : String) (type : Ty)
  | typeName (op : TypeOperator) (found : Query.Kind)
  | untypedArray
  | numberText (text : String)
deriving DecidableEq, Repr

def Unsupported.message : Unsupported → String
  | .afterDot kind => kind.text ++ " cannot follow `.`"
  | .callInsidePath name => "method `" ++ name ++ "` called on a nested member path"
  | .indexed name type =>
    "indexer on `" ++ name ++ "` of type " ++ type.text ++
      "; only string-keyed dictionaries are indexable"
  | .typeName op found => "`" ++ op.name ++ "` expects a type name, found " ++ found.text
  | .untypedArray => "cannot infer the element type of an empty or all-null array"
  | .numberText text => "malformed number literal `" ++ text ++ "`"

/-- Why a query does not compile. -/
inductive CompileError where
  | unknownFunction (name : String) (arity : Nat)
  | unknownSymbol (name : String) (receiver : Ty)
  | unknownType (name : String)
  | argumentCount (construct : FixedArity) (found : Nat)
  | typeMismatch (conflict : TypeConflict)
  | unsupported (construct : Unsupported)
deriving DecidableEq, Repr

/-- The sorts of errors. -/
inductive ErrorKind where
  | unknownFunction | unknownSymbol | unknownType | argumentCountMismatch | typeMismatch
  | unsupportedConstruct
deriving DecidableEq, Repr

/-- A code that programs can rely on. -/
def ErrorKind.code : ErrorKind → String
  | .unknownFunction => "E2001"
  | .unknownSymbol => "E2002"
  | .unknownType => "E2003"
  | .argumentCountMismatch => "E2004"
  | .typeMismatch => "E2005"
  | .unsupportedConstruct => "E2006"

theorem ErrorKind.code_injective {a b : ErrorKind} (h : a.code = b.code) : a = b := by
  cases a <;> cases b <;> first | rfl | (revert h; decide)

namespace CompileError

def kind : CompileError → ErrorKind
  | .unknownFunction .. => .unknownFunction
  | .unknownSymbol .. => .unknownSymbol
  | .unknownType _ => .unknownType
  | .argumentCount .. => .argumentCountMismatch
  | .typeMismatch _ => .typeMismatch
  | .unsupported _ => .unsupportedConstruct

def code (e : CompileError) : String := e.kind.code

def message : CompileError → String
  | .unknownFunction name arity =>
    "no function `" ++ name ++ "` taking " ++ toString arity ++
      " argument(s) matches the given arguments"
  | .unknownSymbol name receiver => "unknown symbol `" ++ name ++ "` on " ++ receiver.text
  | .unknownType name => "unknown type `" ++ name ++ "`"
  | .argumentCount construct found =>
    "`" ++ construct.text ++ "` takes " ++ construct.expected ++ " argument(s), found " ++
      toString found
  | .typeMismatch conflict => "type mismatch: " ++ conflict.message
  | .unsupported construct => "unsupported: " ++ construct.message

end CompileError
end TypedQuery
