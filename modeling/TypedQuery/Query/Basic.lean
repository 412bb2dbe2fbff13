import TypedQuery.DateTime
import TypedQuery.Guid
import TypedQuery.Query.Operator
/-!
Query trees: what a query says, before any of its names is looked up.
-/
namespace TypedQuery

/-- A query. Numbers are kept as they are written, with the suffix that may fix their type. -/
inductive Query where
  | binary (op : Operator) (left right : Query)
  | call (name : String) (args : List Query)
  | indexer (name : String) (args : List Query)
  | symbol (name : String)
  | lambda (params : List String) (body : Query)
  | string (value : String)
  | number (text : String)
  | guid (value : Guid)
  | dateTime (value : DateTime)
  | array (items : List Query)
deriving Repr

/-- What a query is at its root. -/
inductive Query.Kind where
  | binaryOperator | methodCall | indexerAccess | symbol | lambda
  | stringLiteral | numberLiteral | guidLiteral | dateTimeLiteral | arrayLiteral
deriving DecidableEq, Repr

def Query.Kind.text : Query.Kind → String
  | .binaryOperator => "binary operator"
  | .methodCall => "method call"
  | .indexerAccess => "indexer access"
  | .symbol => "symbol"
  | .lambda => "lambda"
  | .stringLiteral => "string literal"
  | .numberLiteral => "number literal"
  | .guidLiteral => "guid literal"
  | .dateTimeLiteral => "datetime literal"
  | .arrayLiteral => "array literal"

namespace Query

def kind : Query → Kind
  | .binary .. => .binaryOperator
  | .call .. => .methodCall
  | .indexer .. => .indexerAccess
  | .symbol _ => .symbol
  | .lambda .. => .lambda
  | .string _ => .stringLiteral
  | .number _ => .numberLiteral
  | .guid _ => .guidLiteral
  | .dateTime _ => .dateTimeLiteral
  | .array _ => .arrayLiteral

/-- `left.right`. -/
def dot (left right : Query) : Query := .binary .dot left right

/-- The symbols of a path joined by dots from the left. There is no path without symbols. -/
def path? : List String → Option Query
  | [] => none
  | first :: rest => some (rest.foldl (fun left name => dot left (.symbol name)) (.symbol first))

end Query
end TypedQuery
