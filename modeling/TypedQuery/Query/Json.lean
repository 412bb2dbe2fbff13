import TypedQuery.Json.Reading
import TypedQuery.Query.Basic
/-!
Query trees as JSON documents.

A query is an object with one field, named for the form of the query. Literals and symbols
hold their text there; the other forms hold an object of their parts.
-/
namespace TypedQuery

def BinaryOp.jsonName : BinaryOp → String
  | .and => "AndAlso"
  | .or => "OrElse"
  | .add => "Add"
  | .subtract => "Subtract"
  | .multiply => "Multiply"
  | .divide => "Divide"
  | .modulo => "Modulo"
  | .equal => "Equal"
  | .notEqual => "NotEqual"
  | .less => "LessThan"
  | .greater => "GreaterThan"
  | .lessOrEqual => "LessThanOrEqual"
  | .greaterOrEqual => "GreaterThanOrEqual"

namespace Operator

def jsonName : Operator → String
  | .dot => "Dot"
  | .isIn => "In"
  | .value op => op.jsonName

def ofJsonName? (name : String) : Option Operator := all.find? fun op => op.jsonName == name

theorem ofJsonName?_jsonName (op : Operator) : ofJsonName? op.jsonName = some op := by
  cases op with
  | value op => cases op <;> decide
  | _ => decide

/-- An operator is its name, or an object whose one field has that name and holds nothing. -/
def ofJson? : Json → Option Operator
  | .string name => ofJsonName? name
  | .object [(name, .null)] => ofJsonName? name
  | _ => none

end Operator

namespace Query

mutual
def toJson : Query → Json
  | .binary op l r =>
    .object [("Binary", .object
      [("op", .string op.jsonName), ("left", l.toJson), ("right", r.toJson)])]
  | .call name args =>
    .object [("MethodCall", .object [("name", .string name), ("args", .array (toJsons args))])]
  | .indexer name args =>
    .object [("IndexerAccess", .object
      [("name", .string name), ("args", .array (toJsons args))])]
  | .symbol name => .object [("Symbol", .string name)]
  | .lambda params body =>
    .object [("Lambda", .object
      [("params", .array (params.map .string)), ("body", body.toJson)])]
  | .string value => .object [("String", .string value)]
  | .number text => .object [("Number", .string text)]
  | .guid value => .object [("Guid", .string (String.ofList value.text))]
  | .dateTime value => .object [("DateTime", .string (String.ofList value.exchangeText))]
  | .array items => .object [("Array", .array (toJsons items))]

def toJsons : List Query → List Json
  | [] => []
  | q :: qs => q.toJson :: toJsons qs
end

/-! ## Reading

The parts of a query are read field by field. A part that is given twice is an error; fields
that do not belong to the form at hand are passed over. -/

/-- The parts read so far. -/
structure Parts where
  op? : Option Operator
  name? : Option String
  params? : Option (List String)
  args? : Option (List Query)
  left? : Option Query
  right? : Option Query
  body? : Option Query

def Parts.none : Parts :=
  { op? := .none, name? := .none, params? := .none, args? := .none, left? := .none,
    right? := .none, body? := .none }

/-- Fill a part that has not been given yet. -/
def once {α : Type} (old new : Option α) : Option α :=
  match old with
  | .some _ => .none
  | .none => new

mutual
def ofJson? : Json → Option Query
  | .object [(form, content)] =>
    match form with
    | "Symbol" => content.string?.map .symbol
    | "String" => content.string?.map .string
    | "Number" => content.string?.map .number
    | "Guid" => content.string?.bind fun s => (Guid.read? s.toList).map .guid
    | "DateTime" => content.string?.bind fun s => (DateTime.read? s.toList).map .dateTime
    | "Array" =>
      match content with
      | .array items => (ofJsons? items).map .array
      | _ => .none
    | "Binary" =>
      match content with
      | .object fields => do
        let p ← readParts? ["op", "left", "right"] fields .none
        some (.binary (← p.op?) (← p.left?) (← p.right?))
      | _ => .none
    | "MethodCall" =>
      match content with
      | .object fields => do
        let p ← readParts? ["name", "args"] fields .none
        some (.call (← p.name?) (← p.args?))
      | _ => .none
    | "IndexerAccess" =>
      match content with
      | .object fields => do
        let p ← readParts? ["name", "args"] fields .none
        some (.indexer (← p.name?) (← p.args?))
      | _ => .none
    | "Lambda" =>
      match content with
      | .object fields => do
        let p ← readParts? ["params", "body"] fields .none
        some (.lambda (← p.params?) (← p.body?))
      | _ => .none
    | _ => .none
  | _ => .none

def ofJsons? : List Json → Option (List Query)
  | [] => some []
  | v :: vs => do
    let q ← ofJson? v
    let qs ← ofJsons? vs
    some (q :: qs)

/-- Go through the fields and read those with a wanted name into the parts. -/
def readParts? (wanted : List String) : List (String × Json) → Parts → Option Parts
  | [], p => some p
  | (name, v) :: fields, p =>
    if !wanted.contains name then readParts? wanted fields p
    else
      match name with
      | "op" => do
        let op ← once p.op? (Operator.ofJson? v)
        readParts? wanted fields { p with op? := some op }
      | "name" => do
        let s ← once p.name? v.string?
        readParts? wanted fields { p with name? := some s }
      | "params" => do
        let params ← once p.params? v.strings?
        readParts? wanted fields { p with params? := some params }
      | "args" => do
        let args ← once p.args? (match v with
          | .array items => ofJsons? items
          | _ => .none)
        readParts? wanted fields { p with args? := some args }
      | "left" => do
        let q ← once p.left? (ofJson? v)
        readParts? wanted fields { p with left? := some q }
      | "right" => do
        let q ← once p.right? (ofJson? v)
        readParts? wanted fields { p with right? := some q }
      | "body" => do
        let q ← once p.body? (ofJson? v)
        readParts? wanted fields { p with body? := some q }
      | _ => .none
end

end Query
end TypedQuery
