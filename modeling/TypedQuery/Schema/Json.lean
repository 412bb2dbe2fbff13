import TypedQuery.Json.Reading
import TypedQuery.Schema.Basic
/-!
Schemas as JSON documents.

A list that is absent is empty, and so are the properties. A base or an underlying type may
also be `null`. Fields that belong to no declaration are passed over.
-/
namespace TypedQuery

namespace Json

/-- A text that has to be there. -/
def stringField? (fields : List (String × Json)) (name : String) : Option String := do
  (← uniqueField? fields name) >>= string?

/-- A text that may be absent or `null`. -/
def optionalString? (fields : List (String × Json)) (name : String) :
    Option (Option String) := do
  match ← uniqueField? fields name with
  | none | some .null => some none
  | some value => (string? value).map some

/-- A list that may be absent. -/
def listField? {α : Type} (fields : List (String × Json)) (name : String)
    (read : Json → Option α) : Option (List α) := do
  match ← uniqueField? fields name with
  | none => some []
  | some value => (← value.array?).mapM read

end Json

namespace Schema

open Json

def caseOfJson? (j : Json) : Option (String × Int) := do
  let fields ← j.object?
  let name ← stringField? fields "name"
  let value ← (← uniqueField? fields "value") >>= int64?
  some (name, value)

def enumOfJson? (j : Json) : Option EnumDecl := do
  let fields ← j.object?
  let name ← stringField? fields "name"
  let underlying ← optionalString? fields "underlying"
  let members ← (← uniqueField? fields "members") >>= array?
  let cases ← members.mapM caseOfJson?
  some { name := name, underlying := underlying, cases := cases }

/-- The properties of an entity; of a repeated name the last counts. -/
def propertiesOfJson? (j : Json) : Option (List (String × String)) := do
  let fields ← j.object?
  let entries ← fields.mapM fun f => f.2.string?.map fun expression => (f.1, expression)
  some (entries.foldl (fun table entry => EntityDecl.setProperty entry.1 entry.2 table) [])

def entityOfJson? (j : Json) : Option EntityDecl := do
  let fields ← j.object?
  let name ← stringField? fields "name"
  let base ← optionalString? fields "base"
  let properties ←
    match ← uniqueField? fields "properties" with
    | none => some []
    | some value => propertiesOfJson? value
  some { name := name, base := base, properties := properties }

def ofJson? (j : Json) : Option Schema := do
  let fields ← j.object?
  let enums ← listField? fields "enums" enumOfJson?
  let entities ← listField? fields "entities" entityOfJson?
  some { enums := enums, entities := entities }

/-- A field that is left out if there is nothing to say. -/
def optionalField (name : String) : Option String → List (String × Json)
  | none => []
  | some value => [(name, .string value)]

def enumToJson (d : EnumDecl) : Json :=
  .object ([("name", .string d.name)] ++ optionalField "underlying" d.underlying ++
    [("members", .array (d.cases.map fun c =>
      .object [("name", .string c.1), ("value", .number (toString c.2))]))])

def entityToJson (d : EntityDecl) : Json :=
  .object ([("name", .string d.name)] ++ optionalField "base" d.base ++
    [("properties", .object (d.properties.map fun p => (p.1, .string p.2)))])

def toJson (s : Schema) : Json :=
  .object [("enums", .array (s.enums.map enumToJson)),
    ("entities", .array (s.entities.map entityToJson))]

end Schema
end TypedQuery
