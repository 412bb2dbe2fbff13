/-!
JSON documents.

Numbers are kept as they are written, so nothing is lost before it is known what they are
for. Objects keep their fields in order, repeated names included: whether a repetition is an
error is for the reader of a particular object to say.
-/
namespace TypedQuery

inductive Json where
  | null
  | bool (value : Bool)
  | number (text : String)
  | string (value : String)
  | array (items : List Json)
  | object (fields : List (String × Json))
deriving Repr

namespace Json

instance : Inhabited Json := ⟨.null⟩

def string? : Json → Option String
  | .string value => some value
  | _ => none

def array? : Json → Option (List Json)
  | .array items => some items
  | _ => none

def object? : Json → Option (List (String × Json))
  | .object fields => some fields
  | _ => none

def strings? : Json → Option (List String)
  | .array items => items.mapM string?
  | _ => none

mutual
/-- How many arrays and objects stand around the innermost value. -/
def depth : Json → Nat
  | .array items => depths items + 1
  | .object fields => fieldDepths fields + 1
  | _ => 0

def depths : List Json → Nat
  | [] => 0
  | v :: vs => max v.depth (depths vs)

def fieldDepths : List (String × Json) → Nat
  | [] => 0
  | (_, v) :: fields => max v.depth (fieldDepths fields)
end

mutual
/-- The document with no field name repeated in any object: the last field of a name counts. -/
def lastFields : Json → Json
  | .array items => .array (lastFieldsEach items)
  | .object fields => .object (lastFieldsOf fields)
  | v => v

def lastFieldsEach : List Json → List Json
  | [] => []
  | v :: vs => v.lastFields :: lastFieldsEach vs

def lastFieldsOf : List (String × Json) → List (String × Json)
  | [] => []
  | (name, v) :: fields =>
    let rest := lastFieldsOf fields
    if (rest.lookup name).isSome then rest else (name, v.lastFields) :: rest
end

/-- The field of this name, for objects that do not repeat names. -/
def field? (fields : List (String × Json)) (name : String) : Option Json := fields.lookup name

/-- The value of a field that occurs once; `none` inside if it is absent. A field that occurs
twice is an error. -/
def uniqueField? (fields : List (String × Json)) (name : String) : Option (Option Json) :=
  match fields.filter fun f => f.1 == name with
  | [] => some none
  | [f] => some (some f.2)
  | _ => none

end Json
end TypedQuery
