import TypedQuery.Schema.Basic
import TypedQuery.Ty.Hierarchy
/-!
Resource models: schemas in which every name has been looked up.

A model answers what a query can ask about its entities: which properties they have, what a
type expression means, and what inherits from what.
-/
namespace TypedQuery

/-- An entity with the types of its own properties. -/
structure Entity where
  name : String
  base : Option String
  properties : List (String × Ty)
deriving DecidableEq, Repr

structure Model where
  enums : List EnumDef
  entities : List Entity
deriving DecidableEq, Repr

namespace Entity

/-- The entity called `name`. -/
def find? (entities : List Entity) (name : String) : Option Entity :=
  entities.find? fun e => e.name == name

/-- The entity called `name`, its base, the base of that, and so on, up to `limit` of them. -/
def lineage (entities : List Entity) : Nat → String → List Entity
  | 0, _ => []
  | limit + 1, name =>
    match find? entities name with
    | none => []
    | some e =>
      match e.base with
      | none => [e]
      | some base => e :: lineage entities limit base

/-- A line of bases longer than the list of all entities meets one of them twice, and then
never ends. -/
def isEndless (entities : List Entity) (e : Entity) : Bool :=
  entities.length < (lineage entities (entities.length + 1) e.name).length

end Entity

namespace Model

def entity? (m : Model) (name : String) : Option Entity := Entity.find? m.entities name

def enum? (m : Model) (name : String) : Option EnumDef := m.enums.find? fun d => d.name == name

/-- The type declared under a name. -/
def named (m : Model) (name : String) : Option Ty :=
  match m.entity? name with
  | some e => some (.entity e.name)
  | none => (m.enum? name).map .enum

/-- The type that an expression denotes. -/
def resolveType? (m : Model) (text : String) : Option Ty :=
  (TypeExpression.read m.named text).toOption

/-- An entity and all of its bases, the nearest first. -/
def lineage (m : Model) (name : String) : List Entity :=
  Entity.lineage m.entities m.entities.length name

/-- The type of a property, own or inherited; the nearest declaration counts. -/
def propertyType? (m : Model) (entity property : String) : Option Ty :=
  (m.lineage entity).findSome? fun e => e.properties.lookup property

/-- The type of a property on a receiver. Only entities have properties. -/
def property? (m : Model) (receiver : Ty) (property : String) : Option Ty :=
  match receiver with
  | .entity name => m.propertyType? name property
  | _ => none

/-- What the model declares above a type. -/
def parents (m : Model) : Ty → List Ty
  | .entity name => (((m.entity? name).bind Entity.base).map Ty.entity).toList
  | _ => []

/-- The library rules, with every base above the entity that names it. -/
def hierarchy (m : Model) : Hierarchy :=
  .ofDeclarations (m.entities.map fun e => (.entity e.name, m.parents (.entity e.name)))

end Model

/-! ## Validation -/

namespace Schema

/-- The type that stores an enumeration's values. -/
def underlyingOf (d : EnumDecl) : Except SchemaError Integral :=
  match d.underlying with
  | none => .ok .int32
  | some text =>
    match (Primitive.ofName? text).bind Integral.ofPrimitive? with
    | some k => .ok k
    | none => .error (.invalidUnderlying d.name text)

/-- The enumerations, each checked before the next; `seen` holds the names so far. -/
def resolveEnums (seen : List String) : List EnumDecl → Except SchemaError (List EnumDef)
  | [] => .ok []
  | d :: rest => do
    let underlying ← underlyingOf d
    if d.name ∈ seen then .error (.duplicateName d.name)
    else
      let enums ← resolveEnums (d.name :: seen) rest
      .ok ({ name := d.name, underlying := underlying, cases := d.cases } :: enums)

/-- No name may be there twice, or be among those seen before. -/
def checkNames (seen : List String) : List String → Except SchemaError Unit
  | [] => .ok ()
  | name :: rest =>
    if name ∈ seen then .error (.duplicateName name) else checkNames (name :: seen) rest

/-- The base of an entity, which has to be an entity too. -/
def resolveBase (names : List String) (d : EntityDecl) : Except SchemaError (Option String) :=
  match d.base with
  | none => .ok none
  | some base =>
    if base ∈ names then .ok (some base) else .error (.unknownBase d.name base)

def resolveProperties (named : String → Option Ty) (entity : String) :
    List (String × String) → Except SchemaError (List (String × Ty))
  | [] => .ok []
  | (property, expression) :: rest =>
    match TypeExpression.read named expression with
    | .error fault => .error (.property entity property expression fault)
    | .ok t => do
      let properties ← resolveProperties named entity rest
      .ok ((property, t) :: properties)

/-- The entities, each with its base and then its properties checked before the next. -/
def resolveEntities (names : List String) (named : String → Option Ty) :
    List EntityDecl → Except SchemaError (List Entity)
  | [] => .ok []
  | d :: rest => do
    let base ← resolveBase names d
    let properties ← resolveProperties named d.name d.properties
    let entities ← resolveEntities names named rest
    .ok ({ name := d.name, base := base, properties := properties } :: entities)

/-- The type declared under a name, before the entities have been resolved. -/
def namedBy (enums : List EnumDef) (names : List String) (name : String) : Option Ty :=
  if name ∈ names then some (.entity name)
  else (enums.find? fun d => d.name == name).map .enum

/-- The model of a schema. Inheritance is checked last, when all bases are known. -/
def resolve (s : Schema) : Except SchemaError Model := do
  let enums ← resolveEnums [] s.enums
  let names := s.entities.map EntityDecl.name
  checkNames (enums.map EnumDef.name) names
  let entities ← resolveEntities names (namedBy enums names) s.entities
  match entities.find? (Entity.isEndless entities) with
  | some e => .error (.inheritanceCycle e.name)
  | none => .ok { enums := enums, entities := entities }

end Schema
end TypedQuery
