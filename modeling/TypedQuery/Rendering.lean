import TypedQuery.Expr.Basic
import TypedQuery.Member.Catalogue
import TypedQuery.Query.Text
import TypedQuery.Registry.Basic
/-!
The query that a graph stands for.

Members become calls of the functions registered for them, and two members become syntax:
`name[key]` and `value in array`. Conversions that compilation put in are left out again, and
the number that an enumeration is compared with becomes the name of its case.
-/
namespace TypedQuery

/-- Graphs that no query stands for. -/
inductive Unrenderable where
  | searchArity
  | argumentCount (member : Member)
  | lookupWithoutProperty
  | unnamedCase (d : EnumDef) (value : Int)
deriving DecidableEq, Repr

def Unrenderable.message : Unrenderable → String
  | .searchArity => "`Contains` without two arguments"
  | .argumentCount member => "`" ++ member.text ++ "` with a wrong argument count"
  | .lookupWithoutProperty => "dictionary lookup not on a property"
  | .unnamedCase d value => "value " ++ toString value ++ " of " ++ d.name

/-- Why a graph cannot be written as a query. -/
inductive RenderError where
  | unmappedMember (member : Member)
  | unsupportedShape (shape : Unrenderable)
deriving DecidableEq, Repr

def RenderError.message : RenderError → String
  | .unmappedMember member =>
    "member `" ++ member.text ++ "` has no registered query function"
  | .unsupportedShape shape => "cannot render " ++ shape.message

/-- How calls are written: each function in its own style, or all of them as `name(a, b)`. -/
inductive RenderStyle where
  | preferred | static
deriving DecidableEq, Repr

/-- What a graph is rendered with. Properties of the implicit receiver are written as bare
names. -/
structure Renderer where
  registry : Registry
  style : RenderStyle
  receiver? : Option Nat

namespace Renderer

variable (r : Renderer)

/-- Whether a graph is the implicit receiver itself. -/
def isReceiver (e : Expr) : Bool :=
  match r.receiver? with
  | some id => e.isParameter id
  | none => false

/-! ## Constants -/

mutual
/-- The literal for a constant, with the suffix that reads back as its type. -/
def constant : Value → Except RenderError Query
  | .null => .ok (.symbol "null")
  | .bool b => .ok (.symbol (if b then "true" else "false"))
  | .integer .int64 n _ => .ok (.number (toString n ++ "L"))
  | .integer _ n _ => .ok (.number (toString n))
  | .single x => .ok (.number (String.ofList (x.text ++ ['f'])))
  | .double x => .ok (.number (String.ofList x.text))
  | .decimal x => .ok (.number (String.ofList (x.text ++ ['m'])))
  | .char c => .ok (.string (String.ofList [c]))
  | .string s => .ok (.string s)
  | .guid g => .ok (.guid g)
  | .dateTime d => .ok (.dateTime d)
  | .enumCase d n =>
    match d.nameOf? n with
    | some name => .ok (.string name)
    | none => .error (.unsupportedShape (.unnamedCase d n))
  | .array _ items => do
    let items ← constants items
    .ok (.array items)

def constants : List Value → Except RenderError (List Query)
  | [] => .ok []
  | v :: vs => do
    let q ← constant v
    let qs ← constants vs
    .ok (q :: qs)
end

/-! ## Calls -/

/-- The style in which a function is written. -/
def styleOf (mapping : Mapping) : CallStyle :=
  match r.style with
  | .preferred => mapping.style
  | .static => .static

/-- A call of a registered function. -/
def call (mapping : Mapping) (args : List Query) : Query :=
  match r.styleOf mapping, args with
  | .chained, first :: rest => .dot first (.call mapping.name rest)
  | _, args => .call mapping.name args

/-- A member applied to its own arguments, the receiver among them. -/
def function (member : Member) (args : List Query) : Except RenderError Query :=
  match r.registry.functionOf? member with
  | none => .error (.unmappedMember member)
  | some mapping =>
    match mapping.toQueryOrder? args with
    | none => .error (.unsupportedShape (.argumentCount member))
    | some args => .ok (r.call mapping args)

/-- Whether a name can stand for itself in a query. -/
def isPlainName (name : String) : Bool :=
  name.toList.all fun c => c.isAlphanum || c = '_'

/-- The name of a type as an argument. -/
def typeName (t : Ty) : Query :=
  if isPlainName t.text then .symbol t.text else .string t.text

/-- The name of the case that a comparison with a constant is about, if `side` is an
enumeration that was converted to be compared. -/
def caseName? (side other : Expr) : Option String :=
  match side with
  | .convert operand _ false => do
    let n ← other.constant?.bind Value.int?
    let d ← operand.type.enum?
    d.nameOf? n
  | _ => none

mutual
def query : Expr → Except RenderError Query
  | .constant v => constant v
  | .parameter p =>
    .ok (if r.isReceiver (.parameter p) then .symbol "this" else .symbol p.name)
  | .property e name _ => do
    if r.isReceiver e then .ok (.symbol name)
    else
      let receiver ← query e
      .ok (.dot receiver (.symbol name))
  | .memberAccess e member => do
    let receiver ← query e
    r.function member [receiver]
  | .call member args => do
    if member.id = Catalogue.dictionaryGet.id then
      .error (.unsupportedShape .lookupWithoutProperty)
    else if member.id = Catalogue.enumerableContains.id then
      match args with
      | [array, value] =>
        let value ← query value
        let array ← query array
        .ok (.binary .isIn value array)
      | _ => .error (.unsupportedShape .searchArity)
    else
      let args ← queries args
      r.function member args
  | .callOn e member args => do
    if member.id = Catalogue.dictionaryGet.id then
      match e, args with
      | .property receiver name _, [key] =>
        let key ← query key
        if r.isReceiver receiver then .ok (.indexer name [key])
        else
          let receiver ← query receiver
          .ok (.dot receiver (.indexer name [key]))
      | _, _ => .error (.unsupportedShape .lookupWithoutProperty)
    else if member.id = Catalogue.enumerableContains.id then
      match args with
      | [array, value] =>
        let value ← query value
        let array ← query array
        .ok (.binary .isIn value array)
      | _ => .error (.unsupportedShape .searchArity)
    else
      let receiver ← query e
      let args ← queries args
      r.function member (receiver :: args)
  | .binary op left right _ =>
    match caseName? left right, caseName? right left with
    | some name, _ => do
      let left ← query left
      .ok (.binary (.value op) left (.string name))
    | none, some name => do
      let right ← query right
      .ok (.binary (.value op) (.string name) right)
    | none, none => do
      let left ← query left
      let right ← query right
      .ok (.binary (.value op) left right)
  | .convert e t explicit => do
    if !explicit then query e
    else if r.isReceiver e then .ok (.call "cast" [typeName t])
    else
      let operand ← query e
      .ok (.call "cast" [operand, typeName t])
  | .typeIs e t => do
    if r.isReceiver e then .ok (.call "isof" [typeName t])
    else
      let operand ← query e
      .ok (.call "isof" [operand, typeName t])
  | .newArray _ es => do
    let items ← queries es
    .ok (.array items)
  | .lambda ps body => do
    let body ← query body
    .ok (.lambda (ps.map Param.name) body)
  | .quote e => query e

def queries : List Expr → Except RenderError (List Query)
  | [] => .ok []
  | e :: es => do
    let q ← query e
    let qs ← queries es
    .ok (q :: qs)
end

end Renderer

namespace Expr

/-- The query that a graph stands for. A lambda at the root is a compiled query, and its first
parameter is the implicit receiver. -/
def toQuery (registry : Registry) (style : RenderStyle) : Expr → Except RenderError Query
  | .lambda (this :: _) body =>
    Renderer.query { registry := registry, style := style, receiver? := some this.id } body
  | e => Renderer.query { registry := registry, style := style, receiver? := none } e

/-- The text of the query that a graph stands for. -/
def render (registry : Registry) (style : RenderStyle) (e : Expr) :
    Except RenderError String :=
  (e.toQuery registry style).map Query.text

end Expr
end TypedQuery
