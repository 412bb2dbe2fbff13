/-!
The types a query is written about: primitives, enumerations and entities of a resource
model, the library containers, and the functions that lambdas are compiled against.

Generic signatures are types with placeholders in them, so one type serves both the
templates and the types of actual values.
-/
namespace TypedQuery

/-- Types without parts. `object` is above every type; `null` is the type of the literal. -/
inductive Primitive where
  | bool | byte | int16 | int32 | int64 | single | double | decimal
  | char | string | guid | dateTime | object | null
deriving DecidableEq, Repr

/-- The primitives that hold whole numbers. -/
inductive Integral where
  | byte | int16 | int32 | int64
deriving DecidableEq, Repr

namespace Integral

def toPrimitive : Integral → Primitive
  | .byte => .byte
  | .int16 => .int16
  | .int32 => .int32
  | .int64 => .int64

def ofPrimitive? : Primitive → Option Integral
  | .byte => some .byte
  | .int16 => some .int16
  | .int32 => some .int32
  | .int64 => some .int64
  | _ => none

def least : Integral → Int
  | .byte => 0
  | .int16 => -32768
  | .int32 => -2147483648
  | .int64 => -9223372036854775808

def greatest : Integral → Int
  | .byte => 255
  | .int16 => 32767
  | .int32 => 2147483647
  | .int64 => 9223372036854775807

/-- The numbers that the type holds. -/
def Holds (k : Integral) (n : Int) : Prop := k.least ≤ n ∧ n ≤ k.greatest

instance (k : Integral) (n : Int) : Decidable (k.Holds n) :=
  inferInstanceAs (Decidable (_ ∧ _))

end Integral

/-- An enumeration: a name, the type its values are stored in, and its cases in the order
they were declared. Names and values may repeat; the first of them counts. -/
structure EnumDef where
  name : String
  underlying : Integral
  cases : List (String × Int)
deriving DecidableEq, Repr

namespace EnumDef

/-- Equality of names up to the case of ASCII letters. -/
def sameName (a b : String) : Bool :=
  a.toList.map Char.toLower == b.toList.map Char.toLower

/-- The value of the first case with this name. -/
def valueOf? (d : EnumDef) (name : String) : Option Int :=
  (d.cases.find? fun c => sameName c.1 name).map Prod.snd

/-- The name of the first case with this value. -/
def nameOf? (d : EnumDef) (value : Int) : Option String :=
  (d.cases.find? fun c => c.2 == value).map Prod.fst

end EnumDef

/-- The parameterised types of the library. -/
inductive Container where
  | enumerable | collection | list | dictionary
deriving DecidableEq, Repr

namespace Container

/-- How many type arguments the container takes. -/
def arity : Container → Nat
  | .enumerable | .collection | .list => 1
  | .dictionary => 2

/-- There is a placeholder for each of the arguments. -/
theorem arity_lt (c : Container) : c.arity < 256 := by
  cases c <;> decide

def name : Container → String
  | .enumerable => "Enumerable"
  | .collection => "Collection"
  | .list => "List"
  | .dictionary => "Dictionary"

def all : List Container := [.enumerable, .collection, .list, .dictionary]

def ofName? (name : String) : Option Container := all.find? fun c => c.name == name

theorem ofName?_name (c : Container) : ofName? c.name = some c := by
  cases c <;> decide

end Container

/-- Who declares a placeholder: the type a member belongs to, or the member itself. -/
inductive Origin where
  | declaring | method
deriving DecidableEq, Repr

/-- The place of a type argument: who declares the parameter that it is for, and the position
among the parameters declared there. -/
structure Slot where
  origin : Origin
  index : Nat
deriving DecidableEq, Repr

/-- A type parameter by its place. Its position fits a byte. -/
structure Placeholder extends Slot where
  index_lt : index < 256
deriving DecidableEq, Repr

/-- A type. Enumerations are compared by their whole definition, entities by name.

A `quoted` function type is that of a lambda handed over as an expression instead of being
called. `wildcard` stands for any type while functions are registered. -/
inductive Ty where
  | primitive (p : Primitive)
  | enum (d : EnumDef)
  | entity (name : String)
  | array (element : Ty)
  | applied (container : Container) (args : List Ty)
  | function (params : List Ty) (result : Ty)
  | quoted (inner : Ty)
  | placeholder (p : Placeholder)
  | wildcard
deriving Repr

namespace Ty

@[match_pattern] abbrev bool : Ty := .primitive .bool
@[match_pattern] abbrev byte : Ty := .primitive .byte
@[match_pattern] abbrev int16 : Ty := .primitive .int16
@[match_pattern] abbrev int32 : Ty := .primitive .int32
@[match_pattern] abbrev int64 : Ty := .primitive .int64
@[match_pattern] abbrev single : Ty := .primitive .single
@[match_pattern] abbrev double : Ty := .primitive .double
@[match_pattern] abbrev decimal : Ty := .primitive .decimal
@[match_pattern] abbrev char : Ty := .primitive .char
@[match_pattern] abbrev string : Ty := .primitive .string
@[match_pattern] abbrev guid : Ty := .primitive .guid
@[match_pattern] abbrev dateTime : Ty := .primitive .dateTime
@[match_pattern] abbrev object : Ty := .primitive .object
@[match_pattern] abbrev null : Ty := .primitive .null

abbrev integral (k : Integral) : Ty := .primitive k.toPrimitive

abbrev enumerable (element : Ty) : Ty := .applied .enumerable [element]
abbrev collection (element : Ty) : Ty := .applied .collection [element]
abbrev list (element : Ty) : Ty := .applied .list [element]
abbrev dictionary (key value : Ty) : Ty := .applied .dictionary [key, value]

/-- The type parameter at `index` of a member's declaring type. -/
abbrev ofDeclaring (index : Nat) (index_lt : index < 256 := by decide) : Ty :=
  .placeholder ⟨⟨.declaring, index⟩, index_lt⟩

/-- The type parameter at `index` of a member itself. -/
abbrev ofMethod (index : Nat) (index_lt : index < 256 := by decide) : Ty :=
  .placeholder ⟨⟨.method, index⟩, index_lt⟩

/-! ## Equality -/

mutual
/-- Structural equality. -/
def same : Ty → Ty → Bool
  | .primitive p, .primitive q => p == q
  | .enum d, .enum e => d == e
  | .entity n, .entity m => n == m
  | .array t, .array u => same t u
  | .applied c ts, .applied d us => c == d && sames ts us
  | .function ps r, .function qs s => sames ps qs && same r s
  | .quoted t, .quoted u => same t u
  | .placeholder p, .placeholder q => p == q
  | .wildcard, .wildcard => true
  | _, _ => false

def sames : List Ty → List Ty → Bool
  | [], [] => true
  | t :: ts, u :: us => same t u && sames ts us
  | _, _ => false
end

mutual
theorem same_iff : ∀ t u : Ty, same t u = true ↔ t = u := by
  intro t u
  cases t with
  | array t => cases u <;> simp [same, same_iff t]
  | applied c ts => cases u <;> simp [same, sames_iff ts]
  | function ps r => cases u <;> simp [same, sames_iff ps, same_iff r]
  | quoted t => cases u <;> simp [same, same_iff t]
  | _ => cases u <;> simp [same]

theorem sames_iff : ∀ ts us : List Ty, sames ts us = true ↔ ts = us := by
  intro ts us
  cases ts with
  | nil => cases us <;> simp [sames]
  | cons t ts => cases us <;> simp [sames, same_iff t, sames_iff ts]
end

instance : DecidableEq Ty := fun t u => decidable_of_iff _ (same_iff t u)

instance : Inhabited Ty := ⟨.object⟩

/-! ## Kinds of types -/

/-- The integral type this type is, if it is one. -/
def integral? : Ty → Option Integral
  | .primitive p => Integral.ofPrimitive? p
  | _ => none

def isIntegral (t : Ty) : Bool := t.integral?.isSome

def isNumeric (t : Ty) : Bool :=
  t.isIntegral || t == .single || t == .double || t == .decimal

/-- The types whose values `lt`, `gt`, `le` and `ge` compare. -/
def isOrdered (t : Ty) : Bool := t.isNumeric || t == .char || t == .dateTime

/-- The types whose values may be `null`. -/
def isReference : Ty → Bool
  | .string | .object | .null => true
  | .entity _ | .array _ | .applied .. | .function .. | .quoted _ => true
  | _ => false

def enum? : Ty → Option EnumDef
  | .enum d => some d
  | _ => none

def element? : Ty → Option Ty
  | .array t => some t
  | _ => none

/-- The types this type is put together from. -/
def children : Ty → List Ty
  | .array t | .quoted t => [t]
  | .applied _ ts => ts
  | .function ps r => ps ++ [r]
  | _ => []

mutual
/-- What holds of a type if it holds of all that the type is put together from, holds of every
type. -/
theorem ofChildren {P : Ty → Prop} (step : ∀ t, (∀ child ∈ t.children, P child) → P t) :
    ∀ t : Ty, P t
  | .array t | .quoted t => step _ (List.forall_mem_singleton.mpr (ofChildren step t))
  | .applied _ ts => step _ (forall_mem_ofChildren step ts)
  | .function ps r => step _ fun child hchild => by
    rcases List.mem_append.mp hchild with hps | hr
    · exact forall_mem_ofChildren step ps child hps
    · exact List.mem_singleton.mp hr ▸ ofChildren step r
  | .primitive _ | .enum _ | .entity _ | .placeholder _ | .wildcard =>
    step _ fun _ hchild => absurd hchild List.not_mem_nil

theorem forall_mem_ofChildren {P : Ty → Prop}
    (step : ∀ t, (∀ child ∈ t.children, P child) → P t) : ∀ ts : List Ty, ∀ t ∈ ts, P t
  | [] => fun _ h => absurd h List.not_mem_nil
  | t :: ts => List.forall_mem_cons.mpr ⟨ofChildren step t, forall_mem_ofChildren step ts⟩
end

end Ty
end TypedQuery
