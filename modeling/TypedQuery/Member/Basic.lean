import TypedQuery.Ty.Placeholders
import TypedQuery.Ty.Text
/-!
Members of library types: properties and methods, possibly generic.

A template is a member as it is declared, written with placeholders. A member is a template
with arguments for them. An argument may be a placeholder again, which is how the generic
definition itself is a member.
-/
namespace TypedQuery

/-- How a member is used, and the parameters it takes besides its receiver. -/
inductive MemberKind where
  | property
  | method (params : List Ty)
  | staticMethod (params : List Ty)
deriving DecidableEq, Repr

namespace MemberKind

def params : MemberKind → List Ty
  | .property => []
  | .method ps | .staticMethod ps => ps

def hasReceiver : MemberKind → Bool
  | .staticMethod _ => false
  | _ => true

def isProperty : MemberKind → Bool
  | .property => true
  | _ => false

end MemberKind

/-- A declared member. The identity stays with all of its instantiations. -/
structure MemberTemplate where
  id : String
  name : String
  kind : MemberKind
  declaring : Ty
  result : Ty
deriving DecidableEq, Repr

namespace MemberTemplate

def params (t : MemberTemplate) : List Ty := t.kind.params

/-- All types of the declaration. -/
def signature (t : MemberTemplate) : List Ty := t.declaring :: t.result :: t.params

/-- How many placeholders of this origin the declaration takes: gaps between the indices in
use are counted, so every index in use has a slot. The greatest index takes one slot more than a
byte can count. -/
def slots (t : MemberTemplate) (origin : Origin) : Nat :=
  Ty.slotCounts origin t.signature

/-- Every placeholder of an origin in the place of itself. -/
def identityArgs (t : MemberTemplate) (origin : Origin) : List Ty :=
  (List.range (t.slots origin)).pmap (fun i hi => .placeholder ⟨⟨origin, i⟩, hi⟩) fun _ hi =>
    Nat.lt_of_lt_of_le (List.mem_range.mp hi) (Ty.slotCounts_le origin t.signature)

theorem length_identityArgs (t : MemberTemplate) (origin : Origin) :
    (t.identityArgs origin).length = t.slots origin := by
  simp [identityArgs]

end MemberTemplate

/-- A template with an argument for each of its placeholders. -/
structure Member where
  template : MemberTemplate
  declaringArgs : List Ty
  methodArgs : List Ty
  length_declaringArgs : declaringArgs.length = template.slots .declaring
  length_methodArgs : methodArgs.length = template.slots .method
deriving DecidableEq, Repr

namespace Member

/-- The generic definition: every placeholder stands for itself. -/
def definition (t : MemberTemplate) : Member where
  template := t
  declaringArgs := t.identityArgs .declaring
  methodArgs := t.identityArgs .method
  length_declaringArgs := t.length_identityArgs .declaring
  length_methodArgs := t.length_identityArgs .method

/-- `args` with its first elements replaced by `new`; what `new` has too many is left out. -/
def overwrite (args new : List Ty) : List Ty := new.take args.length ++ args.drop new.length

theorem length_overwrite (args new : List Ty) : (overwrite args new).length = args.length := by
  simp only [overwrite, List.length_append, List.length_take, List.length_drop]
  omega

def withDeclaringArgs (m : Member) (new : List Ty) : Member :=
  { m with
    declaringArgs := overwrite m.declaringArgs new,
    length_declaringArgs := (length_overwrite _ _).trans m.length_declaringArgs }

def withMethodArgs (m : Member) (new : List Ty) : Member :=
  { m with
    methodArgs := overwrite m.methodArgs new,
    length_methodArgs := (length_overwrite _ _).trans m.length_methodArgs }

/-- `t` with these arguments; placeholders without one stay. -/
def instantiate (t : MemberTemplate) (declaringArgs methodArgs : List Ty) : Member :=
  ((definition t).withDeclaringArgs declaringArgs).withMethodArgs methodArgs

/-- The member that functions are registered for. Arguments of an origin that mention the
wildcard were given for any type, and go back to the generic definition all together. -/
def overWildcards (m : Member) : Member :=
  let m :=
    if m.declaringArgs.any Ty.hasWildcard then
      { m with
        declaringArgs := m.template.identityArgs .declaring,
        length_declaringArgs := m.template.length_identityArgs .declaring }
    else m
  if m.methodArgs.any Ty.hasWildcard then
    { m with
      methodArgs := m.template.identityArgs .method,
      length_methodArgs := m.template.length_identityArgs .method }
  else m

def id (m : Member) : String := m.template.id

def name (m : Member) : String := m.template.name

def kind (m : Member) : MemberKind := m.template.kind

def hasReceiver (m : Member) : Bool := m.kind.hasReceiver

/-- Some argument of the declaring type is not decided yet. -/
def hasOpenDeclaring (m : Member) : Bool := m.declaringArgs.any Ty.hasPlaceholder

/-- Some argument of the member itself is not decided yet. -/
def hasOpenMethod (m : Member) : Bool := m.methodArgs.any Ty.hasPlaceholder

/-- The number of arguments a call in a query takes, the receiver among them. -/
def arity (m : Member) : Nat :=
  m.template.params.length + if m.hasReceiver then 1 else 0

def args (m : Member) : Origin → List Ty
  | .declaring => m.declaringArgs
  | .method => m.methodArgs

/-- The argument in a slot. -/
def arg? (m : Member) (p : Slot) : Option Ty := (m.args p.origin)[p.index]?

/-- A type of the declaration under the member's arguments. -/
def apply (m : Member) (t : Ty) : Ty := t.substitute m.arg?

def declaringType (m : Member) : Ty := m.apply m.template.declaring

def params (m : Member) : List Ty := m.template.params.map m.apply

def result (m : Member) : Ty := m.apply m.template.result

/-- Members are the same if their identities and their arguments are. -/
def same (m n : Member) : Bool :=
  m.id == n.id && m.declaringArgs == n.declaringArgs && m.methodArgs == n.methodArgs

/-- The declaring type and the name, then type arguments of the member's own and, for
methods, the parameter types. -/
def text (m : Member) : String :=
  let generics := if m.methodArgs.isEmpty then "" else "<" ++ Ty.listText m.methodArgs ++ ">"
  let params := if m.kind.isProperty then "" else "(" ++ Ty.listText m.params ++ ")"
  m.declaringType.text ++ "." ++ m.name ++ generics ++ params

theorem same_self (m : Member) : m.same m = true := by
  simp [same]

@[simp]
theorem template_overWildcards (m : Member) : m.overWildcards.template = m.template := by
  unfold overWildcards
  dsimp only
  split <;> split <;> rfl

end Member
end TypedQuery
