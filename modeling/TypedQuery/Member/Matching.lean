import TypedQuery.Member.Basic
import TypedQuery.Ty.Assignability
/-!
Matching a generic signature against actual types.

Matching is one-sided. Placeholders occur in the wanted type only and are bound to parts of
the actual one. A wanted `Enumerable<M0>` matches an actual `List<String>` through the
instance of `Enumerable` among its supertypes.

Bindings made before a failure are part of the outcome: whoever wants to try something else
starts from bindings of its own.
-/
namespace TypedQuery

/-- A slot for each placeholder of one member, filled or not. -/
structure Bindings where
  declaring : List (Option Ty)
  method : List (Option Ty)
deriving DecidableEq, Repr

namespace Bindings

/-- Empty slots. -/
def empty (declaring method : Nat) : Bindings where
  declaring := List.replicate declaring none
  method := List.replicate method none

/-- The slots of a member, filled with the arguments it has decided already. -/
def ofMember (m : Member) : Bindings :=
  let decided (t : Ty) : Option Ty := if t.hasPlaceholder then none else some t
  { declaring := m.declaringArgs.map decided, method := m.methodArgs.map decided }

def slots (b : Bindings) : Origin → List (Option Ty)
  | .declaring => b.declaring
  | .method => b.method

/-- What a slot holds, if there is such a slot. -/
def slot? (b : Bindings) (p : Slot) : Option (Option Ty) := (b.slots p.origin)[p.index]?

/-- The type in a slot, if it is filled. -/
def get? (b : Bindings) (p : Slot) : Option Ty := (b.slot? p).join

def set (b : Bindings) (p : Slot) (t : Ty) : Bindings :=
  match p.origin with
  | .declaring => { b with declaring := b.declaring.set p.index (some t) }
  | .method => { b with method := b.method.set p.index (some t) }

/-- The number of filled slots. -/
def boundCount (b : Bindings) : Nat := (b.declaring ++ b.method).countP Option.isSome

/-- `t` with every bound placeholder replaced. -/
def resolve (b : Bindings) (t : Ty) : Ty := t.substitute b.get?

/-- `current` with every filled slot in the place of its argument. -/
def pick : List (Option Ty) → List Ty → List Ty
  | some t :: slots, _ :: current => t :: pick slots current
  | none :: slots, c :: current => c :: pick slots current
  | _, current => current

/-- `m` with every filled slot; arguments without one stay as they are. -/
def instantiate (b : Bindings) (m : Member) : Member :=
  (m.withDeclaringArgs (pick b.declaring m.declaringArgs)).withMethodArgs
    (pick b.method m.methodArgs)

theorem get?_set_self {b : Bindings} {p : Slot} {t : Ty}
    (h : p.index < (b.slots p.origin).length) : (b.set p t).get? p = some t := by
  obtain ⟨origin, index⟩ := p
  cases origin <;> simp only [slots] at h <;> simp [get?, slot?, slots, set, h]

end Bindings

/-- Where inside a signature two types did not fit. -/
inductive Place where
  | topLevel
  | functionParam (index : Nat)
  | functionReturn
  | arrayElement
  | typeArg (index : Nat)
  | quotedBody
deriving DecidableEq, Repr

def Place.description : Place → String
  | .topLevel => "types"
  | .functionParam _ => "function parameter"
  | .functionReturn => "function return type"
  | .arrayElement => "array element type"
  | .typeArg _ => "type argument"
  | .quotedBody => "quoted function type"

/-- Why two types do not match. -/
inductive MatchError where
  | mismatch (expected found : Ty) (place : Place)
  | conflict (placeholder : Placeholder) (bound found : Ty)
  | arity (expected found : Nat)
deriving DecidableEq, Repr

def MatchError.message : MatchError → String
  | .mismatch expected found place =>
    "type mismatch in " ++ place.description ++ ": expected " ++ expected.text ++
      ", found " ++ found.text
  | .conflict p bound found =>
    "conflicting bindings for " ++ p.text ++ ": " ++ bound.text ++ " and " ++ found.text
  | .arity expected found =>
    "expected " ++ toString expected ++ " function parameters, found " ++ toString found

/-- The bindings after a match, and what made it fail, if anything did. -/
structure MatchOutcome where
  bindings : Bindings
  error? : Option MatchError
deriving DecidableEq, Repr

namespace MatchOutcome

def fit (b : Bindings) : MatchOutcome := { bindings := b, error? := none }

def fail (b : Bindings) (e : MatchError) : MatchOutcome := { bindings := b, error? := some e }

/-- Go on with the bindings so far, unless the match has failed. -/
def andThen (o : MatchOutcome) (next : Bindings → MatchOutcome) : MatchOutcome :=
  match o.error? with
  | none => next o.bindings
  | some _ => o

end MatchOutcome

namespace Bindings

variable (h : Hierarchy)

/-- Bind a placeholder, or check what it is bound to. `null` says nothing about it. -/
def bind (p : Placeholder) (actual : Ty) (b : Bindings) : MatchOutcome :=
  if actual = .null then .fit b
  else
    match b.slot? p.toSlot with
    | none => .fail b (.mismatch (.placeholder p) actual .topLevel)
    | some none => .fit (b.set p.toSlot actual)
    | some (some bound) =>
      if bound.accepts h actual then .fit b else .fail b (.conflict p bound actual)

mutual
/-- Match `wanted` against `actual`. A wanted type without placeholders has nothing to bind,
so there it is enough that it accepts the actual one. -/
def matchType (place : Place) (wanted actual : Ty) (b : Bindings) : MatchOutcome :=
  if !wanted.hasPlaceholder then
    if wanted.accepts h actual then .fit b else .fail b (.mismatch wanted actual place)
  else
    match wanted with
    | .placeholder p => bind h p actual b
    | .applied c ws =>
      match h.instance? c actual with
      | some as => matchTypes .typeArg 0 ws as b
      | none => .fail b (.mismatch (.applied c ws) actual place)
    | .array w =>
      match actual with
      | .array a => matchType .arrayElement w a b
      | _ => .fail b (.mismatch (.array w) actual place)
    | .function ws w =>
      match actual with
      | .function as a =>
        if ws.length ≠ as.length then .fail b (.arity ws.length as.length)
        else (matchTypes .functionParam 0 ws as b).andThen (matchType .functionReturn w a)
      | _ => .fail b (.mismatch (.function ws w) actual place)
    | .quoted w =>
      match actual with
      | .quoted a => matchType .quotedBody w a b
      | _ => .fail b (.mismatch (.quoted w) actual place)
    | w => .fail b (.mismatch w actual place)
termination_by structural wanted

/-- Match two lists pair by pair, from position `index` on. -/
def matchTypes (place : Nat → Place) (index : Nat) (wanted actual : List Ty) (b : Bindings) :
    MatchOutcome :=
  match wanted, actual with
  | w :: ws, a :: as => (matchType (place index) w a b).andThen (matchTypes place (index + 1) ws as)
  | _, _ => .fit b
termination_by structural wanted
end

/-- Match at the outermost level. -/
def infer (wanted actual : Ty) (b : Bindings) : MatchOutcome :=
  matchType h .topLevel wanted actual b

end Bindings

/-- Whether a match that began at `before` bound anything. -/
def MatchOutcome.grew (o : MatchOutcome) (before : Bindings) : Bool :=
  before.boundCount < o.bindings.boundCount

/-- `m` with the arguments of its declaring type taken from a receiver. A declaring type
without placeholders only has to accept the receiver. -/
def Member.bindDeclaring (h : Hierarchy) (m : Member) (receiver : Ty) :
    Except MatchError Member :=
  let o := (Bindings.ofMember m).infer h m.template.declaring receiver
  match o.error? with
  | none => .ok (o.bindings.instantiate m)
  | some e => .error e

end TypedQuery
