import TypedQuery.Member.Basic
import TypedQuery.Text.Blank
import TypedQuery.Text.Digits
/-!
Functions of the query language, each bound to a library member.

A function is declared by a call format such as `substringof({1},{0})`: the arguments of a
query in their order, each with the position it has among the member's own. Position zero is
the receiver, if the member has one.
-/
namespace TypedQuery

/-- How a call is written: `name(a, b)` or `a.name(b)`. -/
inductive CallStyle where
  | static | chained
deriving DecidableEq, Repr

/-- What a text lacks to be a call format at all. -/
inductive FormatFault where
  | noOpening | badName | noClosing | noArguments
deriving DecidableEq, Repr

def FormatFault.text : FormatFault → String
  | .noOpening => "missing `(`"
  | .badName => "function name must be a plain identifier"
  | .noClosing => "missing closing `)`"
  | .noArguments => "at least one argument is required"

/-- Why a function cannot be registered. -/
inductive MappingError where
  | malformedFormat (format : String) (fault : FormatFault)
  | malformedIndex (format text : String)
  | indexOutOfRange (format : String) (index arity : Nat)
  | duplicateIndex (format : String) (index : Nat)
  | arityMismatch (format : String) (member : Member) (found : Nat)
deriving DecidableEq, Repr

def MappingError.message : MappingError → String
  | .malformedFormat format fault =>
    "malformed call format `" ++ format ++ "`: " ++ fault.text
  | .malformedIndex format text =>
    "malformed argument placeholder `" ++ text ++ "` in `" ++ format ++ "`"
  | .indexOutOfRange format index arity =>
    "argument index " ++ toString index ++ " out of range for " ++ toString arity ++
      " argument(s) in `" ++ format ++ "`"
  | .duplicateIndex format index =>
    "argument index " ++ toString index ++ " appears twice in `" ++ format ++ "`"
  | .arityMismatch format member found =>
    "`" ++ format ++ "` takes " ++ toString found ++ " argument(s) but `" ++ member.text ++
      "` needs " ++ toString member.arity

/-- A registered function. The `j`-th argument of a query goes to position `order[j]`; every
position is taken once. -/
structure Mapping where
  name : String
  order : List Nat
  format : String
  style : CallStyle
  member : Member
  order_lt : ∀ i ∈ order, i < order.length
  order_nodup : order.Nodup
  arity_member : member.arity = order.length

namespace Mapping

def arity (m : Mapping) : Nat := m.order.length

/-- The position of one argument in a format. -/
def slotText (index : Nat) : String := "\x7b" ++ toString index ++ "\x7d"

/-- `name({i},{j})`, the plain way of writing a format. -/
def plainFormat (name : String) (order : List Nat) : String :=
  name ++ "(" ++ ",".intercalate (order.map slotText) ++ ")"

/-- The format of the chained call: the first argument before the name. -/
def chainedFormat (m : Mapping) : String :=
  match m.order with
  | [] => m.name ++ "()"
  | first :: rest => slotText first ++ "." ++ plainFormat m.name rest

/-- A mapping with the plain format. -/
def ofOrder (name : String) (order : List Nat) (style : CallStyle) (member : Member)
    (order_lt : ∀ i ∈ order, i < order.length := by decide)
    (order_nodup : order.Nodup := by decide)
    (arity_member : member.arity = order.length := by decide) : Mapping :=
  { name := name, order := order, format := plainFormat name order, style := style,
    member := member, order_lt := order_lt, order_nodup := order_nodup,
    arity_member := arity_member }

/-! ## Reading formats -/

/-- The first index that is out of range or was there before. -/
inductive OrderFault where
  | outOfRange (index : Nat)
  | duplicate (index : Nat)
deriving DecidableEq, Repr

def orderFault? (arity : Nat) (seen : List Nat) : List Nat → Option OrderFault
  | [] => none
  | i :: rest =>
    if arity ≤ i then some (.outOfRange i)
    else if i ∈ seen then some (.duplicate i)
    else orderFault? arity (i :: seen) rest

theorem of_orderFault?_eq_none {arity : Nat} {seen order : List Nat}
    (h : orderFault? arity seen order = none) :
    (∀ i ∈ order, i < arity) ∧ order.Nodup ∧ ∀ i ∈ order, i ∉ seen := by
  induction order generalizing seen with
  | nil => simp
  | cons i rest ih =>
    unfold orderFault? at h
    split at h
    · exact absurd h (by simp)
    · next hi =>
      split at h
      · exact absurd h (by simp)
      · next hs =>
        obtain ⟨lt, nodup, fresh⟩ := ih h
        refine ⟨?_, ?_, ?_⟩
        · intro j hj
          rcases List.mem_cons.mp hj with rfl | hj
          · omega
          · exact lt j hj
        · refine List.nodup_cons.mpr ⟨fun hmem => ?_, nodup⟩
          exact fresh i hmem List.mem_cons_self
        · intro j hj
          rcases List.mem_cons.mp hj with rfl | hj
          · exact hs
          · exact fun hseen => fresh j hj (List.mem_cons_of_mem _ hseen)

def isNameChar (c : Char) : Bool := c.isAlphanum || c = '_'

/-- The text between a first and a last character, if they are these. -/
def between? (first last : Char) (cs : List Char) : Option (List Char) :=
  match cs with
  | c :: rest =>
    if c = first && rest.getLast? = some last then some rest.dropLast else none
  | [] => none

/-- The index in `{i}`, if it fits a machine word. -/
def readSlot? (cs : List Char) : Option Nat :=
  (between? '\x7b' '\x7d' cs).bind fun digits =>
    (Text.readUnsigned? (Text.trim digits)).filter fun n => n < 1 <<< 64

/-- The indices of the pieces, or the first piece that has none. -/
def readOrder (format : String) : List (List Char) → Except MappingError (List Nat)
  | [] => .ok []
  | piece :: pieces => do
    let text := Text.trim piece
    match readSlot? text with
    | some i => return i :: (← readOrder format pieces)
    | none => .error (.malformedIndex format (String.ofList text))

/-- The name and the order of the arguments. -/
def readFormat (format : String) : Except MappingError (String × List Nat) := do
  let fault (f : FormatFault) : MappingError := .malformedFormat format f
  let cs := format.toList
  let beforeOpening := cs.takeWhile (· != '(')
  match cs.dropWhile (· != '(') with
  | [] => .error (fault .noOpening)
  | _ :: rest =>
    let name := Text.trim beforeOpening
    if name.isEmpty || !name.all isNameChar then .error (fault .badName)
    let rest := Text.trimEnd rest
    if rest.getLast? != some ')' then .error (fault .noClosing)
    let inside := rest.dropLast
    if (Text.trim inside).isEmpty then .error (fault .noArguments)
    return (String.ofList name, ← readOrder format (inside.splitOn ','))

/-- Bind a member to a format. A member instantiated for any type is stored as its generic
definition. -/
def parse (member : Member) (format : String) (style : CallStyle) :
    Except MappingError Mapping := do
  let (name, order) ← readFormat format
  match h : orderFault? order.length [] order with
  | some (.outOfRange i) => .error (.indexOutOfRange format i order.length)
  | some (.duplicate i) => .error (.duplicateIndex format i)
  | none =>
    let member := member.overWildcards
    if arity : member.arity = order.length then
      return {
        name := name, order := order, format := format, style := style, member := member,
        order_lt := (of_orderFault?_eq_none h).1,
        order_nodup := (of_orderFault?_eq_none h).2.1,
        arity_member := arity }
    else .error (.arityMismatch format member order.length)

/-! ## Argument orders -/

variable {α : Type}

/-- The arguments of a query in the member's order. There is no answer for the wrong number
of them. -/
def reorder? (m : Mapping) (args : List α) : Option (List α) :=
  if args.length = m.arity then
    (List.range m.arity).mapM fun position => (m.order.zip args).lookup position
  else none

/-- The member's arguments in the order of the query. -/
def toQueryOrder? (m : Mapping) (args : List α) : Option (List α) :=
  if args.length = m.arity then m.order.mapM fun position => args[position]? else none

end Mapping
end TypedQuery
