import TypedQuery.Text.Alphanumeric
import TypedQuery.Text.Blank
import TypedQuery.Ty.Text
/-!
Type expressions: `Int32`, `List<String>`, `Dictionary<String, Int32>`, `Int32[]`, and the
names that a resource model declares.

An expression is first cut into names and marks, so blanks matter only between two names.
-/
namespace TypedQuery

/-- The primitives that have a name in expressions. `Boolean` is a second name for `Bool`;
`Null` has none, because no property is of that type. -/
def Primitive.ofName? : String → Option Primitive
  | "Bool" | "Boolean" => some .bool
  | "Byte" => some .byte
  | "Int16" => some .int16
  | "Int32" => some .int32
  | "Int64" => some .int64
  | "Single" => some .single
  | "Double" => some .double
  | "Decimal" => some .decimal
  | "Char" => some .char
  | "String" => some .string
  | "Guid" => some .guid
  | "DateTime" => some .dateTime
  | "Object" => some .object
  | _ => none

theorem Primitive.ofName?_name {p : Primitive} (h : p ≠ .null) :
    Primitive.ofName? p.name = some p := by
  cases p <;> first | rfl | exact absurd rfl h

namespace TypeExpression

/-- What is wrong with the form of an expression. -/
inductive SyntaxFault where
  | noName | noClosingAngle | wrongArgumentCount | noClosingBracket | trailingInput
deriving DecidableEq, Repr

def SyntaxFault.text : SyntaxFault → String
  | .noName => "expected a type name"
  | .noClosingAngle => "expected `>`"
  | .wrongArgumentCount => "wrong number of type arguments"
  | .noClosingBracket => "expected `]`"
  | .trailingInput => "unexpected trailing input"

/-- Why an expression denotes no type. -/
inductive Fault where
  | unknownName (name : String)
  | malformed (fault : SyntaxFault)
deriving DecidableEq, Repr

/-- A name, or one other character that is no blank. -/
inductive Token where
  | name (text : String)
  | mark (c : Char)
deriving DecidableEq, Repr

def isNameChar (c : Char) : Bool := Text.isAlphanumeric c || c = '_' || c = '.'

/-- A run of name characters that has come to its end, kept in reverse. -/
def nameToken : List Char → List Token
  | [] => []
  | run => [.name (String.ofList run.reverse)]

/-- The tokens of a text, with the run of name characters that stood before it. -/
def tokensAfter (run : List Char) : List Char → List Token
  | [] => nameToken run
  | c :: rest =>
    if isNameChar c then tokensAfter (c :: run) rest
    else if Text.isBlank c then nameToken run ++ tokensAfter [] rest
    else nameToken run ++ .mark c :: tokensAfter [] rest

def tokens (text : String) : List Token := tokensAfter [] text.toList

/-- Brackets behind a type make arrays of it. -/
def readBrackets (t : Ty) : List Token → Except Fault (Ty × List Token)
  | .mark '[' :: .mark ']' :: rest => readBrackets (.array t) rest
  | .mark '[' :: _ => .error (.malformed .noClosingBracket)
  | rest => .ok (t, rest)

/-- The type a name stands for. Primitive names cannot be declared anew. -/
def resolveName (named : String → Option Ty) (name : String) : Except Fault Ty :=
  match Primitive.ofName? name with
  | some p => .ok (.primitive p)
  | none =>
    match named name with
    | some t => .ok t
    | none => .error (.unknownName name)

mutual
/-- A type at the start of the tokens, and what follows it. Every type takes a token, so
twice their number is fuel enough. -/
def readType (named : String → Option Ty) : Nat → List Token → Except Fault (Ty × List Token)
  | 0, _ => .error (.malformed .noName)
  | fuel + 1, tokens =>
    match tokens with
    | .name name :: .mark '<' :: rest =>
      match Container.ofName? name with
      | none => .error (.unknownName name)
      | some c => do
        let (args, rest) ← readArgs named fuel rest
        match rest with
        | .mark '>' :: rest =>
          if args.length = c.arity then readBrackets (.applied c args) rest
          else .error (.malformed .wrongArgumentCount)
        | _ => .error (.malformed .noClosingAngle)
    | .name name :: rest => do
      let t ← resolveName named name
      readBrackets t rest
    | _ => .error (.malformed .noName)

/-- One or more types with commas between them. -/
def readArgs (named : String → Option Ty) :
    Nat → List Token → Except Fault (List Ty × List Token)
  | 0, _ => .error (.malformed .noName)
  | fuel + 1, tokens => do
    let (t, rest) ← readType named fuel tokens
    match rest with
    | .mark ',' :: rest =>
      let (ts, rest) ← readArgs named fuel rest
      .ok (t :: ts, rest)
    | _ => .ok ([t], rest)
end

/-- The type that a whole text denotes, names that are not primitive being looked up in
`named`. -/
def read (named : String → Option Ty) (text : String) : Except Fault Ty := do
  let tokens := tokens text
  let (t, rest) ← readType named (2 * tokens.length + 1) tokens
  if rest.isEmpty then .ok t else .error (.malformed .trailingInput)

end TypeExpression
end TypedQuery
