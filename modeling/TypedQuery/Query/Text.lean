import TypedQuery.Query.Basic
/-!
The text of a query, with parentheses only where the operators ask for them.
-/
namespace TypedQuery
namespace Query

/-- `value` between single quotes, every one of its own written twice. -/
def quote (value : String) : String :=
  String.ofList ('\'' :: (value.toList.flatMap fun c => if c = '\'' then ['\'', '\''] else [c])
    ++ ['\''])

/-- Which side of an operator an operand stands on. -/
inductive Side where
  | left | right
deriving DecidableEq, Repr

/-- Whether an operand needs parentheses. Operators group from the left, so on the right one
of the same precedence needs them too; member access groups either way. The body of a lambda
runs as far as it can, so a lambda is never left open. -/
def needsParens (parent : Operator) (side : Side) : Query → Bool
  | .binary op _ _ =>
    op.precedence < parent.precedence ||
      (side = .right && parent ≠ .dot && op.precedence == parent.precedence)
  | .lambda .. => true
  | _ => false

/-- An operand's text, in parentheses where they are needed. -/
def enclosed (parens : Bool) (text : String) : String :=
  if parens then "(" ++ text ++ ")" else text

/-- What stands between two operands. -/
def separator : Operator → String
  | .dot => "."
  | op => " " ++ op.keyword ++ " "

/-- The parameters of a lambda. Only a single one goes without parentheses. -/
def lambdaHead : List String → String
  | [name] => name
  | names => "(" ++ ",".intercalate names ++ ")"

mutual
def text : Query → String
  | .binary op l r =>
    enclosed (needsParens op .left l) l.text ++ separator op ++
      enclosed (needsParens op .right r) r.text
  | .call name args => name ++ "(" ++ ",".intercalate (texts args) ++ ")"
  | .indexer name args => name ++ "[" ++ ",".intercalate (texts args) ++ "]"
  | .symbol name => name
  | .lambda params body => lambdaHead params ++ ":" ++ body.text
  | .string value => quote value
  | .number text => text
  | .guid value => "guid'" ++ String.ofList value.text ++ "'"
  | .dateTime value => "datetime'" ++ String.ofList value.literalText ++ "'"
  | .array items => "[" ++ ",".intercalate (texts items) ++ "]"

def texts : List Query → List String
  | [] => []
  | q :: qs => q.text :: texts qs
end

theorem texts_eq_map (qs : List Query) : texts qs = qs.map text := by
  induction qs with
  | nil => rfl
  | cons q qs ih => rw [texts, ih, List.map_cons]

end Query
end TypedQuery
