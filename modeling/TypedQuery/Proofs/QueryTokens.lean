import TypedQuery.Proofs.ShownMoments
import TypedQuery.Text.Alphanumeric
/-!
The tokens that the text of a query is made of.

A name comes with the bracket or the colon behind it, and the head of a lambda is one token.
Commas, brackets and operators are tokens of their own.
-/
namespace TypedQuery
namespace Query

/-! ## Names and numbers -/

/-- Letters, digits and the underscore. -/
def isNameChar (c : Char) : Bool := Text.isAlphanumeric c || c = '_'

def isNameStart (c : Char) : Bool := isNameChar c && !c.isDigit

/-- A name: a letter or an underscore, then letters, digits and underscores. The keywords of
operators may be names, since blanks stand around operators. -/
def isIdentifier (name : String) : Bool :=
  match name.toList with
  | [] => false
  | c :: cs => isNameStart c && cs.all isNameChar

def IsSign (cs : List Char) : Prop := cs = [] ∨ cs = ['+'] ∨ cs = ['-']

def IsDigits (cs : List Char) : Prop := cs ≠ [] ∧ ∀ c ∈ cs, c.isDigit = true

/-- A point and digits. -/
def IsFraction (cs : List Char) : Prop := ∃ digits, cs = '.' :: digits ∧ IsDigits digits

def IsExponent (cs : List Char) : Prop :=
  ∃ e sign digits, cs = e :: (sign ++ digits) ∧ (e = 'e' ∨ e = 'E') ∧ IsSign sign ∧ IsDigits digits

def IsSuffix (cs : List Char) : Prop :=
  ∃ c ∈ ['m', 'M', 'l', 'L', 'f', 'F', 'd', 'D'], cs = [c]

/-- The text of a number: digits that a sign may stand before, and a fraction, an exponent and a
suffix behind. -/
def IsNumeral (text : String) : Prop :=
  ∃ sign whole fraction exponent suffix : List Char,
    text.toList = sign ++ whole ++ fraction ++ exponent ++ suffix ∧ IsSign sign ∧ IsDigits whole ∧
      (fraction = [] ∨ IsFraction fraction) ∧ (exponent = [] ∨ IsExponent exponent) ∧
      (suffix = [] ∨ IsSuffix suffix)

def isNumber : Query → Bool
  | .number _ => true
  | _ => false

mutual
/-- All names are identifiers and all numbers are numerals, and no member is accessed on a
number, whose text would run on. -/
def WellNamed : Query → Prop
  | .binary op l r => l.WellNamed ∧ r.WellNamed ∧
      (op = .dot → l.isNumber = false ∧ r.isNumber = false)
  | .call name args | .indexer name args => isIdentifier name = true ∧ EachWellNamed args
  | .symbol name => isIdentifier name = true
  | .lambda params body => (∀ name ∈ params, isIdentifier name = true) ∧ body.WellNamed
  | .number text => IsNumeral text
  | .array items => EachWellNamed items
  | .string _ | .guid _ | .dateTime _ => True

def EachWellNamed : List Query → Prop
  | [] => True
  | q :: qs => q.WellNamed ∧ EachWellNamed qs
end

theorem isNumber_shown (q : Query) : q.shown.isNumber = q.isNumber := by
  cases q <;> rfl

mutual
theorem wellNamed_shown : ∀ q : Query, q.WellNamed → q.shown.WellNamed
  | .binary _ l r, ⟨hl, hr, hdot⟩ => by
    rw [← isNumber_shown l, ← isNumber_shown r] at hdot
    exact ⟨wellNamed_shown l hl, wellNamed_shown r hr, hdot⟩
  | .call _ args, hq | .indexer _ args, hq => ⟨hq.1, eachWellNamed_shownEach args hq.2⟩
  | .lambda _ body, hq => ⟨hq.1, wellNamed_shown body hq.2⟩
  | .array items, hq => eachWellNamed_shownEach items hq
  | .symbol _, hq | .number _, hq => hq
  | .string _, _ | .guid _, _ | .dateTime _, _ => trivial

theorem eachWellNamed_shownEach : ∀ qs : List Query, EachWellNamed qs →
    EachWellNamed (shownEach qs)
  | [], _ => trivial
  | q :: qs, hqs => ⟨wellNamed_shown q hqs.1, eachWellNamed_shownEach qs hqs.2⟩
end

/-- The characters of numbers. -/
def isNumberChar (c : Char) : Bool := c.isAlphanum || c = '.' || c = '+' || c = '-'

/-- What a number begins with. -/
def isNumberStart (c : Char) : Bool := c.isDigit || c = '+' || c = '-'

theorem exists_cons_of_isIdentifier {name : String} (h : isIdentifier name = true) :
    ∃ c cs, name.toList = c :: cs ∧ isNameStart c = true := by
  unfold isIdentifier at h
  split at h
  · cases h
  · next c cs hname =>
    rw [Bool.and_eq_true] at h
    exact ⟨c, cs, hname, h.1⟩

theorem isNameChar_of_isIdentifier {name : String} (h : isIdentifier name = true) :
    ∀ c ∈ name.toList, isNameChar c = true := by
  unfold isIdentifier at h
  split at h
  · cases h
  · next c cs hname =>
    rw [isNameStart, Bool.and_eq_true, Bool.and_eq_true, List.all_eq_true] at h
    rw [hname]
    exact List.forall_mem_cons.mpr ⟨h.1.1, h.2⟩

theorem isNumberChar_of_isDigit {c : Char} (h : c.isDigit = true) : isNumberChar c = true := by
  simp [isNumberChar, Char.isAlphanum, h]

theorem IsSign.isNumberChar {cs : List Char} (h : IsSign cs) :
    ∀ c ∈ cs, Query.isNumberChar c = true := by
  rcases h with rfl | rfl | rfl
  · simp
  · exact List.forall_mem_singleton.mpr (by decide)
  · exact List.forall_mem_singleton.mpr (by decide)

theorem IsNumeral.isNumberChar {text : String} (h : IsNumeral text) :
    ∀ c ∈ text.toList, Query.isNumberChar c = true := by
  obtain ⟨sign, whole, fraction, exponent, suffix, htext, hsign, hwhole, hfraction, hexponent,
    hsuffix⟩ := h
  simp only [htext, List.forall_mem_append]
  refine ⟨⟨⟨⟨hsign.isNumberChar, fun c hc => isNumberChar_of_isDigit (hwhole.2 c hc)⟩, ?_⟩, ?_⟩, ?_⟩
  · rcases hfraction with rfl | ⟨digits, rfl, hdigits⟩
    · simp
    · exact List.forall_mem_cons.mpr
        ⟨by decide, fun c hc => isNumberChar_of_isDigit (hdigits.2 c hc)⟩
  · rcases hexponent with rfl | ⟨e, sign, digits, rfl, he, hsign, hdigits⟩
    · simp
    · refine List.forall_mem_cons.mpr ⟨by rcases he with rfl | rfl <;> decide, ?_⟩
      exact List.forall_mem_append.mpr
        ⟨hsign.isNumberChar, fun c hc => isNumberChar_of_isDigit (hdigits.2 c hc)⟩
  · have hletters : ['m', 'M', 'l', 'L', 'f', 'F', 'd', 'D'].all Query.isNumberChar = true := by
      decide
    rcases hsuffix with rfl | ⟨c, hc, rfl⟩
    · simp
    · exact List.forall_mem_singleton.mpr (List.all_eq_true.mp hletters c hc)

theorem IsNumeral.exists_cons {text : String} (h : IsNumeral text) :
    ∃ c cs, text.toList = c :: cs ∧ isNumberStart c = true := by
  obtain ⟨sign, whole, fraction, exponent, suffix, htext, hsign, hwhole, _⟩ := h
  rcases hsign with rfl | rfl | rfl
  · obtain ⟨c, cs, rfl⟩ := List.exists_cons_of_ne_nil hwhole.1
    refine ⟨c, cs ++ fraction ++ exponent ++ suffix, by simp [htext], ?_⟩
    simp [isNumberStart, hwhole.2 c]
  · exact ⟨'+', whole ++ fraction ++ exponent ++ suffix, by simp [htext], by decide⟩
  · exact ⟨'-', whole ++ fraction ++ exponent ++ suffix, by simp [htext], by decide⟩

/-! ## Brackets around operands -/

/-- How tightly a query holds together: as its operator binds, a lambda not at all, and more
than any operator whatever has no operands. -/
def strength : Query → Nat
  | .binary op _ _ => op.precedence
  | .lambda .. => 0
  | _ => 8

theorem precedence_pos (op : Operator) : 0 < op.precedence := by
  cases op with
  | value op => cases op <;> decide
  | _ => decide

theorem precedence_eq_dot {op : Operator} (h : Operator.dot.precedence ≤ op.precedence) :
    op = .dot := by
  cases op with
  | dot => rfl
  | isIn => exact absurd h (by decide)
  | value op => cases op <;> exact absurd h (by decide)

theorem needsParens_left {op : Operator} {q : Query} :
    needsParens op .left q = false ↔ op.precedence ≤ q.strength := by
  have hpos := precedence_pos op
  have hdot := op.precedence_le_dot
  cases q with
  | binary => simp [needsParens, strength]
  | lambda => simpa [needsParens, strength] using hpos.ne'
  | _ => simpa [needsParens, strength] using hdot.trans (by decide)

/-- On the right an operand has to hold together more tightly, unless members are accessed. -/
theorem needsParens_right {op : Operator} {q : Query} :
    needsParens op .right q = false ↔
      op.precedence ≤ q.strength ∧ (op = .dot ∨ op.precedence ≠ q.strength) := by
  have hpos := precedence_pos op
  have hdot : op.precedence ≤ 7 := op.precedence_le_dot
  cases q with
  | binary op' l r =>
    have hcomm : op'.precedence = op.precedence ↔ op.precedence = op'.precedence := eq_comm
    simp [needsParens, strength, hcomm, or_iff_not_imp_left]
  | lambda =>
    have hne : ¬ op.precedence ≤ 0 := by omega
    simp [needsParens, strength, hne]
  | _ =>
    have hle : op.precedence ≤ 8 := by omega
    have hne : op.precedence ≠ 8 := by omega
    simp [needsParens, strength, hle, hne]

/-! ## Tokens -/

inductive Bracket where
  | round | square

/-- What a bracket opens: an operand in brackets, the arguments of a call or of an indexer, or
the items of an array. -/
inductive Opening where
  | group
  | call (name : String)
  | indexer (name : String)
  | array

inductive Token where
  | operand (q : Query)
  | opening (o : Opening)
  | binder (params : List String)
  | operator (op : Operator)
  | comma
  | closing (b : Bracket)

namespace Token

def chars : Token → List Char
  | .operand q => q.text.toList
  | .opening .group => ['(']
  | .opening (.call name) => name.toList ++ ['(']
  | .opening (.indexer name) => name.toList ++ ['[']
  | .opening .array => ['[']
  | .binder params => (lambdaHead params).toList ++ [':']
  | .operator op => (separator op).toList
  | .comma => [',']
  | .closing .round => [')']
  | .closing .square => [']']

end Token

/-- Tokens between round brackets, if these are asked for. -/
def grouped (parens : Bool) (ts : List Token) : List Token :=
  if parens then .opening .group :: (ts ++ [.closing .round]) else ts

mutual
/-- The tokens of a query. -/
def tokens : Query → List Token
  | .binary op l r =>
    grouped (needsParens op .left l) l.tokens ++
      .operator op :: grouped (needsParens op .right r) r.tokens
  | .call name args => .opening (.call name) :: (tokensEach args ++ [.closing .round])
  | .indexer name args => .opening (.indexer name) :: (tokensEach args ++ [.closing .square])
  | .lambda params body => .binder params :: body.tokens
  | .array items => .opening .array :: (tokensEach items ++ [.closing .square])
  | .symbol name => [.operand (.symbol name)]
  | .string value => [.operand (.string value)]
  | .number text => [.operand (.number text)]
  | .guid value => [.operand (.guid value)]
  | .dateTime value => [.operand (.dateTime value)]

/-- The tokens of queries with commas between them. -/
def tokensEach : List Query → List Token
  | [] => []
  | [q] => q.tokens
  | q :: q' :: qs => q.tokens ++ .comma :: tokensEach (q' :: qs)
end

theorem toList_enclosed {q : Query} (parens : Bool)
    (h : q.text.toList = q.tokens.flatMap Token.chars) :
    (enclosed parens q.text).toList = (grouped parens q.tokens).flatMap Token.chars := by
  cases parens <;> simp [enclosed, grouped, h, String.toList_append, Token.chars]

mutual
/-- A text is what its tokens are written with. -/
theorem toList_text : ∀ q : Query, q.text.toList = q.tokens.flatMap Token.chars
  | .binary op l r => by
    have hl := toList_enclosed (needsParens op .left l) (toList_text l)
    have hr := toList_enclosed (needsParens op .right r) (toList_text r)
    rw [text, tokens, String.toList_append, String.toList_append, hl, hr]
    simp [Token.chars]
  | .call _ args | .indexer _ args => by
    have hargs := toList_texts args
    simp [text, tokens, hargs, String.toList_append, Token.chars]
  | .lambda params body => by
    simp [text, tokens, toList_text body, String.toList_append, Token.chars]
  | .array items => by
    have hitems := toList_texts items
    simp [text, tokens, hitems, String.toList_append, Token.chars]
  | .symbol _ | .string _ | .number _ | .guid _ | .dateTime _ => by simp [tokens, Token.chars]

theorem toList_texts : ∀ qs : List Query,
    (",".intercalate (texts qs)).toList = (tokensEach qs).flatMap Token.chars
  | [] => rfl
  | [q] => by
    rw [tokensEach, ← toList_text q]
    simp [texts]
  | q :: q' :: qs => by
    have hrest := toList_texts (q' :: qs)
    rw [String.toList_intercalate, texts, List.map_cons] at hrest ⊢
    rw [texts, List.map_cons, List.intercalate_cons_cons, hrest, toList_text q]
    simp [tokensEach, Token.chars]
end

end Query
end TypedQuery
