import TypedQuery.Proofs.QueryTokens
/-!
How the tokens of a query are told apart.

Each token shows by its first characters what it is, and it ends where its neighbour begins. The
only mark that two kinds of tokens begin with is the round bracket: what stands in brackets by
itself is an operation or a lambda, and neither begins like a list of names.
-/
namespace TypedQuery
namespace Query

/-! ## Reading a token -/

/-- The rest of a list of names up to the bracket and the colon behind it. The first of these
names ends with the characters read so far, the last of them first. -/
def readParams? (read : List Char) : List Char → Option (List String × List Char)
  | ')' :: ':' :: cs => some ([String.ofList read.reverse], cs)
  | ',' :: cs =>
    (readParams? [] cs).map fun (params, rest) => (String.ofList read.reverse :: params, rest)
  | c :: cs => if isNameChar c then readParams? (c :: read) cs else none
  | [] => none

/-- The head of a lambda behind its first bracket, or else what this bracket groups. -/
def readRound (cs : List Char) : Token × List Char :=
  match cs with
  | ')' :: ':' :: rest => (.binder [], rest)
  | cs =>
    match readParams? [] cs with
    | some (params, rest) => (.binder params, rest)
    | none => (.opening .group, cs)

/-- The literal that a name and a quote begin. -/
def readLiteral? (name : String) (cs : List Char) : Option (Token × List Char) :=
  let inner := cs.takeWhile (· != '\'')
  let rest := (cs.dropWhile (· != '\'')).drop 1
  if name = "guid" then (Guid.read? inner).map fun g => (.operand (.guid g), rest)
  else if name = "datetime" then
    (DateTime.read? inner).map fun d => (.operand (.dateTime d), rest)
  else none

/-- The token that a name is part of. -/
def readNamed? (name : String) : List Char → Option (Token × List Char)
  | '(' :: rest => some (.opening (.call name), rest)
  | '[' :: rest => some (.opening (.indexer name), rest)
  | ':' :: rest => some (.binder [name], rest)
  | '\'' :: rest => readLiteral? name rest
  | rest => some (.operand (.symbol name), rest)

def readOperator? (cs : List Char) : Option (Token × List Char) :=
  Operator.all.findSome? fun op =>
    ((separator op).toList.isPrefixOf? cs).map fun rest => (.operator op, rest)

/-- The token that begins with a mark. -/
def readMark? (cs : List Char) : Option (Token × List Char) :=
  match cs with
  | '\'' :: rest =>
    (unquote? rest).map fun (value, rest) => (.operand (.string (String.ofList value)), rest)
  | '(' :: rest => some (readRound rest)
  | '[' :: rest => some (.opening .array, rest)
  | ')' :: rest => some (.closing .round, rest)
  | ']' :: rest => some (.closing .square, rest)
  | ',' :: rest => some (.comma, rest)
  | cs => readOperator? cs

/-- The first token of a text, and what follows it. -/
def readToken? (cs : List Char) : Option (Token × List Char) :=
  match cs with
  | [] => none
  | c :: _ =>
    if isNameStart c then
      readNamed? (String.ofList (cs.takeWhile isNameChar)) (cs.dropWhile isNameChar)
    else if isNumberStart c then
      some (.operand (.number (String.ofList (cs.takeWhile isNumberChar))),
        cs.dropWhile isNumberChar)
    else readMark? cs

/-! ## Neighbours -/

/-- The first character that is no part of a name does not go on with a list of names. -/
def LeavesNames (cs : List Char) : Prop :=
  ∃ c rest, cs.dropWhile isNameChar = c :: rest ∧ c ≠ ',' ∧ c ≠ ')'

namespace Token

/-- Names are identifiers, numbers are numerals and moments are regular, and operands are symbols
and literals. -/
def Valid : Token → Prop
  | .operand (.symbol name) | .opening (.call name) | .opening (.indexer name) =>
    isIdentifier name = true
  | .operand (.number text) => IsNumeral text
  | .operand (.dateTime d) => d.Regular
  | .operand (.string _) | .operand (.guid _) => True
  | .operand _ => False
  | .binder params => ∀ name ∈ params, isIdentifier name = true
  | .opening .group | .opening .array | .operator _ | .comma | .closing _ => True

/-- The token ends where the text `cs` begins. -/
def Ends : Token → List Char → Prop
  | .operand (.symbol _), cs => ∀ c ∈ cs.head?, isNameChar c = false ∧ c ∉ ['(', '[', ':', '\'']
  | .operand (.number _), cs => ∀ c ∈ cs.head?, isNumberChar c = false
  | .operand (.string _), cs => ∀ c ∈ cs.head?, c ≠ '\''
  | .opening .group, cs => LeavesNames cs
  | _, _ => True

end Token

theorem readParams?_append {name : List Char} (hname : ∀ c ∈ name, isNameChar c = true)
    (read rest : List Char) :
    readParams? read (name ++ rest) = readParams? (name.reverse ++ read) rest := by
  induction name generalizing read with
  | nil => rfl
  | cons c name ih =>
    obtain ⟨hc, hname⟩ := List.forall_mem_cons.mp hname
    rw [List.cons_append, readParams?, if_pos hc, ih hname]
    · simp
    · rintro cs rfl
      exact absurd hc (by decide)
    · rintro rfl
      exact absurd hc (by decide)

/-- The names of a head with several parameters, the first of them apart. -/
theorem toList_intercalate_cons (name : String) (params : List String) :
    (",".intercalate (name :: params)).toList = name.toList ++
      params.flatMap fun param => ',' :: param.toList := by
  induction params generalizing name with
  | nil => simp
  | cons param params ih =>
    rw [String.toList_intercalate, List.map_cons, List.map_cons, List.intercalate_cons_cons,
      ← List.map_cons, ← String.toList_intercalate, ih]
    simp

theorem readParams?_intercalate {name : String} {params : List String} (rest : List Char)
    (hnames : ∀ n ∈ name :: params, isIdentifier n = true) :
    readParams? [] ((",".intercalate (name :: params)).toList ++ ')' :: ':' :: rest) =
      some (name :: params, rest) := by
  rw [toList_intercalate_cons, List.append_assoc]
  induction params generalizing name with
  | nil =>
    have hname := isNameChar_of_isIdentifier (hnames name List.mem_cons_self)
    rw [readParams?_append hname]
    simp [readParams?]
  | cons param params ih =>
    obtain ⟨hname, hparams⟩ := List.forall_mem_cons.mp hnames
    rw [readParams?_append (isNameChar_of_isIdentifier hname), List.flatMap_cons,
      List.cons_append, List.cons_append, List.append_assoc, readParams?, ih hparams]
    simp

theorem readParams?_eq_none {read cs : List Char} (h : LeavesNames cs) :
    readParams? read cs = none := by
  obtain ⟨c, rest, hdrop, hcomma, hround⟩ := h
  induction cs generalizing read with
  | nil => cases hdrop
  | cons d cs ih =>
    rw [List.dropWhile_cons] at hdrop
    split at hdrop
    · next hd =>
      rw [readParams?, if_pos hd, ih hdrop]
      · rintro cs rfl
        exact absurd hd (by decide)
      · rintro rfl
        exact absurd hd (by decide)
    · next hd =>
      cases hdrop
      rw [readParams?, if_neg hd]
      · rintro _ rfl _
        exact hround rfl
      · exact fun h => hcomma h

theorem readRound_of_leavesNames {cs : List Char} (h : LeavesNames cs) :
    readRound cs = (.opening .group, cs) := by
  unfold readRound
  split
  · next rest =>
    obtain ⟨c, _, hdrop, _, hround⟩ := h
    rw [List.dropWhile_cons_of_neg (by decide)] at hdrop
    cases hdrop
    exact absurd rfl hround
  · rw [readParams?_eq_none h]

theorem readRound_params {name : String} {params : List String} (rest : List Char)
    (hnames : ∀ n ∈ name :: params, isIdentifier n = true) :
    readRound ((",".intercalate (name :: params)).toList ++ ')' :: ':' :: rest) =
      (.binder (name :: params), rest) := by
  unfold readRound
  split
  · next heq =>
    obtain ⟨c, cs, hname, hc⟩ := exists_cons_of_isIdentifier (hnames name List.mem_cons_self)
    rw [toList_intercalate_cons, hname] at heq
    obtain ⟨rfl, _⟩ := List.cons.inj heq
    exact absurd hc (by decide)
  · rw [readParams?_intercalate rest hnames]

theorem readOperator?_separator (op : Operator) (rest : List Char) :
    readOperator? ((separator op).toList ++ rest) = some (.operator op, rest) := by
  cases op with
  | value op => cases op <;> rfl
  | _ => rfl

theorem takeWhile_append_of_head? {p : Char → Bool} {cs rest : List Char}
    (hcs : ∀ c ∈ cs, p c = true) (hrest : ∀ c ∈ rest.head?, p c = false) :
    (cs ++ rest).takeWhile p = cs ∧ (cs ++ rest).dropWhile p = rest := by
  rw [List.takeWhile_append_of_pos hcs, List.dropWhile_append_of_pos hcs]
  cases rest with
  | nil => simp
  | cons c rest => simp [hrest c rfl]

theorem readToken?_named {name : String} {rest : List Char} (hname : isIdentifier name = true)
    (hrest : ∀ c ∈ rest.head?, isNameChar c = false) :
    readToken? (name.toList ++ rest) = readNamed? name rest := by
  obtain ⟨c, cs, hcs, hc⟩ := exists_cons_of_isIdentifier hname
  obtain ⟨htake, hdrop⟩ := takeWhile_append_of_head? (isNameChar_of_isIdentifier hname) hrest
  rw [hcs, List.cons_append] at htake hdrop ⊢
  rw [readToken?, if_pos hc, htake, hdrop, ← hcs, String.ofList_toList]

theorem readToken?_mark {c : Char} {cs : List Char} (hname : isNameStart c = false)
    (hnumber : isNumberStart c = false) : readToken? (c :: cs) = readMark? (c :: cs) := by
  simp [readToken?, hname, hnumber]

theorem readToken?_operator (op : Operator) (rest : List Char) :
    readToken? ((separator op).toList ++ rest) = some (.operator op, rest) := by
  have hmark : readToken? ((separator op).toList ++ rest) =
      readMark? ((separator op).toList ++ rest) := by
    cases op with
    | value op => cases op <;> exact readToken?_mark (by decide) (by decide)
    | _ => exact readToken?_mark (by decide) (by decide)
  have hoperator : readMark? ((separator op).toList ++ rest) =
      readOperator? ((separator op).toList ++ rest) := by
    cases op with
    | value op => cases op <;> rfl
    | _ => rfl
  rw [hmark, hoperator, readOperator?_separator]

theorem readToken?_symbol {name : String} {rest : List Char} (hname : isIdentifier name = true)
    (hends : Token.Ends (.operand (.symbol name)) rest) :
    readToken? (name.toList ++ rest) = some (.operand (.symbol name), rest) := by
  rw [readToken?_named hname fun c hc => (hends c hc).1]
  unfold readNamed?
  split
  · exact absurd (hends '(' rfl).2 (by decide)
  · exact absurd (hends '[' rfl).2 (by decide)
  · exact absurd (hends ':' rfl).2 (by decide)
  · exact absurd (hends '\'' rfl).2 (by decide)
  · rfl

theorem readToken?_number {text : String} {rest : List Char} (htext : IsNumeral text)
    (hends : ∀ c ∈ rest.head?, isNumberChar c = false) :
    readToken? (text.toList ++ rest) = some (.operand (.number text), rest) := by
  obtain ⟨c, cs, hcs, hc⟩ := htext.exists_cons
  obtain ⟨htake, hdrop⟩ := takeWhile_append_of_head? htext.isNumberChar hends
  have hname : isNameStart c = false := by
    simp only [isNumberStart, Bool.or_eq_true, decide_eq_true_eq] at hc
    rcases hc with (hc | rfl) | rfl
    · simp [isNameStart, hc]
    · decide
    · decide
  rw [hcs, List.cons_append] at htake hdrop ⊢
  rw [readToken?, hname, if_neg Bool.false_ne_true, if_pos hc, htake, hdrop, ← hcs,
    String.ofList_toList]

theorem readToken?_string (value : String) {rest : List Char} (hends : ∀ c ∈ rest.head?, c ≠ '\'') :
    readToken? ((quote value).toList ++ rest) = some (.operand (.string value), rest) := by
  rw [toList_quote, List.cons_append, readToken?_mark (by decide) (by decide), readMark?,
    List.append_assoc, List.singleton_append, unquote?_doubled hends]
  simp

/-- A literal between quotes behind a name. -/
theorem readToken?_literal {name : String} {inner rest : List Char}
    (hname : isIdentifier name = true) (hinner : '\'' ∉ inner) :
    readToken? (name.toList ++ '\'' :: (inner ++ '\'' :: rest)) =
      if name = "guid" then (Guid.read? inner).map fun g => (.operand (.guid g), rest)
      else if name = "datetime" then
        (DateTime.read? inner).map fun d => (.operand (.dateTime d), rest)
      else none := by
  have hquote : ∀ c ∈ inner, (c != '\'') = true := by
    intro c hc
    rw [bne_iff_ne]
    rintro rfl
    exact hinner hc
  obtain ⟨htake, hdrop⟩ :=
    @takeWhile_append_of_head? (· != '\'') inner ('\'' :: rest) hquote (by simp)
  rw [readToken?_named hname (by simp; decide), readNamed?, readLiteral?, htake, hdrop]
  rfl

theorem readToken?_guid (g : Guid) (rest : List Char) :
    readToken? ((Query.guid g).text.toList ++ rest) = some (.operand (.guid g), rest) := by
  have hread := @readToken?_literal "guid" g.text rest (by decide) g.quote_not_mem_text
  rw [if_pos rfl, Guid.read?_text, Option.map_some] at hread
  rw [← hread, text]
  simp

theorem readToken?_dateTime {d : DateTime} (hd : d.Regular) (rest : List Char) :
    readToken? ((Query.dateTime d).text.toList ++ rest) = some (.operand (.dateTime d), rest) := by
  have hread := @readToken?_literal "datetime" d.literalText rest (by decide)
    d.quote_not_mem_literalText
  rw [if_neg (by decide), if_pos rfl, DateTime.read?_literalText, Option.map_some,
    DateTime.shown_eq_self_iff.mpr hd] at hread
  rw [← hread, text]
  simp

theorem readToken?_binder {params : List String} (rest : List Char)
    (hparams : ∀ name ∈ params, isIdentifier name = true) :
    readToken? ((Token.binder params).chars ++ rest) = some (.binder params, rest) := by
  match params, hparams with
  | [], _ => exact readToken?_mark (by decide) (by decide)
  | [name], hparams =>
    have hname := hparams name List.mem_cons_self
    rw [Token.chars, lambdaHead, List.append_assoc, readToken?_named hname (by simp; decide)]
    rfl
  | name :: param :: params, hparams =>
    have hchars : (Token.binder (name :: param :: params)).chars ++ rest =
        '(' :: ((",".intercalate (name :: param :: params)).toList ++ ')' :: ':' :: rest) := by
      simp [Token.chars, lambdaHead]
    rw [hchars, readToken?_mark (by decide) (by decide), readMark?, readRound_params rest hparams]

/-- A token is read as it was written, whatever stands behind its end. -/
theorem readToken?_chars {t : Token} {rest : List Char} (hvalid : t.Valid) (hends : t.Ends rest) :
    readToken? (t.chars ++ rest) = some (t, rest) := by
  cases t with
  | operand q =>
    cases q with
    | symbol name => exact readToken?_symbol hvalid hends
    | number text => exact readToken?_number hvalid hends
    | string value => exact readToken?_string value hends
    | guid g => exact readToken?_guid g rest
    | dateTime d => exact readToken?_dateTime hvalid rest
    | _ => cases hvalid
  | opening o =>
    cases o with
    | group =>
      rw [← readRound_of_leavesNames hends]
      exact readToken?_mark (by decide) (by decide)
    | call name | indexer name =>
      rw [Token.chars, List.append_assoc, readToken?_named hvalid (by simp; decide)]
      rfl
    | array => exact readToken?_mark (by decide) (by decide)
  | binder params => exact readToken?_binder rest hvalid
  | operator op => exact readToken?_operator op rest
  | comma => exact readToken?_mark (by decide) (by decide)
  | closing b => cases b <;> exact readToken?_mark (by decide) (by decide)

/-! ## Reading all tokens -/

/-- Each token is valid and ends where the next one begins. -/
def Separated : List Token → Prop
  | [] => True
  | t :: ts => t.Valid ∧ t.Ends (ts.flatMap Token.chars) ∧ Separated ts

/-- Separated tokens are known by their characters. -/
theorem eq_of_flatMap_chars_eq {ts us : List Token} (hts : Separated ts) (hus : Separated us)
    (h : ts.flatMap Token.chars = us.flatMap Token.chars) : ts = us := by
  induction ts generalizing us with
  | nil =>
    cases us with
    | nil => rfl
    | cons u us =>
      have hread := readToken?_chars hus.1 hus.2.1
      rw [← List.flatMap_cons, ← h] at hread
      cases hread
  | cons t ts ih =>
    cases us with
    | nil =>
      have hread := readToken?_chars hts.1 hts.2.1
      rw [← List.flatMap_cons, h] at hread
      cases hread
    | cons u us =>
      rw [List.flatMap_cons, List.flatMap_cons] at h
      have hread := readToken?_chars hts.1 hts.2.1
      rw [h, readToken?_chars hus.1 hus.2.1] at hread
      obtain ⟨rfl, hrest⟩ := Prod.mk.inj (Option.some.inj hread)
      rw [ih hts.2.2 hus.2.2 hrest.symm]

/-! ## The tokens of a query are separated -/

/-- What may stand behind a query: the end, a comma, a closing bracket, or an operator that the
query is the left operand of without brackets. -/
def Follows (q : Query) : List Token → Prop
  | [] | .comma :: _ | .closing _ :: _ => True
  | .operator op :: _ => needsParens op .left q = false
  | .operand _ :: _ | .opening _ :: _ | .binder _ :: _ => False

/-- What may stand behind a text: the point of a member access would run on from a number. -/
def Borders (q : Query) (rest : List Token) : Prop :=
  q.Follows rest ∧ (q.isNumber = true → ∀ ts, rest ≠ .operator .dot :: ts)

theorem borders_comma (q : Query) (rest : List Token) : q.Borders (.comma :: rest) :=
  ⟨trivial, fun _ _ h => nomatch h⟩

theorem borders_closing (q : Query) (b : Bracket) (rest : List Token) :
    q.Borders (.closing b :: rest) :=
  ⟨trivial, fun _ _ h => nomatch h⟩

/-- The characters that may stand behind a query. -/
def boundary : List Char := [' ', '.', ')', ']', ',']

theorem Follows.mem_boundary {q : Query} {rest : List Token} (h : q.Follows rest) :
    ∀ c ∈ (rest.flatMap Token.chars).head?, c ∈ boundary := by
  cases rest with
  | nil => simp
  | cons t rest =>
    cases t with
    | operand | opening | binder => cases h
    | comma => simp [Token.chars, boundary]
    | closing b => cases b <;> simp [Token.chars, boundary]
    | operator op =>
      cases op with
      | value op => cases op <;> simp [Token.chars, separator, boundary]
      | _ => simp [Token.chars, separator, boundary]

theorem Borders.isNumberChar {text : String} {rest : List Token}
    (h : (Query.number text).Borders rest) :
    ∀ c ∈ (rest.flatMap Token.chars).head?, isNumberChar c = false := by
  have hmarks : boundary.all (fun c => c = '.' || !Query.isNumberChar c) = true := by decide
  intro c hc
  have hmark := List.all_eq_true.mp hmarks c (h.1.mem_boundary c hc)
  rw [Bool.or_eq_true, decide_eq_true_eq, Bool.not_eq_true'] at hmark
  refine hmark.resolve_left ?_
  rintro rfl
  cases rest with
  | nil => cases hc
  | cons t rest =>
    cases t with
    | operand | opening | binder => cases h.1
    | comma => cases hc
    | closing b => cases b <;> cases hc
    | operator op =>
      cases op with
      | dot => exact h.2 rfl rest rfl
      | isIn => cases hc
      | value op => cases op <;> cases hc

/-- What stands behind an operation stands behind its right operand, if that has no brackets. -/
theorem Follows.right {op : Operator} {l r : Query} {rest : List Token}
    (h : (Query.binary op l r).Follows rest) (hr : needsParens op .right r = false) :
    r.Follows rest := by
  cases rest with
  | nil => trivial
  | cons t rest =>
    cases t with
    | operator op' =>
      exact needsParens_left.mpr ((needsParens_left.mp h).trans (needsParens_right.mp hr).1)
    | _ => exact h

theorem Borders.right {op : Operator} {l r : Query} {rest : List Token}
    (h : (Query.binary op l r).Borders rest) (hdot : op = .dot → r.isNumber = false)
    (hr : needsParens op .right r = false) : r.Borders rest := by
  refine ⟨h.1.right hr, ?_⟩
  rintro hnumber ts rfl
  have hle : Operator.dot.precedence ≤ op.precedence := needsParens_left.mp h.1
  rw [hdot (precedence_eq_dot hle)] at hnumber
  cases hnumber

/-- No operator stands behind a lambda, so what does stand there stands behind its body. -/
theorem Follows.body {params : List String} {body : Query} {rest : List Token}
    (h : (Query.lambda params body).Follows rest) : body.Follows rest := by
  cases rest with
  | nil => trivial
  | cons t rest =>
    cases t with
    | operator op => cases h
    | _ => exact h

theorem Borders.body {params : List String} {body : Query} {rest : List Token}
    (h : (Query.lambda params body).Borders rest) : body.Borders rest := by
  refine ⟨h.1.body, ?_⟩
  rintro _ ts rfl
  cases h.1

/-! ## What stands between brackets -/

theorem leavesNames_cons {c : Char} {rest : List Char} (hname : isNameChar c = false)
    (hcomma : c ≠ ',') (hround : c ≠ ')') : LeavesNames (c :: rest) :=
  ⟨c, rest, by rw [List.dropWhile_cons_of_neg (by simp [hname])], hcomma, hround⟩

theorem leavesNames_append {cs rest : List Char}
    (hcs : ∀ c ∈ cs, isNameChar c = true ∨ c ≠ ',' ∧ c ≠ ')') (hrest : LeavesNames rest) :
    LeavesNames (cs ++ rest) := by
  induction cs with
  | nil => exact hrest
  | cons c cs ih =>
    obtain ⟨hc, hcs⟩ := List.forall_mem_cons.mp hcs
    cases hname : isNameChar c with
    | true =>
      obtain ⟨d, tail, hdrop, hd⟩ := ih hcs
      exact ⟨d, tail, by rw [List.cons_append, List.dropWhile_cons_of_pos hname, hdrop], hd⟩
    | false =>
      rcases hc with hc | hc
      · exact absurd hc (by simp [hname])
      · exact leavesNames_cons hname hc.1 hc.2

theorem leavesNames_name {name : String} {rest : List Char} (hname : isIdentifier name = true)
    (hrest : LeavesNames rest) : LeavesNames (name.toList ++ rest) :=
  leavesNames_append (fun c hc => .inl (isNameChar_of_isIdentifier hname c hc)) hrest

/-- A name with another mark behind it than those in a list of names. -/
theorem leavesNames_named {name : String} (hname : isIdentifier name = true) (c : Char)
    (rest : List Char) (hc : c ∈ ['(', '[', ':', '\''] := by decide) :
    LeavesNames (name.toList ++ c :: rest) := by
  have hmarks : ['(', '[', ':', '\''].all (fun c => !isNameChar c && c ∉ [',', ')']) = true := by
    decide
  have hmark := List.all_eq_true.mp hmarks c hc
  simp only [Bool.and_eq_true, Bool.not_eq_true', decide_eq_true_eq, List.mem_cons,
    List.not_mem_nil, or_false, not_or] at hmark
  exact leavesNames_name hname (leavesNames_cons hmark.1 hmark.2.1 hmark.2.2)

theorem leavesNames_number {text : String} {rest : List Char} (htext : IsNumeral text)
    (hrest : LeavesNames rest) : LeavesNames (text.toList ++ rest) := by
  refine leavesNames_append (fun c hc => .inr ?_) hrest
  have hnumber := htext.isNumberChar c hc
  constructor
  · rintro rfl
    exact absurd hnumber (by decide)
  · rintro rfl
    exact absurd hnumber (by decide)

theorem leavesNames_separator (op : Operator) (rest : List Char) :
    LeavesNames ((separator op).toList ++ rest) := by
  cases op with
  | value op => cases op <;> exact leavesNames_cons (by decide) (by decide) (by decide)
  | _ => exact leavesNames_cons (by decide) (by decide) (by decide)

theorem leavesNames_lambda {params : List String}
    (hparams : ∀ name ∈ params, isIdentifier name = true) (body : Query) (rest : List Char) :
    LeavesNames ((Query.lambda params body).text.toList ++ rest) := by
  match params, hparams with
  | [], _ =>
    simp only [text, lambdaHead, String.toList_append]
    exact leavesNames_cons (by decide) (by decide) (by decide)
  | [name], hparams =>
    simp only [text, lambdaHead, String.toList_append, List.append_assoc]
    exact leavesNames_named (hparams name List.mem_cons_self) ':' _
  | name :: param :: params, _ =>
    simp only [text, lambdaHead, String.toList_append, List.append_assoc]
    exact leavesNames_cons (by decide) (by decide) (by decide)

theorem leavesNames_binary (op : Operator) {l : Query} (r : Query) (rest : List Char)
    (hl : ∀ {rest}, LeavesNames rest → LeavesNames (l.text.toList ++ rest)) :
    LeavesNames ((Query.binary op l r).text.toList ++ rest) := by
  simp only [text, String.toList_append, List.append_assoc]
  cases needsParens op .left l with
  | true =>
    simp only [enclosed, if_true, String.toList_append, List.append_assoc]
    exact leavesNames_cons (by decide) (by decide) (by decide)
  | false => exact hl (leavesNames_separator op _)

theorem leavesNames_text :
    ∀ q : Query, q.WellNamed → ∀ {rest}, LeavesNames rest → LeavesNames (q.text.toList ++ rest)
  | .binary op l r, hq, _, _ => leavesNames_binary op r _ (leavesNames_text l hq.1)
  | .lambda _ body, hq, _, _ => leavesNames_lambda hq.1 body _
  | .symbol _, hq, _, hrest => leavesNames_name hq hrest
  | .number _, hq, _, hrest => leavesNames_number hq hrest
  | .call name args, hq, rest, _ => by
    simp only [text, String.toList_append, List.append_assoc]
    exact leavesNames_named hq.1 '(' _
  | .indexer name args, hq, rest, _ => by
    simp only [text, String.toList_append, List.append_assoc]
    exact leavesNames_named hq.1 '[' _
  | .string value, _, rest, _ => by
    rw [text, toList_quote, List.cons_append]
    exact leavesNames_cons (by decide) (by decide) (by decide)
  | .guid value, _, rest, _ => by
    have hname : "guid'".toList = "guid".toList ++ ['\''] := rfl
    simp only [text, String.toList_append, List.append_assoc, hname]
    exact leavesNames_named (by decide) '\'' _
  | .dateTime value, _, rest, _ => by
    have hname : "datetime'".toList = "datetime".toList ++ ['\''] := rfl
    simp only [text, String.toList_append, List.append_assoc, hname]
    exact leavesNames_named (by decide) '\'' _
  | .array items, _, rest, _ => by
    simp only [text, String.toList_append, List.append_assoc]
    exact leavesNames_cons (by decide) (by decide) (by decide)

/-- An operand in brackets does not begin like a list of names. -/
theorem leavesNames_of_needsParens {op : Operator} {side : Side} {q : Query} (hq : q.WellNamed)
    (h : needsParens op side q = true) (rest : List Char) :
    LeavesNames (q.text.toList ++ rest) := by
  cases q with
  | binary op l r => exact leavesNames_binary op r rest (leavesNames_text l hq.1)
  | lambda params body => exact leavesNames_lambda hq.1 body rest
  | _ => cases h

/-! ## The tokens of a query -/

theorem separated_grouped {op : Operator} {side : Side} {q : Query} {rest : List Token}
    (hq : q.WellNamed)
    (hseparated : ∀ {rest}, q.Borders rest → Separated rest → Separated (q.tokens ++ rest))
    (hborders : needsParens op side q = false → q.Borders rest) (hrest : Separated rest) :
    Separated (grouped (needsParens op side q) q.tokens ++ rest) := by
  cases hparens : needsParens op side q with
  | false => exact hseparated (hborders hparens) hrest
  | true =>
    have hclosing : Separated (.closing .round :: rest) := ⟨trivial, trivial, hrest⟩
    have hends : LeavesNames ((q.tokens ++ .closing .round :: rest).flatMap Token.chars) := by
      rw [List.flatMap_append, ← toList_text]
      exact leavesNames_of_needsParens hq hparens _
    simp only [grouped, if_true, List.cons_append, List.append_assoc]
    exact ⟨trivial, hends, hseparated (borders_closing q .round rest) hclosing⟩

mutual
theorem separated_tokens : ∀ q : Query, q.WellNamed → q.Regular → ∀ {rest : List Token},
    q.Borders rest → Separated rest → Separated (q.tokens ++ rest)
  | .binary op l r, hq, hmoments, rest, hborders, hrest => by
    obtain ⟨hl, hr, hdot⟩ := hq
    have hright : Separated (grouped (needsParens op .right r) r.tokens ++ rest) :=
      separated_grouped hr (separated_tokens r hr hmoments.2)
        (hborders.right fun h => (hdot h).2) hrest
    have hleft : needsParens op .left l = false →
        l.Borders (.operator op :: (grouped (needsParens op .right r) r.tokens ++ rest)) := by
      refine fun hparens => ⟨hparens, ?_⟩
      rintro hnumber ts ⟨⟩
      rw [(hdot rfl).1] at hnumber
      cases hnumber
    rw [tokens, List.append_assoc, List.cons_append]
    exact separated_grouped hl (separated_tokens l hl hmoments.1) hleft ⟨trivial, trivial, hright⟩
  | .call _ args, hq, hmoments, rest, _, hrest | .indexer _ args, hq, hmoments, rest, _, hrest => by
    rw [tokens, List.cons_append, List.append_assoc]
    exact ⟨hq.1, trivial, separated_tokensEach args hq.2 hmoments hrest⟩
  | .lambda params body, hq, hmoments, rest, hborders, hrest =>
    ⟨hq.1, trivial, separated_tokens body hq.2 hmoments hborders.body hrest⟩
  | .array items, hq, hmoments, rest, _, hrest => by
    rw [tokens, List.cons_append, List.append_assoc]
    exact ⟨trivial, trivial, separated_tokensEach items hq hmoments hrest⟩
  | .symbol name, hq, _, rest, hborders, hrest => by
    have hmarks : boundary.all (fun c => !isNameChar c && c ∉ ['(', '[', ':', '\'']) = true := by
      decide
    refine ⟨hq, fun c hc => ?_, hrest⟩
    simpa using List.all_eq_true.mp hmarks c (hborders.1.mem_boundary c hc)
  | .string value, _, _, rest, hborders, hrest => by
    have hquote : '\'' ∉ boundary := by decide
    refine ⟨trivial, fun c hc => ?_, hrest⟩
    rintro rfl
    exact hquote (hborders.1.mem_boundary _ hc)
  | .number text, hq, _, rest, hborders, hrest => ⟨hq, hborders.isNumberChar, hrest⟩
  | .guid _, _, _, _, _, hrest => ⟨trivial, trivial, hrest⟩
  | .dateTime _, _, hmoment, _, _, hrest => ⟨hmoment, trivial, hrest⟩

theorem separated_tokensEach : ∀ qs : List Query, EachWellNamed qs → EachRegular qs →
    ∀ {b : Bracket} {rest : List Token}, Separated rest →
      Separated (tokensEach qs ++ ([.closing b] ++ rest))
  | [], _, _, b, rest, hrest => ⟨trivial, trivial, hrest⟩
  | [q], hqs, hmoments, b, rest, hrest =>
    separated_tokens q hqs.1 hmoments.1 (borders_closing q b rest) ⟨trivial, trivial, hrest⟩
  | q :: q' :: qs, hqs, hmoments, b, rest, hrest => by
    rw [tokensEach, List.append_assoc]
    exact separated_tokens q hqs.1 hmoments.1 (borders_comma q _)
      ⟨trivial, trivial, separated_tokensEach (q' :: qs) hqs.2 hmoments.2 hrest⟩
end

/-- The text of a query shows its tokens. -/
theorem tokens_eq_of_text_eq {q q' : Query} (hq : q.WellNamed) (hq' : q'.WellNamed)
    (hmoments : q.Regular) (hmoments' : q'.Regular) (h : q.text = q'.text) :
    q.tokens = q'.tokens := by
  have hseparated := @separated_tokens q hq hmoments [] ⟨trivial, fun _ _ h => nomatch h⟩ trivial
  have hseparated' :=
    @separated_tokens q' hq' hmoments' [] ⟨trivial, fun _ _ h => nomatch h⟩ trivial
  rw [List.append_nil] at hseparated hseparated'
  refine eq_of_flatMap_chars_eq hseparated hseparated' ?_
  rw [← toList_text, ← toList_text, h]

end Query
end TypedQuery
