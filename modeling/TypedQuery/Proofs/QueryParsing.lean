import TypedQuery.Proofs.QueryLexing
import TypedQuery.Proofs.Reassociation
/-!
The tokens of a query tell how it is grouped.

They are read from the left, with the operations that still wait for their right operand on a
stack. An operator closes all those on the stack that bind as tightly as itself, and a comma, a
closing bracket or the end closes all of them. What comes out is the query, with its member
accesses grouped from the left.
-/
namespace TypedQuery
namespace Query

/-! ## A parser -/

/-- A query on the way: the parameters of the lambdas whose body it is, the innermost first, and
the left operands that wait for a right one, the last of them first. -/
structure Item where
  binders : List (List String)
  pending : List (Query × Operator)

/-- An open bracket: the item it stands in, and the items between its commas so far. -/
structure Level where
  outer : Item
  opening : Opening
  items : List Query

/-- Close the operations on a stack that bind at least as tightly as `strength`. -/
def reduce (strength : Nat) : List (Query × Operator) → Query → Query × List (Query × Operator)
  | [], q => (q, [])
  | (l, op) :: pending, q =>
    if strength ≤ op.precedence then reduce strength pending (joined op l q)
    else (q, (l, op) :: pending)

namespace Item

def start : Item := ⟨[], []⟩

/-- `q` is the left operand of `op`. -/
def push (item : Item) (op : Operator) (q : Query) : Item :=
  let (l, pending) := reduce op.precedence item.pending q
  { item with pending := (l, op) :: pending }

/-- `q` is all that was missing. -/
def finish (item : Item) (q : Query) : Query :=
  item.binders.foldl (fun body params => .lambda params body) (reduce 0 item.pending q).1

end Item

/-- What a bracket and the items in it are. -/
def Opening.build : Opening → List Query → Option Query
  | .group, [q] => some q
  | .group, _ => none
  | .call name, args => some (.call name args)
  | .indexer name, args => some (.indexer name args)
  | .array, items => some (.array items)

mutual
/-- Read on where an operand is expected. -/
def parseOperand (levels : List Level) (item : Item) : List Token → Option Query
  | .operand q :: ts => parseBehind levels item q ts
  | .binder params :: ts => parseOperand levels { item with binders := params :: item.binders } ts
  | .opening o :: ts => parseOperand (⟨item, o, []⟩ :: levels) .start ts
  | .closing _ :: ts =>
    match levels with
    | [] => none
    | level :: levels =>
      (level.opening.build level.items).bind fun q => parseBehind levels level.outer q ts
  | _ => none

/-- Read on behind the operand `q`. -/
def parseBehind (levels : List Level) (item : Item) (q : Query) : List Token → Option Query
  | [] => if levels.isEmpty then some (item.finish q) else none
  | .operator op :: ts => parseOperand levels (item.push op q) ts
  | .comma :: ts =>
    match levels with
    | [] => none
    | level :: levels =>
      parseOperand ({ level with items := level.items ++ [item.finish q] } :: levels) .start ts
  | .closing _ :: ts =>
    match levels with
    | [] => none
    | level :: levels =>
      (level.opening.build (level.items ++ [item.finish q])).bind fun q =>
        parseBehind levels level.outer q ts
  | _ => none
end

/-- The query of these tokens. -/
def parse (ts : List Token) : Option Query := parseOperand [] .start ts

/-! ## The stack -/

/-- What is left on a stack was there before. -/
theorem reduce_subset {strength : Nat} {pending : List (Query × Operator)} {q : Query} :
    (reduce strength pending q).2 ⊆ pending := by
  induction pending generalizing q with
  | nil => simp [reduce]
  | cons p pending ih =>
    rw [reduce]
    split
    · exact List.subset_cons_of_subset _ ih
    · exact List.Subset.refl _

/-- Behind these tokens every operation is closed that binds at least as tightly as `op`. -/
def Closes (op : Operator) : List Token → Prop
  | .operator op' :: _ => op'.precedence ≤ op.precedence
  | _ => True

/-- An operation that the following tokens close may be closed at once. -/
theorem parseBehind_pending {levels : List Level} {binders : List (List String)}
    {pending : List (Query × Operator)} {op : Operator} {l r : Query} {rest : List Token}
    (hrest : Closes op rest) :
    parseBehind levels ⟨binders, (l, op) :: pending⟩ r rest =
      parseBehind levels ⟨binders, pending⟩ (joined op l r) rest := by
  have hfinish : Item.finish ⟨binders, (l, op) :: pending⟩ r =
      Item.finish ⟨binders, pending⟩ (joined op l r) := by
    rw [Item.finish, Item.finish, reduce, if_pos (Nat.zero_le _)]
  cases rest with
  | nil => rw [parseBehind, parseBehind, hfinish]
  | cons t rest =>
    cases t with
    | operator op' =>
      have hle : op'.precedence ≤ op.precedence := hrest
      have hpush : Item.push ⟨binders, (l, op) :: pending⟩ op' r =
          Item.push ⟨binders, pending⟩ op' (joined op l r) := by
        simp only [Item.push, reduce, if_pos hle]
      rw [parseBehind, parseBehind, hpush]
    | comma | closing => cases levels <;> simp only [parseBehind, hfinish]
    | _ => rfl

/-- The operations on the stack leave `q` as it is. -/
def Item.Admits (item : Item) (q : Query) : Prop :=
  ∀ p ∈ item.pending, needsParens p.2 .right q = false

theorem Item.push_eq (item : Item) (op : Operator) (q : Query) : item.push op q =
    ⟨item.binders, ((reduce op.precedence item.pending q).1, op) ::
      (reduce op.precedence item.pending q).2⟩ := rfl

/-- Closing operations first is grouping from the left. Only member accesses are closed by an
operator that the stack admits. -/
theorem parseBehind_push {levels : List Level} {item : Item} {op : Operator} {l r : Query}
    {rest : List Token} (hrest : Closes op rest)
    (hadmits : ∀ p ∈ item.pending, op.precedence ≤ p.2.precedence → p.2 = .dot ∧ op = .dot) :
    parseBehind levels (item.push op l) r rest =
      parseBehind levels item (joined op l r) rest := by
  obtain ⟨binders, pending⟩ := item
  rw [Item.push_eq]
  induction pending generalizing l with
  | nil => exact parseBehind_pending hrest
  | cons p pending ih =>
    obtain ⟨x, op'⟩ := p
    obtain ⟨hop, htail⟩ := List.forall_mem_cons.mp hadmits
    by_cases hle : op.precedence ≤ op'.precedence
    · obtain ⟨rfl, rfl⟩ := hop hle
      simp only [reduce, if_pos hle]
      calc
        _ = parseBehind levels ⟨binders, pending⟩ (joined .dot (joined .dot x l) r) rest :=
          ih htail
        _ = parseBehind levels ⟨binders, pending⟩ (joined .dot x (joined .dot l r)) rest := by
          rw [joined_dot]
        _ = _ := (parseBehind_pending hrest).symm
    · simp only [reduce, if_neg hle]
      exact parseBehind_pending hrest

theorem parseBehind_binder {levels : List Level} {binders : List (List String)}
    {params : List String} {body : Query} {rest : List Token}
    (hrest : (Query.lambda params body).Follows rest) (q : Query) :
    parseBehind levels ⟨params :: binders, []⟩ q rest =
      parseBehind levels ⟨binders, []⟩ (.lambda params q) rest := by
  cases rest with
  | nil => rfl
  | cons t rest =>
    cases t with
    | operator op => cases hrest
    | _ => rfl

/-! ## Parsing a query -/

theorem Item.admits_start (q : Query) : Item.start.Admits q := by
  intro p hp
  cases hp

/-- Where an operation stands without brackets, its operands without brackets do as well. -/
theorem needsParens_operand {op op' : Operator} {side : Side} {q l r : Query}
    (hq : needsParens op side q = false)
    (h : needsParens op' .right (.binary op l r) = false) : needsParens op' .right q = false := by
  have hle : op.precedence ≤ q.strength := by
    cases side with
    | left => exact needsParens_left.mp hq
    | right => exact (needsParens_right.mp hq).1
  rw [needsParens_right, strength] at h
  rw [needsParens_right]
  refine ⟨h.1.trans hle, h.2.imp_right fun hne => ?_⟩
  omega

theorem Follows.closes {op : Operator} {l r : Query} {rest : List Token}
    (h : (Query.binary op l r).Follows rest) : Closes op rest := by
  cases rest with
  | nil => trivial
  | cons t rest =>
    cases t with
    | operator op' => exact needsParens_left.mp h
    | _ => trivial

theorem parseOperand_grouped {op : Operator} {side : Side} {q : Query} {rest : List Token}
    {levels : List Level} {item : Item}
    (hq : ∀ {levels item rest}, item.Admits q → q.Follows rest →
      parseOperand levels item (q.tokens ++ rest) = parseBehind levels item q.leftDots rest)
    (hadmits : needsParens op side q = false → item.Admits q)
    (hfollows : needsParens op side q = false → q.Follows rest) :
    parseOperand levels item (grouped (needsParens op side q) q.tokens ++ rest) =
      parseBehind levels item q.leftDots rest := by
  cases hparens : needsParens op side q with
  | false => exact hq (hadmits hparens) (hfollows hparens)
  | true =>
    simp only [grouped, if_true, List.cons_append, List.append_assoc]
    exact hq (Item.admits_start q) trivial

mutual
/-- A query is parsed to what it is, whatever stands before and behind it. -/
theorem parseOperand_tokens : ∀ (q : Query) {levels : List Level} {item : Item}
    {rest : List Token}, item.Admits q → q.Follows rest →
      parseOperand levels item (q.tokens ++ rest) = parseBehind levels item q.leftDots rest
  | .binary op l r, levels, item, rest, hadmits, hfollows => by
    have hpushed : needsParens op .right r = false → (item.push op l.leftDots).Admits r := by
      intro hparens p hp
      rw [Item.push_eq] at hp
      rcases List.mem_cons.mp hp with rfl | hp
      · exact hparens
      · exact needsParens_operand hparens (hadmits p (reduce_subset hp))
    have hright : parseOperand levels (item.push op l.leftDots)
        (grouped (needsParens op .right r) r.tokens ++ rest) =
          parseBehind levels (item.push op l.leftDots) r.leftDots rest :=
      parseOperand_grouped (parseOperand_tokens r) hpushed hfollows.right
    rw [tokens, List.append_assoc, List.cons_append, parseOperand_grouped (parseOperand_tokens l)
      (fun hparens p hp => needsParens_operand hparens (hadmits p hp)) id, parseBehind, hright,
      leftDots]
    refine parseBehind_push hfollows.closes fun p hp hle => ?_
    obtain ⟨hle', hop⟩ := needsParens_right.mp (hadmits p hp)
    rw [strength] at hle' hop
    rcases hop with hdot | hne
    · exact ⟨hdot, precedence_eq_dot (hdot ▸ hle')⟩
    · omega
  | .call _ qs, _, _, _, _, _ | .indexer _ qs, _, _, _, _, _ | .array qs, _, _, _, _, _ => by
    rw [tokens, List.cons_append, List.append_assoc, parseOperand]
    exact parseOperand_tokensEach qs rfl
  | .lambda params body, levels, ⟨binders, pending⟩, rest, hadmits, hfollows => by
    have hpending : pending = [] := by
      cases pending with
      | nil => rfl
      | cons p pending => exact absurd (hadmits p List.mem_cons_self) (by simp [needsParens])
    subst hpending
    rw [tokens, List.cons_append, parseOperand,
      parseOperand_tokens body (fun _ hp => by cases hp) hfollows.body]
    exact parseBehind_binder hfollows _
  | .symbol _, _, _, _, _, _ | .string _, _, _, _, _, _ | .number _, _, _, _, _, _
  | .guid _, _, _, _, _, _ | .dateTime _, _, _, _, _, _ => rfl

theorem parseOperand_tokensEach : ∀ (qs : List Query) {levels : List Level} {level : Level}
    {b : Bracket} {rest : List Token} {q : Query},
      level.opening.build (level.items ++ leftDotsEach qs) = some q →
      parseOperand (level :: levels) .start (tokensEach qs ++ ([.closing b] ++ rest)) =
        parseBehind levels level.outer q rest
  | [], levels, level, b, rest, q, hbuild => by
    rw [leftDotsEach, List.append_nil] at hbuild
    simp [tokensEach, parseOperand, hbuild]
  | [q], levels, level, b, rest, _, hbuild => by
    have hfollows : q.Follows (.closing b :: rest) := trivial
    rw [tokensEach, List.singleton_append, parseOperand_tokens q (Item.admits_start q) hfollows]
    exact congrArg (fun built => built.bind fun q => parseBehind levels level.outer q rest) hbuild
  | q :: q' :: qs, levels, level, b, rest, _, hbuild => by
    have hfollows : q.Follows (.comma :: (tokensEach (q' :: qs) ++ ([.closing b] ++ rest))) :=
      trivial
    rw [tokensEach, List.append_assoc, List.cons_append,
      parseOperand_tokens q (Item.admits_start q) hfollows, parseBehind]
    refine parseOperand_tokensEach (q' :: qs) ?_
    rw [← hbuild, leftDotsEach, List.append_assoc]
    rfl
end

/-- Parsing undoes the cutting of a query into tokens. -/
theorem parse_tokens (q : Query) : parse q.tokens = some q.leftDots := by
  have h := @parseOperand_tokens q [] .start [] (Item.admits_start q) trivial
  rw [List.append_nil] at h
  exact h

/-! ## The text of a query -/

/-- Two texts are the same exactly if the queries are shown alike, but for the grouping of member
accesses. -/
theorem text_eq_iff {q q' : Query} (hq : q.WellNamed) (hq' : q'.WellNamed) :
    q.text = q'.text ↔ q.shown.Reassociated q'.shown := by
  rw [← text_shown q, ← text_shown q']
  refine ⟨fun h => ?_, fun h => h.text_eq.1⟩
  have htokens := tokens_eq_of_text_eq (wellNamed_shown q hq) (wellNamed_shown q' hq')
    (regular_shown q) (regular_shown q') h
  rw [reassociated_iff, ← Option.some_inj, ← parse_tokens, ← parse_tokens, htokens]

/-- The text of a query with regular moments determines it up to the grouping of member accesses,
which no text shows. Any other query has the text of the one it is shown as. Different strings and
identifiers are written differently, and moments are written alike exactly if they are shown as the
same moment. -/
theorem text_determines :
    (∀ q q' : Query, q.WellNamed → q'.WellNamed → q.Regular → q'.Regular →
      (q.text = q'.text ↔ q.Reassociated q')) ∧
      (∀ q q' : Query, q.WellNamed → q'.WellNamed →
        (q.text = q'.text ↔ q.shown.Reassociated q'.shown)) ∧
      (∀ v w : String, (Query.string v).text = (Query.string w).text → v = w) ∧
      (∀ g h : Guid, (Query.guid g).text = (Query.guid h).text → g = h) ∧
      ∀ d e : DateTime, (Query.dateTime d).text = (Query.dateTime e).text ↔ d.shown = e.shown := by
  refine ⟨fun q q' hq hq' hmoments hmoments' => ?_, fun q q' => text_eq_iff, fun v w h => ?_,
    fun g h heq => ?_, fun d e => ?_⟩
  · rw [text_eq_iff hq hq', (shown_eq_self_iff q).mpr hmoments, (shown_eq_self_iff q').mpr hmoments']
  · simpa [tokens] using
      @tokens_eq_of_text_eq (.string v) (.string w) trivial trivial trivial trivial h
  · simpa [tokens] using @tokens_eq_of_text_eq (.guid g) (.guid h) trivial trivial trivial trivial heq
  · rw [@text_eq_iff (.dateTime d) (.dateTime e) trivial trivial, reassociated_iff]
    simp [shown, leftDots]

/-- `f((x,y):x sub -1.5e+3m,datetime'2016-12-31T23:59:60.5')` -/
def lambdaCall : Query :=
  .call "f" [.lambda ["x", "y"]
    (.binary (.value .subtract) (.symbol "x") (.number "-1.5e+3m")), .dateTime leapSecond]

theorem wellNamed_lambdaCall : lambdaCall.WellNamed := by
  have hf : isIdentifier "f" = true := by decide
  have hparams : ∀ name ∈ ["x", "y"], isIdentifier name = true := by decide
  have hnumber : IsNumeral "-1.5e+3m" :=
    ⟨['-'], ['1'], ['.', '5'], ['e', '+', '3'], ['m'], rfl, .inr (.inr rfl), by simp [IsDigits],
      .inr ⟨['5'], rfl, by simp [IsDigits]⟩,
      .inr ⟨'e', ['+'], ['3'], rfl, .inl rfl, .inr (.inl rfl), by simp [IsDigits]⟩,
      .inr ⟨'m', by simp, rfl⟩⟩
  exact ⟨hf, ⟨hparams, hparams "x" (by simp), hnumber, fun h => nomatch h⟩, trivial, trivial⟩

theorem regular_lambdaCall : lambdaCall.Regular := ⟨⟨trivial, trivial⟩, Or.inr rfl, trivial⟩

/-- Two queries with the text `a.f((x,y):x sub -1.5e+3m,datetime'2016-12-31T23:59:60.5').c`. -/
theorem text_determines_chain :
    (dot (dot (.symbol "a") lambdaCall) (.symbol "c")).WellNamed ∧
      (dot (.symbol "a") (dot lambdaCall (.symbol "c"))).WellNamed ∧
      (dot (dot (.symbol "a") lambdaCall) (.symbol "c")).Regular ∧
      (dot (.symbol "a") (dot lambdaCall (.symbol "c"))).Regular ∧
      (dot (dot (.symbol "a") lambdaCall) (.symbol "c")).text =
        (dot (.symbol "a") (dot lambdaCall (.symbol "c"))).text ∧
      (dot (dot (.symbol "a") lambdaCall) (.symbol "c")).Reassociated
        (dot (.symbol "a") (dot lambdaCall (.symbol "c"))) := by
  have ha : isIdentifier "a" = true := by decide
  have hc : isIdentifier "c" = true := by decide
  have hleft : (dot (dot (.symbol "a") lambdaCall) (.symbol "c")).WellNamed :=
    ⟨⟨ha, wellNamed_lambdaCall, fun _ => ⟨rfl, rfl⟩⟩, hc, fun _ => ⟨rfl, rfl⟩⟩
  have hright : (dot (.symbol "a") (dot lambdaCall (.symbol "c"))).WellNamed :=
    ⟨ha, ⟨wellNamed_lambdaCall, hc, fun _ => ⟨rfl, rfl⟩⟩, fun _ => ⟨rfl, rfl⟩⟩
  have hmoments : (dot (dot (.symbol "a") lambdaCall) (.symbol "c")).Regular :=
    ⟨⟨trivial, regular_lambdaCall⟩, trivial⟩
  have hmoments' : (dot (.symbol "a") (dot lambdaCall (.symbol "c"))).Regular :=
    ⟨trivial, regular_lambdaCall, trivial⟩
  have htext : (dot (dot (.symbol "a") lambdaCall) (.symbol "c")).text =
      (dot (.symbol "a") (dot lambdaCall (.symbol "c"))).text := by
    decide +kernel
  exact ⟨hleft, hright, hmoments, hmoments', htext,
    (text_determines.1 _ _ hleft hright hmoments hmoments').mp htext⟩

/-- A second that runs on in the middle of a minute is written like the next second. -/
theorem text_of_overrun :
    overrun.shown.second = 6 ∧ overrun.shown.nanos = 250000000 ∧
      (Query.dateTime overrun).WellNamed ∧ (Query.dateTime overrun.shown).WellNamed ∧
      (Query.dateTime overrun).text = (Query.dateTime overrun.shown).text ∧
      ¬ (Query.dateTime overrun).Reassociated (.dateTime overrun.shown) := by
  refine ⟨by decide, by decide, trivial, trivial, (text_shown (.dateTime overrun)).symm, ?_⟩
  rw [reassociated_iff, leftDots, leftDots, dateTime.injEq]
  decide

end Query
end TypedQuery
