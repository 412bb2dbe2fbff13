import TypedQuery.Proofs.LiteralTexts
import TypedQuery.Query.Json
import TypedQuery.Query.Text
/-!
Queries with their moments as they are shown.

A second that runs on in the middle of a minute is written like the second after it, in a text and
in a document. So neither can tell a query from the one in which these moments are replaced by
those they are written like, and that is all they cannot tell.
-/
namespace TypedQuery
namespace Query

mutual
/-- The query with every moment as it is shown. -/
def shown : Query → Query
  | .binary op l r => .binary op l.shown r.shown
  | .call name args => .call name (shownEach args)
  | .indexer name args => .indexer name (shownEach args)
  | .lambda params body => .lambda params body.shown
  | .array items => .array (shownEach items)
  | .symbol name => .symbol name
  | .string value => .string value
  | .number text => .number text
  | .guid value => .guid value
  | .dateTime value => .dateTime value.shown

def shownEach : List Query → List Query
  | [] => []
  | q :: qs => q.shown :: shownEach qs
end

mutual
/-- A second runs on only at the end of a minute, in all moments of the query. -/
def Regular : Query → Prop
  | .binary _ l r => l.Regular ∧ r.Regular
  | .call _ args | .indexer _ args => EachRegular args
  | .lambda _ body => body.Regular
  | .array items => EachRegular items
  | .dateTime value => value.Regular
  | .symbol _ | .string _ | .number _ | .guid _ => True

def EachRegular : List Query → Prop
  | [] => True
  | q :: qs => q.Regular ∧ EachRegular qs
end

mutual
/-- A query is what it is shown as exactly if its moments are regular. -/
theorem shown_eq_self_iff : ∀ q : Query, q.shown = q ↔ q.Regular
  | .binary op l r => by
    simp only [shown, binary.injEq, true_and, shown_eq_self_iff l, shown_eq_self_iff r, Regular]
  | .call _ args | .indexer _ args => by
    simp only [shown, call.injEq, indexer.injEq, true_and, shownEach_eq_self_iff args, Regular]
  | .lambda _ body => by
    simp only [shown, lambda.injEq, true_and, shown_eq_self_iff body, Regular]
  | .array items => by simp only [shown, array.injEq, shownEach_eq_self_iff items, Regular]
  | .dateTime value => by
    simp only [shown, dateTime.injEq, DateTime.shown_eq_self_iff, Regular]
  | .symbol _ | .string _ | .number _ | .guid _ => by simp only [shown, Regular]

theorem shownEach_eq_self_iff : ∀ qs : List Query, shownEach qs = qs ↔ EachRegular qs
  | [] => by simp only [shownEach, EachRegular]
  | q :: qs => by
    simp only [shownEach, List.cons.injEq, shown_eq_self_iff q, shownEach_eq_self_iff qs,
      EachRegular]
end

mutual
theorem regular_shown : ∀ q : Query, q.shown.Regular
  | .binary _ l r => ⟨regular_shown l, regular_shown r⟩
  | .call _ args | .indexer _ args => eachRegular_shownEach args
  | .lambda _ body => regular_shown body
  | .array items => eachRegular_shownEach items
  | .dateTime value => value.regular_shown
  | .symbol _ | .string _ | .number _ | .guid _ => trivial

theorem eachRegular_shownEach : ∀ qs : List Query, EachRegular (shownEach qs)
  | [] => trivial
  | q :: qs => ⟨regular_shown q, eachRegular_shownEach qs⟩
end

/-- The middle of the leap second 23:59:60. -/
def leapSecond : DateTime where
  year := 2016
  month := 12
  day := 31
  hour := 23
  minute := 59
  second := 59
  nanos := 1500000000
  year_mem := by decide
  month_mem := by decide
  day_mem := by decide
  hour_lt := by decide
  minute_lt := by decide
  second_lt := by decide
  nanos_lt := by decide

/-- 03:04:05 running on for a second and a quarter, which is shown as 03:04:06.25. -/
def overrun : DateTime where
  year := 2024
  month := 2
  day := 29
  hour := 3
  minute := 4
  second := 5
  nanos := 1250000000
  year_mem := by decide
  month_mem := by decide
  day_mem := by decide
  hour_lt := by decide
  minute_lt := by decide
  second_lt := by decide
  nanos_lt := by decide

/-! ## Texts and documents -/

theorem needsParens_shown (op : Operator) (side : Side) (q : Query) :
    needsParens op side q.shown = needsParens op side q := by
  cases q <;> rfl

mutual
theorem text_shown : ∀ q : Query, q.shown.text = q.text
  | .binary op l r => by
    rw [shown, text, text, text_shown l, text_shown r, needsParens_shown, needsParens_shown]
  | .call _ args | .indexer _ args => by rw [shown, text, text, texts_shownEach args]
  | .lambda _ body => by rw [shown, text, text, text_shown body]
  | .array items => by rw [shown, text, text, texts_shownEach items]
  | .dateTime value => by rw [shown, text, text, value.literalText_shown]
  | .symbol _ | .string _ | .number _ | .guid _ => rfl

theorem texts_shownEach : ∀ qs : List Query, texts (shownEach qs) = texts qs
  | [] => rfl
  | q :: qs => by rw [shownEach, texts, texts, text_shown q, texts_shownEach qs]
end

mutual
theorem toJson_shown : ∀ q : Query, q.shown.toJson = q.toJson
  | .binary op l r => by rw [shown, toJson, toJson, toJson_shown l, toJson_shown r]
  | .call _ args | .indexer _ args => by rw [shown, toJson, toJson, toJsons_shownEach args]
  | .lambda _ body => by rw [shown, toJson, toJson, toJson_shown body]
  | .array items => by rw [shown, toJson, toJson, toJsons_shownEach items]
  | .dateTime value => by rw [shown, toJson, toJson, value.exchangeText_shown]
  | .symbol _ | .string _ | .number _ | .guid _ => rfl

theorem toJsons_shownEach : ∀ qs : List Query, toJsons (shownEach qs) = toJsons qs
  | [] => rfl
  | q :: qs => by rw [shownEach, toJsons, toJsons, toJson_shown q, toJsons_shownEach qs]
end

end Query
end TypedQuery
