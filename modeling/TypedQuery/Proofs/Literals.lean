import TypedQuery.Proofs.Constants
import TypedQuery.Proofs.Typing
import TypedQuery.Rendering
/-!
Literals that are written for constants.

A literal is read for the type that its place expects, and where nothing is expected it has a
type of its own. Both ways a constant comes back from its literal: suffixes and points are
written where the type would be another one without them.
-/
namespace TypedQuery

open Number

/-! ## Suffixes -/

namespace NumberLiteral

theorem ofChar?_of_isDigit {c : Char} (hc : c.isDigit = true) : Suffix.ofChar? c = none := by
  have hlower : c.toLower = c := by
    simp only [Char.isDigit, Bool.and_eq_true, decide_eq_true_eq] at hc
    refine dif_neg fun h => ?_
    exact absurd (UInt32.le_trans h.1 hc.2) (by decide)
  unfold Suffix.ofChar?
  rw [hlower]
  split
  all_goals first | rfl | exact absurd hc (by decide)

/-- A text that ends in a digit has no suffix. -/
theorem split_of_isDigit {body : List Char} (hbody : ∀ c ∈ body.getLast?, c.isDigit = true) :
    split body = (body, none) := by
  unfold split
  cases hlast : body.getLast? with
  | none => rfl
  | some c => simp [ofChar?_of_isDigit (hbody c hlast)]

theorem split_append {body : List Char} {c : Char} {suffix : Suffix}
    (hc : Suffix.ofChar? c = some suffix) : split (body ++ [c]) = (body, some suffix) := by
  simp [split, hc]

theorem read?_suffixed {body : List Char} {c : Char} {suffix : Suffix} {v : Value}
    (hc : Suffix.ofChar? c = some suffix) (hne : body ≠ [])
    (hv : readSuffixed? suffix body = some v) :
    read? (body ++ [c]) = some { body := body, suffix? := some suffix, value := v } := by
  simp [read?, split_append hc, hne, hv]

theorem read?_plain {body : List Char} {v : Value}
    (hbody : ∀ c ∈ body.getLast?, c.isDigit = true) (hne : body ≠ [])
    (hv : readPlain? body = some v) :
    read? body = some { body := body, suffix? := none, value := v } := by
  simp [read?, split_of_isDigit hbody, hne, hv]

/-- A suffix is stronger than what is expected. -/
theorem valueFor_suffixed (body : List Char) (suffix : Suffix) (v : Value)
    (expected : Option Ty) :
    valueFor { body := body, suffix? := some suffix, value := v } expected = v := by
  unfold valueFor
  split
  · simp
  · rfl

end NumberLiteral

/-! ## Numbers -/

theorem Text.isDigit_of_mem_getLast?_toString (n : Int) :
    ∀ c ∈ (toString n).toList.getLast?, c.isDigit = true := by
  rw [toList_toString]
  exact isDigit_of_mem_getLast?_append Nat.toDigits_ne_nil isDigit_of_mem_toDigits

theorem Text.toList_toString_ne_nil (n : Int) : (toString n).toList ≠ [] := by
  rw [toList_toString]
  simp

theorem NumberLiteral.isFractional_toString (n : Int) :
    isFractional (toString n).toList = false := by
  have hdigit : ∀ c ∈ Nat.toDigits 10 n.natAbs, ¬((c = '.' ∨ c = 'e') ∨ c = 'E') := by
    intro c hc
    have := Text.isDigit_of_mem_toDigits c hc
    rintro ((rfl | rfl) | rfl) <;> exact absurd this (by decide)
  rw [Text.toList_toString, isFractional, List.any_eq_false]
  intro c hc
  rcases List.mem_append.mp hc with hc | hc
  · split at hc
    · rw [List.mem_singleton.mp hc]
      decide
    · cases hc
  · simpa using hdigit c hc

theorem NumberLiteral.isFractional_of_marked {body : List Char} (h : Binary.Marked body) :
    isFractional body = true := by
  obtain ⟨front, digits, rfl, _, _, hmark⟩ := h
  rw [isFractional, List.any_append, Bool.or_eq_true, List.any_eq_true]
  rcases hmark with hmark | hmark
  · exact .inl ⟨'.', hmark, by decide⟩
  · exact .inl ⟨'e', hmark, by decide⟩

theorem Integral.holds_int32 {k : Integral} {n : Int} (hk : k ≠ .int64) (h : k.Holds n) :
    Integral.int32.Holds n := by
  cases k <;> simp only [Holds, least, greatest] at h ⊢
  · omega
  · omega
  · exact h
  · exact absurd rfl hk

namespace Query

variable {expected : Option Ty}

/-- A suffix says all there is to say. -/
theorem numberConstant_suffixed {text : String} {body : List Char} {c : Char} {suffix : Suffix}
    {v : Value} (htext : text.toList = body ++ [c]) (hc : Suffix.ofChar? c = some suffix)
    (hne : body ≠ []) (hv : NumberLiteral.readSuffixed? suffix body = some v) :
    numberConstant text expected = .ok (.constant v) := by
  rw [numberConstant, htext, NumberLiteral.read?_suffixed hc hne hv]
  dsimp only
  rw [NumberLiteral.valueFor_suffixed]

/-- A decimal number is a `Decimal` whatever is expected. -/
theorem numberConstant_decimal (x : Decimal) (expected : Option Ty) :
    numberConstant (String.ofList (x.text ++ ['m'])) expected =
      .ok (.constant (.decimal x.settle)) := by
  refine numberConstant_suffixed String.toList_ofList rfl x.text_ne_nil ?_
  rw [NumberLiteral.readSuffixed?, Decimal.read?_text]
  rfl

/-- A text with a point is a `Double` wherever no other number is expected. -/
theorem numberConstant_double {x : Binary .double} (hx : x.isFinite = true)
    (hexpected : ∀ t, expected = some t → t.isNumeric = true → t = .double) :
    numberConstant (String.ofList x.text) expected = .ok (.constant (.double x)) := by
  have hmarked := Binary.marked_text hx
  have hfinite := Binary.readFinite?_text (by decide) hx
  have hplain : NumberLiteral.readPlain? x.text = some (.double x) := by
    rw [NumberLiteral.readPlain?, if_pos (NumberLiteral.isFractional_of_marked hmarked), hfinite]
    rfl
  rw [numberConstant, String.toList_ofList,
    NumberLiteral.read?_plain hmarked.isDigit_of_mem_getLast? hmarked.ne_nil hplain]
  dsimp only
  congr 2
  unfold NumberLiteral.valueFor
  split
  · next target =>
    split
    · next htarget =>
      obtain rfl := hexpected target rfl (Bool.and_eq_true_iff.mp htarget).1
      simp [NumberLiteral.as?, NumberLiteral.isFractional_of_marked hmarked, hfinite]
    · rfl
  · rfl

/-- A whole number without a suffix is of the type that is expected, or it is an `Int32`. -/
theorem numberConstant_integer {k : Integral} {n : Int} {holds : k.Holds n} (hk : k ≠ .int64)
    (hexpected : ∀ t, expected = some t → t.isNumeric = true → t = .integral k)
    (hsmall : expected = some (.integral k) ∨ k = .int32) :
    numberConstant (toString n) expected = .ok (.constant (.integer k n holds)) := by
  have hint32 := Integral.holds_int32 hk holds
  have hplain : NumberLiteral.readPlain? (toString n).toList =
      some (.integer .int32 n hint32) := by
    rw [NumberLiteral.readPlain?, NumberLiteral.isFractional_toString,
      if_neg Bool.false_ne_true, NumberLiteral.readWhole?, Text.readInt?_toString,
      Option.bind_some, Value.ofInt?, dif_pos hint32]
    rfl
  have hread := NumberLiteral.read?_plain (Text.isDigit_of_mem_getLast?_toString n)
    (Text.toList_toString_ne_nil n) hplain
  have has : NumberLiteral.as? {
      body := (toString n).toList,
      suffix? := none,
      value := .integer .int32 n hint32 } (.integral k) = some (.integer k n holds) := by
    unfold NumberLiteral.as?
    simp only [NumberLiteral.isFractional_toString, Bool.not_false, if_true]
    cases k with
    | byte | int16 => exact dif_pos holds
    | int32 => rfl
    | int64 => exact absurd rfl hk
  have hnumeric : (Ty.integral k).isNumeric = true := by cases k <;> rfl
  rw [numberConstant, hread]
  dsimp only
  congr 2
  cases expected with
  | none =>
    obtain rfl := hsmall.resolve_left (by simp)
    rfl
  | some t =>
    cases ht : t.isNumeric with
    | true =>
      obtain rfl := hexpected t rfl ht
      simp only [NumberLiteral.valueFor, hnumeric, Option.isNone_none, Bool.and_self, if_true, has,
        Option.getD_some]
    | false =>
      have hne : t ≠ .integral k := by
        rintro rfl
        rw [hnumeric] at ht
        cases ht
      obtain rfl := hsmall.resolve_left (by simpa using hne)
      simp [NumberLiteral.valueFor, ht]

/-- A constant of a numeric type comes back from its literal wherever the literal is read for
that type, and where nothing numeric is expected unless it is of one of the types that no
literal has by itself. -/
theorem numberConstant_of_writable {v : Value} (hv : v.Writable)
    (hnumeric : v.type.isNumeric = true)
    (hexpected : ∀ t, expected = some t → t.isNumeric = true → t = v.type)
    (hsmall : expected = some v.type ∨ v.type ≠ .byte ∧ v.type ≠ .int16) :
    ∃ text, Renderer.constant v = .ok (.number text) ∧
      numberConstant text expected = .ok (.constant v.settle) := by
  cases hv with
  | @integer k n holds =>
    by_cases hk : k = .int64
    · subst hk
      refine ⟨_, rfl, ?_⟩
      refine numberConstant_suffixed (c := 'L') String.toList_append rfl
        (Text.toList_toString_ne_nil n) ?_
      rw [NumberLiteral.readSuffixed?, Text.readInt?_toString]
      exact dif_pos holds
    · refine ⟨toString n, by cases k <;> first | rfl | exact absurd rfl hk, ?_⟩
      refine numberConstant_integer hk hexpected (hsmall.imp_right fun h => ?_)
      cases k with
      | byte => exact absurd rfl h.1
      | int16 => exact absurd rfl h.2
      | int32 => rfl
      | int64 => exact absurd rfl hk
  | @single x hx =>
    have hne := (Binary.marked_text hx).ne_nil
    refine ⟨_, rfl, numberConstant_suffixed String.toList_ofList rfl hne ?_⟩
    rw [NumberLiteral.readSuffixed?, Binary.readFinite?_text (by decide) hx]
    rfl
  | @double x hx => exact ⟨_, rfl, numberConstant_double hx hexpected⟩
  | @decimal x => exact ⟨_, rfl, numberConstant_decimal x expected⟩
  | _ => cases hnumeric

/-- The types of literals for which nothing is expected. -/
theorem type_ne_small {text : String} {literal : NumberLiteral}
    (h : NumberLiteral.read? text.toList = some literal) :
    literal.value.type ≠ .byte ∧ literal.value.type ≠ .int16 := by
  rcases NumberLiteral.read?_cases h with ⟨suffix, hv⟩ | hv
  · rw [NumberLiteral.type_readSuffixed? hv]
    cases suffix <;> exact ⟨by decide, by decide⟩
  · rcases NumberLiteral.type_readPlain? hv with ht | ht | ht <;> rw [ht] <;>
      exact ⟨by decide, by decide⟩

/-- A text that is a literal is one whatever is expected. -/
theorem exists_numberConstant {text : String} {e : Expr} (h : numberConstant text expected = .ok e)
    (expected' : Option Ty) : ∃ e', numberConstant text expected' = .ok e' := by
  obtain ⟨literal, hread, -⟩ := numberConstant_eq_ok.mp h
  exact ⟨_, numberConstant_eq_ok.mpr ⟨literal, hread, rfl⟩⟩

/-- The literal for what a literal was read as, in the place where it was read. -/
theorem numberConstant_again {text : String} {e : Expr} (h : numberConstant text expected = .ok e)
    (hexpected : ∀ t, expected = some t → t.isNumeric = true → e.type = t) :
    ∃ v text', e = .constant v ∧ Renderer.constant v = .ok (.number text') ∧
      numberConstant text' expected = .ok (.constant v.settle) := by
  obtain ⟨literal, hread, rfl⟩ := numberConstant_eq_ok.mp h
  have hnumeric := NumberLiteral.isNumeric_valueFor hread expected
  have hsmall : expected = some (literal.valueFor expected).type ∨
      (literal.valueFor expected).type ≠ .byte ∧ (literal.valueFor expected).type ≠ .int16 := by
    cases expected with
    | none => exact .inr (type_ne_small hread)
    | some t =>
      cases ht : t.isNumeric with
      | true => exact .inl (congrArg some (hexpected t rfl ht).symm)
      | false =>
        right
        simpa [NumberLiteral.valueFor, ht] using type_ne_small hread
  obtain ⟨text', hrender, hagain⟩ := numberConstant_of_writable
    (NumberLiteral.writable_valueFor hread expected) hnumeric
    (fun t ht hn => (hexpected t ht hn).symm) hsmall
  exact ⟨_, text', rfl, hrender, hagain⟩

end Query
end TypedQuery
