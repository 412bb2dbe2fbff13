import Mathlib.Data.Nat.Digits.Defs
import Mathlib.Tactic.NormNum
import TypedQuery.Proofs.ExactConversion
import TypedQuery.Proofs.Literals
/-!
Literals of whole numbers.

A text of digits, with a sign before them or without, is the literal of a 64-bit number or of none.
Where a number is expected the literal is of that type if the type has the number. Otherwise it is
of the first of the two types that a whole number can have by itself.
-/
namespace TypedQuery

/-! ## Texts of whole numbers -/

namespace Text

/-- The number that digits denote by their places, the last of them for ones. -/
def placeValue (digits : List Char) : Nat :=
  Nat.ofDigits 10 (digits.map fun c => c.toNat - '0'.toNat).reverse

theorem ofDigitChars_eq_placeValue (digits : List Char) :
    Nat.ofDigitChars 10 digits 0 = placeValue digits := by
  rw [placeValue, Nat.ofDigits_eq_foldr, List.foldr_reverse, List.foldl_map, Nat.ofDigitChars]
  congr
  funext value c
  exact Nat.add_comm _ _

/-- `Denotes cs n` says that `cs` is one or more digits, with at most one sign before them, and that
they denote `n`. -/
def Denotes (cs : List Char) (n : Int) : Prop :=
  ∃ sign digits, cs = sign ++ digits ∧ (sign = [] ∨ sign = ['+'] ∨ sign = ['-']) ∧
    digits ≠ [] ∧ (∀ c ∈ digits, '0' ≤ c ∧ c ≤ '9') ∧
    n = if sign = ['-'] then -(placeValue digits : Int) else (placeValue digits : Int)

theorem forall_digit_of_all {digits : List Char} (h : digits.all Char.isDigit = true) :
    ∀ c ∈ digits, '0' ≤ c ∧ c ≤ '9' :=
  fun c hc => isDigit_iff.mp (List.all_eq_true.mp h c hc)

namespace Denotes

variable {cs : List Char} {n : Int}

theorem readInt?_eq (h : Denotes cs n) : readInt? cs = some n := by
  obtain ⟨sign, digits, rfl, hsign, hne, hdigits, rfl⟩ := h
  have hall : ∀ c ∈ digits, c.isDigit = true := fun c hc => isDigit_iff.mpr (hdigits c hc)
  have hnat := readNat?_of_isDigit hne hall
  rw [ofDigitChars_eq_placeValue] at hnat
  rcases hsign with rfl | rfl | rfl
  · rw [List.nil_append, readInt?_of_isDigit hne hall, ofDigitChars_eq_placeValue]
    rfl
  · rw [List.singleton_append, readInt?, hnat]
    rfl
  · rw [List.singleton_append, readInt?, hnat]
    rfl

theorem isDigit_of_mem_getLast? (h : Denotes cs n) : ∀ c ∈ cs.getLast?, c.isDigit = true := by
  obtain ⟨sign, digits, rfl, -, hne, hdigits, -⟩ := h
  exact isDigit_of_mem_getLast?_append hne fun c hc => isDigit_iff.mpr (hdigits c hc)

theorem ne_nil (h : Denotes cs n) : cs ≠ [] := by
  obtain ⟨sign, digits, rfl, -, hne, -, -⟩ := h
  exact List.append_ne_nil_of_right_ne_nil sign hne

theorem isFractional_eq (h : Denotes cs n) : NumberLiteral.isFractional cs = false := by
  obtain ⟨sign, digits, rfl, hsign, -, hdigits, -⟩ := h
  have hmark : ∀ c ∈ sign ++ digits, c ≠ '.' ∧ c ≠ 'e' ∧ c ≠ 'E' := by
    refine List.forall_mem_append.mpr ⟨?_, fun c hc => ?_⟩
    · rcases hsign with rfl | rfl | rfl <;> simp
    · have hdigit : c.isDigit = true := isDigit_iff.mpr (hdigits c hc)
      refine ⟨?_, ?_, ?_⟩ <;> rintro rfl <;> exact absurd hdigit (by decide)
  rw [NumberLiteral.isFractional, List.any_eq_false]
  intro c hc
  obtain ⟨hpoint, hsmall, hcapital⟩ := hmark c hc
  simp [hpoint, hsmall, hcapital]

end Denotes
end Text

/-! ## Literals -/

namespace NumberLiteral

variable {cs : List Char} {n : Int}

/-- Where no other type is expected, a 64-bit number has the narrower type that it fits. -/
theorem readWhole?_of_holds (h : Text.Denotes cs n) (hn : Integral.int64.Holds n) :
    ∃ v, readWhole? cs = some v ∧ v.int? = some n ∧
      v.type = if Integral.int32.Holds n then .int32 else .int64 := by
  rw [readWhole?, h.readInt?_eq, Option.bind_some]
  by_cases hsmall : Integral.int32.Holds n
  · exact ⟨.integer .int32 n hsmall, by simp [Value.ofInt?, hsmall], rfl, (if_pos hsmall).symm⟩
  · exact ⟨.integer .int64 n hn, by simp [Value.ofInt?, hsmall, hn], rfl, (if_neg hsmall).symm⟩

theorem readWhole?_of_not_holds (h : Text.Denotes cs n) (hn : ¬ Integral.int64.Holds n) :
    readWhole? cs = none := by
  have hsmall : ¬ Integral.int32.Holds n := fun hsmall => hn (Integral.holds_int64 hsmall)
  simp [readWhole?, h.readInt?_eq, Value.ofInt?, hsmall, hn]

/-- The text of a whole number is no other literal than that of the number. -/
theorem read?_of_denotes (h : Text.Denotes cs n) : read? cs =
    (readWhole? cs).map fun v => { body := cs, suffix? := none, value := v } := by
  simp [read?, split_of_isDigit h.isDigit_of_mem_getLast?, h.ne_nil, readPlain?, h.isFractional_eq]

/-- A literal of a whole number in its place: it is of the type that is expected where that type
has the number, and of its own type elsewhere. -/
theorem valueFor_of_int? (h : Text.Denotes cs n) {v : Value} (hv : v.int? = some n)
    (expected : Option Ty) :
    (valueFor ⟨cs, none, v⟩ expected).number? = some (n : ℚ) ∧
      (∀ t, expected = some t → t.isNumeric = true → t.Represents n →
        (valueFor ⟨cs, none, v⟩ expected).type = t) ∧
      ((∀ t, expected = some t → t.isNumeric = true → ¬ t.Represents n) →
        (valueFor ⟨cs, none, v⟩ expected).type = v.type) := by
  have hown := Value.number?_of_int? hv
  cases expected with
  | none => exact ⟨hown, by simp, fun _ => rfl⟩
  | some t =>
    have has : as? ⟨cs, none, v⟩ t = v.convert? t := by simp [as?, h.isFractional_eq]
    cases ht : t.isNumeric with
    | false =>
      have hvalue : valueFor ⟨cs, none, v⟩ (some t) = v := by simp [valueFor, ht]
      rw [hvalue]
      exact ⟨hown, fun u hu hnumeric => (by cases hu; simp [ht] at hnumeric), fun _ => rfl⟩
    | true =>
      have hvalue : valueFor ⟨cs, none, v⟩ (some t) = (v.convert? t).getD v := by
        simp [valueFor, ht, has]
      obtain ⟨hfound, hmissing⟩ := Value.convert?_of_int? hv ht
      rw [hvalue]
      by_cases hhas : t.Represents n
      · obtain ⟨w, hw, htype, hnumber⟩ := hfound hhas
        rw [hw]
        exact ⟨hnumber, fun u hu _ _ => Option.some.inj hu ▸ htype,
          fun hnot => absurd hhas (hnot t rfl ht)⟩
      · rw [hmissing hhas]
        exact ⟨hown, fun u hu _ hu' => absurd (Option.some.inj hu ▸ hu') hhas, fun _ => rfl⟩

end NumberLiteral

/-- A literal of digits keeps its value whatever is expected. It is refused exactly if it denotes no
64-bit number. Its type is the numeric type that is expected, if that has the number, and
otherwise `Int32` or, for a number that does not fit there, `Int64`. -/
theorem Query.numberConstant_denotes {text : String} {n : Int} (h : Text.Denotes text.toList n)
    (expected : Option Ty) :
    ((∃ e, numberConstant text expected = .error e ∧ e.kind = .unsupportedConstruct) ↔
      ¬ Integral.int64.Holds n) ∧
    (Integral.int64.Holds n → ∃ v, numberConstant text expected = .ok (.constant v) ∧
      v.number? = some (n : ℚ) ∧
      (∀ t, expected = some t → t.isNumeric = true → t.Represents n → v.type = t) ∧
      ((∀ t, expected = some t → t.isNumeric = true → ¬ t.Represents n) →
        v.type = if Integral.int32.Holds n then .int32 else .int64)) := by
  have hread := NumberLiteral.read?_of_denotes h
  by_cases hn : Integral.int64.Holds n
  · obtain ⟨v, hv, hint, htype⟩ := NumberLiteral.readWhole?_of_holds h hn
    rw [hv, Option.map_some] at hread
    have hconstant : numberConstant text expected =
        .ok (.constant (NumberLiteral.valueFor ⟨text.toList, none, v⟩ expected)) := by
      rw [numberConstant, hread]
    obtain ⟨hnumber, hwanted, hown⟩ := NumberLiteral.valueFor_of_int? h hint expected
    rw [hconstant]
    refine ⟨⟨?_, fun hnot => absurd hn hnot⟩, fun _ => ⟨_, rfl, hnumber, hwanted, fun hnot => ?_⟩⟩
    · rintro ⟨e, he, -⟩
      cases he
    · exact (hown hnot).trans htype
  · rw [NumberLiteral.readWhole?_of_not_holds h hn, Option.map_none] at hread
    have hconstant : numberConstant text expected = .error (.unsupported (.numberText text)) := by
      rw [numberConstant, hread]
    exact ⟨iff_of_true ⟨_, hconstant, rfl⟩ hn, fun hholds => absurd hholds hn⟩

/-- Leading zeros do not count, a `Single` does not have this number, and one digit can be too
much. -/
theorem Query.numberConstant_denotes_zeros :
    (∃ v, numberConstant "-0016777217" (some .single) = .ok (.constant v) ∧ v.type = .int32 ∧
      v.number? = some (-16777217)) ∧
    ∃ e, numberConstant "+9223372036854775808" none = .error e ∧
      e.kind = .unsupportedConstruct := by
  have hsmall : Text.Denotes "-0016777217".toList (-16777217) :=
    ⟨['-'], "0016777217".toList, by decide, by decide, by decide,
      Text.forall_digit_of_all (by decide), by rw [← Text.ofDigitChars_eq_placeValue]; decide⟩
  have hlarge : Text.Denotes "+9223372036854775808".toList 9223372036854775808 :=
    ⟨['+'], "9223372036854775808".toList, by decide, by decide, by decide,
      Text.forall_digit_of_all (by decide), by rw [← Text.ofDigitChars_eq_placeValue]; decide⟩
  have hsingle : ¬ Ty.Represents .single (-16777217) :=
    Ty.not_represents_single_of_odd (by decide) (by decide)
  obtain ⟨v, hv, hnumber, -, htype⟩ := (numberConstant_denotes hsmall (some .single)).2 (by decide)
  refine ⟨⟨v, hv, htype fun t ht _ => Option.some.inj ht ▸ hsingle, ?_⟩,
    (numberConstant_denotes hlarge none).1.mpr (by decide)⟩
  rw [hnumber]
  norm_num

end TypedQuery
