import TypedQuery.Number.Binary.Shortest
import TypedQuery.Number.Decimal.Reading
/-!
Numbers that were written can be read.

A binary number is written as a decimal that was chosen because it reads back, but not in the
form in which it was tried: zeros at its end are dropped, and a point is put among its digits.
What is read is the same number over another power of ten, and rounding does not see the
difference.
-/
namespace TypedQuery

/-! ## Digits -/

namespace Text

theorem isDigit_iff {c : Char} : c.isDigit = true ↔ '0' ≤ c ∧ c ≤ '9' := by
  simp [Char.isDigit, Char.le_def]

theorem isDigit_of_mem_toDigits {n : Nat} : ∀ c ∈ Nat.toDigits 10 n, c.isDigit = true :=
  fun _ h => Nat.isDigit_of_mem_toDigits (by decide) (by decide) h

theorem isDigit_of_mem_replicate {n : Nat} : ∀ c ∈ List.replicate n '0', c.isDigit = true := by
  intro c hc
  rw [List.eq_of_mem_replicate hc]
  decide

/-- Digits are read up to the first character that is none. -/
theorem spanDigits_append_of_not_isDigit {digits rest : List Char}
    (hdigits : ∀ c ∈ digits, c.isDigit = true) (hrest : ∀ c ∈ rest.head?, c.isDigit = false) :
    spanDigits (digits ++ rest) = (digits, rest) := by
  have htake : rest.takeWhile Char.isDigit = [] := by
    cases rest with
    | nil => rfl
    | cons c rest => simp [hrest c rfl]
  have hdrop : rest.dropWhile Char.isDigit = rest := by
    cases rest with
    | nil => rfl
    | cons c rest => simp [hrest c rfl]
  rw [spanDigits, List.takeWhile_append_of_pos hdigits, List.dropWhile_append_of_pos hdigits,
    htake, hdrop, List.append_nil]

theorem isDigit_of_mem_getLast?_append {front digits : List Char} (hne : digits ≠ [])
    (hdigits : ∀ c ∈ digits, c.isDigit = true) :
    ∀ c ∈ (front ++ digits).getLast?, c.isDigit = true := by
  intro c hc
  rw [List.getLast?_append, List.getLast?_eq_some_getLast hne, Option.some_or] at hc
  exact hdigits c (Option.some.inj hc ▸ List.getLast_mem hne)

theorem readNat?_of_isDigit {digits : List Char} (hne : digits ≠ [])
    (hdigits : ∀ c ∈ digits, c.isDigit = true) :
    readNat? digits = some (Nat.ofDigitChars 10 digits 0) := by
  simp [readNat?, hne, List.all_eq_true.mpr hdigits]

theorem readInt?_of_isDigit {digits : List Char} (hne : digits ≠ [])
    (hdigits : ∀ c ∈ digits, c.isDigit = true) :
    readInt? digits = some (Int.ofNat (Nat.ofDigitChars 10 digits 0)) := by
  have hnat := readNat?_of_isDigit hne hdigits
  unfold readInt?
  split
  · exact absurd (hdigits '-' List.mem_cons_self) (by decide)
  · exact absurd (hdigits '+' List.mem_cons_self) (by decide)
  · rw [hnat]
    rfl

theorem readInt?_toDigits (n : Nat) : readInt? (Nat.toDigits 10 n) = some (n : Int) := by
  rw [readInt?_of_isDigit Nat.toDigits_ne_nil isDigit_of_mem_toDigits,
    Nat.ofDigitChars_ten_toDigits]
  rfl

theorem readInt?_neg_toDigits (n : Nat) :
    readInt? ('-' :: Nat.toDigits 10 n) = some (-(n : Int)) := by
  rw [readInt?, readNat?_toDigits]
  rfl

/-- The characters of a whole number: its digits, behind a sign if it is negative. -/
theorem toList_toString (n : Int) :
    (toString n).toList = (if n < 0 then ['-'] else []) ++ Nat.toDigits 10 n.natAbs := by
  rw [Int.toString_eq_repr, Int.repr_eq_if]
  by_cases hn : n < 0
  · have habs : (-n).toNat = n.natAbs := by omega
    rw [if_neg (by omega), if_pos hn, habs, String.toList_append, Nat.toList_repr]
    rfl
  · have habs : n.toNat = n.natAbs := by omega
    rw [if_pos (by omega), if_neg hn, habs, Nat.toList_repr]
    rfl

theorem readInt?_toString (n : Int) : readInt? (toString n).toList = some n := by
  rw [toList_toString]
  by_cases hn : n < 0
  · rw [if_pos hn, List.singleton_append, readInt?_neg_toDigits]
    congr 1
    omega
  · rw [if_neg hn, List.nil_append, readInt?_toDigits]
    congr 1
    omega

end Text

namespace Number

/-! ## Numerals -/

theorem tenTo_add (m n : Nat) : tenTo (m + n) = tenTo m * tenTo n := Nat.pow_add 10 m n

theorem tenTo_pos (n : Nat) : 0 < tenTo n := Nat.pow_pos (by decide)

namespace Numeral

/-- A sign is only taken for one where no digit stands. -/
theorem readSign_append {negative : Bool} {c : Char} {cs : List Char} (hc : c.isDigit = true) :
    readSign ((if negative then ['-'] else []) ++ c :: cs) = (negative, c :: cs) := by
  cases negative with
  | true => rfl
  | false =>
    have hminus : c ≠ '-' := by rintro rfl; revert hc; decide
    have hplus : c ≠ '+' := by rintro rfl; revert hc; decide
    simp [readSign, hminus, hplus]

/-- The point and the digits behind it, if there are any. -/
def fractionText (fraction : List Char) : List Char :=
  if fraction.isEmpty then [] else '.' :: fraction

theorem readDigits_append {whole fraction rest : List Char}
    (hwhole : ∀ c ∈ whole, c.isDigit = true) (hfraction : ∀ c ∈ fraction, c.isDigit = true)
    (hrest : ∀ c ∈ rest.head?, c.isDigit = false ∧ c ≠ '.') :
    readDigits (whole ++ (fractionText fraction ++ rest)) = (whole, fraction, rest) := by
  unfold readDigits fractionText
  cases fraction with
  | nil =>
    have hspan := Text.spanDigits_append_of_not_isDigit hwhole fun c hc => (hrest c hc).1
    simp only [List.isEmpty_nil, if_true, List.nil_append, hspan]
    cases rest with
    | nil => rfl
    | cons c rest =>
      have := (hrest c rfl).2
      split
      · next heq => exact absurd (List.cons.inj heq).1 this
      · rfl
  | cons d fraction =>
    have hpoint : ∀ c ∈ ('.' :: (d :: fraction ++ rest)).head?, c.isDigit = false := by
      simp
    have hspan := Text.spanDigits_append_of_not_isDigit hwhole hpoint
    have hspan' := Text.spanDigits_append_of_not_isDigit hfraction fun c hc => (hrest c hc).1
    simp only [List.cons_append] at hspan hspan'
    simp [hspan, hspan']

theorem read?_append {negative : Bool} {whole fraction rest : List Char} {e : Int}
    (hne : whole ≠ []) (hwhole : ∀ c ∈ whole, c.isDigit = true)
    (hfraction : ∀ c ∈ fraction, c.isDigit = true)
    (hrest : ∀ c ∈ rest.head?, c.isDigit = false ∧ c ≠ '.') (he : readExponent? rest = some e) :
    read? ((if negative then ['-'] else []) ++ (whole ++ (fractionText fraction ++ rest))) =
      some {
        negative := negative,
        coefficient := Nat.ofDigitChars 10 (whole ++ fraction) 0,
        exponent := e - fraction.length } := by
  obtain ⟨c, cs, rfl⟩ := List.exists_cons_of_ne_nil hne
  have hdigits := readDigits_append hwhole hfraction hrest
  unfold read?
  rw [List.cons_append, readSign_append (hwhole c List.mem_cons_self)]
  rw [List.cons_append] at hdigits
  simp [hdigits, he]

theorem read?_point {negative : Bool} {whole fraction : List Char}
    (hne : whole ≠ []) (hwhole : ∀ c ∈ whole, c.isDigit = true) (hne' : fraction ≠ [])
    (hfraction : ∀ c ∈ fraction, c.isDigit = true) :
    read? ((if negative then ['-'] else []) ++ (whole ++ '.' :: fraction)) =
      some {
        negative := negative,
        coefficient := Nat.ofDigitChars 10 (whole ++ fraction) 0,
        exponent := -fraction.length } := by
  have hread := @read?_append negative _ _ [] 0 hne hwhole hfraction (by simp) rfl
  rwa [fractionText, List.isEmpty_eq_false_iff.mpr hne', List.append_nil, Int.zero_sub] at hread

/-- The same number, written with `count` zeros more. -/
def withZeros (x : Numeral) (count : Nat) : Numeral :=
  { x with coefficient := x.coefficient * tenTo count, exponent := x.exponent - count }

end Numeral

namespace Binary

variable {f : BinaryFormat}

/-! ## The text of a binary number -/

theorem stripZeros_spec (fuel n : Nat) :
    (stripZeros fuel n).1 * tenTo (stripZeros fuel n).2 = n := by
  induction fuel generalizing n with
  | zero => simp [stripZeros, tenTo]
  | succ fuel ih =>
    unfold stripZeros
    split
    · next hn =>
      dsimp only
      rw [tenTo_add, ← Nat.mul_assoc, ih]
      simp only [tenTo, Nat.pow_eq, Nat.pow_one]
      omega
    · simp [tenTo]

section Forms

variable {negative : Bool} {digits : List Char} {places : Int}

theorem positional_before (h : places ≤ 0) :
    positional digits places = ['0'] ++ '.' :: (List.replicate places.natAbs '0' ++ digits) := by
  rw [positional, if_pos h, List.append_assoc]
  rfl

theorem positional_within (h : 0 < places) (hlen : places.natAbs < digits.length) :
    positional digits places =
      digits.take places.natAbs ++ '.' :: digits.drop places.natAbs := by
  have hdrop : digits.drop places.natAbs ≠ [] := by simpa using hlen
  rw [positional, if_neg (by omega)]
  dsimp only
  rw [Nat.sub_eq_zero_of_le (Nat.le_of_lt hlen), List.replicate_zero, List.append_nil,
    List.isEmpty_eq_false_iff.mpr hdrop]
  rfl

theorem positional_behind (h : 0 < places) (hlen : digits.length ≤ places.natAbs) :
    positional digits places =
      (digits ++ List.replicate (places.natAbs - digits.length) '0') ++ '.' :: ['0'] := by
  rw [positional, if_neg (by omega)]
  dsimp only
  rw [List.drop_eq_nil_of_le hlen, List.take_of_length_le hlen, List.isEmpty_nil, if_pos rfl]

theorem read?_positional (hne : digits ≠ []) (hdigits : ∀ c ∈ digits, c.isDigit = true) :
    ∃ count, Numeral.read? ((if negative then ['-'] else []) ++ positional digits places) =
      some (Numeral.withZeros {
        negative := negative,
        coefficient := Nat.ofDigitChars 10 digits 0,
        exponent := places - digits.length } count) := by
  have hzero : ∀ c ∈ ['0'], c.isDigit = true := List.forall_mem_singleton.mpr rfl
  rcases Int.lt_or_le 0 places with hplaces | hplaces
  · rcases Nat.lt_or_ge places.natAbs digits.length with hlen | hlen
    · have hdrop : digits.drop places.natAbs ≠ [] := by simpa using hlen
      have htake : digits.take places.natAbs ≠ [] := by simp [hne]; omega
      refine ⟨0, ?_⟩
      rw [positional_within hplaces hlen,
        Numeral.read?_point htake (fun c hc => hdigits c (List.mem_of_mem_take hc)) hdrop
          fun c hc => hdigits c (List.mem_of_mem_drop hc), List.take_append_drop]
      simp only [Numeral.withZeros, tenTo, List.length_drop]
      simp
      omega
    · have hwhole : ∀ c ∈ digits ++ List.replicate (places.natAbs - digits.length) '0',
          c.isDigit = true :=
        List.forall_mem_append.mpr ⟨hdigits, Text.isDigit_of_mem_replicate⟩
      have hten : tenTo (places.natAbs - digits.length + 1) =
          10 ^ (places.natAbs - digits.length) * 10 := tenTo_add _ 1
      refine ⟨places.natAbs - digits.length + 1, ?_⟩
      rw [positional_behind hplaces hlen,
        Numeral.read?_point (by simp [hne]) hwhole (by simp) hzero]
      simp only [Numeral.withZeros, Nat.ofDigitChars_append, Nat.ofDigitChars_replicate_zero]
      rw [hten]
      congr 2
      · simp [Nat.ofDigitChars_cons, Nat.mul_comm, Nat.mul_assoc]
      · simp
        omega
  · have hfraction : ∀ c ∈ List.replicate places.natAbs '0' ++ digits, c.isDigit = true :=
      List.forall_mem_append.mpr ⟨Text.isDigit_of_mem_replicate, hdigits⟩
    refine ⟨0, ?_⟩
    rw [positional_before hplaces,
      Numeral.read?_point (by simp) hzero (by simp [hne]) hfraction]
    simp only [Numeral.withZeros, Nat.ofDigitChars_append, Nat.ofDigitChars_replicate_zero]
    have habs : (places.natAbs : Int) = -places := by omega
    generalize places.natAbs = count at habs ⊢
    simp [tenTo, Nat.ofDigitChars_cons]
    omega

theorem read?_exponential (hne : digits ≠ []) (hdigits : ∀ c ∈ digits, c.isDigit = true) :
    Numeral.read? ((if negative then ['-'] else []) ++ exponential digits places) =
      some {
        negative := negative,
        coefficient := Nat.ofDigitChars 10 digits 0,
        exponent := places - digits.length } := by
  have htake : digits.take 1 ≠ [] := by simp [hne]
  have hexponent : Numeral.readExponent? ('e' :: (toString (places - 1)).toList) =
      some (places - 1) := Text.readInt?_toString (places - 1)
  have hpoint : (if digits.length ≤ 1 then [] else '.' :: digits.drop 1) =
      Numeral.fractionText (digits.drop 1) := by
    unfold Numeral.fractionText
    by_cases hlen : digits.length ≤ 1
    · rw [if_pos hlen, List.drop_eq_nil_of_le hlen]
      rfl
    · have hdrop : digits.drop 1 ≠ [] := by
        rw [Ne, List.drop_eq_nil_iff]
        exact hlen
      rw [if_neg hlen, List.isEmpty_eq_false_iff.mpr hdrop]
      rfl
  unfold exponential
  dsimp only
  rw [hpoint, List.append_assoc, List.append_assoc, List.cons_append, ← Text.toList_toString]
  rw [Numeral.read?_append htake (fun c hc => hdigits c (List.mem_of_mem_take hc))
    (fun c hc => hdigits c (List.mem_of_mem_drop hc)) (by simp) hexponent,
    List.take_append_drop, List.length_drop]
  have hpos := List.length_pos_iff.mpr hne
  congr 2
  omega

end Forms

/-! ## Rounding -/

theorem roundHalfEven_mul {k : Nat} (hk : 0 < k) (num den : Nat) :
    roundHalfEven (num * k) (den * k) = roundHalfEven num den := by
  unfold roundHalfEven
  simp only [Nat.mul_div_mul_right _ _ hk, Nat.mul_mod_mul_right, ← Nat.mul_assoc,
    Nat.mul_lt_mul_right hk]

/-- Rounding looks at the ratio alone. -/
theorem ofRatio_mul {k : Nat} (hk : 0 < k) (negative : Bool) (num den : Nat) :
    (ofRatio negative (num * k) (den * k) : Binary f) = ofRatio negative num den := by
  have hsteps : (num * k) <<< f.fractionBits = num <<< f.fractionBits * k := by
    simp only [Nat.shiftLeft_eq]
    ac_rfl
  have hden : ∀ shift, (den * k) <<< shift = den <<< shift * k := by
    intro shift
    simp only [Nat.shiftLeft_eq]
    ac_rfl
  have hshift : shiftFor f (num <<< f.fractionBits * k) (den * k) =
      shiftFor f (num <<< f.fractionBits) den := by
    rw [shiftFor, Nat.mul_div_mul_right _ _ hk, shiftFor]
  unfold ofRatio
  simp only [hsteps, hshift, hden, roundHalfEven_mul hk]

theorem roundHalfEven_mul_self {m den : Nat} (hden : 0 < den) :
    roundHalfEven (m * den) den = m := by
  rw [roundHalfEven, Nat.mul_mod_left, Nat.mul_div_cancel _ hden]
  simp [hden]

/-- A value of the format is rounded at the place where its mantissa ends. -/
theorem shiftFor_of_canonical {mantissa shift : Nat} (hf : 0 < f.precision)
    (h : f.Canonical mantissa shift) :
    shiftFor f (mantissa <<< shift <<< f.fractionBits) (1 <<< f.fractionBits) = shift := by
  rw [shiftFor, Nat.shiftLeft_eq _ f.fractionBits, Nat.one_shiftLeft,
    Nat.mul_div_cancel _ (Nat.two_pow_pos _)]
  obtain ⟨hlt, -, hshift⟩ := h
  rw [Nat.one_shiftLeft] at hlt
  by_cases hzero : shift = 0
  · -- Zero has no highest bit, so it is kept apart.
    rw [hzero, Nat.shiftLeft_zero]
    by_cases hm : mantissa = 0
    · rw [hm, Nat.log2_zero]
      omega
    · have := (Nat.log2_lt hm).mpr hlt
      omega
  · have hge : 2 ^ (f.precision - 1) ≤ mantissa := by
      rcases hshift with h | h
      · exact absurd h hzero
      · rwa [Nat.one_shiftLeft] at h
    have hm : mantissa ≠ 0 := Nat.ne_of_gt (Nat.lt_of_lt_of_le (Nat.two_pow_pos _) hge)
    have hlog : (mantissa <<< shift).log2 = f.precision - 1 + shift := by
      have hne := Nat.mul_ne_zero hm (Nat.ne_of_gt (Nat.two_pow_pos shift))
      rw [Nat.shiftLeft_eq, Nat.log2_eq_iff hne, Nat.pow_add, Nat.add_right_comm,
        Nat.sub_add_cancel hf, Nat.pow_add]
      exact ⟨Nat.mul_le_mul_right _ hge, Nat.mul_lt_mul_of_pos_right hlt (Nat.two_pow_pos _)⟩
    rw [hlog]
    omega

/-- A ratio that is a value of the format is rounded to itself. -/
theorem ofRatio_exact {negative : Bool} {mantissa shift : Nat} (hf : 0 < f.precision)
    (h : f.Canonical mantissa shift) :
    (ofRatio negative (mantissa <<< shift) (1 <<< f.fractionBits) : Binary f) =
      .finite negative mantissa shift h := by
  have hpos : 0 < 1 <<< f.fractionBits <<< shift := by
    simp only [Nat.shiftLeft_eq, Nat.one_mul]
    exact Nat.mul_pos (Nat.two_pow_pos _) (Nat.two_pow_pos _)
  have hnum : mantissa <<< shift <<< f.fractionBits =
      mantissa * 1 <<< f.fractionBits <<< shift := by
    simp only [Nat.shiftLeft_eq, Nat.one_mul]
    ac_rfl
  have hround : roundHalfEven (mantissa <<< shift <<< f.fractionBits)
      (1 <<< f.fractionBits <<< shift) = mantissa := by
    rw [hnum, roundHalfEven_mul_self hpos]
  have hne : mantissa ≠ 1 <<< f.precision := Nat.ne_of_lt h.1
  unfold ofRatio
  simp only [shiftFor_of_canonical hf h, hround, if_neg hne, dif_pos h]

theorem length_toDigits_mul_tenTo {n : Nat} (hn : n ≠ 0) (count : Nat) :
    (Nat.toDigits 10 (n * tenTo count)).length = (Nat.toDigits 10 n).length + count := by
  induction count with
  | zero => simp [tenTo]
  | succ count ih =>
    have hpos : 0 < n * tenTo count := Nat.mul_pos (Nat.pos_of_ne_zero hn) (tenTo_pos count)
    have hten : n * tenTo (count + 1) = n * tenTo count * 10 := by
      rw [tenTo_add, Nat.mul_assoc]
      rfl
    rw [hten, Nat.toDigits_of_base_le (by decide) (by omega),
      Nat.mul_div_cancel _ (by decide), List.length_append, ih]
    rfl

/-- A coefficient over a power of ten, with zeros moved from one to the other. -/
theorem ofRatio_withZeros (negative : Bool) (coefficient : Nat) (exponent : Int) (count : Nat) :
    (if exponent - count < 0 then
      ofRatio negative (coefficient * tenTo count) (tenTo (exponent - count).natAbs)
    else ofRatio negative (coefficient * tenTo count * tenTo (exponent - count).natAbs) 1 :
      Binary f) =
    if exponent < 0 then ofRatio negative coefficient (tenTo exponent.natAbs)
    else ofRatio negative (coefficient * tenTo exponent.natAbs) 1 := by
  by_cases he : exponent < 0
  · have habs : (exponent - count).natAbs = exponent.natAbs + count := by omega
    rw [if_pos (by omega), if_pos he, habs, tenTo_add, ofRatio_mul (tenTo_pos count)]
  by_cases hcount : exponent - count < 0
  · have hsplit : tenTo count = tenTo exponent.natAbs * tenTo (exponent - count).natAbs := by
      rw [← tenTo_add]
      congr 1
      omega
    have hpos := tenTo_pos (exponent - count).natAbs
    rw [if_pos hcount, if_neg he, ← ofRatio_mul hpos negative (coefficient * _) 1, hsplit,
      Nat.one_mul, Nat.mul_assoc]
  · have hsplit : tenTo exponent.natAbs = tenTo count * tenTo (exponent - count).natAbs := by
      rw [← tenTo_add]
      congr 1
      omega
    rw [if_neg hcount, if_neg he, hsplit, Nat.mul_assoc]

/-- What zeros are written at the end of a numeral is of no account. -/
theorem ofNumeral_withZeros {x : Numeral} (hx : x.coefficient ≠ 0) (count : Nat) :
    (ofNumeral (x.withZeros count) : Binary f) = ofNumeral x := by
  have hne : (x.withZeros count).coefficient ≠ 0 :=
    Nat.mul_ne_zero hx (Nat.ne_of_gt (tenTo_pos count))
  have hplaces : (x.withZeros count).places = x.places := by
    rw [Numeral.places, Numeral.places, Numeral.withZeros, length_toDigits_mul_tenTo hx]
    dsimp only
    omega
  unfold ofNumeral
  rw [if_neg hne, if_neg hx, hplaces]
  split
  · rfl
  split
  · rfl
  · exact ofRatio_withZeros x.negative x.coefficient x.exponent count

section Exact

variable {negative : Bool} {mantissa shift : Nat}

/-- The exact numeral has no more digits than the format has bits. -/
theorem length_toDigits_exactNumeral (hf : 0 < f.precision) (h : f.Canonical mantissa shift) :
    (Nat.toDigits 10 (exactNumeral f negative mantissa shift).coefficient).length ≤
      f.precision + f.maxShift + f.fractionBits := by
  have hpos : ∀ n, 0 < 10 ^ n := fun n => Nat.pow_pos (by decide)
  have hprecision : mantissa < 10 ^ f.precision :=
    Nat.lt_of_lt_of_le (Nat.one_shiftLeft _ ▸ h.1) (Nat.pow_le_pow_left (by decide) _)
  have hshift : 2 ^ shift ≤ 10 ^ f.maxShift :=
    Nat.le_trans (Nat.pow_le_pow_right (by decide) h.2.1) (Nat.pow_le_pow_left (by decide) _)
  have hbits : 5 ^ f.fractionBits ≤ 10 ^ f.fractionBits := Nat.pow_le_pow_left (by decide) _
  refine (Nat.length_toDigits_le_iff (by decide) (by omega)).mpr ?_
  rw [exactNumeral, Nat.shiftLeft_eq, Nat.pow_eq, Nat.pow_add, Nat.pow_add]
  calc mantissa * 2 ^ shift * 5 ^ f.fractionBits
      ≤ mantissa * 10 ^ f.maxShift * 10 ^ f.fractionBits :=
        Nat.mul_le_mul (Nat.mul_le_mul_left _ hshift) hbits
    _ < 10 ^ f.precision * 10 ^ f.maxShift * 10 ^ f.fractionBits :=
        Nat.mul_lt_mul_of_pos_right (Nat.mul_lt_mul_of_pos_right hprecision (hpos _)) (hpos _)

/-- What stands behind all candidates reads back. -/
theorem ofNumeral_exactNumeral (hf : 0 < f.precision)
    (h : f.Canonical mantissa shift) (hm : mantissa ≠ 0) :
    (ofNumeral (exactNumeral f negative mantissa shift) : Binary f) =
      .finite negative mantissa shift h := by
  have hmul : (exactNumeral f negative mantissa shift).coefficient =
      mantissa * 2 ^ shift * 5 ^ f.fractionBits := by
    rw [exactNumeral, Nat.shiftLeft_eq, Nat.pow_eq]
  have hne : (exactNumeral f negative mantissa shift).coefficient ≠ 0 := by
    rw [hmul]
    exact Nat.mul_ne_zero (Nat.mul_ne_zero hm (Nat.ne_of_gt (Nat.two_pow_pos _)))
      (Nat.ne_of_gt (Nat.pow_pos (by decide)))
  have hlength := @length_toDigits_exactNumeral f negative mantissa shift hf h
  have hexponent : (exactNumeral f negative mantissa shift).exponent = -f.fractionBits := rfl
  unfold ofNumeral
  rw [if_neg hne, if_neg (by rw [Numeral.places, hexponent]; omega),
    if_neg (by rw [Numeral.places, hexponent]; omega)]
  have hexact := @ofRatio_exact f negative mantissa shift hf h
  have hnegative : (exactNumeral f negative mantissa shift).negative = negative := rfl
  rw [← hexact, hexponent, hmul, hnegative, Nat.one_shiftLeft, Nat.shiftLeft_eq]
  by_cases hbits : f.fractionBits = 0
  · rw [if_neg (by omega), hbits]
    simp [tenTo]
  · have hten : tenTo (-(f.fractionBits : Int)).natAbs =
        2 ^ f.fractionBits * 5 ^ f.fractionBits := by
      rw [← Nat.mul_pow, Int.natAbs_neg]
      rfl
    rw [if_pos (by omega), hten, ofRatio_mul (Nat.pow_pos (by decide))]

end Exact

theorem ofNumeral_shortest {negative : Bool} {mantissa shift : Nat} (hf : 0 < f.precision)
    (h : f.Canonical mantissa shift) (hm : mantissa ≠ 0) :
    (ofNumeral (shortest f negative mantissa shift h) : Binary f) =
      .finite negative mantissa shift h := by
  unfold shortest
  dsimp only
  cases hfind : (List.range f.precision).findSome? fun n => _ with
  | none => exact ofNumeral_exactNumeral hf h hm
  | some x =>
    obtain ⟨n, -, hx⟩ := List.exists_of_findSome?_eq_some hfind
    have := List.find?_some hx
    exact of_decide_eq_true this

/-- The digits that are written are those of the numeral but for zeros at the end. -/
theorem read?_numeralText {x : Numeral} (hx : x.coefficient ≠ 0) :
    ∃ y, Numeral.read? (numeralText x) = some y ∧ (ofNumeral y : Binary f) = ofNumeral x := by
  have hstrip := stripZeros_spec (digitCount x.coefficient) x.coefficient
  unfold numeralText
  generalize hcz : stripZeros (digitCount x.coefficient) x.coefficient = stripped at hstrip
  obtain ⟨c, zeros⟩ := stripped
  let core : Numeral := {
    negative := x.negative,
    coefficient := c,
    exponent := x.exponent + zeros }
  have hc : c ≠ 0 := by
    rintro rfl
    exact hx (hstrip ▸ Nat.zero_mul _)
  have hcore : x = core.withZeros zeros := by
    cases x
    simp [core, Numeral.withZeros, hstrip]
  have hdigits := @Text.isDigit_of_mem_toDigits c
  dsimp only
  generalize hplaces : ((Nat.toDigits 10 c).length : Int) + (x.exponent + zeros) = places
  have hvalue : ({
      negative := x.negative,
      coefficient := Nat.ofDigitChars 10 (Nat.toDigits 10 c) 0,
      exponent := places - (Nat.toDigits 10 c).length } : Numeral) = core := by
    simp only [Nat.ofDigitChars_ten_toDigits, core]
    congr 1
    omega
  by_cases hrange : -3 ≤ places ∧ places ≤ 16
  · obtain ⟨count, hread⟩ := @read?_positional x.negative _ places Nat.toDigits_ne_nil hdigits
    rw [hvalue] at hread
    rw [if_pos hrange]
    refine ⟨_, hread, ?_⟩
    rw [ofNumeral_withZeros hc, hcore, ofNumeral_withZeros hc]
  · have hread := @read?_exponential x.negative _ places Nat.toDigits_ne_nil hdigits
    rw [hvalue] at hread
    rw [if_neg hrange]
    refine ⟨_, hread, ?_⟩
    rw [hcore, ofNumeral_withZeros hc]

theorem eq_zero_of_mantissa {negative : Bool} {shift : Nat} (h : f.Canonical 0 shift) :
    Binary.finite negative 0 shift h = zero negative := by
  have hshift : shift = 0 := by
    rcases h.2.2 with h | h
    · exact h
    · rw [Nat.one_shiftLeft] at h
      exact absurd h (Nat.not_le_of_gt (Nat.two_pow_pos _))
  subst hshift
  rfl

/-- What is written for a finite value reads back as that value. -/
theorem readFinite?_text {x : Binary f} (hf : 0 < f.precision) (hx : x.isFinite = true) :
    readFinite? x.text = some x := by
  cases x with
  | nan | infinite => cases hx
  | finite negative mantissa shift h =>
    unfold readFinite? read? text
    by_cases hm : mantissa = 0
    · subst hm
      rw [eq_zero_of_mantissa h]
      cases negative <;> rfl
    · have hcoefficient : (shortest f negative mantissa shift h).coefficient ≠ 0 := by
        intro hzero
        have := @ofNumeral_shortest f negative mantissa shift hf h hm
        rw [ofNumeral, if_pos hzero] at this
        injection this with _ hmantissa
        exact hm hmantissa.symm
      obtain ⟨y, hread, hy⟩ := @read?_numeralText f _ hcoefficient
      simp only [if_neg hm, hread, hy, ofNumeral_shortest hf h hm]
      rfl

/-- A text that ends in digits, with a point or an exponent before them. -/
def Marked (cs : List Char) : Prop :=
  ∃ front digits, cs = front ++ digits ∧ digits ≠ [] ∧ (∀ c ∈ digits, c.isDigit = true) ∧
    ('.' ∈ front ∨ 'e' ∈ front)

theorem Marked.append {cs : List Char} (h : Marked cs) (before : List Char) :
    Marked (before ++ cs) := by
  obtain ⟨front, digits, rfl, hne, hdigits, hmark⟩ := h
  refine ⟨before ++ front, digits, (List.append_assoc _ _ _).symm, hne, hdigits, ?_⟩
  exact hmark.imp (List.mem_append_right _) (List.mem_append_right _)

theorem Marked.ne_nil {cs : List Char} (h : Marked cs) : cs ≠ [] := by
  obtain ⟨front, digits, rfl, hne, _⟩ := h
  simp [hne]

theorem Marked.isDigit_of_mem_getLast? {cs : List Char} (h : Marked cs) :
    ∀ c ∈ cs.getLast?, c.isDigit = true := by
  obtain ⟨front, digits, rfl, hne, hdigits, _⟩ := h
  exact Text.isDigit_of_mem_getLast?_append hne hdigits

theorem marked_positional {digits : List Char} {places : Int} (hne : digits ≠ [])
    (hdigits : ∀ c ∈ digits, c.isDigit = true) : Marked (positional digits places) := by
  unfold positional
  split
  · exact ⟨_, digits, rfl, hne, hdigits, .inl (by simp)⟩
  · dsimp only
    by_cases hdrop : digits.drop places.natAbs = []
    · exact ⟨digits.take places.natAbs ++ List.replicate (places.natAbs - digits.length) '0' ++
        ['.'], ['0'], by simp [hdrop], by simp, List.forall_mem_singleton.mpr rfl, .inl (by simp)⟩
    · exact ⟨digits.take places.natAbs ++ List.replicate (places.natAbs - digits.length) '0' ++
        ['.'], digits.drop places.natAbs, by simp [List.isEmpty_eq_false_iff.mpr hdrop], hdrop,
        fun c hc => hdigits c (List.mem_of_mem_drop hc), .inl (by simp)⟩

theorem marked_exponential (digits : List Char) (places : Int) :
    Marked (exponential digits places) :=
  ⟨_, _, rfl, Nat.toDigits_ne_nil, Text.isDigit_of_mem_toDigits, .inr (by simp)⟩

theorem marked_text {x : Binary f} (hx : x.isFinite = true) : Marked x.text := by
  cases x with
  | nan | infinite => cases hx
  | finite negative mantissa shift h =>
    rw [text]
    split
    · exact Marked.append
        ⟨['0', '.'], ['0'], rfl, by simp, List.forall_mem_singleton.mpr rfl, .inl (by simp)⟩ _
    · unfold numeralText
      dsimp only
      refine Marked.append ?_ _
      split
      · exact marked_positional Nat.toDigits_ne_nil Text.isDigit_of_mem_toDigits
      · exact marked_exponential _ _

/-! ## Conversions stay finite -/

theorem le_roundHalfEven (num den : Nat) :
    num / den ≤ roundHalfEven num den ∧ roundHalfEven num den ≤ num / den + 1 := by
  unfold roundHalfEven
  dsimp only
  split
  · omega
  · split
    · omega
    · split <;> omega

/-- Only a shift that is too large makes a ratio infinite. -/
theorem isFinite_ofRatio {negative : Bool} {num den : Nat} (hf : 0 < f.precision)
    (hshift : shiftFor f (num <<< f.fractionBits) den < f.maxShift) :
    (ofRatio negative num den : Binary f).isFinite = true := by
  generalize hq : num <<< f.fractionBits / den = q
  have hdiv : num <<< f.fractionBits / den <<< shiftFor f (num <<< f.fractionBits) den =
      q / 2 ^ shiftFor f (num <<< f.fractionBits) den := by
    rw [Nat.shiftLeft_eq den, ← Nat.div_div_eq_div_mul, hq]
  have hround := le_roundHalfEven (num <<< f.fractionBits)
    (den <<< shiftFor f (num <<< f.fractionBits) den)
  rw [hdiv] at hround
  have hlog : shiftFor f (num <<< f.fractionBits) den = q.log2 + 1 - f.precision := by
    rw [shiftFor, hq]
  unfold ofRatio
  dsimp only
  generalize roundHalfEven (num <<< f.fractionBits)
    (den <<< shiftFor f (num <<< f.fractionBits) den) = mantissa at hround ⊢
  generalize shiftFor f (num <<< f.fractionBits) den = shift at hround hlog hshift ⊢
  have hlt : q / 2 ^ shift < 2 ^ f.precision := by
    rw [Nat.div_lt_iff_lt_mul (Nat.two_pow_pos _), ← Nat.pow_add]
    exact Nat.lt_of_lt_of_le Nat.lt_log2_self (Nat.pow_le_pow_right (by decide) (by omega))
  have hge : shift ≠ 0 → 2 ^ (f.precision - 1) ≤ q / 2 ^ shift := by
    intro hzero
    have hq0 : q ≠ 0 := by
      rintro rfl
      rw [Nat.log2_zero] at hlog
      omega
    rw [Nat.le_div_iff_mul_le (Nat.two_pow_pos _), ← Nat.pow_add]
    exact (Nat.le_log2 hq0).mp (by omega)
  by_cases hcarry : mantissa = 1 <<< f.precision
  · have hcanonical : f.Canonical (1 <<< (f.precision - 1)) (shift + 1) := by
      refine ⟨?_, hshift, .inr (Nat.le_refl _)⟩
      rw [Nat.one_shiftLeft, Nat.one_shiftLeft]
      exact Nat.pow_lt_pow_right (by decide) (by omega)
    simp only [if_pos hcarry, dif_pos hcanonical]
    rfl
  · have hcanonical : f.Canonical mantissa shift := by
      rw [Nat.one_shiftLeft] at hcarry
      refine ⟨by rw [Nat.one_shiftLeft]; omega, Nat.le_of_lt hshift, ?_⟩
      by_cases hzero : shift = 0
      · exact .inl hzero
      · rw [Nat.one_shiftLeft]
        exact .inr (Nat.le_trans (hge hzero) hround.1)
    simp only [if_neg hcarry, dif_pos hcanonical]
    rfl

theorem isFinite_of_ofInt? {n : Int} {x : Binary f} (h : ofInt? n = some x) :
    x.isFinite = true := by
  have := toInt?_of_ofInt? h
  cases x with
  | nan | infinite => cases this
  | finite => rfl

theorem log2_lt_of_lt_one_shiftLeft {n k : Nat} (hk : 0 < k) (h : n < 1 <<< k) : n.log2 < k := by
  by_cases hn : n = 0
  · rw [hn, Nat.log2_zero]
    exact hk
  · exact (Nat.log2_lt hn).mpr (Nat.one_shiftLeft k ▸ h)

theorem shiftFor_le {mantissa shift den : Nat} {g : BinaryFormat} (hg : 0 < g.precision)
    (h : g.Canonical mantissa shift) :
    shiftFor f (mantissa <<< shift <<< f.fractionBits) den ≤
      g.precision + g.maxShift + f.fractionBits - f.precision := by
  have hmantissa : mantissa < 2 ^ g.precision := Nat.one_shiftLeft g.precision ▸ h.1
  have hshift : 2 ^ shift ≤ 2 ^ g.maxShift := Nat.pow_le_pow_right (by decide) h.2.1
  have hlt : mantissa <<< shift <<< f.fractionBits / den <
      2 ^ (g.precision + g.maxShift + f.fractionBits) := by
    refine Nat.lt_of_le_of_lt (Nat.div_le_self _ _) ?_
    rw [Nat.shiftLeft_eq, Nat.shiftLeft_eq, Nat.pow_add, Nat.pow_add]
    exact Nat.mul_lt_mul_of_pos_right
      (Nat.mul_lt_mul_of_lt_of_le hmantissa hshift (Nat.two_pow_pos _)) (Nat.two_pow_pos _)
  have hlog := log2_lt_of_lt_one_shiftLeft (by omega) (Nat.one_shiftLeft _ ▸ hlt)
  rw [shiftFor]
  omega

/-- Single precision reaches less far than double precision. -/
theorem isFinite_convert {x : Binary .single} (hx : x.isFinite = true) :
    (x.convert : Binary .double).isFinite = true := by
  cases x with
  | nan | infinite => cases hx
  | finite negative mantissa shift h =>
    refine isFinite_ofRatio (by decide) (Nat.lt_of_le_of_lt (shiftFor_le (by decide) h) ?_)
    decide

end Binary
/-! ## Decimal numbers -/

theorem le_ofDigitChars (digits : List Char) (start : Nat) :
    start ≤ Nat.ofDigitChars 10 digits start := by
  rw [Nat.ofDigitChars_eq_ofDigitChars_zero]
  exact Nat.le_add_right_of_le (Nat.le_mul_of_pos_left _ (Nat.pow_pos (by decide)))

namespace Decimal

/-- Digits that there is room for are all taken. -/
theorem run?_append {digits rest : List Char} (hdigits : ∀ c ∈ digits, c.isDigit = true)
    {coefficient scale : Nat} {pastPoint anyDigit : Bool}
    (hlimit : Nat.ofDigitChars 10 digits coefficient < limit)
    (hscale : pastPoint = true → scale + digits.length ≤ 28) :
    Scan.run? ⟨coefficient, scale, pastPoint, anyDigit⟩ (digits ++ rest) =
      Scan.run? {
        coefficient := Nat.ofDigitChars 10 digits coefficient,
        scale := if pastPoint then scale + digits.length else scale,
        pastPoint := pastPoint,
        anyDigit := anyDigit || !digits.isEmpty } rest := by
  induction digits generalizing coefficient scale anyDigit with
  | nil => simp
  | cons c digits ih =>
    obtain ⟨hc, hdigits⟩ := List.forall_mem_cons.mp hdigits
    rw [Nat.ofDigitChars_cons] at hlimit
    have hroom : 10 * coefficient + (c.toNat - '0'.toNat) < limit :=
      Nat.lt_of_le_of_lt (le_ofDigitChars digits _) hlimit
    have hpush : Scan.push? ⟨coefficient, scale, pastPoint, anyDigit⟩ (c.toNat - '0'.toNat) =
        some ⟨10 * coefficient + (c.toNat - '0'.toNat),
          if pastPoint then scale + 1 else scale, pastPoint, true⟩ := by
      have hfull : Scan.isFull ⟨coefficient, scale, pastPoint, anyDigit⟩ = false := by
        cases pastPoint with
        | false => rfl
        | true =>
          have := hscale rfl
          simp only [List.length_cons] at this
          simp [Scan.isFull]
          omega
      simp only [Scan.push?, hfull, Bool.false_or, decide_eq_true_eq, Nat.not_le.mpr hroom,
        if_false]
    rw [List.cons_append, Scan.run?, if_pos hc]
    dsimp only
    rw [hpush]
    dsimp only
    rw [ih hdigits hlimit, Nat.ofDigitChars_cons]
    · cases pastPoint <;> simp [Nat.add_assoc, Nat.add_comm 1]
    · intro hpast
      have := hscale hpast
      simp only [List.length_cons] at this
      rw [if_pos hpast]
      omega

theorem run?_point {coefficient scale : Nat} {anyDigit : Bool} {rest : List Char} :
    Scan.run? ⟨coefficient, scale, false, anyDigit⟩ ('.' :: rest) =
      Scan.run? ⟨coefficient, scale, true, anyDigit⟩ rest := by
  rw [Scan.run?.eq_def]
  rfl

theorem readPositional?_append {negative : Bool} {whole fraction : List Char}
    (hne : whole ≠ []) (hwhole : ∀ c ∈ whole, c.isDigit = true)
    (hfraction : ∀ c ∈ fraction, c.isDigit = true)
    (hlimit : Nat.ofDigitChars 10 (whole ++ fraction) 0 < limit)
    (hscale : fraction.length ≤ 28) :
    readPositional? ((if negative then ['-'] else []) ++
        (whole ++ Numeral.fractionText fraction)) =
      ofParts? (negative && Nat.ofDigitChars 10 (whole ++ fraction) 0 != 0)
        (Nat.ofDigitChars 10 (whole ++ fraction) 0) fraction.length := by
  have hsign : Numeral.readSign ((if negative then ['-'] else []) ++
      (whole ++ Numeral.fractionText fraction)) =
        (negative, whole ++ Numeral.fractionText fraction) := by
    obtain ⟨c, cs, rfl⟩ := List.exists_cons_of_ne_nil hne
    rw [List.cons_append, Numeral.readSign_append (hwhole c List.mem_cons_self)]
  have hempty : whole.isEmpty = false := List.isEmpty_eq_false_iff.mpr hne
  rw [Nat.ofDigitChars_append] at hlimit
  have hrun : Scan.start.run? (whole ++ Numeral.fractionText fraction) =
      some (Nat.ofDigitChars 10 (whole ++ fraction) 0, fraction.length) := by
    rw [Scan.start, run?_append hwhole (Nat.lt_of_le_of_lt (le_ofDigitChars _ _) hlimit) (by simp),
      Nat.ofDigitChars_append, hempty]
    cases fraction with
    | nil => rfl
    | cons d fraction =>
      have hrest := @run?_append (d :: fraction) [] hfraction _ 0 true true hlimit
        (fun _ => by simpa using hscale)
      rw [List.append_nil, if_pos rfl, Nat.zero_add] at hrest
      rw [Numeral.fractionText, List.isEmpty_cons, if_neg Bool.false_ne_true]
      exact run?_point.trans hrest
  rw [readPositional?, hsign]
  dsimp only
  rw [hrun]
  rfl

/-- A decimal without the sign before zero. -/
def settle (x : Decimal) : Decimal := { x with negative := x.negative && x.coefficient != 0 }

/-- What is written for a decimal reads back, all of its fraction digits included. -/
theorem read?_text (x : Decimal) : read? x.text = some x.settle := by
  have hpadded : ∀ c ∈ Text.padded (x.scale + 1) x.coefficient, c.isDigit = true :=
    List.forall_mem_append.mpr ⟨Text.isDigit_of_mem_replicate, Text.isDigit_of_mem_toDigits⟩
  have hvalue : Nat.ofDigitChars 10 (Text.padded (x.scale + 1) x.coefficient) 0 =
      x.coefficient := by
    rw [Text.padded, Nat.ofDigitChars_append, Nat.ofDigitChars_replicate_zero, Nat.mul_zero,
      Nat.ofDigitChars_ten_toDigits]
  have hlength : x.scale + 1 ≤ (Text.padded (x.scale + 1) x.coefficient).length := by
    rw [Text.padded, List.length_append, List.length_replicate]
    omega
  unfold text
  dsimp only
  generalize Text.padded (x.scale + 1) x.coefficient = digits at hpadded hvalue hlength ⊢
  have hwhole : digits.take (digits.length - x.scale) ≠ [] := by
    rw [Ne, List.take_eq_nil_iff]
    rintro (h | rfl)
    · omega
    · simp at hlength
  have hscale : (digits.drop (digits.length - x.scale)).length = x.scale := by
    rw [List.length_drop]
    omega
  have hpoint : (if x.scale = 0 then [] else '.' :: digits.drop (digits.length - x.scale)) =
      Numeral.fractionText (digits.drop (digits.length - x.scale)) := by
    unfold Numeral.fractionText
    by_cases hzero : x.scale = 0
    · rw [if_pos hzero, if_pos (by simp [hzero])]
    · rw [if_neg hzero, if_neg (by simp; omega)]
  rw [hpoint, List.append_assoc, read?, readPositional?_append hwhole
    (fun c hc => hpadded c (List.mem_of_mem_take hc))
    (fun c hc => hpadded c (List.mem_of_mem_drop hc)), List.take_append_drop, hvalue, hscale]
  · simp [ofParts?, x.coefficient_lt, x.scale_le, settle]
  · rw [List.take_append_drop, hvalue]
    exact x.coefficient_lt
  · rw [hscale]
    exact x.scale_le

theorem text_ne_nil (x : Decimal) : x.text ≠ [] := by
  intro h
  have hread := read?_text x
  rw [h] at hread
  cases hread

end Decimal
end Number
end TypedQuery
