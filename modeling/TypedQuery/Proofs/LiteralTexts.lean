import Mathlib.Data.List.TakeWhile
import TypedQuery.Proofs.Numerals
import TypedQuery.Query.Text
/-!
The texts of literals can be read back.

An identifier has as many hexadecimal digits as its bits need. Of a moment each part but the
year has a fixed width, and the zeros that are missing at the end of the fraction are known by
their number; what is read is the moment as it is shown, with leap seconds at the end of minutes
only. Between quotes, a quote that stands alone is the last.
-/
namespace TypedQuery

namespace Guid

theorem hexValue?_hexDigit (n : Nat) : Text.hexValue? (hexDigit n) = some (n % 16) := by
  have hall : ∀ k : Fin 16, Text.hexValue? (Nat.digitChar k) = some k.val := by decide
  exact hall ⟨n % 16, Nat.mod_lt n (by decide)⟩

theorem readHex?_concat (cs : List Char) (c : Char) : Text.readHex? (cs ++ [c]) =
    (Text.readHex? cs).bind fun value => (Text.hexValue? c).map (16 * value + ·) := by
  simp [Text.readHex?, List.foldlM_append]

/-- Digits that are cut off are lost. -/
theorem readHex?_hexDigits (count n : Nat) :
    Text.readHex? (hexDigits count n) = some (n % Nat.pow 16 count) := by
  induction count generalizing n with
  | zero => simp [hexDigits, Text.readHex?, Nat.mod_one]
  | succ count ih =>
    have hsplit : n % Nat.pow 16 (count + 1) = 16 * (n / 16 % Nat.pow 16 count) + n % 16 := by
      rw [Nat.pow_eq, Nat.pow_eq, Nat.pow_succ', Nat.mod_mul, Nat.add_comm]
    rw [hexDigits, readHex?_concat, ih, hexValue?_hexDigit, hsplit]
    rfl

theorem not_mem_hexDigits {c : Char} (hc : ∀ k : Fin 16, c ≠ Nat.digitChar k) (count n : Nat) :
    c ∉ hexDigits count n := by
  induction count generalizing n with
  | zero => simp [hexDigits]
  | succ count ih =>
    rw [hexDigits, List.mem_append, List.mem_singleton, not_or]
    exact ⟨ih _, hc ⟨n % 16, Nat.mod_lt n (by decide)⟩⟩

/-- The characters are as many as the groups take. -/
def FitsGroups : List Nat → List Char → Prop
  | [], cs => cs = []
  | n :: lengths, cs => n ≤ cs.length ∧ FitsGroups lengths (cs.drop n)

theorem flatten_cut {lengths : List Nat} {cs : List Char} (h : FitsGroups lengths cs) :
    (cut lengths cs).flatten = cs := by
  induction lengths generalizing cs with
  | nil => exact h.symm
  | cons n lengths ih => rw [cut, List.flatten_cons, ih h.2, List.take_append_drop]

theorem map_length_cut {lengths : List Nat} {cs : List Char} (h : FitsGroups lengths cs) :
    (cut lengths cs).map List.length = lengths := by
  induction lengths generalizing cs with
  | nil => rfl
  | cons n lengths ih =>
    rw [cut, List.map_cons, ih h.2, List.length_take, Nat.min_eq_left h.1]

theorem fitsGroups_hexDigits (g : Guid) :
    FitsGroups groupLengths (hexDigits 32 g.bits.toNat) := by
  simp [groupLengths, FitsGroups, length_hexDigits]

theorem not_mem_of_mem_cut (g : Guid) {c : Char} (hc : ∀ k : Fin 16, c ≠ Nat.digitChar k) :
    ∀ group ∈ cut groupLengths (hexDigits 32 g.bits.toNat), c ∉ group := by
  intro group hgroup hmem
  refine not_mem_hexDigits hc 32 g.bits.toNat ?_
  rw [← flatten_cut g.fitsGroups_hexDigits]
  exact List.mem_flatten.mpr ⟨group, hgroup, hmem⟩

theorem groups?_text (g : Guid) :
    groups? g.text = some (cut groupLengths (hexDigits 32 g.bits.toNat)) := by
  have hdash := g.not_mem_of_mem_cut (show ∀ k : Fin 16, '-' ≠ Nat.digitChar k by decide)
  have hne : cut groupLengths (hexDigits 32 g.bits.toNat) ≠ [] := by simp [groupLengths, cut]
  rw [groups?, text, List.splitOn_intercalate _ hdash hne,
    if_pos (map_length_cut g.fitsGroups_hexDigits)]

theorem read?_text (g : Guid) : read? g.text = some g := by
  have hlt : g.bits.toNat < Nat.pow 16 32 := g.bits.isLt
  rw [read?, groups?_text]
  simp only [Option.bind_eq_bind, Option.bind_some]
  rw [flatten_cut g.fitsGroups_hexDigits, readHex?_hexDigits, Nat.mod_eq_of_lt hlt]
  simp

theorem not_mem_intercalate {c : Char} {separator : List Char} (hc : c ∉ separator) :
    ∀ {groups : List (List Char)}, (∀ group ∈ groups, c ∉ group) →
      c ∉ separator.intercalate groups
  | [], _ => by simp
  | [group], h => by simpa using h
  | group :: group' :: groups, h => by
    obtain ⟨hgroup, hgroups⟩ := List.forall_mem_cons.mp h
    have hrest := not_mem_intercalate hc hgroups
    simp [List.intercalate_cons_cons, hgroup, hc, hrest]

theorem quote_not_mem_text (g : Guid) : '\'' ∉ g.text :=
  not_mem_intercalate (by decide) (g.not_mem_of_mem_cut (by decide))

end Guid

namespace Text

theorem ofDigitChars_padded (width n : Nat) : Nat.ofDigitChars 10 (padded width n) 0 = n := by
  rw [padded, Nat.ofDigitChars_append, Nat.ofDigitChars_replicate_zero, Nat.mul_zero,
    Nat.ofDigitChars_ten_toDigits]

theorem isDigit_of_mem_padded {width n : Nat} : ∀ c ∈ padded width n, c.isDigit = true := by
  intro c hc
  rcases List.mem_append.mp hc with hc | hc
  · exact isDigit_of_mem_replicate c hc
  · exact isDigit_of_mem_toDigits c hc

theorem length_padded {width n : Nat} (hwidth : 0 < width) (h : n < Number.tenTo width) :
    (padded width n).length = width := by
  have hle := (Nat.length_toDigits_le_iff (by decide) hwidth).mpr h
  rw [padded, List.length_append, List.length_replicate]
  omega

theorem padded_ne_nil (width n : Nat) : padded width n ≠ [] := by
  simp [padded, Nat.toDigits_ne_nil]

theorem trimStart_of_not_isBlank {cs : List Char} (h : ∀ c ∈ cs.head?, isBlank c = false) :
    trimStart cs = cs := by
  cases cs with
  | nil => rfl
  | cons c cs => simp [trimStart, h c rfl]

theorem isBlank_of_isDigit {c : Char} (h : c.isDigit = true) : isBlank c = false := by
  obtain ⟨hle, hge⟩ : 48 ≤ c.toNat ∧ c.toNat ≤ 57 := by
    simpa [Char.isDigit, UInt32.le_iff_toNat_le] using h
  simp only [isBlank, Bool.or_eq_false_iff, Bool.and_eq_false_iff, decide_eq_false_iff_not,
    beq_eq_false_iff_ne]
  omega

theorem isDigit_of_mem_head?_padded {width n : Nat} {rest : List Char} :
    ∀ c ∈ (padded width n ++ rest).head?, c.isDigit = true := by
  intro c hc
  rw [List.head?_append, List.head?_eq_some_head (padded_ne_nil width n), Option.some_or] at hc
  exact isDigit_of_mem_padded c (Option.some.inj hc ▸ List.head_mem _)

theorem trimStart_padded (width n : Nat) (rest : List Char) :
    trimStart (padded width n ++ rest) = padded width n ++ rest :=
  trimStart_of_not_isBlank fun c hc => isBlank_of_isDigit (isDigit_of_mem_head?_padded c hc)

end Text

namespace DateTime

open Number (tenTo)
open Text (padded)

theorem readNumber?_padded {width n : Nat} (rest : List Char) (hwidth : 0 < width)
    (h : n < tenTo width) : readNumber? width (padded width n ++ rest) = some (n, rest) := by
  have hlength := Text.length_padded hwidth h
  have htake : ((padded width n ++ rest).take width).takeWhile Char.isDigit = padded width n := by
    rw [List.take_left' hlength, List.takeWhile_eq_self_iff]
    exact Text.isDigit_of_mem_padded
  have hne : (padded width n).isEmpty = false := by simp [Text.padded_ne_nil]
  simp only [readNumber?, Text.trimStart_padded, htake, hne, Bool.false_eq_true, if_false,
    Text.ofDigitChars_padded, List.drop_left]

/-- A part of a moment behind its mark. -/
theorem readMarked?_padded {width n : Nat} {c : Char} (rest : List Char)
    (hc : Text.isBlank c = false) (hwidth : 0 < width) (h : n < tenTo width) :
    (readMark? c (c :: (padded width n ++ rest))).bind (readNumber? width) = some (n, rest) := by
  have hmark : readMark? c (c :: (padded width n ++ rest)) = some (padded width n ++ rest) := by
    rw [readMark?, Text.trimStart_of_not_isBlank (by simpa using hc)]
    simp
  rw [hmark]
  exact readNumber?_padded rest hwidth h

theorem readAllDigits?_padded {n : Nat} {rest : List Char} (width : Nat)
    (hrest : ∀ c ∈ rest.head?, c.isDigit = false) :
    readAllDigits? (padded width n ++ rest) = some (n, rest) := by
  have hne : (padded width n).isEmpty = false := by simp [Text.padded_ne_nil]
  simp [readAllDigits?, Text.spanDigits_append_of_not_isDigit Text.isDigit_of_mem_padded hrest,
    hne, Text.ofDigitChars_padded]

theorem readYear?_yearText {year : Int} {rest : List Char}
    (hrest : ∀ c ∈ rest.head?, c.isDigit = false) :
    readYear? (yearText year ++ rest) = some (year, rest) := by
  unfold yearText
  by_cases hplain : 0 ≤ year ∧ year ≤ 9999
  · have habs : (year.natAbs : Int) = year := by omega
    rw [if_pos hplain, readYear?, Text.trimStart_padded]
    have hdigit := @Text.isDigit_of_mem_head?_padded 4 year.natAbs rest
    split
    · next heq => exact absurd (hdigit '-' (by rw [heq]; rfl)) (by decide)
    · next heq => exact absurd (hdigit '+' (by rw [heq]; rfl)) (by decide)
    · have hwidth : tenTo 4 = 10000 := rfl
      simp only [readNumber?_padded rest (by decide) (show year.natAbs < tenTo 4 by omega),
        Option.map_some, habs]
  · rw [if_neg hplain, List.cons_append, readYear?]
    by_cases hneg : year < 0
    · have habs : -(year.natAbs : Int) = year := by omega
      rw [if_pos hneg, Text.trimStart_of_not_isBlank (by simp; decide)]
      simp only [readAllDigits?_padded 4 hrest, Option.map_some, habs]
    · have habs : (year.natAbs : Int) = year := by omega
      rw [if_neg hneg, Text.trimStart_of_not_isBlank (by simp; decide)]
      simp only [readAllDigits?_padded 4 hrest, Option.map_some, habs]

/-- What stands behind the whole second. -/
def fractionText (nanos : Nat) : List Char :=
  if nanos = 0 then []
  else '.' :: ((padded 9 nanos).reverse.dropWhile (· == '0')).reverse

/-- What is cut off the end of a fraction are zeros. -/
theorem exists_eq_append_replicate (cs : List Char) :
    ∃ zeros, cs = (cs.reverse.dropWhile (· == '0')).reverse ++ List.replicate zeros '0' := by
  have hzeros : cs.reverse.takeWhile (· == '0') =
      List.replicate (cs.reverse.takeWhile (· == '0')).length '0' :=
    List.eq_replicate_iff.mpr ⟨rfl, fun c hc => by simpa using List.mem_takeWhile_imp hc⟩
  refine ⟨(cs.reverse.takeWhile (· == '0')).length, ?_⟩
  rw [← List.reverse_inj, List.reverse_append, List.reverse_replicate, List.reverse_reverse,
    ← hzeros, List.takeWhile_append_dropWhile]

theorem readFraction?_fractionText {nanos : Nat} (h : nanos < 1000000000) :
    readFraction? (fractionText nanos) = some (nanos, []) := by
  by_cases hnanos : nanos = 0
  · rw [fractionText, if_pos hnanos, hnanos]
    rfl
  · obtain ⟨zeros, hzeros⟩ := exists_eq_append_replicate (padded 9 nanos)
    rw [fractionText, if_neg hnanos]
    generalize ((padded 9 nanos).reverse.dropWhile (· == '0')).reverse = digits at hzeros ⊢
    have hvalue : Nat.ofDigitChars 10 (digits ++ List.replicate zeros '0') 0 = nanos := by
      rw [← hzeros, Text.ofDigitChars_padded]
    have hlength : digits.length + zeros = 9 := by
      have := @Text.length_padded 9 nanos (by decide) h
      rwa [hzeros, List.length_append, List.length_replicate] at this
    have hdigits : ∀ c ∈ digits, c.isDigit = true := fun c hc =>
      Text.isDigit_of_mem_padded c (hzeros ▸ List.mem_append_left _ hc)
    have hne : digits ≠ [] := by
      rintro rfl
      rw [List.nil_append, Nat.ofDigitChars_replicate_zero] at hvalue
      exact hnanos hvalue.symm
    have hspan : Text.spanDigits digits = (digits, []) := by
      simpa using @Text.spanDigits_append_of_not_isDigit digits [] hdigits (by simp)
    have hmissing : 9 - digits.length = zeros := by omega
    simp [readFraction?, hspan, hne, List.take_of_length_le (show digits.length ≤ 9 by omega),
      hmissing, hvalue]

/-! ### Leap seconds -/

variable {d e : DateTime}

/-- A second runs on only at the end of a minute. -/
def Regular (d : DateTime) : Prop := d.nanos < 1000000000 ∨ d.second = 59

instance (d : DateTime) : Decidable d.Regular := inferInstanceAs (Decidable (_ ∨ _))

theorem shownSecond_le (d : DateTime) : d.shownSecond ≤ 60 := by
  have hsecond := d.second_lt
  have hnanos := d.nanos_lt
  rw [shownSecond]
  omega

theorem shownNanos_lt (d : DateTime) : d.shownNanos < 1000000000 := Nat.mod_lt _ (by decide)

/-- The regular moment that is shown like `d`. -/
def shown (d : DateTime) : DateTime :=
  { d with
    second := min d.shownSecond 59,
    nanos := (d.shownSecond - 59) * 1000000000 + d.shownNanos,
    second_lt := by omega,
    nanos_lt := by
      have hsecond := d.shownSecond_le
      have hnanos := d.shownNanos_lt
      omega }

theorem ofParts?_eq (d : DateTime) :
    ofParts? d.year d.month d.day d.hour d.minute d.shownSecond d.shownNanos = some d.shown := by
  rw [ofParts?, dif_pos d.year_mem, dif_pos d.month_mem, dif_pos d.day_mem,
    dif_pos ⟨d.hour_lt, d.minute_lt, d.shownSecond_le, d.shownNanos_lt⟩]
  rfl

theorem regular_shown (d : DateTime) : d.shown.Regular := by
  have hnanos := d.shownNanos_lt
  simp only [Regular, shown]
  omega

theorem shownSecond_shown (d : DateTime) : d.shown.shownSecond = d.shownSecond := by
  have hsecond := d.shownSecond_le
  have hnanos := d.shownNanos_lt
  simp only [shown, shownSecond] at *
  omega

theorem shownNanos_shown (d : DateTime) : d.shown.shownNanos = d.shownNanos := by
  have hnanos := d.shownNanos_lt
  simp only [shown, shownNanos] at *
  omega

/-- A moment is what it is shown as exactly if it is regular. -/
theorem shown_eq_self_iff : d.shown = d ↔ d.Regular := by
  refine ⟨fun h => h ▸ d.regular_shown, fun h => ?_⟩
  have hlt := d.second_lt
  have hnanos := d.nanos_lt
  unfold Regular at h
  have hsecond : min d.shownSecond 59 = d.second := by
    rw [shownSecond]
    omega
  have hfraction : (d.shownSecond - 59) * 1000000000 + d.shownNanos = d.nanos := by
    rw [shownSecond, shownNanos]
    omega
  simp only [shown, hsecond, hfraction]

theorem wholeText_append (d : DateTime) (rest : List Char) :
    d.wholeText ++ rest = yearText d.year ++ '-' :: (padded 2 d.month ++ '-' :: (padded 2 d.day ++
      'T' :: (padded 2 d.hour ++ ':' :: (padded 2 d.minute ++ ':' ::
        (padded 2 d.shownSecond ++ rest))))) := by
  simp [wholeText]

theorem wholeText_shown (d : DateTime) : d.shown.wholeText = d.wholeText := by
  rw [wholeText, shownSecond_shown]
  rfl

theorem literalText_shown (d : DateTime) : d.shown.literalText = d.literalText := by
  rw [literalText, literalText, wholeText_shown, shownNanos_shown]

theorem exchangeText_shown (d : DateTime) : d.shown.exchangeText = d.exchangeText := by
  rw [exchangeText, exchangeText, wholeText_shown, shownNanos_shown]

/-! ### Moments from their texts -/

theorem literalText_eq (d : DateTime) : d.literalText = d.wholeText ++ fractionText d.shownNanos :=
  rfl

theorem quote_not_mem_padded (width n : Nat) : '\'' ∉ padded width n :=
  fun hmem => absurd (Text.isDigit_of_mem_padded _ hmem) (by decide)

theorem quote_not_mem_yearText (year : Int) : '\'' ∉ yearText year := by
  unfold yearText
  split
  · exact quote_not_mem_padded _ _
  · split <;> simp [quote_not_mem_padded]

theorem quote_not_mem_fractionText (nanos : Nat) : '\'' ∉ fractionText nanos := by
  unfold fractionText
  split
  · simp
  · intro hmem
    rw [List.mem_cons, List.mem_reverse] at hmem
    rcases hmem with heq | hmem
    · exact absurd heq (by decide)
    · exact quote_not_mem_padded 9 nanos
        (List.mem_reverse.mp ((List.dropWhile_suffix _).subset hmem))

theorem quote_not_mem_literalText (d : DateTime) : '\'' ∉ d.literalText := by
  simp [literalText_eq, wholeText_append, quote_not_mem_padded, quote_not_mem_yearText,
    quote_not_mem_fractionText]

/-- A moment is read as it is shown from its text down to the second, whichever way the fraction
of the second is written behind it. -/
theorem read?_wholeText_append {fraction : List Char}
    (hfraction : readFraction? fraction = some (d.shownNanos, [])) :
    read? (d.wholeText ++ fraction) = some d.shown := by
  have hday : d.day ≤ 31 := by
    refine d.day_mem.2.trans ?_
    unfold Calendar.daysInMonth
    split
    · split <;> decide
    all_goals decide
  have hmonth := d.month_mem.2
  have hhour := d.hour_lt
  have hminute := d.minute_lt
  have hsecond := d.shownSecond_le
  have hwidth : tenTo 2 = 100 := rfl
  rw [wholeText_append, read?, readYear?_yearText (by simp)]
  simp (disch := first | decide | omega) only [Option.bind_eq_bind, Option.bind_some,
    readMarked?_padded]
  rw [hfraction, Option.bind_some]
  exact (if_pos rfl).trans (ofParts?_eq d)

theorem read?_literalText (d : DateTime) : read? d.literalText = some d.shown :=
  read?_wholeText_append (readFraction?_fractionText d.shownNanos_lt)

/-- The first of nine digits, if the others are zeros. -/
theorem readFraction?_leading {width nanos : Nat} (hpos : 0 < width) (hle : width ≤ 9)
    (hnanos : nanos < tenTo 9) (hzeros : nanos % tenTo (9 - width) = 0) :
    readFraction? ('.' :: padded width (nanos / tenTo (9 - width))) = some (nanos, []) := by
  have hnine : tenTo 9 = tenTo (9 - width) * tenTo width := by
    rw [← Number.tenTo_add, Nat.sub_add_cancel hle]
  have hvalue : tenTo (9 - width) * (nanos / tenTo (9 - width)) = nanos :=
    Nat.mul_div_cancel' (Nat.dvd_of_mod_eq_zero hzeros)
  have hlength := Text.length_padded hpos (Nat.div_lt_of_lt_mul (hnine ▸ hnanos))
  generalize nanos / tenTo (9 - width) = n at hvalue hlength ⊢
  have hspan : Text.spanDigits (padded width n) = (padded width n, []) := by
    simpa using @Text.spanDigits_append_of_not_isDigit (padded width n) []
      Text.isDigit_of_mem_padded (by simp)
  have htake : (padded width n).take 9 = padded width n :=
    List.take_of_length_le (Nat.le_trans (Nat.le_of_eq hlength) hle)
  have hdigits : Nat.ofDigitChars 10 (padded width n ++ List.replicate (9 - width) '0') 0 =
      nanos := by
    rw [Nat.ofDigitChars_append, Text.ofDigitChars_padded, Nat.ofDigitChars_replicate_zero]
    exact hvalue
  simp [readFraction?, hspan, Text.padded_ne_nil, htake, hlength, hdigits]

/-- A group of three digits is left out exactly where it and those behind it hold zeros. -/
theorem read?_exchangeText (d : DateTime) : read? d.exchangeText = some d.shown := by
  refine read?_wholeText_append ?_
  have hlt := d.shownNanos_lt
  split
  · next hzero =>
    rw [hzero]
    rfl
  · split
    · next hzeros => exact @readFraction?_leading 3 _ (by decide) (by decide) hlt hzeros
    · split
      · next hzeros => exact @readFraction?_leading 6 _ (by decide) (by decide) hlt hzeros
      · have hall := @readFraction?_leading 9 d.shownNanos (by decide) (by decide) hlt
          (Nat.mod_one _)
        rwa [show 9 - 9 = 0 from rfl, show tenTo 0 = 1 from rfl, Nat.div_one] at hall

end DateTime

/-! ## Quotes -/

/-- What stands before a quote of its own, and what follows that quote. -/
def unquote? : List Char → Option (List Char × List Char)
  | [] => none
  | '\'' :: '\'' :: cs => (unquote? cs).map fun (value, rest) => ('\'' :: value, rest)
  | '\'' :: cs => some ([], cs)
  | c :: cs => (unquote? cs).map fun (value, rest) => (c :: value, rest)

namespace Query

theorem toList_quote (value : String) : (quote value).toList =
    '\'' :: (value.toList.flatMap (fun c => if c = '\'' then ['\'', '\''] else [c]) ++ ['\'']) := by
  rw [quote, String.toList_ofList, List.cons_append]

theorem unquote?_doubled {value rest : List Char} (hrest : ∀ c ∈ rest.head?, c ≠ '\'') :
    unquote? (value.flatMap (fun c => if c = '\'' then ['\'', '\''] else [c]) ++ '\'' :: rest) =
      some (value, rest) := by
  induction value with
  | nil =>
    cases rest with
    | nil => rfl
    | cons c rest =>
      rw [List.flatMap_nil, List.nil_append, unquote?]
      rintro cs ⟨⟩
      exact hrest '\'' rfl rfl
  | cons c value ih =>
    rw [List.flatMap_cons]
    by_cases hc : c = '\''
    · rw [if_pos hc, hc]
      simp [unquote?, ih]
    · rw [if_neg hc, List.singleton_append, List.cons_append, unquote?, ih]
      · rfl
      · rintro cs ⟨⟩
        exact absurd rfl hc
      · rintro ⟨⟩
        exact hc rfl

end Query
end TypedQuery
