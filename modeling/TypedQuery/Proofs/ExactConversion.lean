import Mathlib.Algebra.Order.Field.Rat
import Mathlib.Tactic.NormNum
import Mathlib.Tactic.Positivity
import Mathlib.Tactic.Ring
import TypedQuery.Proofs.Operations
import TypedQuery.Proofs.Typing
/-!
Whole numbers are converted exactly or not at all.

A binary format holds the whole numbers whose magnitude is a short mantissa with zeros behind it,
and rounding leaves exactly these as they are. So the test that a conversion makes, whether the
rounded number is still the same, succeeds on these and on no others: a conversion is refused only
where the type has no such number. An operator that widens a constant either finds it in the wider
type or leaves it where it is, under a conversion.
-/
namespace TypedQuery

open Number

/-! ## Binary formats -/

namespace Number.Binary

variable {f : BinaryFormat}

/-- The number that a finite value is. -/
def number? : Binary f → Option ℚ
  | .finite negative mantissa shift _ =>
    some ((if negative then -1 else 1) * (mantissa * 2 ^ shift / 2 ^ f.fractionBits))
  | _ => none

/-- The whole part of a value that is whole: it fills the steps of the format. -/
theorem exists_whole {x : Binary f} {n : Int} (h : x.toInt? = some n) :
    ∃ negative mantissa shift, ∃ canonical : f.Canonical mantissa shift,
      x = .finite negative mantissa shift canonical ∧
      n.natAbs * 2 ^ f.fractionBits = mantissa * 2 ^ shift ∧
      n = if negative then -(n.natAbs : Int) else (n.natAbs : Int) := by
  cases x with
  | nan | infinite => cases h
  | finite negative mantissa shift canonical =>
    unfold toInt? at h
    dsimp only at h
    generalize mantissa <<< shift >>> f.fractionBits = whole at h
    split at h
    · next hsteps =>
      have hn := Option.some.inj h
      have habs : n.natAbs = whole := by
        rw [← hn]
        split <;> simp
      refine ⟨negative, mantissa, shift, canonical, rfl, ?_, ?_⟩
      · rw [habs, ← Nat.shiftLeft_eq, hsteps, Nat.shiftLeft_eq]
      · rw [habs, hn]
    · cases h

/-- A value denotes the whole number that it is. -/
theorem number?_of_toInt? {x : Binary f} {n : Int} (h : x.toInt? = some n) :
    x.number? = some (n : ℚ) := by
  obtain ⟨negative, mantissa, shift, canonical, rfl, hsteps, hn⟩ := exists_whole h
  have hcast : (mantissa : ℚ) * 2 ^ shift / 2 ^ f.fractionBits = n.natAbs := by
    rw [div_eq_iff (by positivity)]
    exact_mod_cast hsteps.symm
  rw [number?, hcast, hn]
  cases negative <;> simp

/-- The magnitude of a whole value is a mantissa with zeros behind it. -/
theorem exists_mantissa_of_toInt? {x : Binary f} {n : Int} (h : x.toInt? = some n) :
    ∃ m k, m < 2 ^ f.precision ∧ n.natAbs = m * 2 ^ k := by
  obtain ⟨-, mantissa, shift, canonical, -, hsteps, -⟩ := exists_whole h
  have hlt : mantissa < 2 ^ f.precision := Nat.one_shiftLeft f.precision ▸ canonical.1
  rcases Nat.le_total f.fractionBits shift with hle | hle
  · refine ⟨mantissa, shift - f.fractionBits, hlt, ?_⟩
    refine Nat.eq_of_mul_eq_mul_right (Nat.two_pow_pos f.fractionBits) ?_
    rw [hsteps, Nat.mul_assoc, ← Nat.pow_add, Nat.sub_add_cancel hle]
  · -- There are fraction bits left, all of them zero, so the number is smaller than the mantissa.
    refine ⟨n.natAbs, 0, Nat.lt_of_le_of_lt ?_ hlt, (Nat.mul_one _).symm⟩
    refine Nat.le_of_mul_le_mul_right ?_ (Nat.two_pow_pos f.fractionBits)
    rw [hsteps]
    exact Nat.mul_le_mul_left _ (Nat.pow_le_pow_right (by decide) hle)

/-- A mantissa with zeros behind it can be written in the canonical way, by moving zeros into it
until it uses all of its bits. -/
theorem exists_canonical (hf : 0 < f.precision) {m : Nat} (hm : m < 2 ^ f.precision) (k : Nat)
    (hbound : m * 2 ^ k < 2 ^ (f.precision + f.maxShift)) :
    ∃ mantissa shift, f.Canonical mantissa shift ∧ mantissa * 2 ^ shift = m * 2 ^ k := by
  induction k generalizing m with
  | zero =>
    exact ⟨m, 0, ⟨by rwa [Nat.one_shiftLeft], Nat.zero_le _, .inl rfl⟩, rfl⟩
  | succ k ih =>
    have hsplit : m * 2 ^ (k + 1) = 2 * m * 2 ^ k := by rw [Nat.pow_succ]; ring
    have htop : 2 ^ f.precision = 2 * 2 ^ (f.precision - 1) := by
      rw [← Nat.pow_succ', Nat.succ_eq_add_one, Nat.sub_add_cancel hf]
    by_cases hfull : 2 ^ (f.precision - 1) ≤ m
    · refine ⟨m, k + 1, ⟨by rwa [Nat.one_shiftLeft], ?_, .inr ?_⟩, rfl⟩
      · have hlt : 2 ^ (f.precision - 1 + (k + 1)) < 2 ^ (f.precision + f.maxShift) := by
          rw [Nat.pow_add]
          exact Nat.lt_of_le_of_lt (Nat.mul_le_mul_right _ hfull) hbound
        have := (Nat.pow_lt_pow_iff_right (by decide)).mp hlt
        omega
      · rwa [Nat.one_shiftLeft]
    · rw [hsplit] at hbound ⊢
      exact ih (by omega) hbound

/-- Rounding leaves such a number as it is. -/
theorem exists_ofInt?_of_mantissa (hf : 0 < f.precision) {n : Int} {m k : Nat}
    (hm : m < 2 ^ f.precision) (hn : n.natAbs = m * 2 ^ k)
    (hbound : n.natAbs * 2 ^ f.fractionBits < 2 ^ (f.precision + f.maxShift)) :
    ∃ x : Binary f, ofInt? n = some x := by
  rw [hn, Nat.mul_assoc, ← Nat.pow_add] at hbound
  obtain ⟨mantissa, shift, canonical, hsteps⟩ := exists_canonical hf hm _ hbound
  rw [Nat.pow_add, ← Nat.mul_assoc, ← hn, ← Nat.shiftLeft_eq, ← Nat.shiftLeft_eq] at hsteps
  have hround : (ofInt n : Binary f) = .finite (decide (n < 0)) mantissa shift canonical := by
    rw [ofInt, ← ofRatio_mul (Nat.two_pow_pos f.fractionBits), ← Nat.shiftLeft_eq,
      ← Nat.shiftLeft_eq, ← hsteps]
    exact ofRatio_exact hf canonical
  have htoInt : (ofInt n : Binary f).toInt? = some n := by
    rw [hround]
    simp only [toInt?, hsteps, Nat.shiftLeft_shiftRight, if_true, Option.some.injEq]
    by_cases hneg : n < 0
    · simp only [hneg, decide_true, if_true]
      omega
    · simp only [hneg, decide_false, Bool.false_eq_true, if_false]
      omega
  exact ⟨ofInt n, by rw [ofInt?]; exact if_pos htoInt⟩

/-- The whole numbers that a conversion to a format accepts, as far as the format reaches. -/
theorem exists_ofInt?_iff (hf : 0 < f.precision) {n : Int}
    (hbound : n.natAbs * 2 ^ f.fractionBits < 2 ^ (f.precision + f.maxShift)) :
    (∃ x : Binary f, ofInt? n = some x) ↔
      ∃ m k, m < 2 ^ f.precision ∧ n.natAbs = m * 2 ^ k := by
  constructor
  · rintro ⟨x, hx⟩
    exact exists_mantissa_of_toInt? (toInt?_of_ofInt? hx)
  · rintro ⟨m, k, hm, hn⟩
    exact exists_ofInt?_of_mantissa hf hm hn hbound

end Number.Binary

/-! ## Constants -/

/-- The number that a decimal is. -/
def Number.Decimal.number (x : Decimal) : ℚ :=
  (if x.negative then -1 else 1) * (x.coefficient / 10 ^ x.scale)

/-- The whole numbers that a numeric type has. -/
def Ty.Represents (t : Ty) (n : Int) : Prop :=
  match t with
  | .single => ∃ m k, m < 2 ^ 24 ∧ n.natAbs = m * 2 ^ k
  | .double => ∃ m k, m < 2 ^ 53 ∧ n.natAbs = m * 2 ^ k
  | .decimal => True
  | t => ∃ k : Integral, t = .integral k ∧ k.Holds n

theorem Ty.represents_integral {k : Integral} {n : Int} :
    (Ty.integral k).Represents n ↔ k.Holds n := by
  have hinj : ∀ l : Integral, Ty.integral k = .integral l → k = l := by
    cases k <;> intro l hl <;> cases l <;> first | rfl | cases hl
  have hunfold : (Ty.integral k).Represents n ↔ ∃ l, Ty.integral k = .integral l ∧ l.Holds n := by
    cases k <;> exact Iff.rfl
  rw [hunfold]
  exact ⟨fun ⟨l, hl, hn⟩ => hinj l hl ▸ hn, fun hn => ⟨k, rfl, hn⟩⟩

/-- An odd number has no zeros to spare. -/
theorem Ty.not_represents_single_of_odd {n : Int} (hodd : n.natAbs % 2 = 1)
    (hlong : 2 ^ 24 ≤ n.natAbs) : ¬ Ty.Represents .single n := by
  rintro ⟨m, k, hm, hn⟩
  cases k with
  | zero => omega
  | succ k =>
    have heven : m * 2 ^ (k + 1) = 2 * (m * 2 ^ k) := by ring
    omega

theorem Ty.numeric_cases {t : Ty} (h : t.isNumeric = true) :
    (∃ k, t = .integral k) ∨ t = .single ∨ t = .double ∨ t = .decimal := by
  cases hk : t.integral? with
  | some k => exact .inl ⟨k, eq_integral_of_integral? hk⟩
  | none => exact .inr (by simpa [isNumeric, isIntegral, hk, or_assoc] using h)

theorem Integral.holds_int64 {k : Integral} {n : Int} (h : k.Holds n) : Integral.int64.Holds n := by
  cases k <;> simp only [Holds, least, greatest] at h ⊢ <;> omega

theorem Integral.natAbs_le_of_holds {n : Int} (h : Integral.int64.Holds n) :
    n.natAbs ≤ 2 ^ 63 := by
  simp only [Holds, least, greatest] at h
  omega

/-- A 64-bit number in steps of a format does not leave the format if 63 bits more do not. -/
theorem Integral.steps_lt_of_holds {n : Int} (h : Integral.int64.Holds n) {bits limit : Nat}
    (hlimit : 63 + bits < limit) : n.natAbs * 2 ^ bits < 2 ^ limit :=
  calc n.natAbs * 2 ^ bits ≤ 2 ^ 63 * 2 ^ bits := Nat.mul_le_mul_right _ (natAbs_le_of_holds h)
    _ = 2 ^ (63 + bits) := (Nat.pow_add 2 63 bits).symm
    _ < 2 ^ limit := Nat.pow_lt_pow_right (by decide) hlimit

namespace Value

/-- The number that a numeric constant denotes. -/
def number? : Value → Option ℚ
  | .integer _ n _ => some n
  | .single x => x.number?
  | .double x => x.number?
  | .decimal x => some x.number
  | _ => none

theorem number?_of_ofIntAs? {t : Ty} {n : Int} {w : Value} (h : ofIntAs? t n = some w) :
    w.number? = some (n : ℚ) := by
  unfold ofIntAs? at h
  split at h
  · obtain ⟨x, hx, rfl⟩ := Option.map_eq_some_iff.mp h
    exact Binary.number?_of_toInt? (Binary.toInt?_of_ofInt? hx)
  · obtain ⟨x, hx, rfl⟩ := Option.map_eq_some_iff.mp h
    exact Binary.number?_of_toInt? (Binary.toInt?_of_ofInt? hx)
  · obtain ⟨x, hx, rfl⟩ := Option.map_eq_some_iff.mp h
    unfold Decimal.ofInt? Decimal.ofParts? at hx
    split at hx
    · cases hx
      by_cases hneg : n < 0
      · simp [number?, Decimal.number, hneg, abs_of_neg]
      · simp [number?, Decimal.number, hneg, abs_of_nonneg (not_lt.mp hneg)]
    · cases hx
  · obtain ⟨k, -, h⟩ := Option.bind_eq_some_iff.mp h
    unfold ofInt? at h
    split at h <;> cases h
    rfl

/-- A 64-bit number is found in a type exactly if the type has it. -/
theorem exists_ofIntAs?_iff {t : Ty} {n : Int} (hn : Integral.int64.Holds n)
    (ht : t.isNumeric = true) : (∃ w, ofIntAs? t n = some w) ↔ t.Represents n := by
  have hmap : ∀ {α : Type} {found : Option α} (wrap : α → Value),
      (∃ w, found.map wrap = some w) ↔ ∃ x, found = some x := by
    intro α found wrap
    cases found <;> simp
  rcases Ty.numeric_cases ht with ⟨k, rfl⟩ | rfl | rfl | rfl
  · have hofInt : ofIntAs? (.integral k) n = ofInt? k n := by cases k <;> rfl
    rw [hofInt, Ty.represents_integral, ofInt?]
    by_cases hk : k.Holds n
    · simp [hk]
    · simp [hk]
  · have hreach := Integral.steps_lt_of_holds hn (show 63 + BinaryFormat.single.fractionBits <
      BinaryFormat.single.precision + BinaryFormat.single.maxShift by decide)
    exact (hmap _).trans (Binary.exists_ofInt?_iff (by decide) hreach)
  · have hreach := Integral.steps_lt_of_holds hn (show 63 + BinaryFormat.double.fractionBits <
      BinaryFormat.double.precision + BinaryFormat.double.maxShift by decide)
    exact (hmap _).trans (Binary.exists_ofInt?_iff (by decide) hreach)
  · have hlimit : n.natAbs < Decimal.limit :=
      Nat.lt_of_le_of_lt (Integral.natAbs_le_of_holds hn) (by decide)
    refine iff_of_true ((hmap _).mpr (Option.isSome_iff_exists.mp ?_)) trivial
    exact Decimal.ofInt?_isSome hlimit

theorem eq_integer_of_int? {v : Value} {n : Int} (hv : v.int? = some n) :
    ∃ k holds, v = .integer k n holds := by
  cases v with
  | integer k m holds =>
    cases hv
    exact ⟨k, holds, rfl⟩
  | _ => cases hv

theorem number?_of_int? {v : Value} {n : Int} (hv : v.int? = some n) :
    v.number? = some (n : ℚ) := by
  obtain ⟨k, holds, rfl⟩ := eq_integer_of_int? hv
  rfl

/-- A conversion of a whole number succeeds exactly if the type has that number, and what comes out
is that number in that type. -/
theorem convert?_of_int? {v : Value} {n : Int} {t : Ty} (hv : v.int? = some n)
    (ht : t.isNumeric = true) :
    (t.Represents n → ∃ w, v.convert? t = some w ∧ w.type = t ∧ w.number? = some (n : ℚ)) ∧
      (¬ t.Represents n → v.convert? t = none) := by
  obtain ⟨k, holds, rfl⟩ := eq_integer_of_int? hv
  by_cases htype : (Value.integer k n holds).type = t
  · have hself : (Value.integer k n holds).convert? t = some (.integer k n holds) := if_pos htype
    have hhas : t.Represents n := htype ▸ Ty.represents_integral.mpr holds
    exact ⟨fun _ => ⟨_, hself, htype, rfl⟩, fun hnot => absurd hhas hnot⟩
  · have hother : (Value.integer k n holds).convert? t = ofIntAs? t n := if_neg htype
    have hiff := exists_ofIntAs?_iff (Integral.holds_int64 holds) ht
    rw [hother]
    constructor
    · intro hhas
      obtain ⟨w, hw⟩ := hiff.mpr hhas
      exact ⟨w, hw, type_ofIntAs? hw, number?_of_ofIntAs? hw⟩
    · intro hnot
      exact Option.eq_none_iff_forall_ne_some.mpr fun w hw => hnot (hiff.mp ⟨w, hw⟩)

end Value

/-! ## Operands -/

namespace Expr

/-- `Kept v e` says that `e` is a constant for the number that `v` is, or `v` itself under a
conversion that was not asked for. -/
inductive Kept (v : Value) : Expr → Prop
  | exact {w : Value} : w.number? = v.number? → Kept v (.constant w)
  | converted {t : Ty} : Kept v (.convert (.constant v) t false)

/-- A constant is coerced by converting it, if that is possible. -/
theorem coerce_constant (v : Value) (t : Ty) : (Expr.constant v).coerce t =
    match v.convert? t with
    | some w => .constant w
    | none => .convert (.constant v) t false := by
  unfold coerce
  by_cases ht : (Expr.constant v).type = t
  · have hself : v.convert? t = some v := if_pos ht
    rw [if_pos ht, hself]
  · rw [if_neg ht]
    rfl

/-- A whole number is coerced into that number, or stays what it is under a conversion. -/
theorem coerce_of_int? {v : Value} {n : Int} {t : Ty} (hv : v.int? = some n)
    (ht : t.isNumeric = true) :
    (t.Represents n → ∃ w, v.convert? t = some w ∧ w.type = t ∧ w.number? = some (n : ℚ) ∧
      (Expr.constant v).coerce t = .constant w) ∧
    (¬ t.Represents n → v.convert? t = none ∧
      (Expr.constant v).coerce t = .convert (.constant v) t false) := by
  obtain ⟨hfound, hmissing⟩ := Value.convert?_of_int? hv ht
  constructor
  · intro hhas
    obtain ⟨w, hw, htype, hnumber⟩ := hfound hhas
    exact ⟨w, hw, htype, hnumber, by rw [coerce_constant, hw]⟩
  · intro hnot
    exact ⟨hmissing hnot, by rw [coerce_constant, hmissing hnot]⟩

theorem kept_coerce {v : Value} {n : Int} {t : Ty} (hv : v.int? = some n)
    (ht : t.isNumeric = true) : Kept v ((Expr.constant v).coerce t) := by
  obtain ⟨hfound, hmissing⟩ := coerce_of_int? hv ht
  by_cases hhas : t.Represents n
  · obtain ⟨w, -, -, hnumber, hcoerce⟩ := hfound hhas
    rw [hcoerce]
    exact .exact (hnumber.trans (Value.number?_of_int? hv).symm)
  · rw [(hmissing hhas).2]
    exact .converted

/-- An operator keeps the whole numbers that are its operands. -/
theorem kept_of_operation {h : Hierarchy} {op : BinaryOp} {l r l' r' : Expr} {t : Ty}
    (hop : Operation h op l r l' r' t) {v : Value} {n : Int} (hv : v.int? = some n) :
    (l = .constant v → Kept v l') ∧ (r = .constant v → Kept v r') := by
  -- The name of a case is a text and no number.
  have htext : ∀ {side other : Expr} {d : EnumDef} {name : String},
      enumComparison? side other = some (d, name) → other ≠ .constant v := by
    rintro side other d name hd rfl
    cases (enumComparison?_eq_some_iff.mp hd).2
    cases hv
  cases hop with
  | widened _ ht =>
    have hnumeric := (Ty.isNumeric_of_promote? (Ty.promote?_join ht).1).2
    exact ⟨fun hl => hl ▸ kept_coerce hv hnumeric, fun hr => hr ▸ kept_coerce hv hnumeric⟩
  | caseOnRight _ hd _ => exact ⟨fun hl => hl ▸ .converted, fun hr => absurd hr (htext hd)⟩
  | caseOnLeft _ hd _ => exact ⟨fun hl => absurd hl (htext hd), fun hr => hr ▸ .converted⟩
  | logical | equality | relational =>
    exact ⟨fun hl => hl ▸ .exact rfl, fun hr => hr ▸ .exact rfl⟩

end Expr

/-- The conversion of an integral constant to a numeric type gives that number in that type if the
type has it, and nothing if not, and an operand is coerced to the one or else put under a
conversion. So whatever an operator makes of such a constant, it is the same number. -/
theorem Value.convert?_exact {v : Value} {n : Int} (hv : v.int? = some n) :
    (∀ t : Ty, t.isNumeric = true →
      (t.Represents n → ∃ w, v.convert? t = some w ∧ w.type = t ∧ w.number? = some (n : ℚ) ∧
        (Expr.constant v).coerce t = .constant w) ∧
      (¬ t.Represents n → v.convert? t = none ∧
        (Expr.constant v).coerce t = .convert (.constant v) t false)) ∧
    ∀ (h : Hierarchy) (op : BinaryOp) (l r e : Expr), Expr.combine h op l r = .ok e →
      ∃ l' r' t, e = .binary op l' r' t ∧ (l = .constant v → Expr.Kept v l') ∧
        (r = .constant v → Expr.Kept v r') := by
  refine ⟨fun t ht => Expr.coerce_of_int? hv ht, fun h op l r e he => ?_⟩
  obtain ⟨l', r', t, rfl, hop⟩ := Expr.operation_of_combine he
  exact ⟨l', r', t, rfl, Expr.kept_of_operation hop hv⟩

/-- The least number above zero that a `Single` does not have. -/
theorem Value.convert?_exact_boundary : ∃ v : Value, v.int? = some 16777217 ∧
    v.convert? .single = none ∧
    (∃ w, v.convert? .double = some w ∧ w.type = .double ∧ w.number? = some 16777217) ∧
    ∃ l r t, Expr.combine .library .add (.constant v) (.parameter ⟨0, "x", .single⟩) =
        .ok (.binary .add l r t) ∧ Expr.Kept v l := by
  let v : Value := .integer .int32 16777217 (by decide)
  have hv : v.int? = some 16777217 := rfl
  have hsingle : ¬ Ty.Represents .single 16777217 :=
    Ty.not_represents_single_of_odd (by decide) (by decide)
  have hdouble : Ty.Represents .double 16777217 := ⟨16777217, 0, by decide, by decide⟩
  obtain ⟨hconvert, hcombine⟩ := Value.convert?_exact hv
  obtain ⟨w, hw, htype, hnumber, -⟩ := (hconvert .double rfl).1 hdouble
  obtain ⟨l, r, t, heq, hl, -⟩ := hcombine .library .add (.constant v)
    (.parameter ⟨0, "x", .single⟩) _ (Expr.combine_of_promote? rfl rfl)
  refine ⟨v, hv, ((hconvert .single rfl).2 hsingle).1, ⟨w, hw, htype, ?_⟩, l, r, t, ?_, hl rfl⟩
  · rw [hnumber]
    norm_num
  · rw [← heq]
    exact Expr.combine_of_promote? rfl rfl

end TypedQuery
