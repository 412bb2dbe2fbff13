import TypedQuery.Compile.Operands
import TypedQuery.Proofs.Compiler
/-!
What an operator does to its operands.

Numbers are brought to the type that they widen to, an enumeration and the name of one of its
cases are compared as numbers, and all other operands stay as they are. What holds of the operands
of an operator is read off these rules, whatever order the compiler tries them in.
-/
namespace TypedQuery

theorem BinaryOp.of_isEquality {op : BinaryOp} (h : op.isEquality = true) :
    op.isLogical = false ∧ op.isArithmetic = false := by
  cases op <;> first | exact ⟨rfl, rfl⟩ | cases h

theorem BinaryOp.isRelational_iff {op : BinaryOp} : op.isRelational = true ↔
    op.isLogical = false ∧ op.isArithmetic = false ∧ op.isEquality = false := by
  cases op <;> decide

/-! ## Types that widen -/

namespace Ty

theorem exists_primitive_of_isNumeric {t : Ty} (h : t.isNumeric = true) :
    ∃ p, t = .primitive p := by
  cases t with
  | primitive p => exact ⟨p, rfl⟩
  | _ => simp [isNumeric, isIntegral, integral?] at h

theorem wideningRank?_injective {t u : Ty} {r : Nat} (ht : t.wideningRank? = some r)
    (hu : u.wideningRank? = some r) : t = u := by
  unfold wideningRank? at ht hu
  split at ht <;> split at hu <;> simp_all <;> omega

theorem promote?_self {t : Ty} (h : t.isNumeric = true) : promote? t t = some t := by
  simp [promote?, h]

theorem promote?_comm (left right : Ty) : promote? left right = promote? right left := by
  unfold promote?
  rw [Bool.and_comm]
  by_cases heq : left = right
  · rw [heq]
  rw [if_neg heq, if_neg (Ne.symm heq)]
  by_cases hl : left = .decimal
  · have hr : right ≠ .decimal := fun hr => heq (hl.trans hr.symm)
    simp [hl, hr]
  · by_cases hr : right = .decimal
    · simp [hl, hr]
    · rw [if_neg hl, if_neg hr, if_neg hl, if_neg hr]
      cases hrank : left.wideningRank? <;> cases hrank' : right.wideningRank? <;> try rfl
      next l r =>
        have hne : l ≠ r := by
          rintro rfl
          exact heq (wideningRank?_injective hrank hrank')
        by_cases hle : r ≤ l
        · have : ¬ l ≤ r := by omega
          simp [hle, this]
        · have : l ≤ r := by omega
          simp [hle, this]

theorem isNumeric_of_promote? {left right t : Ty} (h : promote? left right = some t) :
    left.isNumeric = true ∧ right.isNumeric = true := by
  unfold promote? at h
  split at h
  · next hnum => exact Bool.and_eq_true_iff.mp hnum
  · cases h

theorem promote?_eq_or {left right t : Ty} (h : promote? left right = some t) :
    t = left ∨ t = right := by
  unfold promote? at h
  split at h
  · split at h
    · exact .inl (Option.some.inj h).symm
    · split at h
      · split at h
        · next hl _ => exact .inl ((Option.some.inj h).symm.trans hl.symm)
        · cases h
      · split at h
        · split at h
          · next hr _ => exact .inr ((Option.some.inj h).symm.trans hr.symm)
          · cases h
        · split at h
          · have h := Option.some.inj h
            split at h
            · exact .inl h.symm
            · exact .inr h.symm
          · cases h
  · cases h

/-- What two operands widen to is what each of them widens to. -/
theorem promote?_join {left right t : Ty} (h : promote? left right = some t) :
    promote? left t = some t ∧ promote? right t = some t := by
  obtain ⟨hl, hr⟩ := isNumeric_of_promote? h
  rcases promote?_eq_or h with rfl | rfl
  · exact ⟨promote?_self hl, promote?_comm _ _ ▸ h⟩
  · exact ⟨h, promote?_self hr⟩

theorem enum?_of_isNumeric {t : Ty} (ht : t.isNumeric = true) : t.enum? = none := by
  obtain ⟨p, rfl⟩ := exists_primitive_of_isNumeric ht
  rfl

theorem enum?_eq_some_iff {t : Ty} {d : EnumDef} : t.enum? = some d ↔ t = .enum d := by
  cases t with
  | enum => simp [enum?]
  | _ => simp [enum?]

end Ty

namespace Expr

variable {h : Hierarchy} {op : BinaryOp} {l r l' r' e : Expr} {t : Ty} {d : EnumDef}
  {name : String}

theorem coerce_self {e : Expr} {t : Ty} (ht : e.type = t) : e.coerce t = e := if_pos ht

theorem eq_constant_of_constant? {v : Value} (hv : e.constant? = some v) : e = .constant v := by
  cases e with
  | constant => exact congrArg constant (Option.some.inj hv)
  | _ => cases hv

/-- A graph keeps its type, or is a constant that becomes another, or is converted. -/
theorem coerce_cases (e : Expr) (t : Ty) :
    (e.type = t ∧ e.coerce t = e) ∨
      (∃ v w, e = .constant v ∧ v.convert? t = some w ∧ e.coerce t = .constant w) ∨
      e.coerce t = .convert e t false := by
  unfold coerce
  split
  · next ht => exact .inl ⟨ht, rfl⟩
  · split
    · next w hw =>
      obtain ⟨v, hv, hw⟩ := Option.bind_eq_some_iff.mp hw
      exact .inr (.inl ⟨v, w, eq_constant_of_constant? hv, hw, rfl⟩)
    · exact .inr (.inr rfl)

/-! ## Enumerations and the names of cases -/

theorem enumComparison?_eq_some_iff {side other : Expr} :
    enumComparison? side other = some (d, name) ↔
      side.type = .enum d ∧ other = .constant (.string name) := by
  constructor
  · intro heq
    unfold enumComparison? at heq
    split at heq
    · next hd hname =>
      cases heq
      obtain ⟨v, hv, hname⟩ := Option.bind_eq_some_iff.mp hname
      cases v <;> cases hname
      exact ⟨Ty.enum?_eq_some_iff.mp hd, eq_constant_of_constant? hv⟩
    · cases heq
  · rintro ⟨hside, rfl⟩
    simp [enumComparison?, hside, Ty.enum?, constant?, Value.string?]

theorem enum_of_enumComparison? {side other : Expr}
    (heq : enumComparison? side other = some (d, name)) : side.type = .enum d :=
  (enumComparison?_eq_some_iff.mp heq).1

/-- No operand is of an enumeration and a text. -/
theorem enumComparison?_swap {side other : Expr}
    (heq : enumComparison? side other = some (d, name)) : enumComparison? other side = none := by
  cases hback : enumComparison? other side with
  | none => rfl
  | some found =>
    obtain ⟨-, rfl⟩ := enumComparison?_eq_some_iff.mp hback
    cases (enumComparison?_eq_some_iff.mp heq).1

theorem enumComparison?_of_isNumeric {side other : Expr} (h : side.type.isNumeric = true) :
    enumComparison? side other = none := by
  rw [enumComparison?, Ty.enum?_of_isNumeric h]

theorem caseConstant_eq_ok {d : EnumDef} {name : String} {c : Expr}
    (h : caseConstant d name = .ok c) :
    ∃ n holds, d.valueOf? name = some n ∧ c = .constant (.integer d.underlying n holds) := by
  unfold caseConstant at h
  split at h
  · cases h
  · next n hn =>
    unfold Value.ofInt? at h
    split at h
    · cases h
    · next hv =>
      split at hv <;> cases hv
      cases h
      exact ⟨n, _, hn, rfl⟩

/-! ## The rules -/

theorem promoted?_of_promote? (ht : Ty.promote? l.type r.type = some t) :
    promoted? l r = some (t, l.coerce t, r.coerce t) := by
  rw [promoted?, ht, Option.map_some]

theorem promoted?_eq_none (ht : Ty.promote? l.type r.type = none) : promoted? l r = none := by
  rw [promoted?, ht, Option.map_none]

/-- `Operation h op l r l' r' t` says that the operator takes the operands `l` and `r` as `l'` and
`r'` and that the result is a `t`. -/
inductive Operation (h : Hierarchy) (op : BinaryOp) (l r : Expr) : Expr → Expr → Ty → Prop
  | logical : op.isLogical = true → l.type = .bool → r.type = .bool →
    Operation h op l r l r .bool
  | widened {t : Ty} : op.isLogical = false → Ty.promote? l.type r.type = some t →
    Operation h op l r (l.coerce t) (r.coerce t) (if op.isArithmetic then t else .bool)
  | caseOnRight {d : EnumDef} {name : String} {c : Expr} : op.isEquality = true →
    enumComparison? l r = some (d, name) → caseConstant d name = .ok c →
    Operation h op l r (.convert l (.integral d.underlying) false) c .bool
  | caseOnLeft {d : EnumDef} {name : String} {c : Expr} : op.isEquality = true →
    enumComparison? r l = some (d, name) → caseConstant d name = .ok c →
    Operation h op l r c (.convert r (.integral d.underlying) false) .bool
  | equality : op.isEquality = true → enumComparison? l r = none → enumComparison? r l = none →
    Ty.promote? l.type r.type = none →
    l.type = r.type ∨ l.type.accepts h r.type = true ∨ r.type.accepts h l.type = true →
    Operation h op l r l r .bool
  | relational : op.isRelational = true → Ty.promote? l.type r.type = none →
    l.type = r.type → r.type.isOrdered = true → Operation h op l r l r .bool

/-- Operands that widen to one type are widened, whatever the operator is. -/
theorem combine_of_promote? (hop : op.isLogical = false)
    (ht : Ty.promote? l.type r.type = some t) :
    combine h op l r =
      .ok (.binary op (l.coerce t) (r.coerce t) (if op.isArithmetic then t else .bool)) := by
  obtain ⟨hl, hr⟩ := Ty.isNumeric_of_promote? ht
  have hpromoted := promoted?_of_promote? ht
  have hnumber : compareByNumber l r = .ok (l, r) := by
    rw [compareByNumber, enumComparison?_of_isNumeric hl, enumComparison?_of_isNumeric hr]
  have hequated : equated h op l r = .ok (l.coerce t, r.coerce t) := by
    unfold equated
    by_cases heq : l.type = r.type
    · obtain rfl : l.type = t := by
        rw [heq, Ty.promote?_self hr] at ht
        exact heq.trans (Option.some.inj ht)
      rw [if_pos heq, coerce_self rfl, coerce_self heq.symm]
    · rw [if_neg heq, hpromoted]
  unfold combine ordered
  rw [hop, hpromoted, hnumber]
  cases harithmetic : op.isArithmetic with
  | true => rfl
  | false =>
    cases op.isEquality with
    | true => exact except_bind_eq_ok.mpr ⟨_, rfl, except_bind_eq_ok.mpr ⟨_, hequated, rfl⟩⟩
    | false => rfl

/-- An enumeration is compared with its case as numbers, whichever side names the case. -/
theorem combine_of_case {d : EnumDef} {name : String} {c : Expr} (hop : op.isEquality = true)
    (hc : caseConstant d name = .ok c) :
    (enumComparison? l r = some (d, name) →
      combine h op l r = .ok (.binary op (.convert l (.integral d.underlying) false) c .bool)) ∧
    (enumComparison? l r = none → enumComparison? r l = some (d, name) →
      combine h op l r = .ok (.binary op c (.convert r (.integral d.underlying) false) .bool)) := by
  obtain ⟨n, holds, _, rfl⟩ := caseConstant_eq_ok hc
  obtain ⟨hlogical, harithmetic⟩ := BinaryOp.of_isEquality hop
  unfold combine
  rw [hlogical, harithmetic, hop]
  constructor
  · intro hd
    have hnumber : compareByNumber l r = .ok (.convert l (.integral d.underlying) false,
        .constant (.integer d.underlying n holds)) := by
      rw [compareByNumber, hd]
      exact except_bind_eq_ok.mpr ⟨_, hc, rfl⟩
    exact except_bind_eq_ok.mpr ⟨_, hnumber, except_bind_eq_ok.mpr ⟨_, if_pos rfl, rfl⟩⟩
  · intro hnone hd
    have hnumber : compareByNumber l r = .ok (.constant (.integer d.underlying n holds),
        .convert r (.integral d.underlying) false) := by
      rw [compareByNumber, hnone, hd]
      exact except_bind_eq_ok.mpr ⟨_, hc, rfl⟩
    exact except_bind_eq_ok.mpr ⟨_, hnumber, except_bind_eq_ok.mpr ⟨_, if_pos rfl, rfl⟩⟩

theorem eq_of_equated (he : equated h op l r = .ok (l', r')) (ht : l.type = r.type) :
    l' = l ∧ r' = r := by
  rw [equated, if_pos ht] at he
  cases he
  exact ⟨rfl, rfl⟩

/-- Operands that do not widen are equated as they are. -/
theorem equated_eq_ok (ht : Ty.promote? l.type r.type = none) :
    equated h op l r = .ok (l', r') ↔
      (l.type = r.type ∨ l.type.accepts h r.type = true ∨ r.type.accepts h l.type = true) ∧
        l' = l ∧ r' = r := by
  unfold equated
  rw [promoted?_eq_none ht]
  by_cases heq : l.type = r.type
  · rw [if_pos heq, Except.ok.injEq, Prod.mk.injEq]
    exact ⟨fun ⟨hl, hr⟩ => ⟨.inl heq, hl.symm, hr.symm⟩, fun ⟨_, hl, hr⟩ => ⟨hl.symm, hr.symm⟩⟩
  · rw [if_neg heq]
    dsimp only
    split
    · next haccepts =>
      rw [Except.ok.injEq, Prod.mk.injEq]
      exact ⟨fun ⟨hl, hr⟩ => ⟨.inr (Bool.or_eq_true_iff.mp haccepts), hl.symm, hr.symm⟩,
        fun ⟨_, hl, hr⟩ => ⟨hl.symm, hr.symm⟩⟩
    · next haccepts =>
      rw [Bool.or_eq_true_iff] at haccepts
      exact ⟨fun he => (by cases he), fun ⟨hfits, _⟩ => (hfits.elim heq haccepts).elim⟩

/-- Operands that do not widen are put in order as they are. -/
theorem ordered_eq_ok (ht : Ty.promote? l.type r.type = none) :
    ordered op l r = .ok (l', r') ↔
      (l.type = r.type ∧ r.type.isOrdered = true) ∧ l' = l ∧ r' = r := by
  unfold ordered
  rw [promoted?_eq_none ht]
  dsimp only
  split
  · next hordered =>
    obtain ⟨heq, hordered⟩ := Bool.and_eq_true_iff.mp hordered
    have heq : l.type = r.type := of_decide_eq_true heq
    rw [Except.ok.injEq, Prod.mk.injEq]
    exact ⟨fun ⟨hl, hr⟩ => ⟨⟨heq, heq ▸ hordered⟩, hl.symm, hr.symm⟩,
      fun ⟨_, hl, hr⟩ => ⟨hl.symm, hr.symm⟩⟩
  · next hordered =>
    refine ⟨fun he => (by cases he), fun ⟨⟨heq, hfits⟩, _⟩ => (hordered ?_).elim⟩
    simp [heq, hfits]

theorem operation_of_equated (hop : op.isEquality = true)
    (ht : Ty.promote? l.type r.type = none) {l₁ r₁ : Expr}
    (hnumber : compareByNumber l r = .ok (l₁, r₁))
    (hequated : equated h op l₁ r₁ = .ok (l', r')) : Operation h op l r l' r' .bool := by
  unfold compareByNumber at hnumber
  split at hnumber
  · next d name hd =>
    obtain ⟨c, hc, hnumber⟩ := except_bind_eq_ok.mp hnumber
    cases hnumber
    -- The name has become a number of the type that the other side is converted to.
    obtain ⟨n, holds, -, rfl⟩ := caseConstant_eq_ok hc
    obtain ⟨rfl, rfl⟩ := eq_of_equated hequated rfl
    exact .caseOnRight hop hd hc
  · next hleft =>
    split at hnumber
    · next d name hd =>
      obtain ⟨c, hc, hnumber⟩ := except_bind_eq_ok.mp hnumber
      cases hnumber
      obtain ⟨n, holds, -, rfl⟩ := caseConstant_eq_ok hc
      obtain ⟨rfl, rfl⟩ := eq_of_equated hequated rfl
      exact .caseOnLeft hop hd hc
    · next hright =>
      cases hnumber
      obtain ⟨hfits, rfl, rfl⟩ := (equated_eq_ok ht).mp hequated
      exact .equality hop hleft hright ht hfits

theorem operation_of_combine_plain (hlogical : op.isLogical = false)
    (ht : Ty.promote? l.type r.type = none) (he : combine h op l r = .ok e) :
    ∃ l' r' t, e = .binary op l' r' t ∧ Operation h op l r l' r' t := by
  unfold combine at he
  rw [hlogical, promoted?_eq_none ht] at he
  cases harithmetic : op.isArithmetic with
  | true =>
    rw [harithmetic] at he
    cases he
  | false =>
    cases hequality : op.isEquality with
    | true =>
      rw [harithmetic, hequality] at he
      obtain ⟨⟨l₁, r₁⟩, hnumber, he⟩ := except_bind_eq_ok.mp he
      obtain ⟨⟨l', r'⟩, hequated, he⟩ := except_bind_eq_ok.mp he
      cases he
      exact ⟨l', r', .bool, rfl, operation_of_equated hequality ht hnumber hequated⟩
    | false =>
      rw [harithmetic, hequality] at he
      obtain ⟨⟨l', r'⟩, hordered, he⟩ := except_bind_eq_ok.mp he
      cases he
      obtain ⟨⟨heq, htype⟩, rfl, rfl⟩ := (ordered_eq_ok ht).mp hordered
      have hop : op.isRelational = true :=
        BinaryOp.isRelational_iff.mpr ⟨hlogical, harithmetic, hequality⟩
      exact ⟨l', r', .bool, rfl, .relational hop ht heq htype⟩

/-- An operator that succeeds has followed one of the rules. -/
theorem operation_of_combine (he : combine h op l r = .ok e) :
    ∃ l' r' t, e = .binary op l' r' t ∧ Operation h op l r l' r' t := by
  cases hlogical : op.isLogical with
  | true =>
    rw [combine, if_pos hlogical] at he
    split at he
    · next htypes =>
      cases he
      obtain ⟨hl, hr⟩ := Bool.and_eq_true_iff.mp htypes
      exact ⟨l, r, .bool, rfl, .logical hlogical (of_decide_eq_true hl) (of_decide_eq_true hr)⟩
    · cases he
  | false =>
    cases ht : Ty.promote? l.type r.type with
    | some t =>
      rw [combine_of_promote? hlogical ht] at he
      cases he
      exact ⟨_, _, _, rfl, .widened hlogical ht⟩
    | none => exact operation_of_combine_plain hlogical ht he

theorem combine_of_operation (hop : Operation h op l r l' r' t) :
    combine h op l r = .ok (.binary op l' r' t) := by
  cases hop with
  | logical hop hl hr => simp [combine, hop, hl, hr]
  | widened hop ht => exact combine_of_promote? hop ht
  | caseOnRight hop hd hc => exact (combine_of_case hop hc).1 hd
  | caseOnLeft hop hd hc => exact (combine_of_case hop hc).2 (enumComparison?_swap hd) hd
  | equality hop hleft hright ht hfits =>
    obtain ⟨hlogical, harithmetic⟩ := BinaryOp.of_isEquality hop
    have hnumber : compareByNumber l r = .ok (l, r) := by rw [compareByNumber, hleft, hright]
    unfold combine
    rw [hlogical, harithmetic, hop]
    refine except_bind_eq_ok.mpr ⟨(l, r), hnumber, except_bind_eq_ok.mpr ⟨(l, r), ?_, rfl⟩⟩
    exact (equated_eq_ok ht).mpr ⟨hfits, rfl, rfl⟩
  | relational hop ht heq hordered =>
    obtain ⟨hlogical, harithmetic, hequality⟩ := BinaryOp.isRelational_iff.mp hop
    unfold combine
    rw [hlogical, harithmetic, hequality]
    refine except_bind_eq_ok.mpr ⟨(l, r), ?_, rfl⟩
    exact (ordered_eq_ok ht).mpr ⟨⟨heq, hordered⟩, rfl, rfl⟩

theorem combine_eq_ok_iff :
    combine h op l r = .ok (.binary op l' r' t) ↔ Operation h op l r l' r' t := by
  refine ⟨fun he => ?_, combine_of_operation⟩
  obtain ⟨_, _, _, heq, hop⟩ := operation_of_combine he
  cases heq
  exact hop

end Expr
end TypedQuery
