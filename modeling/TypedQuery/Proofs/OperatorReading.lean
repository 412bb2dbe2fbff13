import Mathlib.Data.List.Pairwise
import TypedQuery.Proofs.Rereading
/-!
Operators that are read again.

An operator is written without the conversions that brought its operands to one type, and with
the name of a case in the place of its number. Reading it puts all of this back: an operand that
was converted in place has its new type from the start, and two types widen to the same one
however far each of them has been widened before.
-/
namespace TypedQuery

/-! ## Roots of compiled graphs -/

namespace Query

variable {s : Setting} {q : Query} {scope : List Param} {receiver : Option Expr}
  {expected : Option Ty} {n m : Nat} {e : Expr}

/-- Conversions are only put in below operators. -/
theorem Elaborates.ne_implicit (h : Elaborates s q scope receiver expected n e m) (x : Expr)
    (t : Ty) : e ≠ .convert x t false := by
  induction h with
  | keyword hk => cases Setting.keyword?_eq_some_iff.mp hk <;> simp
  | path _ _ _ ih | chained _ ih => exact ih
  | operator _ _ he =>
    obtain ⟨l', r', t', rfl, _⟩ := Expr.dressed_combine he
    simp
  | array _ _ _ he =>
    obtain ⟨_, _, _, rfl | ⟨_, _, rfl⟩⟩ := Expr.arrayOf_eq_ok he <;> simp
  | number he =>
    obtain ⟨v, rfl⟩ := constant_of_numberConstant he
    simp
  | _ => simp

/-- A constant that is no array takes no numbers, and a number comes from a literal. -/
theorem Elaborates.constant_root (h : Elaborates s q scope receiver expected n e m) {v : Value}
    (hv : e = .constant v) :
    receiver = none ∧ ((∃ t, v.type = .array t) ∨
      m = n ∧ (v.type.isNumeric = true →
        ∃ text, q = .number text ∧ numberConstant text expected = .ok e)) := by
  induction h with
  | keyword hk =>
    refine ⟨rfl, .inr ⟨rfl, fun hnumeric => ?_⟩⟩
    cases Setting.keyword?_eq_some_iff.mp hk <;> cases hv <;> cases hnumeric
  | path _ _ _ ih => exact absurd (ih hv).1 (by simp)
  | chained _ ih =>
    refine ⟨rfl, (ih hv).2.imp_right fun ⟨hm, hnumber⟩ => ⟨hm, fun hnumeric => ?_⟩⟩
    obtain ⟨_, hcall, _⟩ := hnumber hnumeric
    cases hcall
  | operator _ _ he =>
    obtain ⟨l', r', t', rfl, _⟩ := Expr.dressed_combine he
    cases hv
  | array _ _ _ he =>
    obtain ⟨element, _, _, rfl | ⟨_, _, rfl⟩⟩ := Expr.arrayOf_eq_ok he <;> cases hv
    exact ⟨rfl, .inl ⟨element, rfl⟩⟩
  | string | guid | dateTime =>
    cases hv
    exact ⟨rfl, .inr ⟨rfl, fun hnumeric => by cases hnumeric⟩⟩
  | number he => exact ⟨rfl, .inr ⟨rfl, fun _ => ⟨_, rfl, he⟩⟩⟩
  | _ => cases hv

end Query

/-! ## How an operator is written -/

namespace Renderer

variable {ρ : Renderer} {op : BinaryOp} {l r side other : Expr} {t : Ty} {name : String}

theorem caseName?_of_ne_implicit (h : ∀ x t, side ≠ .convert x t false) :
    caseName? side other = none := by
  unfold caseName?
  split
  · exact absurd rfl (h _ _)
  · rfl

theorem caseName?_coerce (h : ∀ x t, side ≠ .convert x t false)
    (hnumeric : side.type.isNumeric = true) : caseName? (side.coerce t) other = none := by
  rcases Expr.coerce_cases side t with ⟨-, heq⟩ | ⟨v, w, rfl, -, heq⟩ | heq <;> rw [heq]
  · exact caseName?_of_ne_implicit h
  · rfl
  · simp [caseName?, Ty.enum?_of_isNumeric hnumeric]

theorem query_binary (hl : caseName? l r = none) (hr : caseName? r l = none) :
    ρ.query (.binary op l r t) =
      ρ.query l >>= fun l => ρ.query r >>= fun r => .ok (.binary (.value op) l r) := by
  rw [query, hl, hr]

theorem query_binary_left (hl : caseName? l r = some name) :
    ρ.query (.binary op l r t) =
      ρ.query l >>= fun l => .ok (.binary (.value op) l (.string name)) := by
  rw [query, hl]

theorem query_binary_right (hl : caseName? l r = none) (hr : caseName? r l = some name) :
    ρ.query (.binary op l r t) =
      ρ.query r >>= fun r => .ok (.binary (.value op) (.string name) r) := by
  rw [query, hl, hr]

end Renderer

namespace EnumDef

theorem sameName_self (name : String) : sameName name name = true := beq_self_eq_true _

instance symm_sameName : Std.Symm fun c c' : String × Int => sameName c.1 c'.1 = false :=
  ⟨fun _ _ h => Bool.beq_comm.trans h⟩

/-- There is a name for the value of a case. -/
theorem exists_nameOf? {d : EnumDef} {name : String} {n : Int} (h : d.valueOf? name = some n) :
    ∃ name', d.nameOf? n = some name' := by
  obtain ⟨c, hc, rfl⟩ := Option.map_eq_some_iff.mp h
  rw [nameOf?, ← Option.isSome_iff_exists, Option.isSome_map, List.find?_isSome]
  exact ⟨c, List.mem_of_find?_eq_some hc, beq_self_eq_true _⟩

/-- The name of a value stands for that value if no other case has the name. -/
theorem Distinct.valueOf?_nameOf? {d : EnumDef} (hd : d.Distinct) {name : String} {n : Int}
    (h : d.nameOf? n = some name) : d.valueOf? name = some n := by
  obtain ⟨c, hc, rfl⟩ := Option.map_eq_some_iff.mp h
  have hmem := List.mem_of_find?_eq_some hc
  obtain rfl : c.2 = n := by simpa using List.find?_some hc
  unfold valueOf?
  cases hfind : d.cases.find? fun c' => sameName c'.1 c.1 with
  | none =>
    have := List.find?_eq_none.mp hfind c hmem
    exact absurd (sameName_self c.1) this
  | some c' =>
    have hsame : sameName c'.1 c.1 = true := by simpa using List.find?_some hfind
    obtain rfl : c' = c := by
      refine Classical.byContradiction fun hne => ?_
      have := List.Pairwise.forall hd (List.mem_of_find?_eq_some hfind) hmem hne
      rw [hsame] at this
      cases this
    rfl

end EnumDef

/-! ## Operands that are read again -/

/-- What something else widens to is no type that a literal never has by itself. -/
theorem Ty.ne_small_of_promote? {t u : Ty} (h : promote? u t = some t) (hne : u ≠ t)
    (hu : u ≠ .byte ∧ u ≠ .int16) : t ≠ .byte ∧ t ≠ .int16 := by
  obtain ⟨p, rfl⟩ := exists_primitive_of_isNumeric (isNumeric_of_promote? h).1
  constructor
  · rintro rfl
    cases p <;> first | exact hne rfl | exact hu.2 rfl | exact absurd h (by decide)
  · rintro rfl
    cases p <;> first | exact hu.1 rfl | exact hu.2 rfl | exact absurd h (by decide)

namespace Query

variable {s : Setting} {style : RenderStyle} {q left right : Query} {scope : List Param}
  {n k m : Nat} {l r e : Expr} {t : Ty}

theorem writable_of_numberConstant {text : String} {v : Value}
    (h : numberConstant text none = .ok (.constant v)) :
    v.Writable ∧ v.type ≠ .byte ∧ v.type ≠ .int16 := by
  obtain ⟨_, hread, ⟨⟩⟩ := numberConstant_eq_ok.mp h
  exact ⟨NumberLiteral.writable_value hread, type_ne_small hread⟩

/-- An operand that was widened is read as it was before, or with its new type at once. -/
theorem exists_meaning_of_coerce (hel : Elaborates s q scope none none n l k)
    (hl : l.Rereads s style scope none n k) (ht : Ty.promote? l.type t = some t) {ql : Query}
    (hq : (s.renderer style).query (l.coerce t) = .ok ql) :
    ∃ l₁, ql.meaning s scope none none n = .ok (l₁, k) ∧
      l₁.coerce t = (l.coerce t).settle ∧ (l₁.type = l.type ∨ l₁.type = t) := by
  have hsettle : l.settle.coerce t = (l.coerce t).settle := Expr.coerce_relabel _ l t
  have hsame : l.settle.type = l.type := Expr.type_relabel _ l
  by_cases heq : l.type = t
  · rw [Expr.coerce_self heq] at hq
    exact ⟨l.settle, hl ql hq, hsettle, .inl hsame⟩
  cases hconv : l.constant?.bind (Value.convert? t) with
  | none =>
    have hcoerce : l.coerce t = .convert l t false := by
      rw [Expr.coerce, if_neg heq, hconv]
    rw [hcoerce] at hq
    exact ⟨l.settle, hl ql hq, hsettle, .inl hsame⟩
  | some w =>
    obtain ⟨v, hv, hw⟩ := Option.bind_eq_some_iff.mp hconv
    have hcoerce : l.coerce t = .constant w := by
      rw [Expr.coerce, if_neg heq, hconv]
    have hl : l = .constant v := by
      cases l with
      | constant => cases hv; rfl
      | _ => cases hv
    subst hl
    obtain ⟨hnumeric, htnumeric⟩ := Ty.isNumeric_of_promote? ht
    have hwt : w.type = t := Value.type_convert? hw
    obtain ⟨_, ⟨u, hu⟩ | ⟨rfl, hnumber⟩⟩ := hel.constant_root rfl
    · rw [Expr.type, hu] at hnumeric
      cases hnumeric
    obtain ⟨text, rfl, htext⟩ := hnumber hnumeric
    obtain ⟨hwritable, hsmall⟩ := writable_of_numberConstant htext
    have htsmall : w.type ≠ .byte ∧ w.type ≠ .int16 := hwt ▸ Ty.ne_small_of_promote? ht heq hsmall
    obtain ⟨text', hrender, hagain⟩ := @numberConstant_of_writable none w (hwritable.convert? hw)
      (by rwa [hwt]) (by simp) (.inr htsmall)
    rw [hcoerce] at hq ⊢
    obtain rfl : ql = .number text' := Except.ok.inj (hq.symm.trans hrender)
    refine ⟨.constant w.settle, ?_, ?_, .inr (by rw [Expr.type, Value.type_settle, hwt])⟩
    · exact meaning_number_eq_ok.mpr ⟨rfl, hagain, rfl⟩
    · exact Expr.coerce_self (by rw [Expr.type, Value.type_settle, hwt])

theorem meaning_operator {op : BinaryOp} {expected : Option Ty}
    (hl : left.meaning s scope none none n = .ok (l, k))
    (hr : right.meaning s scope none none k = .ok (r, m))
    (he : Expr.combine s.hierarchy op l r = .ok e) :
    (Query.binary (.value op) left right).meaning s scope none expected n = .ok (e, m) :=
  meaning_operator_eq_ok.mpr ⟨rfl, l, k, r, hl, hr, he⟩

theorem meaning_string (value : String) (expected : Option Ty) (n : Nat) :
    (Query.string value).meaning s scope none expected n =
      .ok (.constant (.string value), n) := by
  simp only [meaning, Setting.standalone]
  rfl

/-- The side of a comparison that names a case. -/
theorem eq_string_of_enumComparison? {side other : Expr} {d : EnumDef} {name : String}
    (hel : Elaborates s q scope none none n other k)
    (h : Expr.enumComparison? side other = some (d, name)) :
    side.type = .enum d ∧ other = .constant (.string name) ∧ k = n := by
  obtain ⟨hside, hother⟩ := Expr.enumComparison?_eq_some_iff.mp h
  obtain ⟨_, ⟨t, ht⟩ | ⟨hk, _⟩⟩ := hel.constant_root hother
  · cases ht
  · exact ⟨hside, hother, hk⟩

section Operators

variable {op : BinaryOp} (hleft : Elaborates s left scope none none n l k)
  (hright : Elaborates s right scope none none k r m)
  (hl : l.Rereads s style scope none n k) (hr : r.Rereads s style scope none k m)

include hleft hright hl hr

/-- Operands that are widened are read as what widens to the same again. -/
theorem rereads_promoted (hop : op.isLogical = false) (ht : Ty.promote? l.type r.type = some t)
    (expected : Option Ty) (he : Expr.combine s.hierarchy op l r = .ok e) :
    e.Rereads s style scope expected n m := by
  obtain ⟨hlt, hrt⟩ := Ty.promote?_join ht
  obtain ⟨hlnumeric, hrnumeric⟩ := Ty.isNumeric_of_promote? ht
  rw [Expr.combine_of_promote? hop ht] at he
  cases he
  intro q hq
  rw [Renderer.query_binary (Renderer.caseName?_coerce hleft.ne_implicit hlnumeric)
    (Renderer.caseName?_coerce hright.ne_implicit hrnumeric)] at hq
  obtain ⟨ql, hql, hq⟩ := except_bind_eq_ok.mp hq
  obtain ⟨qr, hqr, hq⟩ := except_bind_eq_ok.mp hq
  cases hq
  obtain ⟨l₁, hl₁, hlc, hltype⟩ := exists_meaning_of_coerce hleft hl hlt hql
  obtain ⟨r₁, hr₁, hrc, hrtype⟩ := exists_meaning_of_coerce hright hr hrt hqr
  have htype : Ty.promote? l₁.type r₁.type = some t := by
    rcases hltype with hltype | hltype <;> rcases hrtype with hrtype | hrtype <;>
      rw [hltype, hrtype]
    · exact ht
    · exact hlt
    · exact Ty.promote?_comm r.type t ▸ hrt
    · exact Ty.promote?_self (Ty.isNumeric_of_promote? hlt).2
  refine meaning_operator hl₁ hr₁ ?_
  rw [Expr.combine_of_promote? hop htype, hlc, hrc]
  rfl

/-- Operands that are left alone are read as they were. -/
theorem rereads_plain (expected : Option Ty)
    (he : Expr.combine s.hierarchy op l r = .ok (.binary op l r t)) :
    (Expr.binary op l r t).Rereads s style scope expected n m := by
  intro q hq
  rw [Renderer.query_binary (Renderer.caseName?_of_ne_implicit hleft.ne_implicit)
    (Renderer.caseName?_of_ne_implicit hright.ne_implicit)] at hq
  obtain ⟨ql, hql, hq⟩ := except_bind_eq_ok.mp hq
  obtain ⟨qr, hqr, hq⟩ := except_bind_eq_ok.mp hq
  cases hq
  refine meaning_operator (hl ql hql) (hr qr hqr) ?_
  rw [Expr.settle, Expr.settle, Expr.combine_relabel, he]
  rfl

/-- The name of a case is read as its number again. -/
theorem rereads_case (hdistinct : ∀ d, l.type = .enum d ∨ r.type = .enum d → d.Distinct)
    (expected : Option Ty) (hop : op.isEquality = true) {d : EnumDef} {name : String} {c : Expr}
    (hc : Expr.caseConstant d name = .ok c) :
    (Expr.enumComparison? l r = some (d, name) →
      (Expr.binary op (.convert l (.integral d.underlying) false) c .bool).Rereads s style scope
        expected n m) ∧
    (Expr.enumComparison? r l = some (d, name) →
      (Expr.binary op c (.convert r (.integral d.underlying) false) .bool).Rereads s style scope
        expected n m) := by
  obtain ⟨v, holds, hv, rfl⟩ := Expr.caseConstant_eq_ok hc
  obtain ⟨name', hname⟩ := EnumDef.exists_nameOf? hv
  have hcase (hd : d.Distinct) :
      Expr.caseConstant d name' = .ok (.constant (.integer d.underlying v holds)) := by
    simp [Expr.caseConstant, hd.valueOf?_nameOf? hname, Value.ofInt?, holds]
  have hwritten {side : Expr} (hside : side.type = .enum d) :
      Renderer.caseName? (.convert side (.integral d.underlying) false)
        (.constant (.integer d.underlying v holds)) = some name' := by
    rw [← hname]
    simp [Renderer.caseName?, Expr.constant?, Value.int?, hside, Ty.enum?]
  have hcompared {side : Expr} (hside : side.type = .enum d) :
      Expr.enumComparison? side.settle (.constant (.string name')) = some (d, name') := by
    simp [Expr.enumComparison?, Expr.settle, hside, Ty.enum?, Expr.constant?, Value.string?]
  constructor
  · intro hd q hq
    obtain ⟨hside, rfl, rfl⟩ := eq_string_of_enumComparison? hright hd
    rw [Renderer.query_binary_left (hwritten hside)] at hq
    obtain ⟨ql, hql, hq⟩ := except_bind_eq_ok.mp hq
    cases hq
    refine meaning_operator (hl ql hql) (meaning_string name' none _) ?_
    exact (Expr.combine_of_case hop (hcase (hdistinct d (.inl hside)))).1 (hcompared hside)
  · intro hd q hq
    obtain ⟨hside, rfl, rfl⟩ := eq_string_of_enumComparison? hleft hd
    rw [Renderer.query_binary_right rfl (hwritten hside)] at hq
    obtain ⟨qr, hqr, hq⟩ := except_bind_eq_ok.mp hq
    cases hq
    refine meaning_operator (meaning_string name' none _) (hr qr hqr) ?_
    exact (Expr.combine_of_case hop (hcase (hdistinct d (.inr hside)))).2 rfl (hcompared hside)

/-- What an operator makes of its operands is read again. -/
theorem rereads_combine (hdistinct : ∀ d, l.type = .enum d ∨ r.type = .enum d → d.Distinct)
    (expected : Option Ty) (he : Expr.combine s.hierarchy op l r = .ok e) :
    e.Rereads s style scope expected n m := by
  obtain ⟨l', r', t, rfl, hop⟩ := Expr.operation_of_combine he
  cases hop with
  | logical | equality | relational => exact rereads_plain hleft hright hl hr expected he
  | widened hop ht => exact rereads_promoted hleft hright hl hr hop ht expected he
  | caseOnRight hop hd hc =>
    exact (rereads_case hleft hright hl hr hdistinct expected hop hc).1 hd
  | caseOnLeft hop hd hc =>
    exact (rereads_case hleft hright hl hr hdistinct expected hop hc).2 hd

end Operators

end Query
end TypedQuery
