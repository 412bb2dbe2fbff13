import TypedQuery.Proofs.OperatorReading
/-!
Comparisons with the cases of enumerations.

A case is looked up by its name without regard to the case of letters, and a value by the number;
in both directions the first one found counts. So the name that is written for the value of a
case may be a name that an earlier case with another value answers to. This is the only way for
a comparison to change when it is written and read again.
-/
namespace TypedQuery

/-! ## Names and values -/

namespace EnumDef

/-- The name of a value is read as that value unless a case before the first one of that value
has the name as well. -/
theorem valueOf?_nameOf?_iff {d : EnumDef} {v : Int} {name : String}
    (h : d.nameOf? v = some name) :
    d.valueOf? name = some v ↔
      ∀ c ∈ d.cases.takeWhile fun c => c.2 != v, sameName c.1 name = false := by
  obtain ⟨_, _, cases⟩ := d
  unfold nameOf? at h
  unfold valueOf?
  dsimp only at h ⊢
  induction cases with
  | nil => cases h
  | cons c cases ih =>
    by_cases hc : c.2 = v
    · obtain rfl : c.1 = name := by simpa [hc] using h
      simp [hc, sameName_self]
    · have hne : (c.2 != v) = true := by simpa using hc
      have htake : (c :: cases).takeWhile (fun c => c.2 != v) =
          c :: cases.takeWhile fun c => c.2 != v := List.takeWhile_cons_of_pos hne
      rw [htake, List.forall_mem_cons]
      rw [List.find?_cons_of_neg (by simpa using hc)] at h
      by_cases hname : sameName c.1 name = true
      · simp [hname, hc]
      · simpa [hname] using ih h

end EnumDef

/-! ## Comparisons -/

namespace Query

/-- An operand and a name on the two sides of an operator. -/
def comparison (mirrored : Bool) (op : BinaryOp) (operand : Query) (name : String) : Query :=
  if mirrored then .binary (.value op) (.string name) operand
  else .binary (.value op) operand (.string name)

end Query

namespace Expr

/-- An operand of an enumeration compared with a value, both as numbers. -/
def caseComparison (mirrored : Bool) (op : BinaryOp) (side : Expr) (k : Integral) (value : Expr) :
    Expr :=
  if mirrored then .binary op value (.convert side (.integral k) false) .bool
  else .binary op (.convert side (.integral k) false) value .bool

variable {h : Hierarchy} {op : BinaryOp} {side : Expr} {d : EnumDef}

theorem compareByNumber_case (hside : side.type = .enum d) (name : String) :
    compareByNumber side (.constant (.string name)) =
        (caseConstant d name).map (fun c => (.convert side (.integral d.underlying) false, c)) ∧
      compareByNumber (.constant (.string name)) side =
        (caseConstant d name).map fun c => (c, .convert side (.integral d.underlying) false) := by
  have hd : enumComparison? side (.constant (.string name)) = some (d, name) := by
    simp [enumComparison?, hside, Ty.enum?, constant?, Value.string?]
  have hnone : enumComparison? (.constant (.string name)) side = none := rfl
  unfold compareByNumber
  rw [hnone, hd]
  dsimp only
  cases caseConstant d name <;> exact ⟨rfl, rfl⟩

/-- Whether an enumeration can be compared with a name depends on the name alone. -/
theorem combine_case (hop : op.isEquality = true) (hside : side.type = .enum d) (name : String) :
    combine h op side (.constant (.string name)) =
        (caseConstant d name).map (caseComparison false op side d.underlying) ∧
      combine h op (.constant (.string name)) side =
        (caseConstant d name).map (caseComparison true op side d.underlying) := by
  obtain ⟨hlogical, harithmetic⟩ := BinaryOp.of_isEquality hop
  obtain ⟨hleft, hright⟩ := compareByNumber_case hside name
  unfold combine
  rw [hlogical, harithmetic, hop, hleft, hright]
  cases hc : caseConstant d name with
  | error => exact ⟨rfl, rfl⟩
  | ok c =>
    obtain ⟨v, holds, -, rfl⟩ := caseConstant_eq_ok hc
    have hequated : ∀ l r : Expr, l.type = r.type → equated h op l r = .ok (l, r) :=
      fun l r ht => if_pos ht
    constructor
    · exact except_bind_eq_ok.mpr ⟨_, rfl, except_bind_eq_ok.mpr ⟨_, hequated _ _ rfl, rfl⟩⟩
    · exact except_bind_eq_ok.mpr ⟨_, rfl, except_bind_eq_ok.mpr ⟨_, hequated _ _ rfl, rfl⟩⟩

theorem caseConstant_eq_ok_iff {name : String} {v : Int} (holds : d.underlying.Holds v) :
    caseConstant d name = .ok (.constant (.integer d.underlying v holds)) ↔
      d.valueOf? name = some v := by
  constructor
  · intro hc
    obtain ⟨w, _, hw, heq⟩ := caseConstant_eq_ok hc
    cases heq
    exact hw
  · intro hv
    simp [caseConstant, hv, Value.ofInt?, holds]

theorem caseComparison_injective {mirrored : Bool} {k : Integral} {c c' : Expr}
    (heq : caseComparison mirrored op side k c = caseComparison mirrored op side k c') :
    c = c' := by
  cases mirrored <;> cases heq <;> rfl

end Expr

namespace Renderer

/-- A comparison with a value is written as one with the name of the value. -/
theorem query_caseComparison {ρ : Renderer} {mirrored : Bool} {op : BinaryOp} {side : Expr}
    {d : EnumDef} {v : Int} {holds : d.underlying.Holds v} {name : String}
    (hside : side.type = .enum d) (hname : d.nameOf? v = some name) :
    ρ.query (Expr.caseComparison mirrored op side d.underlying
        (.constant (.integer d.underlying v holds))) =
      (ρ.query side).map fun q => Query.comparison mirrored op q name := by
  have hcase : caseName? (.convert side (.integral d.underlying) false)
      (.constant (.integer d.underlying v holds)) = some name := by
    rw [← hname]
    simp [caseName?, Expr.constant?, Value.int?, hside, Ty.enum?]
  have hside : ρ.query (.convert side (.integral d.underlying) false) = ρ.query side := rfl
  cases mirrored with
  | false =>
    unfold Expr.caseComparison
    rw [if_neg Bool.false_ne_true, query_binary_left hcase, hside]
    cases ρ.query side <;> rfl
  | true =>
    unfold Expr.caseComparison
    rw [if_pos rfl, query_binary_right rfl hcase, hside]
    cases ρ.query side <;> rfl

end Renderer

namespace Query

variable {s : Setting} {operand : Query} {scope : List Param} {expected : Option Ty}
  {n m k : Nat} {side e : Expr} {d : EnumDef} {op : BinaryOp} {name : String}

/-- Operands that compile leave it to the operator whether there is a result. -/
theorem meaning_operator_eq {left right : Query} {l r : Expr}
    (hl : left.meaning s scope none none n = .ok (l, k))
    (hr : right.meaning s scope none none k = .ok (r, m)) :
    (Query.binary (.value op) left right).meaning s scope none expected n =
      (Expr.combine s.hierarchy op l r).map fun e => (e, m) := by
  simp only [meaning, Setting.standalone, bind, StateT.bind, hl, Except.bind, hr]
  cases Expr.combine s.hierarchy op l r <;> rfl

theorem meaning_comparison (mirrored : Bool) (hop : op.isEquality = true)
    (hoperand : operand.meaning s scope none none n = .ok (side, m))
    (hside : side.type = .enum d) (name : String) :
    (comparison mirrored op operand name).meaning s scope none expected n =
      (Expr.caseConstant d name).map fun c =>
        (Expr.caseComparison mirrored op side d.underlying c, m) := by
  obtain ⟨hleft, hright⟩ := @Expr.combine_case s.hierarchy op side d hop hside name
  cases mirrored with
  | false =>
    refine (meaning_operator_eq hoperand (meaning_string name none m)).trans ?_
    rw [hleft]
    cases Expr.caseConstant d name <;> rfl
  | true =>
    refine (meaning_operator_eq (meaning_string name none n) hoperand).trans ?_
    rw [hright]
    cases Expr.caseConstant d name <;> rfl

/-- A comparison with a case is written as one with the name of its value. Read again, it is
about the same value exactly if no case before the first one of that value has the name. -/
theorem comparison_again (mirrored : Bool) (hop : op.isEquality = true)
    (hoperand : operand.meaning s scope none none n = .ok (side, k)) (hside : side.type = .enum d)
    (h : (comparison mirrored op operand name).meaning s scope none expected n = .ok (e, m)) :
    ∃ v holds written, d.valueOf? name = some v ∧ d.nameOf? v = some written ∧
      e = Expr.caseComparison mirrored op side d.underlying
        (.constant (.integer d.underlying v holds)) ∧
      (∀ style, (s.renderer style).query e =
        ((s.renderer style).query side).map fun q => comparison mirrored op q written) ∧
      (d.valueOf? written = some v ↔
        ∀ c ∈ d.cases.takeWhile fun c => c.2 != v, EnumDef.sameName c.1 written = false) ∧
      ∀ again side' n' k', again.meaning s scope none none n' = .ok (side', k') →
        side'.type = .enum d →
        ((comparison mirrored op again written).meaning s scope none expected n' =
            .ok (Expr.caseComparison mirrored op side' d.underlying
              (.constant (.integer d.underlying v holds)), k') ↔
          d.valueOf? written = some v) := by
  rw [meaning_comparison mirrored hop hoperand hside] at h
  cases hc : Expr.caseConstant d name with
  | error =>
    rw [hc] at h
    cases h
  | ok c =>
    rw [hc] at h
    cases h
    obtain ⟨v, holds, hv, rfl⟩ := Expr.caseConstant_eq_ok hc
    obtain ⟨written, hwritten⟩ := EnumDef.exists_nameOf? hv
    refine ⟨v, holds, written, hv, hwritten, rfl, fun style => ?_,
      EnumDef.valueOf?_nameOf?_iff hwritten, fun again side' n' k' hagain hside' => ?_⟩
    · exact Renderer.query_caseComparison hside hwritten
    · rw [meaning_comparison mirrored hop hagain hside', ← Expr.caseConstant_eq_ok_iff holds]
      cases Expr.caseConstant d written with
      | error =>
        constructor <;>
          · intro h
            cases h
      | ok c =>
        refine ⟨fun h => ?_, fun h => ?_⟩
        · have heq := (Prod.mk.inj (Except.ok.inj h)).1
          rw [Expr.caseComparison_injective heq]
        · cases h
          rfl

/-- The second of two names for one value, written as the first of them. -/
theorem comparison_again_alias :
    let d : EnumDef := ⟨"Mood", .int32, [("Calm", 0), ("Wild", 7), ("Feral", 7)]⟩
    let s : Setting := ⟨.standard, ⟨[d], [⟨"Dog", none, [("Mood", .enum d)]⟩]⟩,
      receiverParam (.entity "Dog")⟩
    ∃ e, (comparison true .equal (.symbol "Mood") "feral").meaning s [] none none 1 = .ok (e, 1) ∧
      (s.renderer .static).query e = .ok (comparison true .equal (.symbol "Mood") "Wild") ∧
      (comparison true .equal (.symbol "Mood") "Wild").meaning s [] none none 1 = .ok (e, 1) := by
  intro d s
  have hside : (Query.symbol "Mood").meaning s [] none none 1 =
      .ok (.property (.parameter s.this) "Mood" (.enum d), 1) := rfl
  refine Exists.imp (fun e he => ?_) (⟨_, rfl⟩ : ∃ e,
    (comparison true .equal (.symbol "Mood") "feral").meaning s [] none none 1 = .ok (e, 1))
  obtain ⟨v, holds, written, hv, hwritten, rfl, hquery, hiff, hagain⟩ :=
    comparison_again true rfl hside rfl he
  obtain rfl : 7 = v := Option.some.inj hv
  obtain rfl : "Wild" = written := Option.some.inj hwritten
  exact ⟨he, hquery .static, (hagain _ _ _ _ hside rfl).mpr (hiff.mpr (by decide))⟩

/-- A value whose first name is the name of an earlier case, but for the case of letters: the
comparison is written with it, and read as one with another value. -/
theorem comparison_with_name_of_other :
    ∃ model, Schema.resolve ⟨[⟨"Mood", none, [("Calm", 1), ("calm", 2), ("Wild", 2)]⟩],
        [⟨"Critter", none, [("mood", "Mood")]⟩]⟩ = .ok model ∧
      model.resolveType? "Critter" = some (.entity "Critter") ∧
      ∃ graph graph',
        (comparison false .equal (.symbol "mood") "Wild").compilePredicate .standard model
          (.entity "Critter") = .ok graph ∧
        graph.toQuery .standard .preferred = .ok (comparison false .equal (.symbol "mood") "calm") ∧
        (comparison false .equal (.symbol "mood") "calm").compilePredicate .standard model
          (.entity "Critter") = .ok graph' ∧
        graph'.same graph = false := by
  have hschema : Schema.resolve ⟨[⟨"Mood", none, [("Calm", 1), ("calm", 2), ("Wild", 2)]⟩],
      [⟨"Critter", none, [("mood", "Mood")]⟩]⟩ =
        .ok ⟨[⟨"Mood", .int32, [("Calm", 1), ("calm", 2), ("Wild", 2)]⟩], [⟨"Critter", none,
          [("mood", .enum ⟨"Mood", .int32, [("Calm", 1), ("calm", 2), ("Wild", 2)]⟩)]⟩]⟩ := by
    decide +kernel
  exact ⟨_, hschema, by decide +kernel, _, _, rfl, rfl, rfl, rfl⟩

end Query
end TypedQuery
