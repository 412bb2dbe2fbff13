import TypedQuery.Proofs.Constants
import TypedQuery.Proofs.Operations
/-!
What operators and arrays do to the graphs below them.

An operator puts conversions around its operands and replaces constants by others; an array of
constants becomes a constant. Nothing else is changed, so what holds of the lambdas and the
calls in the operands holds of those in the result.
-/
namespace TypedQuery
namespace Expr

variable {e : Expr}

/-- `Dressed e e'` says that `e'` is `e` with conversions around it, or another constant where
`e` is one, with a literal if that has one. Operators do nothing else to their operands. -/
inductive Dressed : Expr → Expr → Prop
  | self {e : Expr} : Dressed e e
  | constant {v w : Value} : (v.Writable → w.Writable) → Dressed (.constant v) (.constant w)
  | convert {e e' : Expr} {t : Ty} {explicit : Bool} :
    Dressed e e' → Dressed e (.convert e' t explicit)

theorem dressed_coerce (e : Expr) (t : Ty) : Dressed e (e.coerce t) := by
  rcases coerce_cases e t with ⟨-, heq⟩ | ⟨v, w, rfl, hw, heq⟩ | heq <;> rw [heq]
  · exact .self
  · exact .constant fun hv => hv.convert? hw
  · exact .convert .self

/-- A case of an enumeration takes the place of the text that names it. -/
theorem dressed_caseConstant {side other c : Expr} {d : EnumDef} {name : String}
    (h : enumComparison? side other = some (d, name)) (hc : caseConstant d name = .ok c) :
    Dressed other c := by
  obtain ⟨-, rfl⟩ := enumComparison?_eq_some_iff.mp h
  obtain ⟨n, holds, -, rfl⟩ := caseConstant_eq_ok hc
  exact .constant fun _ => .integer

theorem dressed_combine {h : Hierarchy} {op : BinaryOp} {l r : Expr}
    (he : combine h op l r = .ok e) :
    ∃ l' r' t, e = .binary op l' r' t ∧ Dressed l l' ∧ Dressed r r' := by
  obtain ⟨l', r', t, rfl, hop⟩ := operation_of_combine he
  refine ⟨l', r', t, rfl, ?_⟩
  cases hop with
  | widened => exact ⟨dressed_coerce _ _, dressed_coerce _ _⟩
  | caseOnRight _ hd hc => exact ⟨.convert .self, dressed_caseConstant hd hc⟩
  | caseOnLeft _ hd hc => exact ⟨dressed_caseConstant hd hc, .convert .self⟩
  | logical | equality | relational => exact ⟨.self, .self⟩

theorem eq_map_constant {items : List Expr} {values : List Value}
    (h : items.mapM constant? = some values) : items = values.map constant := by
  induction items generalizing values with
  | nil =>
    cases h
    rfl
  | cons item items ih =>
    simp only [List.mapM_cons, Option.bind_eq_bind, Option.bind_eq_some_iff] at h
    obtain ⟨v, hv, vs, hvs, h⟩ := h
    cases h
    cases item with
    | constant =>
      cases hv
      rw [List.map_cons, ih hvs]
    | _ => cases hv

/-- The items of an array are of the expected type, or of the first type that is not `null`. -/
theorem elementType?_cases {expected : Option Ty} {items : List Expr} {element : Ty}
    (h : elementType? expected items = some element) :
    expected = some element ∨
      expected = none ∧ ∃ item ∈ items, item.type = element ∧ element ≠ .null := by
  cases expected with
  | some t => exact .inl h
  | none =>
    obtain ⟨item, hitem, ht⟩ := List.mem_map.mp (List.mem_of_find?_eq_some h)
    exact .inr ⟨rfl, item, hitem, ht, by simpa using List.find?_some h⟩

/-- An array keeps its items as they are. All of them may stand in it. -/
theorem arrayOf_eq_ok {expected : Option Ty} {items : List Expr}
    (h : arrayOf expected items = .ok e) :
    ∃ element, elementType? expected items = some element ∧
      (∀ item ∈ items, fitsArray element item.type = true) ∧
      (e = .newArray element items ∨
        ∃ values, items = values.map constant ∧ e = .constant (.array element values)) := by
  unfold arrayOf at h
  split at h
  · cases h
  · next element helement =>
    refine ⟨element, helement, ?_⟩
    split at h
    · cases h
    · next hfind =>
      refine ⟨fun item hitem => ?_, ?_⟩
      · simpa using List.find?_eq_none.mp hfind item.type (List.mem_map_of_mem hitem)
      · split at h <;> cases h
        · next values hvalues => exact .inr ⟨values, eq_map_constant hvalues, rfl⟩
        · exact .inl rfl

end Expr
end TypedQuery
