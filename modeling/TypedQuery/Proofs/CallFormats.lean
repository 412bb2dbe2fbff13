import TypedQuery.Member.Catalogue
import TypedQuery.Proofs.Compiler
/-!
What a call format says about the order of arguments.

The indices of an accepted format are a permutation of the positions of the member, that of the
receiver among them, and every permutation of them is accepted. So as many arguments as the member
takes can be brought into its order, each to the position that its index names, and back into the
order of the query, and neither way loses or exchanges one.
-/
namespace TypedQuery

theorem Member.arity_overWildcards (m : Member) : m.overWildcards.arity = m.arity := by
  unfold arity hasReceiver kind
  rw [template_overWildcards]

namespace Mapping

variable {α : Type} {member : Member} {format : String} {style : CallStyle} {m : Mapping}
  {args native : List α}

/-! ## Formats that are accepted -/

theorem orderFault?_eq_none_iff {arity : Nat} {seen order : List Nat} :
    orderFault? arity seen order = none ↔
      (∀ i ∈ order, i < arity) ∧ order.Nodup ∧ ∀ i ∈ order, i ∉ seen := by
  constructor
  · exact of_orderFault?_eq_none
  · intro h
    induction order generalizing seen with
    | nil => rfl
    | cons i order ih =>
      obtain ⟨hlt, hnodup, hfresh⟩ := h
      obtain ⟨hi, hlt⟩ := List.forall_mem_cons.mp hlt
      obtain ⟨hnew, hnodup⟩ := List.nodup_cons.mp hnodup
      obtain ⟨hseen, hfresh⟩ := List.forall_mem_cons.mp hfresh
      rw [orderFault?, if_neg (Nat.not_le.mpr hi), if_neg hseen]
      refine ih ⟨hlt, hnodup, fun j hj hmem => ?_⟩
      rcases List.mem_cons.mp hmem with rfl | hmem
      · exact hnew hj
      · exact hfresh j hj hmem

theorem orderFault?_eq_none_iff_perm {order : List Nat} :
    orderFault? order.length [] order = none ↔ order.Perm (List.range order.length) := by
  rw [orderFault?_eq_none_iff, perm_range_iff]
  simp

/-- The order of an accepted format is the one that it says. -/
theorem order_of_parse (h : parse member format style = .ok m) :
    readFormat format = .ok (m.name, m.order) ∧ m.order.Perm (List.range member.arity) := by
  obtain ⟨⟨name, order⟩, hread, h⟩ := except_bind_eq_ok.mp h
  dsimp only at h
  split at h
  · cases h
  · cases h
  · next hnone =>
    split at h
    · next harity =>
      cases h
      rw [Member.arity_overWildcards] at harity
      rw [harity]
      exact ⟨hread, orderFault?_eq_none_iff_perm.mp hnone⟩
    · cases h

/-- A format is accepted if its indices are a permutation of the positions of the member, and in
no other case. -/
theorem exists_parse_iff :
    (∃ m, parse member format style = .ok m) ↔
      ∃ name order, readFormat format = .ok (name, order) ∧
        order.Perm (List.range member.arity) := by
  constructor
  · rintro ⟨m, h⟩
    exact ⟨m.name, m.order, order_of_parse h⟩
  · rintro ⟨name, order, hread, hperm⟩
    have hlen : order.length = member.arity := by
      rw [hperm.length_eq, List.length_range]
    rw [← hlen] at hperm
    have hnone : orderFault? order.length [] order = none :=
      orderFault?_eq_none_iff_perm.mpr hperm
    have harity : member.overWildcards.arity = order.length := by
      rw [Member.arity_overWildcards, hlen]
    obtain ⟨hlt, hnodup, -⟩ := orderFault?_eq_none_iff.mp hnone
    refine ⟨⟨name, order, format, style, member.overWildcards, hlt, hnodup, harity⟩, ?_⟩
    refine except_bind_eq_ok.mpr ⟨(name, order), hread, ?_⟩
    dsimp only
    split
    · next hfault => rw [hnone] at hfault; cases hfault
    · next hfault => rw [hnone] at hfault; cases hfault
    · rw [dif_pos harity]
      rfl

/-! ## Arguments and positions -/

/-- The argument `j` of a query is the one that the member has at the position `order[j]`. -/
structure Places (m : Mapping) (args native : List α) : Prop where
  length_args : args.length = m.arity
  length_native : native.length = m.arity
  lands : ∀ j p : Nat, m.order[j]? = some p → native[p]? = args[j]?

theorem places_of_toQueryOrder? (h : m.toQueryOrder? native = some args) :
    m.Places args native := by
  obtain ⟨hlen, h⟩ := mapM_of_toQueryOrder? h
  refine ⟨length_of_mapM_eq_some h, hlen, fun j p hp => ?_⟩
  obtain ⟨hj, rfl⟩ := List.getElem?_eq_some_iff.mp hp
  exact (getElem?_mapM h hj).symm

theorem toQueryOrder?_eq_some_iff : m.toQueryOrder? native = some args ↔ m.Places args native := by
  constructor
  · exact places_of_toQueryOrder?
  · intro h
    obtain ⟨found, hfound⟩ := exists_toQueryOrder? h.length_native
    have hplaces := places_of_toQueryOrder? hfound
    have hsame : found = args := by
      apply List.ext_getElem?
      intro j
      by_cases hj : j < m.order.length
      · have hp : m.order[j]? = some m.order[j] := List.getElem?_eq_getElem hj
        rw [← hplaces.lands j _ hp, h.lands j _ hp]
      · have hfoundLen : found.length ≤ j := hplaces.length_args ▸ Nat.le_of_not_lt hj
        have hargsLen : args.length ≤ j := h.length_args ▸ Nat.le_of_not_lt hj
        rw [List.getElem?_eq_none hfoundLen, List.getElem?_eq_none hargsLen]
    rw [hfound, hsame]

/-- Bringing arguments into the order of a member and back into that of a query are two readings
of one relation. -/
theorem reorder?_eq_some_iff : m.reorder? args = some native ↔ m.Places args native := by
  rw [← toQueryOrder?_eq_some_iff]
  exact ⟨toQueryOrder?_of_reorder?, reorder?_of_toQueryOrder?⟩

/-- The indices of an accepted format are those that it says, and a permutation of the positions
of the member. The two reorderings answer for as many arguments as the member takes and for no
other number; they undo each other, and each argument of a query goes to the position that its
index names. -/
theorem argumentOrder_of_parse (h : parse member format style = .ok m) :
    readFormat format = .ok (m.name, m.order) ∧ m.order.Perm (List.range member.arity) ∧
      (∀ {α : Type} (args : List α), args.length = member.arity →
        ∃ native, m.reorder? args = some native ∧ m.toQueryOrder? native = some args ∧
          ∀ j p : Nat, m.order[j]? = some p → native[p]? = args[j]?) ∧
      (∀ {α : Type} (native : List α), native.length = member.arity →
        ∃ args, m.toQueryOrder? native = some args ∧ m.reorder? args = some native) ∧
      ∀ {α : Type} (xs : List α), xs.length ≠ member.arity →
        m.reorder? xs = none ∧ m.toQueryOrder? xs = none := by
  obtain ⟨hread, hperm⟩ := order_of_parse h
  have harity : member.arity = m.arity := by
    have := hperm.length_eq
    rw [List.length_range] at this
    exact this.symm
  refine ⟨hread, hperm, fun args hlen => ?_, fun native hlen => ?_, fun xs hlen => ?_⟩
  · obtain ⟨native, hnative⟩ := exists_reorder? (hlen.trans harity)
    exact ⟨native, hnative, toQueryOrder?_of_reorder? hnative,
      (reorder?_eq_some_iff.mp hnative).lands⟩
  · obtain ⟨args, hargs⟩ := exists_toQueryOrder? (hlen.trans harity)
    exact ⟨args, hargs, reorder?_of_toQueryOrder? hargs⟩
  · have hne : xs.length ≠ m.arity := harity ▸ hlen
    exact ⟨if_neg hne, if_neg hne⟩

/-- In `put({2}, {0},{1})` the first argument of the query is the last one of the member. -/
theorem argumentOrder_of_parse_rotated :
    ∃ m native, parse (.definition Catalogue.stringReplaceString) "put({2}, {0},{1})" .static =
        .ok m ∧ m.order = [2, 0, 1] ∧ m.order.Perm (List.range 3) ∧
      m.reorder? ["new", "text", "old"] = some native ∧
      m.toQueryOrder? native = some ["new", "text", "old"] ∧ native[2]? = some "new" := by
  obtain ⟨m, hm, horder⟩ : ∃ m, parse (.definition Catalogue.stringReplaceString)
      "put({2}, {0},{1})" .static = .ok m ∧ m.order = [2, 0, 1] := ⟨_, rfl, rfl⟩
  obtain ⟨-, hperm, hargs, -, -⟩ := argumentOrder_of_parse hm
  obtain ⟨native, hnative, hback, hlands⟩ := hargs ["new", "text", "old"] rfl
  exact ⟨m, native, hm, horder, hperm, hnative, hback, hlands 0 2 (by rw [horder]; rfl)⟩

end Mapping
end TypedQuery
