import TypedQuery.Proofs.Matching
/-!
What a match leaves behind.

Slots are filled and never emptied, so the number of filled ones tells whether a match has bound
anything. A match that succeeded succeeds again with the bindings it left, and binds nothing: what
it checked when less was bound still holds, since what a placeholder met is accepted by what the
placeholder stands for from then on.
-/
namespace TypedQuery

namespace Bindings

variable {h : Hierarchy} {b b' : Bindings} {w a : Ty}

/-! ## Counting filled slots -/

/-- Slots that keep what they hold are the same as before, or an empty one has been filled. -/
theorem eq_or_exists_filled {slots slots' : List (Option Ty)}
    (hlen : slots'.length = slots.length)
    (hkeep : ∀ (i : Nat) (t : Ty), slots[i]? = some (some t) → slots'[i]? = some (some t)) :
    slots' = slots ∨ slots.countP Option.isSome < slots'.countP Option.isSome ∧
      ∃ (i : Nat) (t : Ty), slots[i]? = some none ∧ slots'[i]? = some (some t) := by
  induction slots generalizing slots' with
  | nil => exact .inl (List.length_eq_zero_iff.mp hlen)
  | cons slot slots ih =>
    cases slots' with
    | nil => cases hlen
    | cons slot' slots' =>
      have hrest := ih (Nat.succ.inj hlen) fun i t hi => hkeep (i + 1) t hi
      have hle : slots.countP Option.isSome ≤ slots'.countP Option.isSome := by
        rcases hrest with rfl | ⟨hlt, _⟩
        · exact Nat.le_refl _
        · exact Nat.le_of_lt hlt
      by_cases hslot : slot' = slot
      · rcases hrest with rfl | ⟨hlt, i, t, hi⟩
        · exact .inl (by rw [hslot])
        · exact .inr ⟨by simpa [List.countP_cons, hslot] using hlt, i + 1, t, hi⟩
      · cases slot with
        | some t => exact absurd (Option.some.inj (hkeep 0 t rfl)) hslot
        | none =>
          cases slot' with
          | none => exact absurd rfl hslot
          | some t => exact .inr ⟨by simpa using Nat.lt_succ_of_le hle, 0, t, rfl, rfl⟩

theorem get?_eq_some_iff {p : Slot} {t : Ty} :
    b.get? p = some t ↔ b.slot? p = some (some t) :=
  Option.join_eq_some_iff

namespace Extends

/-- Bindings that grow stay what they are, or fill an empty slot. -/
theorem eq_or_exists_bound (hb : b.Extends b') : b' = b ∨ b.boundCount < b'.boundCount ∧
    ∃ p t, b.slot? p = some none ∧ b'.slot? p = some (some t) := by
  have hslots : ∀ origin, b'.slots origin = b.slots origin ∨
      (b.slots origin).countP Option.isSome < (b'.slots origin).countP Option.isSome ∧
        ∃ (i : Nat) (t : Ty),
          (b.slots origin)[i]? = some none ∧ (b'.slots origin)[i]? = some (some t) := by
    intro origin
    refine eq_or_exists_filled (hb.length_slots origin) fun i t hi => ?_
    exact get?_eq_some_iff.mp (hb.get?_eq (p := ⟨origin, i⟩) (get?_eq_some_iff.mpr hi))
  have hcount : ∀ b : Bindings, b.boundCount = (b.slots .declaring).countP Option.isSome +
      (b.slots .method).countP Option.isSome := fun b => List.countP_append
  rw [hcount, hcount]
  rcases hslots .declaring with hd | ⟨hd, i, t, hi⟩ <;>
    rcases hslots .method with hm | ⟨hm, j, u, hj⟩
  · exact .inl (by cases b; cases b'; cases hd; cases hm; rfl)
  · exact .inr ⟨by rw [hd]; omega, ⟨.method, j⟩, u, hj⟩
  · exact .inr ⟨by rw [hm]; omega, ⟨.declaring, i⟩, t, hi⟩
  · exact .inr ⟨by omega, ⟨.declaring, i⟩, t, hi⟩

/-- More slots are filled exactly if an empty one was. -/
theorem boundCount_lt_iff (hb : b.Extends b') : b.boundCount < b'.boundCount ↔
    ∃ p t, b.slot? p = some none ∧ b'.slot? p = some (some t) := by
  rcases hb.eq_or_exists_bound with rfl | ⟨hlt, hfilled⟩
  · refine ⟨fun hlt => absurd hlt (Nat.lt_irrefl _), ?_⟩
    rintro ⟨p, t, hnone, hsome⟩
    rw [hnone] at hsome
    cases hsome
  · exact ⟨fun _ => hfilled, fun _ => hlt⟩

end Extends

/-! ## Matching again -/

theorem bind_of_get? {p : Placeholder} {t : Ty} (hp : b.get? p.toSlot = some t)
    (ha : t.accepts h a = true) : bind h p a b = .fit b := by
  unfold bind
  split
  · rfl
  · rw [get?_eq_some_iff.mp hp]
    exact if_pos ha

theorem matchTypes_of_forall {ws as : List Ty} {place : Nat → Place} {index : Nat}
    (hws : ∀ pair ∈ ws.zip as, ∀ place, matchType h place pair.1 pair.2 b = .fit b) :
    matchTypes h place index ws as b = .fit b := by
  induction ws generalizing as index with
  | nil => rfl
  | cons w ws ih =>
    cases as with
    | nil => rfl
    | cons a as =>
      rw [List.zip_cons_cons, List.forall_mem_cons] at hws
      rw [matchTypes, hws.1]
      exact ih hws.2

/-- What fits the bindings as they are is matched without binding anything. -/
theorem matchType_of_fits (hf : Fits h b.get? False w a) (place : Place) :
    matchType h place w a b = .fit b := by
  induction hf generalizing place with
  | closed hw ha => rw [matchType_closed hw, if_pos ha]
  | null => rw [matchType_placeholder, bind, if_pos rfl]
  | unsure hu => exact hu.elim
  | bound hp ha => exact bind_of_get? hp ha
  | applied hopen hi _ ih =>
    rw [matchType_applied hopen hi]
    exact matchTypes_of_forall ih
  | array hopen _ ih =>
    rw [matchType_array hopen]
    exact ih _
  | function hopen hlen _ _ ihs ih =>
    rw [matchType_function hopen hlen, matchTypes_of_forall ihs]
    exact ih _
  | quoted hopen _ ih =>
    rw [matchType_quoted hopen]
    exact ih _

/-- A match keeps the slots and what they hold, also where it fails. Where it succeeds, it tells
whether it has filled a slot, and with what it leaves the same match succeeds again and fills
none. -/
theorem infer_keeps_and_settles {h : Hierarchy} {wanted actual : Ty} {b : Bindings}
    {o : MatchOutcome} (ho : b.infer h wanted actual = o) :
    (∀ origin, (o.bindings.slots origin).length = (b.slots origin).length) ∧
      (∀ p t, b.slot? p = some (some t) → o.bindings.slot? p = some (some t)) ∧
      (o.error? = none →
        (o.grew b = false → o.bindings = b) ∧
        (o.grew b = true → ∃ p t, b.slot? p = some none ∧ o.bindings.slot? p = some (some t)) ∧
        o.bindings.infer h wanted actual = .fit o.bindings ∧
        (o.bindings.infer h wanted actual).grew o.bindings = false) := by
  have hextends : b.Extends o.bindings := ho ▸ extends_matchType h _ wanted actual b
  refine ⟨hextends.length_slots, fun p t hp => ?_, fun hsuccess => ?_⟩
  · exact get?_eq_some_iff.mp (hextends.get?_eq (get?_eq_some_iff.mpr hp))
  · have hagain : o.bindings.infer h wanted actual = .fit o.bindings :=
      matchType_of_fits (fits_of_matchType (ho.trans (MatchOutcome.eq_fit hsuccess))) _
    refine ⟨fun hsame => ?_, fun hgrew => ?_, hagain, ?_⟩
    · rcases hextends.eq_or_exists_bound with heq | ⟨hlt, _⟩
      · exact heq
      · exact absurd hlt (of_decide_eq_false hsame)
    · exact hextends.boundCount_lt_iff.mp (of_decide_eq_true hgrew)
    · rw [hagain]
      exact decide_eq_false (Nat.lt_irrefl _)

/-- A placeholder is bound to a sequence and then meets a string, which is one, and another meets
nothing but `null`. -/
theorem infer_keeps_and_settles_narrower :
    ∃ o, (empty 0 2).infer .library
        (.function [.enumerable (.ofMethod 0), .ofMethod 0] (.ofMethod 1))
        (.function [.list (.enumerable .char), .string] .null) = o ∧
      o.error? = none ∧ o.grew (empty 0 2) = true ∧
      (∃ p t, (empty 0 2).slot? p = some none ∧ o.bindings.slot? p = some (some t)) ∧
      o.bindings.infer .library (.function [.enumerable (.ofMethod 0), .ofMethod 0] (.ofMethod 1))
        (.function [.list (.enumerable .char), .string] .null) = .fit o.bindings := by
  have ho : (empty 0 2).infer .library
      (.function [.enumerable (.ofMethod 0), .ofMethod 0] (.ofMethod 1))
      (.function [.list (.enumerable .char), .string] .null) =
        .fit (mk [] [some (.enumerable .char), none]) := by decide
  obtain ⟨_, _, hsuccess⟩ := infer_keeps_and_settles ho
  obtain ⟨_, hgrew, hagain, _⟩ := hsuccess rfl
  exact ⟨_, ho, rfl, rfl, hgrew rfl, hagain⟩

end Bindings
end TypedQuery
