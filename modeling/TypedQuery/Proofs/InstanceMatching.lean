import TypedQuery.Proofs.GroundTypes
import TypedQuery.Proofs.Rematching
/-!
Matching a template with an instance of itself.

An instance is the template with types in the places of its placeholders. The first type that a
search for supertypes looks at is the type itself, so a container meets the arguments it has in the
instance; a part without placeholders meets itself; and a placeholder that occurs again meets what
it has been bound to. The match gives back the types that were put in, and touches no other slot.
-/
namespace TypedQuery

namespace Ty

variable {lookup lookup' : Slot → Option Ty}

mutual
/-- A type depends on what is put in the places of its own placeholders only. -/
theorem substitute_congr : ∀ t : Ty, (∀ p, t.Mentions p → lookup p = lookup' p) →
    t.substitute lookup = t.substitute lookup'
  | .primitive _, _ | .enum _, _ | .entity _, _ | .wildcard, _ => rfl
  | .placeholder p, h => by
    rw [substitute, substitute, h p.toSlot (mentions_placeholder.mpr rfl)]
  | .array t, h => by
    rw [substitute, substitute, substitute_congr t fun p hp => h p (mentions_array.mpr hp)]
  | .quoted t, h => by
    rw [substitute, substitute, substitute_congr t fun p hp => h p (mentions_quoted.mpr hp)]
  | .applied c ts, h => by
    rw [substitute, substitute,
      substituteEach_congr ts fun p hp => h p (mentions_applied.mpr hp)]
  | .function ts t, h => by
    rw [substitute, substitute,
      substituteEach_congr ts fun p hp => h p (mentions_function.mpr (.inl hp)),
      substitute_congr t fun p hp => h p (mentions_function.mpr (.inr hp))]

theorem substituteEach_congr : ∀ ts : List Ty,
    (∀ p, (∃ t ∈ ts, t.Mentions p) → lookup p = lookup' p) →
    substituteEach lookup ts = substituteEach lookup' ts
  | [], _ => rfl
  | t :: ts, h => by
    rw [substituteEach, substituteEach,
      substitute_congr t fun p hp => h p ⟨t, List.mem_cons_self, hp⟩,
      substituteEach_congr ts fun p ⟨u, hu, hp⟩ => h p ⟨u, List.mem_cons_of_mem _ hu, hp⟩]
end

end Ty

namespace Bindings

/-- The placeholders in question have slots, empty or filled with what `s` gives for them, and
that is not `null`. -/
def Awaits (s : Slot → Option Ty) (asked : Slot → Prop) (b : Bindings) : Prop :=
  ∀ p, asked p → ∃ t, s p = some t ∧ t ≠ .null ∧ (b.slot? p = some none ∨ b.slot? p = some (some t))

/-- From `b` to `b'` the slots in question are filled with what `s` gives for them, and the others
stay as they are. -/
structure Filled (s : Slot → Option Ty) (asked : Slot → Prop) (b b' : Bindings) :
    Prop where
  inside {p : Slot} : asked p → b'.slot? p = some (s p)
  outside {p : Slot} : ¬ asked p → b'.slot? p = b.slot? p

variable {h : Hierarchy} {s : Slot → Option Ty} {asked asked' : Slot → Prop}
  {b b' b'' : Bindings}

theorem Awaits.mono (hb : b.Awaits s asked) (hasked : ∀ p, asked' p → asked p) :
    b.Awaits s asked' :=
  fun p hp => hb p (hasked p hp)

/-- Slots that were filled on the way hold what is awaited of them. -/
theorem Awaits.of_filled (hb : b.Awaits s asked') (hfilled : Filled s asked b b') :
    b'.Awaits s asked' := by
  intro p hp
  obtain ⟨t, hs, hnull, hslot⟩ := hb p hp
  refine ⟨t, hs, hnull, ?_⟩
  by_cases hasked : asked p
  · exact .inr ((hfilled.inside hasked).trans (congrArg some hs))
  · rwa [hfilled.outside hasked]

namespace Filled

theorem none (b : Bindings) (hasked : ∀ p, ¬ asked p) : Filled s asked b b :=
  ⟨fun hp => absurd hp (hasked _), fun _ => rfl⟩

theorem trans (hb : Filled s asked b b') (hb' : Filled s asked' b' b'') :
    Filled s (fun p => asked p ∨ asked' p) b b'' := by
  refine ⟨fun {p} hp => ?_, fun {p} hp => ?_⟩
  · by_cases hasked' : asked' p
    · exact hb'.inside hasked'
    · rw [hb'.outside hasked', hb.inside (hp.resolve_right hasked')]
  · rw [not_or] at hp
    rw [hb'.outside hp.2, hb.outside hp.1]

theorem congr (hb : Filled s asked b b') (hasked : ∀ p, asked p ↔ asked' p) :
    Filled s asked' b b' :=
  ⟨fun hp => hb.inside ((hasked _).mpr hp), fun hp => hb.outside fun hp' => hp ((hasked _).mp hp')⟩

end Filled

theorem slot?_set {p q : Slot} {t : Ty} (hp : b.slot? p = some .none) :
    (b.set p t).slot? q = if q = p then some (some t) else b.slot? q := by
  by_cases hpq : q = p
  · subst hpq
    rw [if_pos rfl, ← get?_eq_some_iff]
    exact get?_set_self (lt_length_of_slot? hp)
  · rw [if_neg hpq]
    unfold slot?
    by_cases horigin : q.origin = p.origin
    · have hindex : p.index ≠ q.index := fun hindex => hpq (by
        cases p; cases q; cases horigin; cases hindex; rfl)
      rw [horigin, slots_set, List.getElem?_set_ne hindex]
    · rw [slots_set_of_ne horigin]

/-- A placeholder that is awaited gets its type, or has it already. -/
theorem filled_of_bind {p : Placeholder} (hb : b.Awaits s fun q => q = p.toSlot) :
    ∃ b', bind h p ((s p.toSlot).getD (.placeholder p)) b = .fit b' ∧
      Filled s (fun q => q = p.toSlot) b b' := by
  obtain ⟨t, hs, hnull, hslot⟩ := hb p.toSlot rfl
  rw [hs, Option.getD_some, bind, if_neg hnull]
  rcases hslot with hslot | hslot
  · refine ⟨b.set p.toSlot t, by rw [hslot], fun {q} hq => ?_, fun {q} hq => ?_⟩
    · rw [slot?_set hslot, if_pos hq, hq, hs]
    · rw [slot?_set hslot, if_neg hq]
  · refine ⟨b, by rw [hslot]; exact if_pos (Ty.accepts_self h t), fun {q} hq => ?_, fun _ => rfl⟩
    rw [hq, hslot, hs]

theorem filled_of_closed {w : Ty} {place : Place} (hw : w.hasPlaceholder = false) :
    ∃ b', matchType h place w (w.substitute s) b = .fit b' ∧
      Filled s (fun p => w.Mentions p) b b' := by
  refine ⟨b, ?_, .none b fun p => Ty.not_mentions_of_closed hw⟩
  rw [matchType_closed hw, Ty.substitute_of_closed s w hw, if_pos (Ty.accepts_self h w)]

mutual
/-- The parts of an instance fill the slots of the placeholders of the parts of its template. -/
theorem filled_of_matchType : ∀ (w : Ty) (place : Place) {b : Bindings},
    b.Awaits s (fun p => w.Mentions p) →
    ∃ b', matchType h place w (w.substitute s) b = .fit b' ∧
      Filled s (fun p => w.Mentions p) b b'
  | .placeholder p, _, b, hb => by
    have hasked : ∀ q, (Ty.placeholder p).Mentions q ↔ q = p.toSlot :=
      fun q => Ty.mentions_placeholder.trans eq_comm
    obtain ⟨b', hm, hfilled⟩ := filled_of_bind (h := h) (hb.mono fun q => (hasked q).mpr)
    exact ⟨b', hm, hfilled.congr fun q => (hasked q).symm⟩
  | .applied c ws, place, b, hb => by
    by_cases hopen : (Ty.applied c ws).hasPlaceholder = true
    · obtain ⟨b', hm, hfilled⟩ := filled_of_matchTypes ws .typeArg 0
        (hb.mono fun p => Ty.mentions_applied.mpr)
      refine ⟨b', ?_, hfilled.congr fun p => Ty.mentions_applied.symm⟩
      rw [Ty.substitute, matchType_applied hopen (h.instance?_applied c _), hm]
    · exact filled_of_closed (by simpa using hopen)
  | .array w, place, b, hb => by
    by_cases hopen : (Ty.array w).hasPlaceholder = true
    · obtain ⟨b', hm, hfilled⟩ := filled_of_matchType w .arrayElement
        (hb.mono fun p => Ty.mentions_array.mpr)
      refine ⟨b', ?_, hfilled.congr fun p => Ty.mentions_array.symm⟩
      rw [Ty.substitute, matchType_array hopen, hm]
    · exact filled_of_closed (by simpa using hopen)
  | .function ws w, place, b, hb => by
    by_cases hopen : (Ty.function ws w).hasPlaceholder = true
    · obtain ⟨b₁, h₁, hfilled₁⟩ := filled_of_matchTypes ws .functionParam 0
        (hb.mono fun p hp => Ty.mentions_function.mpr (.inl hp))
      obtain ⟨b', hm, hfilled⟩ := filled_of_matchType w .functionReturn
        ((hb.mono fun p hp => Ty.mentions_function.mpr (.inr hp)).of_filled hfilled₁)
      refine ⟨b', ?_, (hfilled₁.trans hfilled).congr fun p => Ty.mentions_function.symm⟩
      rw [Ty.substitute, matchType_function hopen (by simp [Ty.substituteEach_eq_map]), h₁]
      exact hm
    · exact filled_of_closed (by simpa using hopen)
  | .quoted w, place, b, hb => by
    by_cases hopen : (Ty.quoted w).hasPlaceholder = true
    · obtain ⟨b', hm, hfilled⟩ := filled_of_matchType w .quotedBody
        (hb.mono fun p => Ty.mentions_quoted.mpr)
      refine ⟨b', ?_, hfilled.congr fun p => Ty.mentions_quoted.symm⟩
      rw [Ty.substitute, matchType_quoted hopen, hm]
    · exact filled_of_closed (by simpa using hopen)
  | .primitive _, _, _, _ | .enum _, _, _, _ | .entity _, _, _, _ | .wildcard, _, _, _ =>
    filled_of_closed rfl

theorem filled_of_matchTypes : ∀ (ws : List Ty) (place : Nat → Place) (index : Nat)
    {b : Bindings}, b.Awaits s (fun p => ∃ w ∈ ws, w.Mentions p) →
    ∃ b', matchTypes h place index ws (Ty.substituteEach s ws) b = .fit b' ∧
      Filled s (fun p => ∃ w ∈ ws, w.Mentions p) b b'
  | [], _, _, b, _ => ⟨b, rfl, .none b (by simp)⟩
  | w :: ws, place, index, b, hb => by
    obtain ⟨b₁, h₁, hfilled₁⟩ := filled_of_matchType w (place index)
      (hb.mono fun p hp => ⟨w, List.mem_cons_self, hp⟩)
    obtain ⟨b', hm, hfilled⟩ := filled_of_matchTypes ws place (index + 1)
      ((hb.mono fun p ⟨v, hv, hp⟩ => ⟨v, List.mem_cons_of_mem _ hv, hp⟩).of_filled hfilled₁)
    refine ⟨b', ?_, (hfilled₁.trans hfilled).congr fun p => by simp⟩
    rw [Ty.substituteEach, matchTypes, h₁]
    exact hm
end

/-- A template matches each of its instances, and the match gives back the types that the instance
has in the places of the placeholders: they are bound, all other slots are as before, and the match
says that it has bound something exactly if one of the placeholders was not bound yet. -/
theorem infer_substitute {h : Hierarchy} {t : Ty} {s : Slot → Option Ty} {b : Bindings}
    (hs : ∀ p, t.Mentions p → ∃ u, s p = some u ∧ u ≠ .null)
    (hslot : ∀ p, t.Mentions p → (b.slot? p).isSome = true)
    (hbound : ∀ p u, t.Mentions p → b.slot? p = some (some u) → s p = some u) :
    ∃ b', b.infer h t (t.substitute s) = .fit b' ∧
      (∀ p, t.Mentions p → b'.slot? p = some (s p)) ∧
      (∀ p, ¬ t.Mentions p → b'.slot? p = b.slot? p) ∧
      b'.resolve t = t.substitute s ∧
      ((MatchOutcome.fit b').grew b = true ↔ ∃ p, t.Mentions p ∧ b.slot? p = some none) := by
  have hawaits : b.Awaits s fun p => t.Mentions p := by
    intro p hp
    obtain ⟨u, hu, hnull⟩ := hs p hp
    refine ⟨u, hu, hnull, ?_⟩
    obtain ⟨slot, hp'⟩ := Option.isSome_iff_exists.mp (hslot p hp)
    cases slot with
    | none => exact .inl hp'
    | some v =>
      obtain rfl : u = v := Option.some.inj (hu.symm.trans (hbound p v hp hp'))
      exact .inr hp'
  obtain ⟨b', hm, hfilled⟩ := filled_of_matchType (h := h) t .topLevel hawaits
  have hextends : b.Extends b' := (extends_matchType _ _ _ _ _).of_eq_fit hm
  refine ⟨b', hm, fun p => hfilled.inside, fun p => hfilled.outside, ?_, ?_⟩
  · refine Ty.substitute_congr t fun p hp => ?_
    rw [get?, hfilled.inside hp, Option.join_some]
  · refine decide_eq_true_iff.trans (hextends.boundCount_lt_iff.trans ?_)
    constructor
    · rintro ⟨p, u, hnone, hsome⟩
      refine ⟨p, by_contra fun hp => ?_, hnone⟩
      rw [hfilled.outside hp, hnone] at hsome
      cases hsome
    · rintro ⟨p, hp, hnone⟩
      obtain ⟨u, hu, _⟩ := hs p hp
      exact ⟨p, u, hnone, (hfilled.inside hp).trans (congrArg some hu)⟩

/-- A placeholder that occurs twice and is open, and one that is bound already. -/
theorem infer_substitute_repeated :
    ∃ b', (mk [] [none, some .int32]).infer .library
        (.function [.enumerable (.ofMethod 0), .quoted (.array (.ofMethod 0))] (.list (.ofMethod 1)))
        (.function [.enumerable (.list .string), .quoted (.array (.list .string))] (.list .int32)) =
          .fit b' ∧
      b'.slot? ⟨.method, 0⟩ = some (some (.list .string)) ∧
      (MatchOutcome.fit b').grew (mk [] [none, some .int32]) = true := by
  let t : Ty := .function [.enumerable (.ofMethod 0), .quoted (.array (.ofMethod 0))]
    (.list (.ofMethod 1))
  let s : Slot → Option Ty := fun p => some (if p.index = 0 then .list .string else .int32)
  have hmentions : ∀ p, t.Mentions p → p = ⟨.method, 0⟩ ∨ p = ⟨.method, 1⟩ := by
    intro p hp
    simpa [t, Ty.mentions_function, Ty.mentions_quoted, Ty.mentions_array, Ty.mentions_applied,
      Ty.mentions_placeholder, eq_comm] using hp
  obtain ⟨b', hm, hinside, _, _, hgrew⟩ :=
    infer_substitute (h := .library) (t := t) (s := s) (b := mk [] [none, some .int32])
      (fun p hp => by rcases hmentions p hp with rfl | rfl <;> exact ⟨_, rfl, by decide⟩)
      (fun p hp => by rcases hmentions p hp with rfl | rfl <;> rfl)
      (fun p u hp hu => by rcases hmentions p hp with rfl | rfl <;> cases hu; rfl)
  exact ⟨b', hm, hinside _ (by decide), hgrew.mpr ⟨⟨.method, 0⟩, by decide, rfl⟩⟩

end Bindings
end TypedQuery
