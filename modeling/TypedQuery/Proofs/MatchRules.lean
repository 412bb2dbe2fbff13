import TypedQuery.Member.Matching
/-!
The rules of a match.

A wanted type without placeholders is compared as a whole. Every other one is taken apart, and the
match goes on with the parts or stops where it is, with the bindings it has. What holds of every
way to go on or to stop holds of all matches, those that fail included.
-/
namespace TypedQuery

/-- What the bindings of a match keep, those of the match that goes on from them keep. -/
theorem MatchOutcome.bindings_andThen {P : Bindings → Prop} {o : MatchOutcome}
    {next : Bindings → MatchOutcome} (ho : P o.bindings)
    (hnext : ∀ b, P b → P (next b).bindings) : P (o.andThen next).bindings := by
  unfold andThen
  split
  · exact hnext _ ho
  · exact ho

namespace Bindings

variable {h : Hierarchy} {place : Place} {w a : Ty} {b : Bindings}

/-! ## One step -/

theorem matchType_closed (hw : w.hasPlaceholder = false) : matchType h place w a b =
    if w.accepts h a then .fit b else .fail b (.mismatch w a place) := by
  rw [matchType.eq_def, hw]
  rfl

theorem matchType_placeholder (p : Placeholder) :
    matchType h place (.placeholder p) a b = bind h p a b := rfl

/-- A placeholder fills its slot with what it meets, or leaves the bindings alone. -/
theorem bindings_bind (p : Placeholder) : (bind h p a b).bindings = b ∨
    b.slot? p.toSlot = some none ∧ a ≠ .null ∧ (bind h p a b).bindings = b.set p.toSlot a := by
  unfold bind
  split
  · exact .inl rfl
  · next hnull =>
    split
    · exact .inl rfl
    · next hslot => exact .inr ⟨hslot, hnull, rfl⟩
    · split <;> exact .inl rfl

theorem matchType_applied {c : Container} {ws as : List Ty}
    (hopen : (Ty.applied c ws).hasPlaceholder = true) (hi : h.instance? c a = some as) :
    matchType h place (.applied c ws) a b = matchTypes h .typeArg 0 ws as b := by
  rw [matchType.eq_def, hopen]
  simp [hi]

theorem matchType_array (hopen : (Ty.array w).hasPlaceholder = true) :
    matchType h place (.array w) (.array a) b = matchType h .arrayElement w a b := by
  rw [matchType.eq_def, hopen]
  rfl

theorem matchType_function {ws as : List Ty} (hopen : (Ty.function ws w).hasPlaceholder = true)
    (hlen : ws.length = as.length) : matchType h place (.function ws w) (.function as a) b =
      (matchTypes h .functionParam 0 ws as b).andThen (matchType h .functionReturn w a) := by
  rw [matchType.eq_def, hopen]
  simp [hlen]

theorem matchType_quoted (hopen : (Ty.quoted w).hasPlaceholder = true) :
    matchType h place (.quoted w) (.quoted a) b = matchType h .quotedBody w a b := by
  rw [matchType.eq_def, hopen]
  rfl

end Bindings

/-! ## All steps -/

/-- What all matches have in common: `One` of a match of two types that begins with some bindings
and has some outcome, `Each` of a match of two lists. -/
structure MatchRules (h : Hierarchy) (One : Ty → Ty → Bindings → MatchOutcome → Prop)
    (Each : List Ty → List Ty → Bindings → MatchOutcome → Prop) : Prop where
  closed {w a : Ty} {b : Bindings} : w.hasPlaceholder = false → w.accepts h a = true →
    One w a b (.fit b)
  stop {w a : Ty} {b : Bindings} {e : MatchError} : One w a b (.fail b e)
  placeholder {p : Placeholder} {a : Ty} {b : Bindings} :
    One (.placeholder p) a b (Bindings.bind h p a b)
  applied {c : Container} {ws as : List Ty} {a : Ty} {b : Bindings} {o : MatchOutcome} :
    (Ty.applied c ws).hasPlaceholder = true → h.instance? c a = some as → Each ws as b o →
    One (.applied c ws) a b o
  array {w a : Ty} {b : Bindings} {o : MatchOutcome} :
    (Ty.array w).hasPlaceholder = true → One w a b o → One (.array w) (.array a) b o
  function {ws as : List Ty} {w a : Ty} {b : Bindings} {o : MatchOutcome}
    {next : Bindings → MatchOutcome} : (Ty.function ws w).hasPlaceholder = true →
    ws.length = as.length → Each ws as b o → (∀ b', One w a b' (next b')) →
    One (.function ws w) (.function as a) b (o.andThen next)
  quoted {w a : Ty} {b : Bindings} {o : MatchOutcome} :
    (Ty.quoted w).hasPlaceholder = true → One w a b o → One (.quoted w) (.quoted a) b o
  noneWanted {as : List Ty} {b : Bindings} : Each [] as b (.fit b)
  noneActual {w : Ty} {ws : List Ty} {b : Bindings} : Each (w :: ws) [] b (.fit b)
  cons {w a : Ty} {ws as : List Ty} {b : Bindings} {o : MatchOutcome}
    {next : Bindings → MatchOutcome} : One w a b o → (∀ b', Each ws as b' (next b')) →
    Each (w :: ws) (a :: as) b (o.andThen next)

namespace MatchRules

variable {h : Hierarchy} {One : Ty → Ty → Bindings → MatchOutcome → Prop}
  {Each : List Ty → List Ty → Bindings → MatchOutcome → Prop} (hrules : MatchRules h One Each)

include hrules

theorem of_closed {w a : Ty} {place : Place} {b : Bindings} (hw : w.hasPlaceholder = false) :
    One w a b (Bindings.matchType h place w a b) := by
  rw [Bindings.matchType_closed hw]
  split
  · next ha => exact hrules.closed hw ha
  · exact hrules.stop

mutual
theorem matchType : ∀ (w : Ty) (place : Place) (a : Ty) (b : Bindings),
    One w a b (Bindings.matchType h place w a b)
  | .placeholder _, _, _, _ => hrules.placeholder
  | .applied c ws, place, a, b => by
    by_cases hopen : (Ty.applied c ws).hasPlaceholder = true
    · rw [Bindings.matchType.eq_def, hopen]
      simp only [Bool.not_true, Bool.false_eq_true, if_false]
      split
      · next as hi => exact hrules.applied hopen hi (matchTypes ws .typeArg 0 as b)
      · exact hrules.stop
    · exact hrules.of_closed (by simpa using hopen)
  | .array w, place, a, b => by
    by_cases hopen : (Ty.array w).hasPlaceholder = true
    · rw [Bindings.matchType.eq_def, hopen]
      simp only [Bool.not_true, Bool.false_eq_true, if_false]
      split
      · next a => exact hrules.array hopen (matchType w .arrayElement a b)
      · exact hrules.stop
    · exact hrules.of_closed (by simpa using hopen)
  | .function ws w, place, a, b => by
    by_cases hopen : (Ty.function ws w).hasPlaceholder = true
    · rw [Bindings.matchType.eq_def, hopen]
      simp only [Bool.not_true, Bool.false_eq_true, if_false]
      split
      · next as a =>
        split
        · exact hrules.stop
        · next hlen =>
          exact hrules.function hopen (by simpa using hlen) (matchTypes ws .functionParam 0 as b)
            (matchType w .functionReturn a)
      · exact hrules.stop
    · exact hrules.of_closed (by simpa using hopen)
  | .quoted w, place, a, b => by
    by_cases hopen : (Ty.quoted w).hasPlaceholder = true
    · rw [Bindings.matchType.eq_def, hopen]
      simp only [Bool.not_true, Bool.false_eq_true, if_false]
      split
      · next a => exact hrules.quoted hopen (matchType w .quotedBody a b)
      · exact hrules.stop
    · exact hrules.of_closed (by simpa using hopen)
  | .primitive _, _, _, _ | .enum _, _, _, _ | .entity _, _, _, _ | .wildcard, _, _, _ =>
    hrules.of_closed rfl

theorem matchTypes : ∀ (ws : List Ty) (place : Nat → Place) (index : Nat) (as : List Ty)
    (b : Bindings), Each ws as b (Bindings.matchTypes h place index ws as b)
  | [], _, _, _, _ => hrules.noneWanted
  | _ :: _, _, _, [], _ => hrules.noneActual
  | w :: ws, place, index, a :: as, b => by
    rw [Bindings.matchTypes]
    exact hrules.cons (matchType w (place index) a b) (matchTypes ws place (index + 1) as)
end

end MatchRules
end TypedQuery
