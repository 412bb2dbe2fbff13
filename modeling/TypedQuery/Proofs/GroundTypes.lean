import TypedQuery.Proofs.DeclaredTypes
import TypedQuery.Proofs.Enumerations
/-!
Types that leave nothing open, and the members that are put together from them.

A match binds nothing to `null`, so a placeholder that only meets `null` stays open. Where a
member is a property nothing looks at that again. What saves the accesses of properties is that
no container and no array holds `null`: then every placeholder of a declaring type meets a type
that says something, and is bound.
-/
namespace TypedQuery

/-! ## Ground types -/

namespace Ty

/-- A type that no value is declared with: the wildcard, and a container or an array that is
not applied to types of its items. -/
def isImproper : Ty → Bool
  | .wildcard => true
  | .array t => t == .null
  | .applied c ts => ts.length != c.arity || ts.contains .null
  | _ => false

/-- No part is improper. -/
def Proper (t : Ty) : Prop := t.anyPart isImproper = false

instance (t : Ty) : Decidable t.Proper := inferInstanceAs (Decidable (_ = false))

/-- A proper type without placeholders. -/
structure Ground (t : Ty) : Prop where
  proper : t.Proper
  closed : t.hasPlaceholder = false

/-- A type that says something about its values. -/
structure Definite (t : Ty) : Prop where
  ground : t.Ground
  ne_null : t ≠ .null

/-- No part is a placeholder or the wildcard. -/
structure Concrete (t : Ty) : Prop where
  closed : t.hasPlaceholder = false
  known : t.hasWildcard = false

theorem proper_array {t : Ty} : (Ty.array t).Proper ↔ t ≠ .null ∧ t.Proper := by
  simp [Proper, anyPart, isImproper]

theorem proper_quoted {t : Ty} : (Ty.quoted t).Proper ↔ t.Proper := by
  simp [Proper, anyPart, isImproper]

theorem proper_applied {c : Container} {ts : List Ty} :
    (Ty.applied c ts).Proper ↔ ts.length = c.arity ∧ ∀ t ∈ ts, t ≠ .null ∧ t.Proper := by
  simp only [Proper, anyPart, isImproper, anyPartOf_eq_any, Bool.or_eq_false_iff,
    bne_eq_false_iff_eq, List.any_eq_false, Bool.not_eq_true, and_assoc]
  refine and_congr_right fun _ => Iff.intro ?_ fun hts => ⟨?_, fun t ht => (hts t ht).2⟩
  · rintro ⟨hnull, hts⟩ t ht
    refine ⟨?_, hts t ht⟩
    rintro rfl
    simp [ht] at hnull
  · rw [Bool.eq_false_iff]
    intro hnull
    exact (hts _ (List.contains_iff_mem.mp hnull)).1 rfl

theorem proper_function {ps : List Ty} {r : Ty} :
    (Ty.function ps r).Proper ↔ (∀ p ∈ ps, p.Proper) ∧ r.Proper := by
  simp [Proper, anyPart, isImproper, anyPartOf_eq_any]

theorem closed_function {ps : List Ty} {r : Ty} :
    (Ty.function ps r).hasPlaceholder = false ↔
      (∀ p ∈ ps, p.hasPlaceholder = false) ∧ r.hasPlaceholder = false := by
  rw [hasPlaceholder, isMark_isPlaceholder.anyPart_function, anyPartOf_eq_any,
    Bool.or_eq_false_iff, List.any_eq_false]
  simp [hasPlaceholder]

theorem closed_applied {c : Container} {ts : List Ty} :
    (Ty.applied c ts).hasPlaceholder = false ↔ ∀ t ∈ ts, t.hasPlaceholder = false := by
  rw [hasPlaceholder, isMark_isPlaceholder.anyPart_applied, anyPartOf_eq_any, List.any_eq_false]
  simp [hasPlaceholder]

theorem closed_array {t : Ty} : (Ty.array t).hasPlaceholder = t.hasPlaceholder :=
  isMark_isPlaceholder.anyPart_array t

theorem closed_quoted {t : Ty} : (Ty.quoted t).hasPlaceholder = t.hasPlaceholder :=
  isMark_isPlaceholder.anyPart_quoted t

theorem ground_primitive (p : Primitive) : (Ty.primitive p).Ground := ⟨rfl, rfl⟩

theorem ground_array {t : Ty} : (Ty.array t).Ground ↔ t.Definite := by
  constructor
  · rintro ⟨hproper, hclosed⟩
    obtain ⟨hnull, hproper⟩ := proper_array.mp hproper
    exact ⟨⟨hproper, closed_array ▸ hclosed⟩, hnull⟩
  · rintro ⟨⟨hproper, hclosed⟩, hnull⟩
    exact ⟨proper_array.mpr ⟨hnull, hproper⟩, closed_array.trans hclosed⟩

theorem ground_quoted {t : Ty} : (Ty.quoted t).Ground ↔ t.Ground :=
  ⟨fun h => ⟨proper_quoted.mp h.proper, closed_quoted ▸ h.closed⟩,
    fun h => ⟨proper_quoted.mpr h.proper, closed_quoted.trans h.closed⟩⟩

theorem ground_applied {c : Container} {ts : List Ty} :
    (Ty.applied c ts).Ground ↔ ts.length = c.arity ∧ ∀ t ∈ ts, t.Definite := by
  constructor
  · rintro ⟨hproper, hclosed⟩
    obtain ⟨hlen, hproper⟩ := proper_applied.mp hproper
    have hclosed := closed_applied.mp hclosed
    exact ⟨hlen, fun t ht => ⟨⟨(hproper t ht).2, hclosed t ht⟩, (hproper t ht).1⟩⟩
  · rintro ⟨hlen, hts⟩
    refine ⟨proper_applied.mpr ⟨hlen, fun t ht => ?_⟩, closed_applied.mpr fun t ht => ?_⟩
    · exact ⟨(hts t ht).ne_null, (hts t ht).ground.proper⟩
    · exact (hts t ht).ground.closed

theorem ground_function {ps : List Ty} {r : Ty} :
    (Ty.function ps r).Ground ↔ (∀ p ∈ ps, p.Ground) ∧ r.Ground := by
  constructor
  · rintro ⟨hproper, hclosed⟩
    obtain ⟨hps, hr⟩ := proper_function.mp hproper
    obtain ⟨hps', hr'⟩ := closed_function.mp hclosed
    exact ⟨fun p hp => ⟨hps p hp, hps' p hp⟩, hr, hr'⟩
  · rintro ⟨hps, hr⟩
    refine ⟨proper_function.mpr ⟨fun p hp => ?_, hr.proper⟩,
      closed_function.mpr ⟨fun p hp => ?_, hr.closed⟩⟩
    · exact (hps p hp).proper
    · exact (hps p hp).closed

theorem Ground.concrete {t : Ty} (h : t.Ground) : t.Concrete := by
  refine ⟨h.closed, anyPart_mono (fun u hu => ?_) t h.proper⟩
  obtain rfl : u = .wildcard := by simpa using hu
  rfl

/-! ## Substitution -/

variable {lookup : Slot → Option Ty}

theorem substitute_ne_null (hlookup : ∀ p t, lookup p = some t → t ≠ .null) {t : Ty}
    (ht : t ≠ .null) : t.substitute lookup ≠ .null := by
  cases t with
  | primitive => exact ht
  | placeholder p =>
    rw [substitute]
    cases hp : lookup p.toSlot with
    | none => simp
    | some u => exact hlookup p.toSlot u hp
  | _ => simp [substitute]

mutual
/-- Definite types in the place of placeholders keep a type proper. -/
theorem proper_substitute (hlookup : ∀ p t, lookup p = some t → t.Definite) :
    ∀ t : Ty, t.Proper → (t.substitute lookup).Proper
  | .primitive _, h | .enum _, h | .entity _, h | .wildcard, h => h
  | .placeholder p, h => by
    rw [substitute]
    cases hp : lookup p.toSlot with
    | none => exact h
    | some t => exact (hlookup p.toSlot t hp).ground.proper
  | .array t, h => by
    obtain ⟨hnull, ht⟩ := proper_array.mp h
    rw [substitute, proper_array]
    exact ⟨substitute_ne_null (fun p t hp => (hlookup p t hp).ne_null) hnull,
      proper_substitute hlookup t ht⟩
  | .quoted t, h => by
    rw [substitute, proper_quoted]
    exact proper_substitute hlookup t (proper_quoted.mp h)
  | .applied c ts, h => by
    obtain ⟨hlen, hts⟩ := proper_applied.mp h
    rw [substitute, proper_applied, substituteEach_eq_map, List.length_map]
    refine ⟨hlen, List.forall_mem_map.mpr fun t ht => ⟨?_, ?_⟩⟩
    · exact substitute_ne_null (fun p t hp => (hlookup p t hp).ne_null) (hts t ht).1
    · exact proper_substituteEach hlookup ts (fun t ht => (hts t ht).2) t ht
  | .function ps r, h => by
    obtain ⟨hps, hr⟩ := proper_function.mp h
    rw [substitute, proper_function, substituteEach_eq_map]
    exact ⟨List.forall_mem_map.mpr (proper_substituteEach hlookup ps hps),
      proper_substitute hlookup r hr⟩

theorem proper_substituteEach (hlookup : ∀ p t, lookup p = some t → t.Definite) :
    ∀ ts : List Ty, (∀ t ∈ ts, t.Proper) → ∀ t ∈ ts, (t.substitute lookup).Proper
  | [], _ => by simp
  | t :: ts, h => by
    obtain ⟨ht, hts⟩ := List.forall_mem_cons.mp h
    exact List.forall_mem_cons.mpr
      ⟨proper_substitute hlookup t ht, proper_substituteEach hlookup ts hts⟩
end

end Ty

/-! ## Supertypes -/

namespace Model

variable {model : Model}

theorem ground_of_mem_closure {t : Ty} (ht : t.Ground) :
    ∀ u ∈ model.hierarchy.closure t, u.Ground := by
  refine forall_mem_closure ht (fun _ => ⟨rfl, rfl⟩) fun u v hu hv => ?_
  obtain ⟨c, item, rfl, hc, hitem⟩ := Ty.exists_item_of_mem_libraryParents hv
  have hdefinite : item.Definite := by
    rcases hitem with ⟨_, _, rfl⟩ | rfl | ⟨_, rfl⟩
    · exact (Ty.ground_applied.mp hu).2 _ List.mem_cons_self
    · exact Ty.ground_array.mp hu
    · exact ⟨Ty.ground_primitive _, by decide⟩
  exact Ty.ground_applied.mpr ⟨hc.symm, by simpa using hdefinite⟩

/-- A container above a ground type holds definite types. -/
theorem definite_of_instance? {c : Container} {t : Ty} {as : List Ty} (ht : t.Ground)
    (hi : model.hierarchy.instance? c t = some as) : as.length = c.arity ∧ ∀ a ∈ as, a.Definite :=
  Ty.ground_applied.mp (ground_of_mem_closure ht _ (instance?_eq_some_iff.mp hi))

end Model

/-! ## Placeholders that occur -/

namespace Ty

/-- Types whose parts are not all types of values. -/
def isCallable : Ty → Bool
  | .function .. | .quoted _ => true
  | _ => false

def isPlaceholderAt (p : Slot) : Ty → Bool
  | .placeholder q => q.toSlot == p
  | _ => false

/-- The placeholder of this slot occurs. -/
def Mentions (p : Slot) (t : Ty) : Prop := t.anyPart (isPlaceholderAt p) = true

instance (p : Slot) (t : Ty) : Decidable (t.Mentions p) :=
  inferInstanceAs (Decidable (_ = true))

/-- A wanted type whose placeholders all meet definite types if it is matched with a ground
one. -/
structure Transparent (t : Ty) : Prop where
  proper : t.Proper
  plain : t.anyPart isCallable = false

theorem not_mentions_of_closed {p : Slot} {t : Ty} (h : t.hasPlaceholder = false) :
    ¬ t.Mentions p := by
  have hnone : t.anyPart (isPlaceholderAt p) = false := by
    refine anyPart_mono (fun u hu => ?_) t h
    cases u with
    | placeholder => rfl
    | _ => cases hu
  simp [Mentions, hnone]

theorem mentions_placeholder {p : Slot} {q : Placeholder} :
    (Ty.placeholder q).Mentions p ↔ q.toSlot = p := by
  simp [Mentions, anyPart, isPlaceholderAt]

theorem mentions_array {p : Slot} {t : Ty} : (Ty.array t).Mentions p ↔ t.Mentions p := by
  simp [Mentions, anyPart, isPlaceholderAt]

theorem mentions_applied {p : Slot} {c : Container} {ts : List Ty} :
    (Ty.applied c ts).Mentions p ↔ ∃ t ∈ ts, t.Mentions p := by
  simp [Mentions, anyPart, isPlaceholderAt, anyPartOf_eq_any]

theorem mentions_function {p : Slot} {ts : List Ty} {t : Ty} :
    (Ty.function ts t).Mentions p ↔ (∃ u ∈ ts, u.Mentions p) ∨ t.Mentions p := by
  simp [Mentions, anyPart, isPlaceholderAt, anyPartOf_eq_any]

theorem mentions_quoted {p : Slot} {t : Ty} : (Ty.quoted t).Mentions p ↔ t.Mentions p := by
  simp [Mentions, anyPart, isPlaceholderAt]

theorem Transparent.of_array {t : Ty} (h : (Ty.array t).Transparent) : t.Transparent :=
  ⟨(proper_array.mp h.proper).2, h.plain⟩

theorem Transparent.of_applied {c : Container} {ts : List Ty} (h : (Ty.applied c ts).Transparent) :
    ts.length = c.arity ∧ ∀ t ∈ ts, t.Transparent := by
  obtain ⟨hlen, hproper⟩ := proper_applied.mp h.proper
  have hplain : ∀ t ∈ ts, t.anyPart isCallable = false := by
    simpa [anyPart, isCallable, anyPartOf_eq_any] using h.plain
  exact ⟨hlen, fun t ht => ⟨(hproper t ht).2, hplain t ht⟩⟩

variable {lookup : Slot → Option Ty}

mutual
/-- A substitution closes a type exactly if it has a closed type for every placeholder in it. -/
theorem closed_substitute_iff : ∀ t : Ty, (t.substitute lookup).hasPlaceholder = false ↔
    ∀ p, t.Mentions p → ∃ u, lookup p = some u ∧ u.hasPlaceholder = false
  | .primitive _ | .enum _ | .entity _ | .wildcard =>
    iff_of_true rfl fun _ hp => absurd hp (not_mentions_of_closed rfl)
  | .placeholder q => by
    simp only [substitute, mentions_placeholder, forall_eq']
    cases hq : lookup q.toSlot with
    | none => simp [hasPlaceholder, anyPart, isPlaceholder]
    | some u => simp
  | .array t => by
    simp only [substitute, closed_array, mentions_array, closed_substitute_iff t]
  | .quoted t => by
    simp only [substitute, closed_quoted, mentions_quoted, closed_substitute_iff t]
  | .applied c ts => by
    rw [substitute, closed_applied, substituteEach_eq_map, List.forall_mem_map,
      closed_substituteEach_iff ts]
    simp only [mentions_applied]
  | .function ts t => by
    rw [substitute, closed_function, substituteEach_eq_map, List.forall_mem_map,
      closed_substituteEach_iff ts, closed_substitute_iff t]
    simp only [mentions_function, or_imp, forall_and]

theorem closed_substituteEach_iff : ∀ ts : List Ty,
    (∀ t ∈ ts, (t.substitute lookup).hasPlaceholder = false) ↔
      ∀ p, (∃ t ∈ ts, t.Mentions p) → ∃ u, lookup p = some u ∧ u.hasPlaceholder = false
  | [] => by simp
  | t :: ts => by
    rw [List.forall_mem_cons, closed_substitute_iff t, closed_substituteEach_iff ts]
    simp only [List.mem_cons, exists_eq_or_imp, or_imp, forall_and]
end

mutual
/-- A placeholder that occurs is counted. -/
theorem index_lt_slotCount {p : Slot} : ∀ {t : Ty}, t.Mentions p →
    p.index < t.slotCount p.origin
  | .primitive _, h | .enum _, h | .entity _, h | .wildcard, h => by
    exact absurd h (not_mentions_of_closed rfl)
  | .placeholder q, h => by
    obtain rfl := mentions_placeholder.mp h
    simp [slotCount]
  | .array t, h => index_lt_slotCount (t := t) (mentions_array.mp h)
  | .quoted t, h => index_lt_slotCount (t := t) (mentions_quoted.mp h)
  | .applied c ts, h => index_lt_slotCounts (mentions_applied.mp h)
  | .function ts t, h => by
    rcases mentions_function.mp h with h | h
    · exact Nat.lt_of_lt_of_le (index_lt_slotCounts h) (Nat.le_max_left _ _)
    · exact Nat.lt_of_lt_of_le (index_lt_slotCount h) (Nat.le_max_right _ _)

theorem index_lt_slotCounts {p : Slot} : ∀ {ts : List Ty}, (∃ t ∈ ts, t.Mentions p) →
    p.index < slotCounts p.origin ts
  | [], h => by simp at h
  | t :: ts, h => by
    simp only [List.mem_cons, exists_eq_or_imp] at h
    rcases h with h | h
    · exact Nat.lt_of_lt_of_le (index_lt_slotCount h) (Nat.le_max_left _ _)
    · exact Nat.lt_of_lt_of_le (index_lt_slotCounts h) (Nat.le_max_right _ _)
end

end Ty

/-! ## Matches -/

namespace Bindings

/-- Placeholders are bound to definite types only. -/
def Definite (b : Bindings) : Prop := ∀ ⦃p t⦄, b.get? p = some t → t.Definite

/-- What a match with a ground type makes of bindings to definite types. A placeholder that is
all of a wanted type may meet `null`. -/
structure Grounded (wanted actual : Ty) (b' : Bindings) : Prop where
  definite : b'.Definite
  binds : wanted.Transparent → (wanted.isPlaceholder = true → actual ≠ .null) →
    ∀ p, wanted.Mentions p → (b'.get? p).isSome = true

variable {model : Model} {b b' : Bindings}

theorem definite_bind {h : Hierarchy} {p : Placeholder} {a : Ty} (ha : a.Ground)
    (hb : b.Definite) : (bind h p a b).bindings.Definite := by
  rcases bindings_bind (h := h) (a := a) (b := b) p with heq | ⟨_, hnull, heq⟩
  · rw [heq]
    exact hb
  · rw [heq]
    exact forall_get?_set hb ⟨ha, hnull⟩

/-- A match with a ground type binds definite types. -/
theorem definite_rules : MatchRules model.hierarchy
    (fun _ a b o => a.Ground → b.Definite → o.bindings.Definite)
    (fun _ as b o => (∀ a ∈ as, a.Ground) → b.Definite → o.bindings.Definite) where
  closed _ _ _ hb := hb
  stop _ hb := hb
  placeholder := definite_bind
  applied _ hi hws ha := hws fun a has => ((Model.definite_of_instance? ha hi).2 a has).ground
  array _ hw ha := hw (Ty.ground_array.mp ha).ground
  function _ _ hws hw ha hb := by
    obtain ⟨hparams, hresult⟩ := Ty.ground_function.mp ha
    exact MatchOutcome.bindings_andThen (hws hparams hb) fun b hb => hw b hresult hb
  quoted _ hw ha := hw (Ty.ground_quoted.mp ha)
  noneWanted _ hb := hb
  noneActual _ hb := hb
  cons hw hws ha hb := by
    obtain ⟨ha, has⟩ := List.forall_mem_cons.mp ha
    exact MatchOutcome.bindings_andThen (hw ha hb) fun b hb => hws b has hb

/-- What fits a ground type leaves no placeholder open that it has to pass. -/
theorem isSome_of_fits {lookup : Slot → Option Ty} {w a : Ty}
    (hf : Fits model.hierarchy lookup False w a) (ha : a.Ground) (hw : w.Transparent)
    (hnull : w.isPlaceholder = true → a ≠ .null) {p : Slot} (hp : w.Mentions p) :
    (lookup p).isSome = true := by
  induction hf with
  | closed hclosed => exact absurd hp (Ty.not_mentions_of_closed hclosed)
  | null => exact absurd rfl (hnull rfl)
  | unsure hu => exact hu.elim
  | bound hlookup =>
    obtain rfl := Ty.mentions_placeholder.mp hp
    rw [hlookup]
    rfl
  | @applied c ws as a _ hi _ ih =>
    obtain ⟨hlen, has⟩ := Model.definite_of_instance? ha hi
    obtain ⟨hlen', hws⟩ := hw.of_applied
    obtain ⟨w, hmem, hp⟩ := Ty.mentions_applied.mp hp
    obtain ⟨i, hi, rfl⟩ := List.getElem_of_mem hmem
    have hi' : i < as.length := hlen.trans hlen'.symm ▸ hi
    have ha := has as[i] (List.getElem_mem hi')
    have hpair : (ws[i], as[i]) ∈ ws.zip as :=
      List.mem_iff_getElem.mpr ⟨i, by grind, List.getElem_zip⟩
    exact ih _ hpair ha.ground (hws _ hmem) (fun _ => ha.ne_null) hp
  | array _ _ ih =>
    have ha := Ty.ground_array.mp ha
    exact ih ha.ground hw.of_array (fun _ => ha.ne_null) (Ty.mentions_array.mp hp)
  | function => cases hw.plain
  | quoted => cases hw.plain

/-- A match with a ground type binds definite types, and leaves no placeholder open that it
has to pass. -/
theorem grounded_of_matchType (w : Ty) {place : Place} {a : Ty} {b b' : Bindings}
    (hm : matchType model.hierarchy place w a b = .fit b') (ha : a.Ground) (hb : b.Definite) :
    Grounded w a b' := by
  refine ⟨?_, fun hw hnull p hp => isSome_of_fits (fits_of_matchType hm) ha hw hnull hp⟩
  have hdefinite := (@definite_rules model).matchType w place a b ha hb
  rwa [hm] at hdefinite

end Bindings

/-! ## Members -/

/-- All types that a member writes down. -/
def Member.types (m : Member) : List Ty :=
  m.declaringType :: m.result :: (m.params ++ m.declaringArgs ++ m.methodArgs)

/-- The declaration of a member is proper, and what its type arguments are is either open or
definite. -/
structure Member.Tidy (m : Member) : Prop where
  signature : ∀ t ∈ m.template.signature, t.Proper
  args : ∀ origin, ∀ t ∈ m.args origin, t.hasPlaceholder = true ∨ t.Definite

/-- The type of a receiver decides all type arguments. -/
structure MemberTemplate.Revealed (t : MemberTemplate) : Prop where
  transparent : t.declaring.Transparent
  constructed : t.declaring.isPlaceholder = false
  mentions : ∀ origin, ∀ i < t.slots origin, t.declaring.Mentions ⟨origin, i⟩

theorem Member.length_args (m : Member) (origin : Origin) :
    (m.args origin).length = m.template.slots origin := by
  cases origin
  · exact m.length_declaringArgs
  · exact m.length_methodArgs

/-- Every placeholder of the declaration has an argument. -/
theorem Member.exists_arg? {m : Member} {p : Slot}
    (hp : ∃ t ∈ m.template.signature, t.Mentions p) : ∃ a, m.arg? p = some a := by
  have hlt : p.index < (m.args p.origin).length := by
    rw [m.length_args]
    exact Ty.index_lt_slotCounts hp
  exact ⟨_, List.getElem?_eq_getElem hlt⟩

/-- A type of the declaration is closed exactly by closed arguments for what occurs in it. -/
theorem Member.closed_apply_iff {m : Member} {t : Ty} (ht : t ∈ m.template.signature) :
    (m.apply t).hasPlaceholder = false ↔
      ∀ p, t.Mentions p → ∀ a ∈ m.arg? p, a.hasPlaceholder = false := by
  rw [apply, Ty.closed_substitute_iff]
  refine forall₂_congr fun p hp => ?_
  obtain ⟨a, ha⟩ := exists_arg? ⟨t, ht, hp⟩
  simp [ha]

theorem Member.closed_apply {m : Member}
    (hclosed : ∀ origin, ∀ a ∈ m.args origin, a.hasPlaceholder = false) {t : Ty}
    (ht : t ∈ m.template.signature) : (m.apply t).hasPlaceholder = false :=
  (closed_apply_iff ht).mpr fun p _ a ha => hclosed p.origin a (List.mem_of_getElem? ha)

namespace Member.Tidy

variable {m : Member} (hm : m.Tidy)

include hm

theorem ofMember : (Bindings.ofMember m).Definite := by
  intro p t hp
  obtain ⟨harg, hclosed⟩ := Bindings.get?_ofMember.mp hp
  rcases hm.args p.origin t (List.mem_of_getElem? harg) with hopen | ht
  · rw [hopen] at hclosed
    cases hclosed
  · exact ht

theorem instantiate {b : Bindings} (hb : b.Definite) : (b.instantiate m).Tidy where
  signature := hm.signature
  args := by
    intro origin t ht
    rcases Bindings.mem_args_instantiate ht with ⟨p, hp⟩ | ht
    · exact .inr (hb hp)
    · exact hm.args origin t ht

theorem bindDeclaring {model : Model} {bound : Member} {receiver : Ty} (hr : receiver.Ground)
    (hb : m.bindDeclaring model.hierarchy receiver = .ok bound) : bound.Tidy := by
  obtain ⟨b, rfl, hfit⟩ := Member.bindDeclaring_eq_ok hb
  exact hm.instantiate (Bindings.grounded_of_matchType _ hfit hr hm.ofMember).definite

/-- Members without open arguments are written with concrete types only. -/
theorem concrete (hclosed : ∀ origin, ∀ t ∈ m.args origin, t.hasPlaceholder = false) :
    m.result.Ground ∧ ∀ t ∈ m.types, t.Concrete := by
  have hargs : ∀ origin, ∀ t ∈ m.args origin, t.Definite := by
    intro origin t ht
    refine (hm.args origin t ht).resolve_left ?_
    rw [hclosed origin t ht]
    exact Bool.false_ne_true
  have happly : ∀ t ∈ m.template.signature, (m.apply t).Ground := by
    intro t ht
    refine ⟨Ty.proper_substitute (fun p u hp => ?_) t (hm.signature t ht), closed_apply hclosed ht⟩
    exact hargs p.origin u (List.mem_of_getElem? hp)
  have hparams : ∀ t ∈ m.params, t.Concrete := by
    refine List.forall_mem_map.mpr fun t ht => ?_
    exact (happly t (MemberTemplate.mem_signature ht)).concrete
  refine ⟨happly _ (List.mem_cons_of_mem _ List.mem_cons_self), ?_⟩
  refine List.forall_mem_cons.mpr ⟨(happly _ List.mem_cons_self).concrete, ?_⟩
  refine List.forall_mem_cons.mpr
    ⟨(happly _ (List.mem_cons_of_mem _ List.mem_cons_self)).concrete, ?_⟩
  refine List.forall_mem_append.mpr ⟨List.forall_mem_append.mpr ⟨hparams, ?_⟩, ?_⟩
  · exact fun t ht => (hargs .declaring t ht).ground.concrete
  · exact fun t ht => (hargs .method t ht).ground.concrete

end Member.Tidy

theorem Member.closed_args {m : Member} (hd : m.hasOpenDeclaring = false)
    (hm : m.hasOpenMethod = false) :
    ∀ origin, ∀ t ∈ m.args origin, t.hasPlaceholder = false := by
  intro origin t ht
  rw [hasOpenDeclaring, List.any_eq_false] at hd
  rw [hasOpenMethod, List.any_eq_false] at hm
  cases origin
  · exact Bool.eq_false_iff.mpr (hd t ht)
  · exact Bool.eq_false_iff.mpr (hm t ht)

/-- A receiver of a ground type leaves no argument open that it has to decide. -/
theorem Member.Tidy.closed_of_bindDeclaring {model : Model} {m bound : Member} {receiver : Ty}
    (hm : m.Tidy) (hrevealed : m.template.Revealed) (hr : receiver.Ground)
    (hb : m.bindDeclaring model.hierarchy receiver = .ok bound) :
    ∀ origin, ∀ t ∈ bound.args origin, t.hasPlaceholder = false := by
  obtain ⟨b, rfl, hfit⟩ := Member.bindDeclaring_eq_ok hb
  have hmatch := Bindings.grounded_of_matchType _ hfit hr hm.ofMember
  have hlen := Bindings.length_slots_of_extends (Bindings.matched_of_matchType _ hfit).bindings
  have hconstructed : m.template.declaring.isPlaceholder = true → receiver ≠ .null := by
    rw [hrevealed.constructed]
    exact fun h => nomatch h
  intro origin t ht
  obtain ⟨i, hi⟩ := List.mem_iff_getElem?.mp ht
  have hlt : i < m.template.slots origin := by
    have := (List.getElem?_eq_some_iff.mp hi).1
    rwa [Member.length_args] at this
  have hsome := hmatch.binds hrevealed.transparent hconstructed ⟨origin, i⟩
    (hrevealed.mentions origin i hlt)
  obtain ⟨u, hu⟩ := Option.isSome_iff_exists.mp hsome
  have harg : _ = some u := Bindings.arg?_instantiate hlen hu
  obtain rfl : t = u := Option.some.inj (hi.symm.trans harg)
  exact (hmatch.definite hu).ground.closed

/-- Arguments of ground types bind definite types only, and no improper type is expected of
them. -/
theorem Fitted.definite {model : Model} {signature : List Ty} {us : List Part} {b b' : Bindings}
    (hf : Fitted model.hierarchy signature us b b') (hsignature : ∀ w ∈ signature, w.Proper)
    (hus : ∀ u ∈ us, (∀ t ∈ u.expected, t.Proper) → u.graph.type.Ground) (hb : b.Definite) :
    b'.Definite ∧ ∀ u ∈ us, ∀ t ∈ u.expected, t.Proper :=
  hf.preserves (fun w hw _ hb => Ty.proper_substitute hb w (hsignature w hw))
    (fun w _ _ _ _ hb ht hm => (Bindings.grounded_of_matchType w hm ht hb).definite) hus hb

end TypedQuery
