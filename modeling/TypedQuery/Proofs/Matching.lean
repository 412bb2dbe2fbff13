import TypedQuery.Member.Matching
import TypedQuery.Proofs.ElaborationSound
import TypedQuery.Proofs.MatchRules
import TypedQuery.Proofs.Supertypes
/-!
What a match of a signature promises.

Bindings only grow. What a placeholder met is accepted by what it stands for in the end, with
one exception: `null` is let through without a look. So a match falls short of assignability in
two ways. A placeholder that met `null` may stand for a type without `null`; and where nothing
but the same type may be assigned, as inside an array, a placeholder that met a narrower type
may stand for a wider one.
-/
namespace TypedQuery

/-! ## Types without placeholders -/

namespace Ty

mutual
theorem substitute_of_closed (lookup : Slot → Option Ty) :
    ∀ t : Ty, t.hasPlaceholder = false → t.substitute lookup = t
  | .primitive _, _ | .enum _, _ | .entity _, _ | .wildcard, _ => rfl
  | .placeholder p, h => by cases h
  | .array t, h => by rw [substitute, substitute_of_closed lookup t h]
  | .quoted t, h => by rw [substitute, substitute_of_closed lookup t h]
  | .applied c ts, h => by rw [substitute, substituteEach_of_closed lookup ts h]
  | .function ps r, h => by
    obtain ⟨hps, hr⟩ := Bool.or_eq_false_iff.mp h
    rw [substitute, substituteEach_of_closed lookup ps hps, substitute_of_closed lookup r hr]

theorem substituteEach_of_closed (lookup : Slot → Option Ty) :
    ∀ ts : List Ty, anyPartOf isPlaceholder ts = false → substituteEach lookup ts = ts
  | [], _ => rfl
  | t :: ts, h => by
    obtain ⟨ht, hts⟩ := Bool.or_eq_false_iff.mp h
    rw [substituteEach, substitute_of_closed lookup t ht, substituteEach_of_closed lookup ts hts]
end

end Ty

/-! ## Bindings grow -/

namespace Bindings

/-- All that `b` has bound is bound to the same in `b'`. -/
structure Extends (b b' : Bindings) : Prop where
  length_declaring : b'.declaring.length = b.declaring.length
  length_method : b'.method.length = b.method.length
  get?_eq : ∀ {p t}, b.get? p = some t → b'.get? p = some t

namespace Extends

variable {b b' b'' : Bindings}

theorem refl (b : Bindings) : b.Extends b := ⟨rfl, rfl, id⟩

theorem trans (h : b.Extends b') (h' : b'.Extends b'') : b.Extends b'' :=
  ⟨h'.length_declaring.trans h.length_declaring, h'.length_method.trans h.length_method,
    fun hp => h'.get?_eq (h.get?_eq hp)⟩

theorem length_slots (h : b.Extends b') (origin : Origin) :
    (b'.slots origin).length = (b.slots origin).length := by
  cases origin
  · exact h.length_declaring
  · exact h.length_method

end Extends

theorem slots_set_of_ne {b : Bindings} {p : Slot} {t : Ty} {origin : Origin}
    (h : origin ≠ p.origin) : (b.set p t).slots origin = b.slots origin := by
  obtain ⟨o, i⟩ := p
  cases o <;> cases origin <;> first | rfl | exact absurd rfl h

theorem slots_set {b : Bindings} {p : Slot} {t : Ty} :
    (b.set p t).slots p.origin = (b.slots p.origin).set p.index (some t) := by
  obtain ⟨o, i⟩ := p
  cases o <;> rfl

theorem lt_length_of_slot? {b : Bindings} {p : Slot} {slot : Option Ty}
    (hp : b.slot? p = some slot) : p.index < (b.slots p.origin).length :=
  (List.getElem?_eq_some_iff.mp hp).1

theorem extends_set {b : Bindings} {p : Slot} {t : Ty} (hp : b.slot? p = some none) :
    b.Extends (b.set p t) := by
  refine ⟨?_, ?_, fun {q u} hq => ?_⟩
  · obtain ⟨o, i⟩ := p
    cases o <;> simp [set]
  · obtain ⟨o, i⟩ := p
    cases o <;> simp [set]
  · unfold get? slot? at hq ⊢
    by_cases horigin : q.origin = p.origin
    · rw [horigin] at hq ⊢
      rw [slots_set, List.getElem?_set]
      split
      · next hindex =>
        rw [slot?, hindex] at hp
        rw [hp] at hq
        cases hq
      · exact hq
    · rwa [slots_set_of_ne horigin]

end Bindings

/-! ## Fitting -/

/-- `Fits h lookup unsure wanted actual` says that `actual` has the shape of `wanted`, and that
what the placeholders met is `null` or accepted by what they stand for. Of placeholders that are
`unsure` nothing is said. -/
inductive Fits (h : Hierarchy) (lookup : Slot → Option Ty) (unsure : Prop) :
    Ty → Ty → Prop
  | closed {w a : Ty} : w.hasPlaceholder = false → w.accepts h a = true →
    Fits h lookup unsure w a
  | null {p : Placeholder} : Fits h lookup unsure (.placeholder p) .null
  | unsure {p : Placeholder} {a : Ty} : unsure → Fits h lookup unsure (.placeholder p) a
  | bound {p : Placeholder} {a t : Ty} : lookup p.toSlot = some t → t.accepts h a = true →
    Fits h lookup unsure (.placeholder p) a
  | applied {c : Container} {ws as : List Ty} {a : Ty} :
    (Ty.applied c ws).hasPlaceholder = true → h.instance? c a = some as →
    (∀ pair ∈ ws.zip as, Fits h lookup unsure pair.1 pair.2) →
    Fits h lookup unsure (.applied c ws) a
  | array {w a : Ty} : (Ty.array w).hasPlaceholder = true → Fits h lookup unsure w a →
    Fits h lookup unsure (.array w) (.array a)
  | function {ws as : List Ty} {w a : Ty} : (Ty.function ws w).hasPlaceholder = true →
    ws.length = as.length → (∀ pair ∈ ws.zip as, Fits h lookup unsure pair.1 pair.2) →
    Fits h lookup unsure w a → Fits h lookup unsure (.function ws w) (.function as a)
  | quoted {w a : Ty} : (Ty.quoted w).hasPlaceholder = true → Fits h lookup unsure w a →
    Fits h lookup unsure (.quoted w) (.quoted a)

/-- `Assigned h lookup unsure wanted actual` says where an `actual` that fits is also accepted
by `wanted` with what its placeholders stand for: `null` only meets placeholders that stand for
types with `null`, and arrays, the parameters of functions and the arguments of containers are
exactly as wanted, but that sequences of references may hold narrower ones. -/
inductive Assigned (h : Hierarchy) (lookup : Slot → Option Ty) (unsure : Prop) :
    Ty → Ty → Prop
  | closed {w a : Ty} : w.hasPlaceholder = false → Assigned h lookup unsure w a
  | placeholder {p : Placeholder} {a : Ty} :
    (a = .null ∨ unsure → ((Ty.placeholder p).substitute lookup).accepts h a = true) →
    Assigned h lookup unsure (.placeholder p) a
  | array {w : Ty} : Assigned h lookup unsure (.array w) (.array (w.substitute lookup))
  | function {ws : List Ty} {w a : Ty} : Assigned h lookup unsure w a →
    Assigned h lookup unsure (.function ws w)
      (.function (ws.map fun w => w.substitute lookup) a)
  | quoted {w a : Ty} : Assigned h lookup unsure w a →
    Assigned h lookup unsure (.quoted w) (.quoted a)
  | applied {c : Container} {ws : List Ty} {a : Ty} :
    h.instance? c a = some (ws.map fun w => w.substitute lookup) →
    Assigned h lookup unsure (.applied c ws) a
  | sequence {w s a : Ty} {ws rest : List Ty} :
    h.instance? .enumerable a = some (s :: rest) →
    (w.substitute lookup).isReference = true → s.isReference = true →
    Assigned h lookup unsure w s → Assigned h lookup unsure (.applied .enumerable (w :: ws)) a

namespace Fits

variable {h : Hierarchy} {lookup lookup' : Slot → Option Ty} {unsure unsure' : Prop}
  {w a : Ty}

/-- A fit stays one when more is bound, or less of it is promised. -/
theorem mono (hf : Fits h lookup unsure w a)
    (hlookup : ∀ {p t}, lookup p = some t → lookup' p = some t ∨ unsure')
    (hunsure : unsure → unsure') : Fits h lookup' unsure' w a := by
  induction hf with
  | closed hw ha => exact .closed hw ha
  | null => exact .null
  | unsure hu => exact .unsure (hunsure hu)
  | bound hp ha =>
    rcases hlookup hp with hp | hu
    · exact .bound hp ha
    · exact .unsure hu
  | applied hopen hi _ ih => exact .applied hopen hi ih
  | array hopen _ ih => exact .array hopen ih
  | function hopen hlen _ _ ihs ih => exact .function hopen hlen ihs ih
  | quoted hopen _ ih => exact .quoted hopen ih

end Fits

namespace Bindings

/-- Nothing that is bound has a mark. -/
def Free (mark : Ty → Bool) (b : Bindings) : Prop :=
  ∀ ⦃p t⦄, b.get? p = some t → t.anyPart mark = false

/-- What a match of `wanted` and `actual` makes of the bindings `b`. -/
structure Matched (h : Hierarchy) (wanted actual : Ty) (b b' : Bindings) : Prop where
  bindings : b.Extends b'
  fits : Fits h b'.get? False wanted actual
  free : ∀ {mark}, Ty.IsMark mark → actual.anyPart mark = false → b.Free mark → b'.Free mark

variable {h : Hierarchy} {model : Model} {b b' : Bindings} {w a : Ty} {place : Place}

/-! ## Every outcome -/

/-- Matches that go on from one another, or stop in between, keep what is bound. -/
theorem Extends.andThen {o : MatchOutcome} {next : Bindings → MatchOutcome}
    (ho : b.Extends o.bindings) (hnext : ∀ b : Bindings, b.Extends (next b).bindings) :
    b.Extends (o.andThen next).bindings :=
  MatchOutcome.bindings_andThen ho fun b' hb => hb.trans (hnext b')

theorem extends_bind (p : Placeholder) : b.Extends (bind h p a b).bindings := by
  rcases bindings_bind (h := h) (a := a) (b := b) p with heq | ⟨hslot, _, heq⟩
  · rw [heq]
    exact .refl b
  · rw [heq]
    exact extends_set hslot

theorem extends_rules : MatchRules h (fun _ _ b o => b.Extends o.bindings)
    (fun _ _ b o => b.Extends o.bindings) where
  closed _ _ := .refl _
  stop := .refl _
  placeholder := extends_bind _
  applied _ _ hws := hws
  array _ hw := hw
  function _ _ hws hw := hws.andThen hw
  quoted _ hw := hw
  noneWanted := .refl _
  noneActual := .refl _
  cons hw hws := hw.andThen hws

/-- A match forgets nothing, whether it succeeds or fails. -/
theorem extends_matchType (h : Hierarchy) (place : Place) (w a : Ty) (b : Bindings) :
    b.Extends (matchType h place w a b).bindings :=
  extends_rules.matchType w place a b

theorem forall_get?_set {P : Ty → Prop} {p : Slot} {t : Ty}
    (hb : ∀ ⦃q u⦄, b.get? q = some u → P u) (ht : P t) :
    ∀ ⦃q u⦄, (b.set p t).get? q = some u → P u := by
  intro q u hq
  by_cases horigin : q.origin = p.origin
  · rw [get?, slot?, horigin, slots_set, List.getElem?_set] at hq
    split at hq
    · split at hq
      · cases hq
        exact ht
      · cases hq
    · exact hb (q := q) (by rwa [get?, slot?, horigin])
  · exact hb (q := q) (by rwa [get?, slot?, ← slots_set_of_ne horigin])

section Free

variable {mark : Ty → Bool}

theorem free_set {p : Slot} {t : Ty} (hb : b.Free mark) (ht : t.anyPart mark = false) :
    (b.set p t).Free mark :=
  forall_get?_set (P := fun t => t.anyPart mark = false) hb ht

theorem free_bind {p : Placeholder} (ha : a.anyPart mark = false) (hb : b.Free mark) :
    (bind h p a b).bindings.Free mark := by
  rcases bindings_bind (h := h) (a := a) (b := b) p with heq | ⟨_, _, heq⟩
  · rw [heq]
    exact hb
  · rw [heq]
    exact free_set hb ha

/-- What a match binds has no mark that the actual type does not have. -/
theorem free_rules (hmark : Ty.IsMark mark) : MatchRules model.hierarchy
    (fun _ a b o => a.anyPart mark = false → b.Free mark → o.bindings.Free mark)
    (fun _ as b o => Ty.anyPartOf mark as = false → b.Free mark → o.bindings.Free mark) where
  closed _ _ _ hb := hb
  stop _ hb := hb
  placeholder := free_bind
  applied _ hi hws ha := by
    refine hws ?_
    rw [← hmark.anyPart_applied]
    exact Model.anyPart_of_mem_closure hmark ha _ (Model.instance?_eq_some_iff.mp hi)
  array _ hw ha := hw (by rwa [← hmark.anyPart_array])
  function _ _ hws hw ha hb := by
    rw [hmark.anyPart_function, Bool.or_eq_false_iff] at ha
    exact MatchOutcome.bindings_andThen (hws ha.1 hb) fun b hb => hw b ha.2 hb
  quoted _ hw ha := hw (by rwa [← hmark.anyPart_quoted])
  noneWanted _ hb := hb
  noneActual _ hb := hb
  cons hw hws ha hb := by
    obtain ⟨ha, has⟩ := Bool.or_eq_false_iff.mp ha
    exact MatchOutcome.bindings_andThen (hw ha hb) fun b hb => hws b has hb

end Free

/-! ## Success -/

theorem andThen_eq_fit {o : MatchOutcome} {next : Bindings → MatchOutcome}
    (hm : o.andThen next = .fit b') : ∃ b, o = .fit b ∧ next b = .fit b' := by
  unfold MatchOutcome.andThen at hm
  split at hm
  · next herror => exact ⟨o.bindings, MatchOutcome.eq_fit herror, hm⟩
  · next herror =>
    rw [hm] at herror
    cases herror

theorem Extends.of_eq_fit {o : MatchOutcome} (ho : b.Extends o.bindings) (hm : o = .fit b') :
    b.Extends b' := by
  rwa [hm] at ho

theorem fits_of_bind {p : Placeholder} (hm : bind h p a b = .fit b') :
    Fits h b'.get? False (.placeholder p) a := by
  unfold bind at hm
  split at hm
  · next hnull => exact hnull ▸ .null
  · split at hm
    · cases hm
    · next hslot =>
      cases hm
      exact .bound (get?_set_self (lt_length_of_slot? hslot)) (Ty.accepts_self h a)
    · next bound hslot =>
      split at hm
      · next ha =>
        cases hm
        exact .bound (by rw [get?, hslot, Option.join_some]) ha
      · cases hm

/-- What fits still does when a later match has bound more. -/
theorem fits_rules : MatchRules h
    (fun w a b o => ∀ b', o = .fit b' → b.Extends b' ∧ Fits h b'.get? False w a)
    (fun ws as b o => ∀ b', o = .fit b' →
      b.Extends b' ∧ ∀ pair ∈ ws.zip as, Fits h b'.get? False pair.1 pair.2) where
  closed hw ha b' hm := by
    cases hm
    exact ⟨.refl _, .closed hw ha⟩
  stop _ hm := by cases hm
  placeholder _ hm := ⟨(extends_bind _).of_eq_fit hm, fits_of_bind hm⟩
  applied hopen hi hws b' hm := ⟨(hws b' hm).1, .applied hopen hi (hws b' hm).2⟩
  array hopen hw b' hm := ⟨(hw b' hm).1, .array hopen (hw b' hm).2⟩
  function hopen hlen hws hw b' hm := by
    obtain ⟨b₁, h₁, hm⟩ := andThen_eq_fit hm
    obtain ⟨hws, hfits⟩ := hws b₁ h₁
    obtain ⟨hw, hfit⟩ := hw b₁ b' hm
    refine ⟨hws.trans hw, .function hopen hlen (fun pair hp => ?_) hfit⟩
    exact (hfits pair hp).mono (fun hp => .inl (hw.get?_eq hp)) id
  quoted hopen hw b' hm := ⟨(hw b' hm).1, .quoted hopen (hw b' hm).2⟩
  noneWanted b' hm := by
    cases hm
    exact ⟨.refl _, by simp⟩
  noneActual b' hm := by
    cases hm
    exact ⟨.refl _, by simp⟩
  cons hw hws b' hm := by
    obtain ⟨b₁, h₁, hm⟩ := andThen_eq_fit hm
    obtain ⟨hw, hfit⟩ := hw b₁ h₁
    obtain ⟨hws, hfits⟩ := hws b₁ b' hm
    refine ⟨hw.trans hws, ?_⟩
    rw [List.zip_cons_cons, List.forall_mem_cons]
    exact ⟨hfit.mono (fun hp => .inl (hws.get?_eq hp)) id, hfits⟩

theorem fits_of_matchType (hm : matchType h place w a b = .fit b') :
    Fits h b'.get? False w a :=
  (fits_rules.matchType w place a b b' hm).2

/-- A match binds what it has to and leaves the rest alone, and what it met fits. -/
theorem matched_of_matchType (w : Ty) {place : Place} {a : Ty} {b b' : Bindings}
    (hm : matchType model.hierarchy place w a b = .fit b') :
    Matched model.hierarchy w a b b' := by
  refine ⟨(extends_matchType _ _ _ _ _).of_eq_fit hm, fits_of_matchType hm,
    fun {mark} hmark ha hb => ?_⟩
  have hfree := (@free_rules model mark hmark).matchType w place a b ha hb
  rwa [hm] at hfree

end Bindings

/-! ## Fitting and assignability -/

namespace Ty

variable {h : Hierarchy} {model : Model}

theorem accepts_array {t a : Ty} : (Ty.array t).accepts h (.array a) = true ↔ t = a := by
  simp [accepts]

theorem accepts_function {ps qs : List Ty} {r s : Ty} :
    (Ty.function ps r).accepts h (.function qs s) = true ↔ ps = qs ∧ r.accepts h s = true := by
  rw [accepts.eq_def]
  simp only [Bool.or_eq_true, Bool.and_eq_true, beq_iff_eq, Ty.function.injEq]
  constructor
  · rintro (⟨hp, rfl⟩ | hr)
    · exact ⟨hp, accepts_self h r⟩
    · exact hr
  · exact .inr

theorem accepts_quoted {t a : Ty} :
    (Ty.quoted t).accepts h (.quoted a) = true ↔ t.accepts h a = true := by
  rw [accepts.eq_def]
  simp only [Bool.or_eq_true, beq_iff_eq, Ty.quoted.injEq]
  constructor
  · rintro (rfl | ht)
    · exact accepts_self h t
    · exact ht
  · exact .inr

theorem instance?_null {c : Container} : model.hierarchy.instance? c .null = none := by
  rw [Option.eq_none_iff_forall_ne_some]
  intro as hi
  have := Model.mem_libraryCone_of_mem_closure rfl _ (Model.instance?_eq_some_iff.mp hi)
  simp [libraryCone, libraryParents] at this

theorem mem_closure_iff {c : Container} {ts as : List Ty} {a : Ty}
    (hi : model.hierarchy.instance? c a = some as) :
    .applied c ts ∈ model.hierarchy.closure a ↔ as = ts := by
  rw [← Model.instance?_eq_some_iff, hi, Option.some.injEq]

/-- A container accepts its own instance of a type, and a sequence of references also one of
narrower references. -/
theorem accepts_applied {c : Container} {ts as : List Ty} {a : Ty}
    (hi : model.hierarchy.instance? c a = some as) :
    (Ty.applied c ts).accepts model.hierarchy a = true ↔
      as = ts ∨ c = .enumerable ∧ ∃ t rest s rest', ts = t :: rest ∧ as = s :: rest' ∧
        t.isReference = true ∧ s.isReference = true ∧ t.accepts model.hierarchy s = true := by
  have hself : Ty.applied c ts = a → as = ts := by
    rintro rfl
    exact (mem_closure_iff hi).mp (Hierarchy.mem_closure_self _)
  have hnull : a ≠ .null := by
    rintro rfl
    rw [instance?_null] at hi
    cases hi
  rw [accepts.eq_def]
  split
  case h_4 t ts' heq =>
    cases heq
    simp only [Bool.or_eq_true, beq_iff_eq, List.any_eq_true, hnull, false_or]
    constructor
    · rintro (ha | ⟨u, hu, rfl | hs⟩)
      · exact .inl (hself ha)
      · exact .inl ((mem_closure_iff hi).mp hu)
      · split at hs
        · next s rest =>
          simp only [Bool.and_eq_true] at hs
          have hu := (mem_closure_iff hi).mp hu
          exact .inr ⟨trivial, t, ts', s, rest, rfl, hu, hs.1.1, hs.1.2, hs.2⟩
        · cases hs
    · rintro (rfl | ⟨_, t', _, s, rest, hts, rfl, htref, hsref, hts'⟩)
      · exact .inr ⟨_, (mem_closure_iff hi).mpr rfl, .inl rfl⟩
      · cases hts
        refine .inr ⟨_, (mem_closure_iff hi).mpr rfl, .inr ?_⟩
        simp [htref, hsref, hts']
  case h_5 c' ts' hnot heq =>
    cases heq
    simp only [Bool.or_eq_true, beq_iff_eq, List.contains_iff_mem, hnull, false_or]
    constructor
    · rintro (ha | ha)
      · exact .inl (hself ha)
      · exact .inl ((mem_closure_iff hi).mp ha)
    · rintro (rfl | ⟨hc, t, rest, _, _, hts, _⟩)
      · exact .inr ((mem_closure_iff hi).mpr rfl)
      · exact absurd hts fun h => hnot t rest hc h
  case h_7 _ _ _ _ hnot _ => exact absurd rfl (hnot c ts)
  all_goals next heq => cases heq

end Ty

namespace Fits

variable {model : Model} {lookup : Slot → Option Ty} {unsure : Prop} {w a : Ty}

/-- What fits is assignable exactly where nothing slipped through the match. -/
theorem accepts_iff (hf : Fits model.hierarchy lookup unsure w a) :
    (w.substitute lookup).accepts model.hierarchy a = true ↔
      Assigned model.hierarchy lookup unsure w a := by
  induction hf with
  | closed hw ha =>
    rw [Ty.substitute_of_closed lookup _ hw]
    exact ⟨fun _ => .closed hw, fun _ => ha⟩
  | null =>
    refine ⟨fun ha => .placeholder fun _ => ha, fun ha => ?_⟩
    cases ha with
    | closed hw => cases hw
    | placeholder ha => exact ha (.inl rfl)
  | unsure hu =>
    refine ⟨fun ha => .placeholder fun _ => ha, fun ha => ?_⟩
    cases ha with
    | closed hw => cases hw
    | placeholder ha => exact ha (.inr hu)
  | bound hp ha =>
    rw [Ty.substitute, hp, Option.getD_some]
    refine ⟨fun _ => .placeholder fun _ => ?_, fun _ => ha⟩
    rwa [Ty.substitute, hp, Option.getD_some]
  | @applied c ws as a hopen hi _ ih =>
    rw [Ty.substitute, Ty.substituteEach_eq_map, Ty.accepts_applied hi]
    constructor
    · rintro (rfl | ⟨rfl, t, rest, s, rest', hts, rfl, htref, hsref, hts'⟩)
      · exact .applied hi
      · cases ws with
        | nil => cases hts
        | cons w ws =>
          cases hts
          refine .sequence hi htref hsref ((ih (w, s) ?_).mp hts')
          simp
    · intro ha
      cases ha with
      | closed hw => rw [hw] at hopen; cases hopen
      | applied hi' => exact .inl (Option.some.inj (hi.symm.trans hi'))
      | @sequence w s _ ws rest hi' htref hsref hws =>
        obtain rfl := Option.some.inj (hi.symm.trans hi')
        refine .inr ⟨rfl, _, _, _, _, rfl, rfl, htref, hsref, ?_⟩
        exact (ih (w, s) (by simp)).mpr hws
  | array hopen _ _ =>
    rw [Ty.substitute, Ty.accepts_array]
    constructor
    · rintro rfl
      exact .array
    · intro ha
      cases ha with
      | closed hw => rw [hw] at hopen; cases hopen
      | array => rfl
  | function hopen _ _ _ _ ih =>
    rw [Ty.substitute, Ty.substituteEach_eq_map, Ty.accepts_function]
    constructor
    · rintro ⟨rfl, hr⟩
      exact .function (ih.mp hr)
    · intro ha
      cases ha with
      | closed hw => rw [hw] at hopen; cases hopen
      | function hr => exact ⟨rfl, ih.mpr hr⟩
  | quoted hopen _ ih =>
    rw [Ty.substitute, Ty.accepts_quoted, ih]
    constructor
    · exact .quoted
    · intro ha
      cases ha with
      | closed hw => rw [hw] at hopen; cases hopen
      | quoted ha => exact ha

end Fits
end TypedQuery
