import TypedQuery.Proofs.Acyclicity
import TypedQuery.Proofs.Matching
/-!
Assignability orders the types of an accepted schema.

The check is restated as rules, a supertype and a narrower element among them. A chain of two
assignments is then one: supertypes compose, and an element that is narrowed twice is narrowed.
Assignments in both directions need every step to be an equality, since no type is above itself.
-/
namespace TypedQuery

namespace Model

variable {model : Model}

/-- What is above a type, apart from the type itself: containers, and above entities entities. -/
theorem eq_or_applied_or_entity_of_mem_closure {t u : Ty} (ht : t ∈ model.hierarchy.closure u) :
    t = u ∨ (∃ c ts, t = .applied c ts) ∨ ∃ n m, t = .entity n ∧ u = .entity m := by
  cases hu : u.isEntity with
  | true =>
    have hentity := isEntity_of_mem_closure hu t ht
    cases u <;> cases hu
    cases t <;> cases hentity
    exact .inr (.inr ⟨_, _, rfl, rfl⟩)
  | false =>
    rcases List.mem_cons.mp (mem_libraryCone_of_mem_closure hu t ht) with heq | ht
    · exact .inl heq
    · obtain ⟨c, item, heq, _⟩ := Ty.exists_item_of_mem_libraryParents ht
      exact .inr (.inl ⟨c, [item], heq⟩)

/-- A type that no library rule applies to, and that is no entity, has only itself above it. -/
theorem eq_of_mem_closure {t u : Ty} (hu : u.libraryParents = []) (hentity : u.isEntity = false)
    (ht : t ∈ model.hierarchy.closure u) : t = u := by
  simpa [Ty.libraryCone, hu] using mem_libraryCone_of_mem_closure hentity t ht

/-- Only containers and entities are above other types. -/
theorem eq_of_mem_closure_of_ne {t u : Ty} (hcontainer : ∀ c ts, t ≠ .applied c ts)
    (hentity : ∀ n, t ≠ .entity n) (ht : t ∈ model.hierarchy.closure u) : t = u := by
  rcases eq_or_applied_or_entity_of_mem_closure ht with heq | ⟨c, ts, heq⟩ | ⟨n, _, heq, _⟩
  · exact heq
  · exact absurd heq (hcontainer c ts)
  · exact absurd heq (hentity n)

theorem isReference_of_mem_closure {t u : Ty} (ht : t ∈ model.hierarchy.closure u)
    (hu : u.isReference = true) : t.isReference = true := by
  rcases eq_or_applied_or_entity_of_mem_closure ht with rfl | ⟨_, _, rfl⟩ | ⟨_, _, rfl, _⟩
  · exact hu
  · rfl
  · rfl

end Model

namespace Ty

/-- The rules of assignment: `Assignable h target source`. -/
inductive Assignable (h : Hierarchy) : Ty → Ty → Prop where
  | supertype {t s : Ty} : t ∈ h.closure s → Assignable h t s
  | object (s : Ty) : Assignable h .object s
  | null {t : Ty} : t.isReference = true → Assignable h t .null
  | function {ps : List Ty} {r s : Ty} :
      Assignable h r s → Assignable h (.function ps r) (.function ps s)
  | quoted {t s : Ty} : Assignable h t s → Assignable h (.quoted t) (.quoted s)
  | sequence {t s u : Ty} {ts ss : List Ty} :
      .applied .enumerable (s :: ss) ∈ h.closure u → t.isReference = true →
      s.isReference = true → Assignable h t s → Assignable h (.applied .enumerable (t :: ts)) u

namespace Assignable

variable {h : Hierarchy} {model : Model}

theorem refl (t : Ty) : Assignable h t t := .supertype (Hierarchy.mem_closure_self t)

end Assignable

theorem assignable_of_accepts {h : Hierarchy} :
    ∀ (t : Ty) {u : Ty}, t.accepts h u = true → Assignable h t u
  | .function ps r, u, ha => by
    cases u with
    | function qs s =>
      obtain ⟨rfl, hr⟩ := accepts_function.mp ha
      exact .function (assignable_of_accepts r hr)
    | primitive p =>
      cases p with
      | null => exact .null rfl
      | _ => simp [accepts] at ha
    | _ => simp [accepts] at ha
  | .quoted t, u, ha => by
    cases u with
    | quoted s => exact .quoted (assignable_of_accepts t (accepts_quoted.mp ha))
    | primitive p =>
      cases p with
      | null => exact .null rfl
      | _ => simp [accepts] at ha
    | _ => simp [accepts] at ha
  | .applied .enumerable (t :: ts), u, ha => by
    simp only [accepts, Bool.or_eq_true, beq_iff_eq, List.any_eq_true] at ha
    rcases ha with rfl | rfl | ⟨v, hv, rfl | ha⟩
    · exact .refl _
    · exact .null rfl
    · exact .supertype hv
    · split at ha
      · next s ss =>
        simp only [Bool.and_eq_true] at ha
        exact .sequence hv ha.1.1 ha.1.2 (assignable_of_accepts t ha.2)
      · cases ha
  | .applied .enumerable [], u, ha | .applied .collection ts, u, ha
  | .applied .list ts, u, ha | .applied .dictionary ts, u, ha | .entity n, u, ha => by
    simp only [accepts, Bool.or_eq_true, beq_iff_eq, List.contains_iff_mem] at ha
    rcases ha with rfl | rfl | ha
    · exact .refl _
    · exact .null rfl
    · exact .supertype ha
  | .primitive p, u, ha => by
    by_cases hp : p = .object
    · exact hp ▸ .object u
    · have hunfold : (Ty.primitive p).accepts h u =
          (.primitive p == u || (u == .null && (Ty.primitive p).isReference)) := by
        cases p <;> first | rfl | exact absurd rfl hp
      simp only [hunfold, Bool.or_eq_true, Bool.and_eq_true, beq_iff_eq] at ha
      rcases ha with rfl | ⟨rfl, ha⟩
      · exact .refl _
      · exact .null ha
  | .enum _, u, ha | .array _, u, ha | .placeholder _, u, ha | .wildcard, u, ha => by
    simp only [accepts, Bool.or_eq_true, Bool.and_eq_true, beq_iff_eq] at ha
    rcases ha with rfl | ⟨rfl, ha⟩
    · exact .refl _
    · exact .null ha

theorem accepts_null {h : Hierarchy} {t : Ty} (ht : t.isReference = true) :
    t.accepts h .null = true := by
  cases t with
  | applied c ts =>
    cases c with
    | enumerable => cases ts <;> simp [accepts]
    | _ => simp [accepts]
  | primitive p =>
    cases p with
    | string | object | null => simp [accepts, isReference]
    | _ => cases ht
  | function | quoted | entity | array => simp [accepts, isReference]
  | _ => cases ht

/-- The check decides the rules. -/
theorem accepts_iff_assignable {model : Model} {t u : Ty} :
    t.accepts model.hierarchy u = true ↔ Assignable model.hierarchy t u := by
  refine ⟨assignable_of_accepts t, fun ha => ?_⟩
  induction ha with
  | @supertype t s ht =>
    rcases Model.eq_or_applied_or_entity_of_mem_closure ht with rfl | ⟨c, ts, rfl⟩ | ⟨n, m, rfl, _⟩
    · exact accepts_self _ t
    · obtain ⟨as, hi⟩ := Hierarchy.exists_instance?_of_mem_closure ht
      exact (accepts_applied hi).mpr (.inl ((mem_closure_iff hi).mp ht))
    · simp [accepts, ht]
  | object s => simp [accepts]
  | null ht => exact accepts_null ht
  | function _ ih => exact accepts_function.mpr ⟨rfl, ih⟩
  | quoted _ ih => exact accepts_quoted.mpr ih
  | sequence hs htref hsref _ ih =>
    refine (accepts_applied (Model.instance?_eq_some_iff.mpr hs)).mpr (.inr ⟨rfl, ?_⟩)
    exact ⟨_, _, _, _, rfl, rfl, htref, hsref, ih⟩

namespace Assignable

variable {model : Model} {t u v : Ty}

theorem eq_null (h : Assignable model.hierarchy .null t) : t = .null := by
  cases h with
  | supertype ht => exact (Model.eq_of_mem_closure_of_ne (by simp) (by simp) ht).symm
  | null => rfl

/-- What is above the source is above the target. -/
theorem of_supertype (ht : t ∈ model.hierarchy.closure u) (h : Assignable model.hierarchy u v) :
    Assignable model.hierarchy t v := by
  cases h with
  | supertype hu => exact .supertype (Hierarchy.mem_closure_trans hu ht)
  | object =>
    rw [Model.eq_of_mem_closure rfl rfl ht]
    exact .object v
  | null hu => exact .null (Model.isReference_of_mem_closure ht hu)
  | function h =>
    rw [Model.eq_of_mem_closure rfl rfl ht]
    exact .function h
  | quoted h =>
    rw [Model.eq_of_mem_closure rfl rfl ht]
    exact .quoted h
  | sequence hs hx hy h =>
    rw [Model.eq_of_mem_closure rfl rfl ht]
    exact .sequence hs hx hy h

theorem trans (htu : Assignable model.hierarchy t u) (huv : Assignable model.hierarchy u v) :
    Assignable model.hierarchy t v := by
  induction htu generalizing v with
  | supertype ht => exact huv.of_supertype ht
  | object => exact .object v
  | null ht =>
    rw [eq_null huv]
    exact .null ht
  | function h ih =>
    cases huv with
    | supertype hs =>
      rw [← Model.eq_of_mem_closure_of_ne (by simp) (by simp) hs]
      exact .function h
    | null => exact .null rfl
    | function h' => exact .function (ih h')
  | quoted h ih =>
    cases huv with
    | supertype hs =>
      rw [← Model.eq_of_mem_closure_of_ne (by simp) (by simp) hs]
      exact .quoted h
    | null => exact .null rfl
    | quoted h' => exact .quoted (ih h')
  | sequence hs hx hy h ih =>
    cases huv with
    | supertype hu => exact .sequence (Hierarchy.mem_closure_trans hu hs) hx hy h
    | object => cases Model.eq_of_mem_closure rfl rfl hs
    | null => exact .null rfl
    | function => cases Model.eq_of_mem_closure rfl rfl hs
    | quoted => cases Model.eq_of_mem_closure rfl rfl hs
    | sequence hz _ hz' h' =>
      cases Model.eq_of_mem_closure rfl rfl hs
      exact .sequence hz hx hz' (ih h')

end Assignable

/-! ## Both directions -/

/-- A container that is not applied to as many arguments as it takes. -/
def isMisapplied : Ty → Bool
  | .applied c ts => ts.length != c.arity
  | _ => false

/-- Every container in the type is applied to as many arguments as it takes. -/
def Saturated (t : Ty) : Prop := t.anyPart isMisapplied = false

instance (t : Ty) : Decidable t.Saturated := inferInstanceAs (Decidable (_ = _))

namespace Saturated

theorem result {ps : List Ty} {r : Ty} (h : (Ty.function ps r).Saturated) : r.Saturated := by
  rw [Saturated, anyPart, Bool.or_eq_false_iff] at h
  exact h.2

theorem inner {t : Ty} (h : (Ty.quoted t).Saturated) : t.Saturated := by
  rw [Saturated, anyPart, Bool.or_eq_false_iff] at h
  exact h.2

theorem sequence {t : Ty} {ts : List Ty} (h : (Ty.applied .enumerable (t :: ts)).Saturated) :
    ts = [] ∧ t.Saturated := by
  rw [Saturated, anyPart, anyPartOf, Bool.or_eq_false_iff, Bool.or_eq_false_iff] at h
  exact ⟨by simpa [isMisapplied, Container.arity] using h.1, h.2.1⟩

end Saturated

namespace Assignable

variable {model : Model} {t u : Ty}

theorem antisymm (hends : ∀ e ∈ model.entities, e.isEndless model.entities = false)
    (ht : t.Saturated) (hu : u.Saturated) (htu : Assignable model.hierarchy t u)
    (hut : Assignable model.hierarchy u t) : t = u := by
  induction htu with
  | supertype hmem =>
    cases hut with
    | supertype hmem' => exact Model.closure_antisymm hends hmem hmem'
    | null => exact Model.eq_of_mem_closure_of_ne (by simp) (by simp) hmem
    | object | function | quoted | sequence => exact Model.eq_of_mem_closure rfl rfl hmem
  | object s =>
    cases hut with
    | supertype hmem => exact (Model.eq_of_mem_closure rfl rfl hmem).symm
    | object => rfl
    | sequence hs => cases Model.eq_of_mem_closure rfl rfl hs
  | null => exact eq_null hut
  | function _ ih =>
    cases hut with
    | supertype hmem => exact (Model.eq_of_mem_closure rfl rfl hmem).symm
    | function h => rw [ih ht.result hu.result h]
  | quoted _ ih =>
    cases hut with
    | supertype hmem => exact (Model.eq_of_mem_closure rfl rfl hmem).symm
    | quoted h => rw [ih ht.inner hu.inner h]
  | sequence hs _ _ _ ih =>
    cases hut with
    | supertype hmem => exact (Model.eq_of_mem_closure rfl rfl hmem).symm
    | object => cases Model.eq_of_mem_closure rfl rfl hs
    | sequence hs' _ _ h =>
      cases Model.eq_of_mem_closure rfl rfl hs
      cases Model.eq_of_mem_closure rfl rfl hs'
      obtain ⟨rfl, hx⟩ := ht.sequence
      obtain ⟨rfl, hy⟩ := hu.sequence
      rw [ih hx hy h]

end Assignable

end Ty

/-- Under every schema that is accepted, assignability is a partial order: it is reflexive and
transitive on all types, and antisymmetric on those that apply each container to as many
arguments as it takes. -/
theorem Schema.accepts_partialOrder {schema : Schema} {model : Model}
    (hschema : schema.resolve = .ok model) :
    (∀ t : Ty, t.accepts model.hierarchy t = true) ∧
      (∀ t u v : Ty, t.accepts model.hierarchy u = true → u.accepts model.hierarchy v = true →
        t.accepts model.hierarchy v = true) ∧
      ∀ t u : Ty, t.Saturated → u.Saturated → t.accepts model.hierarchy u = true →
        u.accepts model.hierarchy t = true → t = u := by
  simp only [Ty.accepts_iff_assignable]
  exact ⟨.refl, fun _ _ _ => .trans,
    fun _ _ => Ty.Assignable.antisymm (not_isEndless_of_resolve hschema)⟩

/-- Two steps from a list of dogs to a sequence of animals, and none of them back. -/
theorem Schema.accepts_partialOrder_sequences :
    ∃ model, Schema.resolve ⟨[], [⟨"Animal", none, []⟩, ⟨"Dog", some "Animal", []⟩]⟩ = .ok model ∧
      (Ty.enumerable (.entity "Animal")).accepts model.hierarchy (.list (.entity "Dog")) = true ∧
      (Ty.list (.entity "Dog")).accepts model.hierarchy (.enumerable (.entity "Dog")) ≠ true := by
  have hschema : Schema.resolve ⟨[], [⟨"Animal", none, []⟩, ⟨"Dog", some "Animal", []⟩]⟩ =
      .ok ⟨[], [⟨"Animal", none, []⟩, ⟨"Dog", some "Animal", []⟩]⟩ := by
    decide +kernel
  obtain ⟨_, htrans, hantisymm⟩ := accepts_partialOrder hschema
  refine ⟨_, hschema, htrans _ (.enumerable (.entity "Dog")) _ ?_ ?_, fun hback => ?_⟩
  · decide +kernel
  · decide +kernel
  · exact absurd (hantisymm _ _ (by decide) (by decide) hback (by decide +kernel)) (by decide)

end TypedQuery
