import TypedQuery.Schema.Model
import TypedQuery.Ty.Assignability
import TypedQuery.Ty.Placeholders
/-!
Supertypes in the hierarchy of a resource model.

A model declares supertypes for entities only, and only entities. So every other type has the
supertypes of the library, each container among them once, and `instance?` finds the only
instance there is.
-/
namespace TypedQuery

namespace Hierarchy

variable {h : Hierarchy}

/-- A search only adds to the end of what has been visited. -/
theorem prefix_search (parents : Ty → List Ty) (steps : Nat) (visited queue : List Ty) :
    visited <+: search parents steps visited queue := by
  induction steps generalizing visited queue with
  | zero => exact List.prefix_rfl
  | succ steps ih =>
    cases queue with
    | nil => exact List.prefix_rfl
    | cons u queue => exact (List.prefix_append _ _).trans (ih _ _)

theorem mem_search_of_mem_visited {parents : Ty → List Ty} {steps : Nat} {visited queue : List Ty}
    {t : Ty} (ht : t ∈ visited) : t ∈ search parents steps visited queue :=
  (prefix_search parents steps visited queue).subset ht

/-- What is in the queue is visited as soon as all before it have been. -/
theorem mem_search_of_mem_queue {parents : Ty → List Ty} {p post visited : List Ty} {t : Ty}
    {steps : Nat} (hsteps : p.length < steps) :
    t ∈ search parents steps visited (p ++ t :: post) := by
  induction p generalizing steps visited post with
  | nil =>
    obtain ⟨steps, rfl⟩ := Nat.exists_eq_add_of_lt hsteps
    rw [List.nil_append, search]
    exact mem_search_of_mem_visited (List.mem_append_right _ List.mem_cons_self)
  | cons u p ih =>
    cases steps with
    | zero => cases hsteps
    | succ steps =>
      rw [List.cons_append, search, List.append_assoc, List.cons_append]
      exact ih (Nat.lt_of_succ_lt_succ hsteps)

/-- What holds of where a search starts, and of the parents of what it holds of, holds of
everything the search visits. -/
theorem forall_mem_search {parents : Ty → List Ty} {P : Ty → Prop}
    (hparents : ∀ u v, P u → v ∈ parents u → P v) {steps : Nat} {visited queue : List Ty}
    (hvisited : ∀ u ∈ visited, P u) (hqueue : ∀ u ∈ queue, P u) :
    ∀ u ∈ search parents steps visited queue, P u := by
  induction steps generalizing visited queue with
  | zero => exact hvisited
  | succ steps ih =>
    cases queue with
    | nil => exact hvisited
    | cons t queue =>
      obtain ⟨ht, hqueue⟩ := List.forall_mem_cons.mp hqueue
      refine ih (List.forall_mem_append.mpr ⟨hvisited, by simpa using ht⟩) ?_
      refine List.forall_mem_append.mpr ⟨hqueue, fun u hu => ?_⟩
      exact hparents t u ht (not_mem_of_mem_unseen hu).1

theorem forall_mem_closure {P : Ty → Prop} {t : Ty} (ht : P t)
    (hparents : ∀ u v, P u → v ∈ h.parents u → P v) : ∀ u ∈ h.closure t, P u :=
  forall_mem_search hparents (by simp) (by simpa using ht)

/-- A type comes before its supertypes. -/
theorem exists_closure_eq_cons (t : Ty) : ∃ above, h.closure t = t :: above := by
  unfold closure
  cases hsteps : (h.domain t).length with
  | zero =>
    rw [List.length_eq_zero_iff] at hsteps
    exact absurd (h.mem_domain t) (by simp [hsteps])
  | succ steps =>
    obtain ⟨above, habove⟩ := prefix_search h.parents steps [t] (unseen [t] (h.parents t))
    exact ⟨above, habove.symm⟩

theorem mem_closure_self (t : Ty) : t ∈ h.closure t := by
  obtain ⟨above, habove⟩ := exists_closure_eq_cons (h := h) t
  rw [habove]
  exact List.mem_cons_self

theorem mem_closure_of_instance? {c : Container} {t : Ty} {as : List Ty}
    (hi : h.instance? c t = some as) : .applied c as ∈ h.closure t := by
  obtain ⟨u, hu, heq⟩ := List.exists_of_findSome?_eq_some hi
  split at heq
  · split at heq
    · next hc => cases heq; exact hc ▸ hu
    · cases heq
  · cases heq

theorem exists_instance?_of_mem_closure {c : Container} {t : Ty} {as : List Ty}
    (hmem : .applied c as ∈ h.closure t) : ∃ bs, h.instance? c t = some bs := by
  rw [← Option.isSome_iff_exists]
  unfold instance?
  rw [List.findSome?_isSome_iff]
  exact ⟨_, hmem, by simp⟩

/-- An application of a container is the first instance of it above itself. -/
theorem instance?_applied (c : Container) (as : List Ty) :
    h.instance? c (.applied c as) = some as := by
  obtain ⟨above, habove⟩ := exists_closure_eq_cons (h := h) (.applied c as)
  simp [instance?, habove]

end Hierarchy

namespace Ty

/-- A type that is no entity. -/
def isEntity : Ty → Bool
  | .entity _ => true
  | _ => false

/-- A supertype in the library is a container of what the type holds. -/
theorem exists_item_of_mem_libraryParents {t u : Ty} (h : u ∈ t.libraryParents) :
    ∃ c item, u = .applied c [item] ∧ c.arity = 1 ∧
      ((∃ c' rest, t = .applied c' (item :: rest)) ∨ t = .array item ∨
        t = .string ∧ item = .char) := by
  unfold libraryParents at h
  split at h <;> simp only [List.mem_cons, List.not_mem_nil, or_false] at h
  · rcases h with rfl | rfl <;> exact ⟨_, _, rfl, rfl, .inl ⟨_, _, rfl⟩⟩
  · exact ⟨_, _, h, rfl, .inl ⟨_, _, rfl⟩⟩
  · rcases h with rfl | rfl <;> exact ⟨_, _, rfl, rfl, .inr (.inl rfl)⟩
  · exact ⟨_, _, h, rfl, .inr (.inr ⟨rfl, rfl⟩)⟩

theorem isEntity_of_mem_libraryParents {t u : Ty} (h : u ∈ t.libraryParents) :
    u.isEntity = false := by
  obtain ⟨c, item, rfl, _⟩ := exists_item_of_mem_libraryParents h
  rfl

/-- `mark` is only found on placeholders and on enumerations, which no supertype adds. -/
def IsMark (mark : Ty → Bool) : Prop :=
  ∀ t, mark t = true → (∃ p, t = .placeholder p) ∨ ∃ d, t = .enum d

theorem isMark_isPlaceholder : IsMark isPlaceholder := by
  intro t ht
  cases t with
  | placeholder p => exact .inl ⟨p, rfl⟩
  | _ => cases ht

namespace IsMark

variable {mark : Ty → Bool} (hmark : IsMark mark)

include hmark

theorem eq_false {t : Ty} (hp : ∀ p, t ≠ .placeholder p) (hd : ∀ d, t ≠ .enum d) :
    mark t = false := by
  cases ht : mark t with
  | false => rfl
  | true =>
    rcases hmark t ht with ⟨p, h⟩ | ⟨d, h⟩
    · exact absurd h (hp p)
    · exact absurd h (hd d)

theorem anyPart_primitive (p : Primitive) : (Ty.primitive p).anyPart mark = false :=
  hmark.eq_false (by simp) (by simp)

theorem anyPart_entity (name : String) : (Ty.entity name).anyPart mark = false :=
  hmark.eq_false (by simp) (by simp)

theorem anyPart_applied (c : Container) (ts : List Ty) :
    (Ty.applied c ts).anyPart mark = anyPartOf mark ts := by
  rw [anyPart, hmark.eq_false (by simp) (by simp), Bool.false_or]

theorem anyPart_array (t : Ty) : (Ty.array t).anyPart mark = t.anyPart mark := by
  rw [anyPart, hmark.eq_false (by simp) (by simp), Bool.false_or]

theorem anyPart_quoted (t : Ty) : (Ty.quoted t).anyPart mark = t.anyPart mark := by
  rw [anyPart, hmark.eq_false (by simp) (by simp), Bool.false_or]

theorem anyPart_function (ps : List Ty) (r : Ty) :
    (Ty.function ps r).anyPart mark = (anyPartOf mark ps || r.anyPart mark) := by
  rw [anyPart, hmark.eq_false (by simp) (by simp), Bool.false_or]

theorem anyPart_of_mem_libraryParents {t u : Ty} (h : u ∈ t.libraryParents)
    (ht : t.anyPart mark = false) : u.anyPart mark = false := by
  obtain ⟨c, item, rfl, _, hitem⟩ := exists_item_of_mem_libraryParents h
  have hfree : item.anyPart mark = false := by
    rcases hitem with ⟨_, _, rfl⟩ | rfl | ⟨_, rfl⟩
    · rw [hmark.anyPart_applied, anyPartOf, Bool.or_eq_false_iff] at ht
      exact ht.1
    · rwa [hmark.anyPart_array] at ht
    · exact hmark.anyPart_primitive _
  rw [hmark.anyPart_applied, anyPartOf, hfree]
  rfl

end IsMark

/-- The cone of a type holds a container at most once. -/
theorem applied_inj_of_mem_libraryCone {t : Ty} {c : Container} {as bs : List Ty}
    (ha : .applied c as ∈ t.libraryCone) (hb : .applied c bs ∈ t.libraryCone) : as = bs := by
  unfold libraryCone libraryParents at ha hb
  split at ha <;> simp_all <;> grind

end Ty

namespace Model

variable {model : Model}

/-- Above a type are its supertypes in the library, or else both are entities. -/
theorem parents_hierarchy {t u : Ty} (hu : u ∈ model.hierarchy.parents t) :
    u ∈ t.libraryParents ∨ t.isEntity = true ∧ u.isEntity = true := by
  rcases List.mem_append.mp hu with hu | hu
  · exact .inl hu
  · obtain ⟨d, hd, rfl, hbase⟩ := Hierarchy.mem_declaredParents.mp hu
    obtain ⟨e, _, rfl⟩ := List.mem_map.mp hd
    obtain ⟨_, _, rfl⟩ := Option.map_eq_some_iff.mp (Option.mem_toList.mp hbase)
    exact .inr ⟨rfl, rfl⟩

theorem isEntity_of_mem_closure {t : Ty} (ht : t.isEntity = true) :
    ∀ u ∈ model.hierarchy.closure t, u.isEntity = true := by
  refine Hierarchy.forall_mem_closure ht fun u v hu hv => ?_
  rcases parents_hierarchy hv with hv | ⟨_, hv⟩
  · cases u with
    | entity => simp [Ty.libraryParents] at hv
    | _ => cases hu
  · exact hv

theorem mem_libraryCone_of_mem_closure {t : Ty} (ht : t.isEntity = false) :
    ∀ u ∈ model.hierarchy.closure t, u ∈ t.libraryCone := by
  refine Hierarchy.forall_mem_closure List.mem_cons_self fun u v hu hv => ?_
  rcases parents_hierarchy hv with hv | ⟨hentity, _⟩
  · exact Ty.mem_libraryCone_trans hu hv
  · rcases List.mem_cons.mp hu with rfl | hu
    · exact absurd hentity (by simp [ht])
    · exact absurd hentity (by simp [Ty.isEntity_of_mem_libraryParents hu])

/-- What the type and all entities have, and what library supertypes take over, all supertypes
have. -/
theorem forall_mem_closure {P : Ty → Prop} {t : Ty} (ht : P t) (hentity : ∀ name, P (.entity name))
    (hlibrary : ∀ u v, P u → v ∈ u.libraryParents → P v) :
    ∀ u ∈ model.hierarchy.closure t, P u := by
  refine Hierarchy.forall_mem_closure ht fun u v hu hv => ?_
  rcases parents_hierarchy hv with hv | ⟨_, hv⟩
  · exact hlibrary u v hu hv
  · cases v with
    | entity name => exact hentity name
    | _ => cases hv

/-- The supertypes of a type mention nothing that the type does not. -/
theorem anyPart_of_mem_closure {mark : Ty → Bool} (hmark : Ty.IsMark mark) {t : Ty}
    (ht : t.anyPart mark = false) : ∀ u ∈ model.hierarchy.closure t, u.anyPart mark = false :=
  forall_mem_closure ht hmark.anyPart_entity fun _ _ hu hv =>
    hmark.anyPart_of_mem_libraryParents hv hu

/-- The instance that is found is the only one. -/
theorem instance?_eq_some_iff {c : Container} {t : Ty} {as : List Ty} :
    model.hierarchy.instance? c t = some as ↔ .applied c as ∈ model.hierarchy.closure t := by
  refine ⟨Hierarchy.mem_closure_of_instance?, fun hmem => ?_⟩
  obtain ⟨bs, hbs⟩ := Hierarchy.exists_instance?_of_mem_closure hmem
  have hmem' := Hierarchy.mem_closure_of_instance? hbs
  have hentity : t.isEntity = false := by
    cases ht : t.isEntity with
    | false => rfl
    | true => cases isEntity_of_mem_closure ht _ hmem
  rw [hbs, Ty.applied_inj_of_mem_libraryCone
    (mem_libraryCone_of_mem_closure hentity _ hmem')
    (mem_libraryCone_of_mem_closure hentity _ hmem)]

theorem declaredParents_eq_nil {t : Ty} (ht : t.isEntity = false) :
    Hierarchy.declaredParents
      (model.entities.map fun e => (.entity e.name, model.parents (.entity e.name))) t = [] := by
  rw [List.eq_nil_iff_forall_not_mem]
  intro u hu
  obtain ⟨d, hd, rfl, _⟩ := Hierarchy.mem_declaredParents.mp hu
  obtain ⟨e, _, rfl⟩ := List.mem_map.mp hd
  cases ht

/-- An array is the sequence of its elements. -/
theorem instance?_enumerable_array (t : Ty) :
    model.hierarchy.instance? .enumerable (.array t) = some [t] := by
  rw [instance?_eq_some_iff]
  have hparents : model.hierarchy.parents (.array t) = [.collection t, .enumerable t] := by
    have hnone := @declaredParents_eq_nil model (.array t) rfl
    simp [hierarchy, Hierarchy.ofDeclarations, hnone, Ty.libraryParents]
  have hsteps : 2 < (model.hierarchy.domain (.array t)).length := by
    simp [hierarchy, Hierarchy.ofDeclarations, Ty.libraryCone, Ty.libraryParents]
  obtain ⟨k, hk⟩ := Nat.exists_eq_add_of_lt hsteps
  have hunseen : Hierarchy.unseen [.array t] [.collection t, .enumerable t] =
      [.collection t, .enumerable t] := by
    simp [Hierarchy.unseen]
  rw [Hierarchy.closure, hk, Hierarchy.search, hparents, List.nil_append, hunseen]
  exact Hierarchy.mem_search_of_mem_queue (p := [.collection t]) (by simp; omega)

end Model
end TypedQuery
