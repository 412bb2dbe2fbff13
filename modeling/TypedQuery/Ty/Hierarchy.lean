import TypedQuery.Ty.Basic
/-!
Supertypes: the rules of the library types, the declarations that a resource model adds to
them, and the list of everything above a type.

A hierarchy comes with a finite domain around each type, closed under taking supertypes.
The search for supertypes is bounded by that domain, so it ends on every hierarchy, those
that run in circles included.
-/
namespace TypedQuery

/-- Supertypes by library rule. Sequences are read through `Enumerable`, and a string is the
sequence of its characters. `object` is above everything and is not listed. -/
def Ty.libraryParents : Ty → List Ty
  | .applied .list (t :: _) => [.collection t, .enumerable t]
  | .applied .collection (t :: _) => [.enumerable t]
  | .array t => [.collection t, .enumerable t]
  | .string => [.enumerable .char]
  | _ => []

/-- A type and its supertypes by library rule. -/
def Ty.libraryCone (t : Ty) : List Ty := t :: t.libraryParents

theorem Ty.mem_libraryCone_trans {t u v : Ty} (hu : u ∈ t.libraryCone)
    (hv : v ∈ u.libraryParents) : v ∈ t.libraryCone := by
  unfold libraryCone at hu ⊢
  rcases List.mem_cons.mp hu with rfl | hu
  · exact List.mem_cons_of_mem _ hv
  · unfold libraryParents at hu
    split at hu <;> simp only [List.mem_cons, List.not_mem_nil, or_false] at hu
    · rcases hu with rfl | rfl <;> simp [libraryParents] at hv ⊢
      exact Or.inr (Or.inr hv)
    · subst hu; simp [libraryParents] at hv
    · rcases hu with rfl | rfl <;> simp [libraryParents] at hv ⊢
      exact Or.inr (Or.inr hv)
    · subst hu; simp [libraryParents] at hv

/-- Direct supertypes, and around each type a finite list that leaves none of them out. -/
structure Hierarchy where
  parents : Ty → List Ty
  domain : Ty → List Ty
  mem_domain : ∀ t, t ∈ domain t
  parent_mem_domain : ∀ {t u v}, u ∈ domain t → v ∈ parents u → v ∈ domain t

namespace Hierarchy

/-- One declaration: a type and supertypes it has besides those of the library. -/
abbrev Declaration := Ty × List Ty

/-- The supertypes declared for a type, over all declarations of it and in their order. -/
def declaredParents (declarations : List Declaration) (t : Ty) : List Ty :=
  (declarations.filter fun d => d.1 = t).flatMap Prod.snd

theorem mem_declaredParents {declarations : List Declaration} {t u : Ty} :
    u ∈ declaredParents declarations t ↔ ∃ d ∈ declarations, d.1 = t ∧ u ∈ d.2 := by
  simp [declaredParents, and_assoc]

/-- The library rules followed by declarations. Whatever a declaration adds lies in the cone
of one of the types it names. -/
def ofDeclarations (declarations : List Declaration) : Hierarchy where
  parents t := t.libraryParents ++ declaredParents declarations t
  domain t := t.libraryCone ++ declarations.flatMap fun d => d.2.flatMap Ty.libraryCone
  mem_domain t := by simp [Ty.libraryCone]
  parent_mem_domain := by
    intro t u v hu hv
    rcases List.mem_append.mp hv with hv | hv
    · rcases List.mem_append.mp hu with hu | hu
      · exact List.mem_append_left _ (Ty.mem_libraryCone_trans hu hv)
      · obtain ⟨d, hd, w, hw, hu⟩ : ∃ d ∈ declarations, ∃ w ∈ d.2, u ∈ w.libraryCone := by
          simpa using hu
        refine List.mem_append_right _ (List.mem_flatMap.mpr ⟨d, hd, ?_⟩)
        exact List.mem_flatMap.mpr ⟨w, hw, Ty.mem_libraryCone_trans hu hv⟩
    · obtain ⟨d, hd, _, hv⟩ := mem_declaredParents.mp hv
      refine List.mem_append_right _ (List.mem_flatMap.mpr ⟨d, hd, ?_⟩)
      exact List.mem_flatMap.mpr ⟨v, hv, List.mem_cons_self⟩

/-- The library rules alone. -/
def library : Hierarchy := ofDeclarations []

/-! ## Everything above a type -/

/-- The types of the second list that the first one does not hold yet, each of them once. -/
def unseen (seen : List Ty) : List Ty → List Ty
  | [] => []
  | t :: ts => if t ∈ seen then unseen seen ts else t :: unseen (seen ++ [t]) ts

/-- Breadth-first search. A type moves from the queue to the visited ones when its own
parents join the end of the queue. Every step visits one more type, so a step for each type
that can be reached is enough. -/
def search (parents : Ty → List Ty) : Nat → List Ty → List Ty → List Ty
  | 0, visited, _ => visited
  | _ + 1, visited, [] => visited
  | steps + 1, visited, t :: queue =>
    search parents steps (visited ++ [t])
      (queue ++ unseen (visited ++ t :: queue) (parents t))

/-- `t`, then all of its supertypes, those nearer to it first and none of them twice. -/
def closure (h : Hierarchy) (t : Ty) : List Ty :=
  search h.parents (h.domain t).length [] [t]

/-- The arguments that `t` supplies for a container: those of the first application of it
among `t` and its supertypes. -/
def instance? (h : Hierarchy) (container : Container) (t : Ty) : Option (List Ty) :=
  (h.closure t).findSome? fun
    | .applied c args => if c = container then some args else none
    | _ => none

theorem not_mem_of_mem_unseen {seen ts : List Ty} {t : Ty} (h : t ∈ unseen seen ts) :
    t ∈ ts ∧ t ∉ seen := by
  induction ts generalizing seen with
  | nil => simp [unseen] at h
  | cons u us ih =>
    unfold unseen at h
    split at h
    · next hu =>
      have := ih h
      exact ⟨List.mem_cons_of_mem _ this.1, this.2⟩
    · next hu =>
      rcases List.mem_cons.mp h with rfl | h
      · exact ⟨List.mem_cons_self, hu⟩
      · have := ih h
        refine ⟨List.mem_cons_of_mem _ this.1, fun hs => this.2 ?_⟩
        exact List.mem_append_left _ hs

end Hierarchy
end TypedQuery
