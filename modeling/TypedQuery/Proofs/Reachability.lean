import Mathlib.Data.List.Perm.Subperm
import Mathlib.Logic.Relation
import TypedQuery.Proofs.Supertypes
/-!
The list of everything above a type holds exactly what can be reached.

The search takes a step for each type it visits, and what it has seen never leaves the domain
around the type it began with. So when its steps are used up the queue is empty, and all parents
of what has been visited have been visited too, on hierarchies that run in circles as on others.
-/
namespace TypedQuery
namespace Hierarchy

variable {h : Hierarchy}

/-! ## What has not been seen -/

theorem mem_append_unseen {seen ts : List Ty} {t : Ty} (ht : t ∈ ts) :
    t ∈ seen ++ unseen seen ts := by
  induction ts generalizing seen with
  | nil => cases ht
  | cons u us ih =>
    rw [unseen]
    split
    · next hu =>
      rcases List.mem_cons.mp ht with rfl | ht
      · exact List.mem_append_left _ hu
      · exact ih ht
    · have hmem : t ∈ seen ++ [u] ++ unseen (seen ++ [u]) us := by
        rcases List.mem_cons.mp ht with rfl | ht
        · simp
        · exact ih ht
      rwa [List.append_assoc] at hmem

theorem nodup_append_unseen {seen : List Ty} (hseen : seen.Nodup) (ts : List Ty) :
    (seen ++ unseen seen ts).Nodup := by
  induction ts generalizing seen with
  | nil => rwa [unseen, List.append_nil]
  | cons u us ih =>
    rw [unseen]
    split
    · exact ih hseen
    · next hu =>
      have hseen' : (seen ++ [u]).Nodup := by
        simpa [List.nodup_append, hseen] using fun a ha (heq : a = u) => hu (heq ▸ ha)
      have := ih hseen'
      rwa [List.append_assoc] at this

/-! ## The search -/

/-- A search on its way: nothing is seen twice or outside the domain, the parents of what was
visited have been seen, and there are steps left for everything that may still come. -/
structure Searching (parents : Ty → List Ty) (domain : List Ty) (steps : Nat)
    (visited queue : List Ty) : Prop where
  nodup : (visited ++ queue).Nodup
  subset : visited ++ queue ⊆ domain
  closed : ∀ u ∈ visited, ∀ v ∈ parents u, v ∈ visited ++ queue
  enough : domain.length ≤ steps + visited.length

variable {parents : Ty → List Ty} {domain visited queue : List Ty} {steps : Nat}

/-- Without steps left, all of the domain has been visited. -/
theorem Searching.queue_eq_nil (hs : Searching parents domain 0 visited queue) : queue = [] := by
  have hle := (List.subperm_of_subset hs.nodup hs.subset).length_le
  have henough := hs.enough
  rw [List.length_append] at hle
  rw [← List.length_eq_zero_iff]
  omega

theorem append_visit (visited queue : List Ty) (t : Ty) (found : List Ty) :
    visited ++ [t] ++ (queue ++ found) = visited ++ t :: queue ++ found := by simp

theorem nodup_visit {t : Ty} (h : (visited ++ t :: queue).Nodup) :
    (visited ++ [t] ++ (queue ++ unseen (visited ++ t :: queue) (parents t))).Nodup := by
  rw [append_visit]
  exact nodup_append_unseen h _

theorem closed_visit {t : Ty} (h : ∀ u ∈ visited, ∀ v ∈ parents u, v ∈ visited ++ t :: queue) :
    ∀ u ∈ visited ++ [t], ∀ v ∈ parents u,
      v ∈ visited ++ [t] ++ (queue ++ unseen (visited ++ t :: queue) (parents t)) := by
  rw [append_visit]
  intro u hu v hv
  rcases List.mem_append.mp hu with hu | hu
  · exact List.mem_append_left _ (h u hu v hv)
  · rw [List.mem_singleton.mp hu] at hv
    exact mem_append_unseen hv

theorem Searching.step {t : Ty} (hdomain : ∀ u ∈ domain, ∀ v ∈ parents u, v ∈ domain)
    (hs : Searching parents domain (steps + 1) visited (t :: queue)) :
    Searching parents domain steps (visited ++ [t])
      (queue ++ unseen (visited ++ t :: queue) (parents t)) := by
  refine ⟨nodup_visit hs.nodup, ?_, closed_visit hs.closed, ?_⟩
  · rw [append_visit]
    refine List.append_subset.mpr ⟨hs.subset, fun v hv => ?_⟩
    exact hdomain t (hs.subset (by simp)) v (not_mem_of_mem_unseen hv).1
  · have := hs.enough
    rw [List.length_append, List.length_singleton]
    omega

/-- A search ends with a list that holds the parents of whatever is in it. -/
theorem Searching.closed_search (hdomain : ∀ u ∈ domain, ∀ v ∈ parents u, v ∈ domain)
    (hs : Searching parents domain steps visited queue) :
    ∀ u ∈ search parents steps visited queue, ∀ v ∈ parents u,
      v ∈ search parents steps visited queue := by
  induction steps generalizing visited queue with
  | zero =>
    have hclosed := hs.closed
    rwa [hs.queue_eq_nil, List.append_nil] at hclosed
  | succ steps ih =>
    cases queue with
    | nil =>
      have hclosed := hs.closed
      rwa [List.append_nil] at hclosed
    | cons t queue => exact ih (hs.step hdomain)

/-! ## Everything above a type -/

theorem searching_start {t : Ty} (ht : t ∈ domain) :
    Searching parents domain domain.length [] [t] :=
  ⟨by simp, by simpa using ht, by simp, by simp⟩

theorem mem_closure_of_mem_parents {t u v : Ty} (hu : u ∈ h.closure t) (hv : v ∈ h.parents u) :
    v ∈ h.closure t :=
  (searching_start (h.mem_domain t)).closed_search
    (fun _ hu _ hv => h.parent_mem_domain hu hv) u hu v hv

/-- The list holds exactly the types that a line of parents leads to. -/
theorem mem_closure_iff_reaches {t u : Ty} :
    u ∈ h.closure t ↔ Relation.ReflTransGen (fun a b => b ∈ h.parents a) t u := by
  constructor
  · intro hu
    have hreaches : ∀ u ∈ h.closure t, Relation.ReflTransGen (fun a b => b ∈ h.parents a) t u :=
      forall_mem_closure .refl fun _ _ hu hv => hu.tail hv
    exact hreaches u hu
  · intro hu
    induction hu with
    | refl => exact mem_closure_self t
    | tail _ hv ih => exact mem_closure_of_mem_parents ih hv

/-- What is above a supertype is above the type. -/
theorem mem_closure_trans {t u v : Ty} (hu : u ∈ h.closure t) (hv : v ∈ h.closure u) :
    v ∈ h.closure t := by
  rw [mem_closure_iff_reaches] at hu hv ⊢
  exact hu.trans hv

end Hierarchy
end TypedQuery
