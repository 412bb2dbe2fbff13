import Mathlib.Data.Set.Finite.List
import Mathlib.Order.Lattice.Nat
import TypedQuery.Proofs.Reachability
/-!
The order in which the types above a type are found.

The search is a loop over a list that grows while it is read. It ends wherever only finitely many
types can be reached, circles or not, and lists these types by their distance: what waits in the
queue is never more than one step farther up than what is visited next. The bound on the steps that
a hierarchy brings with it makes no difference to what is found.
-/
namespace TypedQuery
namespace Hierarchy

/-! ## Distances -/

section Distances

variable {parents : Ty → List Ty} {start t u : Ty} {n : Nat}

/-- A line of parents leads from `start` up to `t`, or they are the same. -/
abbrev Reaches (parents : Ty → List Ty) (start t : Ty) : Prop :=
  Relation.ReflTransGen (fun a b => b ∈ parents a) start t

/-- `Climbs parents start n t` says that `n` steps, each to a parent, lead from `start` to `t`. -/
inductive Climbs (parents : Ty → List Ty) (start : Ty) : Nat → Ty → Prop
  | refl : Climbs parents start 0 start
  | step {n : Nat} {t u : Ty} : Climbs parents start n t → u ∈ parents t →
    Climbs parents start (n + 1) u

/-- The least number of steps that lead from `start` to `t`. -/
noncomputable def distance (parents : Ty → List Ty) (start t : Ty) : Nat :=
  sInf {n | Climbs parents start n t}

theorem Climbs.distance_le (h : Climbs parents start n t) : distance parents start t ≤ n :=
  Nat.sInf_le h

/-- The distance is the length of a way. -/
theorem Climbs.shortest (h : Climbs parents start n t) :
    Climbs parents start (distance parents start t) t := by
  have hne : {n | Climbs parents start n t}.Nonempty := ⟨n, h⟩
  exact Nat.sInf_mem hne

theorem Climbs.reaches (h : Climbs parents start n t) : Reaches parents start t := by
  induction h with
  | refl => exact .refl
  | step _ hu ih => exact ih.tail hu

theorem exists_climbs (h : Reaches parents start t) : ∃ n, Climbs parents start n t := by
  induction h with
  | refl => exact ⟨0, .refl⟩
  | tail _ hu ih =>
    obtain ⟨n, hn⟩ := ih
    exact ⟨n + 1, hn.step hu⟩

/-- A parent is at most one step farther away. -/
theorem Climbs.distance_parent_le (h : Climbs parents start n t) (hu : u ∈ parents t) :
    distance parents start u ≤ distance parents start t + 1 :=
  (h.shortest.step hu).distance_le

end Distances

/-! ## The order of a search -/

section Sweeps

variable {parents : Ty → List Ty} {start t : Ty} {visited queue : List Ty}

/-- A search from `start` in good order: what it has seen can be reached and is sorted by its
distance, and all that waits lies at most one step behind whatever waits. -/
structure Sweeping (parents : Ty → List Ty) (start : Ty) (visited queue : List Ty) : Prop where
  start_mem : start ∈ visited ++ queue
  nodup : (visited ++ queue).Nodup
  closed : ∀ u ∈ visited, ∀ v ∈ parents u, v ∈ visited ++ queue
  climbs : ∀ u ∈ visited ++ queue, ∃ n, Climbs parents start n u
  sorted : (visited ++ queue).Pairwise fun u v =>
    distance parents start u ≤ distance parents start v
  near : ∀ u ∈ queue, ∀ v ∈ queue, distance parents start u ≤ distance parents start v + 1

namespace Sweeping

theorem initial : Sweeping parents start [] [start] where
  start_mem := by simp
  nodup := by simp
  closed := by simp
  climbs := by simpa using ⟨0, Climbs.refl⟩
  sorted := by simp
  near := by simp

/-- A way out of what has been visited leads through the queue. -/
theorem exists_queued (hs : Sweeping parents start visited queue) {n : Nat}
    (h : Climbs parents start n t) :
    t ∈ visited ∨ ∃ u ∈ queue, distance parents start u ≤ n := by
  have hseen : ∀ {n u}, Climbs parents start n u → u ∈ visited ++ queue →
      u ∈ visited ∨ ∃ u ∈ queue, distance parents start u ≤ n := by
    intro n u hu hmem
    exact (List.mem_append.mp hmem).imp_right fun hqueue => ⟨u, hqueue, hu.distance_le⟩
  induction h with
  | refl => exact hseen .refl hs.start_mem
  | step h hu ih =>
    rcases ih with hvisited | ⟨v, hv, hle⟩
    · exact hseen (h.step hu) (hs.closed _ hvisited _ hu)
    · exact .inr ⟨v, hv, Nat.le_succ_of_le hle⟩

theorem distance_head_le (hs : Sweeping parents start visited (t :: queue)) :
    ∀ u ∈ t :: queue, distance parents start t ≤ distance parents start u := by
  have hsorted := (List.pairwise_append.mp hs.sorted).2.1
  exact List.forall_mem_cons.mpr ⟨Nat.le_refl _, (List.pairwise_cons.mp hsorted).1⟩

theorem distance_le_head (hs : Sweeping parents start visited (t :: queue)) :
    ∀ u ∈ visited, distance parents start u ≤ distance parents start t := fun u hu =>
  (List.pairwise_append.mp hs.sorted).2.2 u hu t List.mem_cons_self

/-- What a visit adds to the queue lies one step behind what is visited: any nearer it would have
been seen before. -/
theorem distance_unseen (hs : Sweeping parents start visited (t :: queue)) {u : Ty}
    (hu : u ∈ unseen (visited ++ t :: queue) (parents t)) :
    distance parents start u = distance parents start t + 1 := by
  obtain ⟨hparent, hnew⟩ := not_mem_of_mem_unseen hu
  obtain ⟨n, ht⟩ := hs.climbs t (by simp)
  refine Nat.le_antisymm (ht.distance_parent_le hparent) ?_
  by_contra hlt
  have hshortest := (ht.step hparent).shortest
  generalize hd : distance parents start u = d at hshortest hlt
  cases hshortest with
  | refl => exact hnew hs.start_mem
  | @step d w _ hw hchild =>
    -- The last type before it is nearer than all that waits, so it has been visited.
    rcases hs.exists_queued hw with hvisited | ⟨v, hv, hle⟩
    · exact hnew (hs.closed w hvisited u hchild)
    · have := hs.distance_head_le v hv
      omega

theorem step (hs : Sweeping parents start visited (t :: queue)) :
    Sweeping parents start (visited ++ [t])
      (queue ++ unseen (visited ++ t :: queue) (parents t)) := by
  have hhead := List.forall_mem_cons.mp hs.distance_head_le
  have hnear : ∀ u ∈ queue, distance parents start u ≤ distance parents start t + 1 :=
    fun u hu => hs.near u (List.mem_cons_of_mem _ hu) t List.mem_cons_self
  have hunseen := fun u (hu : u ∈ unseen (visited ++ t :: queue) (parents t)) =>
    hs.distance_unseen hu
  refine ⟨?_, nodup_visit hs.nodup, closed_visit hs.closed, ?_, ?_, ?_⟩
  · rw [append_visit]
    exact List.mem_append_left _ hs.start_mem
  · rw [append_visit]
    refine List.forall_mem_append.mpr ⟨hs.climbs, fun u hu => ?_⟩
    obtain ⟨n, ht⟩ := hs.climbs t (by simp)
    exact ⟨n + 1, ht.step (not_mem_of_mem_unseen hu).1⟩
  · rw [append_visit]
    refine List.pairwise_append.mpr ⟨hs.sorted, ?_, ?_⟩
    · refine List.pairwise_of_forall_mem_list fun u hu v hv => ?_
      rw [hunseen u hu, hunseen v hv]
    · intro u hu v hv
      rw [hunseen v hv]
      rcases List.mem_append.mp hu with hu | hu
      · exact Nat.le_succ_of_le (hs.distance_le_head u hu)
      · exact hs.near u hu t List.mem_cons_self
  · have hbetween : ∀ u ∈ queue ++ unseen (visited ++ t :: queue) (parents t),
        distance parents start t ≤ distance parents start u ∧
          distance parents start u ≤ distance parents start t + 1 :=
      List.forall_mem_append.mpr ⟨fun u hu => ⟨hhead.2 u hu, hnear u hu⟩,
        fun u hu => by rw [hunseen u hu]; exact ⟨Nat.le_succ _, Nat.le_refl _⟩⟩
    intro u hu v hv
    exact Nat.le_trans (hbetween u hu).2 (Nat.succ_le_succ (hbetween v hv).1)

end Sweeping
end Sweeps

/-! ## The end of a search -/

section Ends

variable {parents : Ty → List Ty} {start t : Ty} {visited queue found domain : List Ty}
  {steps : Nat}

/-- `Exhausts parents visited queue found` says that the search, going on from here until its queue
is empty, ends with `found`. Nothing else bounds it. -/
inductive Exhausts (parents : Ty → List Ty) : List Ty → List Ty → List Ty → Prop
  | done {visited : List Ty} : Exhausts parents visited [] visited
  | visit {visited queue found : List Ty} {t : Ty} :
    Exhausts parents (visited ++ [t]) (queue ++ unseen (visited ++ t :: queue) (parents t)) found →
    Exhausts parents visited (t :: queue) found

theorem Exhausts.prefix_found (h : Exhausts parents visited queue found) : visited <+: found := by
  induction h with
  | done => exact List.prefix_rfl
  | visit _ ih => exact (List.prefix_append _ _).trans ih

/-- A step for each type that is still to be visited is enough. -/
theorem Exhausts.search_eq (h : Exhausts parents visited queue found)
    (hsteps : found.length ≤ steps + visited.length) :
    search parents steps visited queue = found := by
  induction h generalizing steps with
  | done => cases steps <;> rfl
  | @visit visited queue found t h ih =>
    have hlength := h.prefix_found.length_le
    rw [List.length_append, List.length_singleton] at hlength
    obtain ⟨steps, rfl⟩ : ∃ k, steps = k + 1 := Nat.exists_eq_add_one.mpr (by omega)
    refine ih ?_
    rw [List.length_append, List.length_singleton]
    omega

theorem Exhausts.unique {found' : List Ty} (h : Exhausts parents visited queue found)
    (h' : Exhausts parents visited queue found') : found' = found := by
  have hsearch := @Exhausts.search_eq _ _ _ _ (found.length + found'.length) h (by omega)
  rw [← hsearch, h'.search_eq (by omega)]

/-- A search that stays within a finite list comes to its end. -/
theorem Searching.exhausts_search (hdomain : ∀ u ∈ domain, ∀ v ∈ parents u, v ∈ domain)
    (hs : Searching parents domain steps visited queue) :
    Exhausts parents visited queue (search parents steps visited queue) := by
  induction steps generalizing visited queue with
  | zero =>
    rw [hs.queue_eq_nil]
    exact .done
  | succ steps ih =>
    cases queue with
    | nil => exact .done
    | cons t queue => exact .visit (ih (hs.step hdomain))

theorem Exhausts.sweeping (h : Exhausts parents visited queue found)
    (hs : Sweeping parents start visited queue) : Sweeping parents start found [] := by
  induction h with
  | done => exact hs
  | visit _ ih => exact ih hs.step

/-- The search asks for the parents of nothing but what it finds. -/
theorem Exhausts.congr {parents' : Ty → List Ty} (h : Exhausts parents visited queue found)
    (hparents : ∀ u ∈ found, parents' u = parents u) : Exhausts parents' visited queue found := by
  induction h with
  | done => exact .done
  | @visit visited queue found t h ih =>
    have ht : t ∈ found := h.prefix_found.subset (by simp)
    refine .visit ?_
    rw [hparents t ht]
    exact ih hparents

/-- `Ascends parents start found` says that `found` lists the types that can be reached from
`start`, each of them once, `start` before all others and none before a nearer one. -/
structure Ascends (parents : Ty → List Ty) (start : Ty) (found : List Ty) : Prop where
  mem_iff : ∀ t, t ∈ found ↔ Reaches parents start t
  nodup : found.Nodup
  head : found.head? = some start
  sorted : found.Pairwise fun t u => distance parents start t ≤ distance parents start u

theorem Exhausts.ascends (h : Exhausts parents [] [start] found) :
    Ascends parents start found := by
  have hs := h.sweeping Sweeping.initial
  refine ⟨fun t => ⟨fun ht => ?_, fun ht => ?_⟩, ?_, ?_, ?_⟩
  · obtain ⟨n, hn⟩ := hs.climbs t (List.mem_append_left _ ht)
    exact hn.reaches
  · obtain ⟨n, hn⟩ := exists_climbs ht
    exact (hs.exists_queued hn).resolve_right (by simp)
  · simpa using hs.nodup
  · cases h with
    | visit h =>
      obtain ⟨above, habove⟩ := h.prefix_found
      rw [← habove]
      rfl
  · simpa using hs.sorted

/-- Wherever finitely many types can be reached, the search ends. -/
theorem exists_exhausts (finite : {t | Reaches parents start t}.Finite) :
    ∃ found, Exhausts parents [] [start] found := by
  let domain := finite.toFinset.toList
  have hmem : ∀ t, t ∈ domain ↔ Reaches parents start t := by simp [domain]
  have hdomain : ∀ u ∈ domain, ∀ v ∈ parents u, v ∈ domain := fun u hu v hv =>
    (hmem v).mpr (((hmem u).mp hu).tail hv)
  exact ⟨_, (searching_start ((hmem start).mpr .refl)).exhausts_search hdomain⟩

theorem exhausts_closure (h : Hierarchy) (t : Ty) : Exhausts h.parents [] [t] (h.closure t) :=
  (searching_start (h.mem_domain t)).exhausts_search fun _ hu _ hv => h.parent_mem_domain hu hv

end Ends

/-! ## Hierarchies and instances -/

/-- The hierarchy has these parents for everything above `t`. -/
def Covers (h : Hierarchy) (parents : Ty → List Ty) (t : Ty) : Prop :=
  ∀ u, Reaches parents t u → h.parents u = parents u

/-- The parents that the types of a list have within it. Other types have none. -/
def within (parents : Ty → List Ty) (region : List Ty)
    (closed : ∀ u ∈ region, ∀ v ∈ parents u, v ∈ region) : Hierarchy where
  parents t := if t ∈ region then parents t else []
  domain t := t :: region
  mem_domain _ := List.mem_cons_self
  parent_mem_domain := by
    intro t u v _ hv
    split at hv
    · next hu => exact List.mem_cons_of_mem _ (closed u hu v hv)
    · cases hv

theorem exists_covers {parents : Ty → List Ty} {t : Ty} {found : List Ty}
    (h : Ascends parents t found) : ∃ hierarchy : Hierarchy, hierarchy.Covers parents t := by
  have hclosed : ∀ u ∈ found, ∀ v ∈ parents u, v ∈ found := fun u hu v hv =>
    (h.mem_iff v).mpr (((h.mem_iff u).mp hu).tail hv)
  exact ⟨within parents found hclosed, fun u hu => if_pos ((h.mem_iff u).mpr hu)⟩

theorem Covers.closure_eq {h : Hierarchy} {parents : Ty → List Ty} {t : Ty} {found : List Ty}
    (hcovers : h.Covers parents t) (hfound : Exhausts parents [] [t] found) :
    h.closure t = found := by
  have hparents : ∀ u ∈ found, h.parents u = parents u := fun u hu =>
    hcovers u ((hfound.ascends.mem_iff u).mp hu)
  exact (hfound.congr hparents).unique (exhausts_closure h t)

variable {h : Hierarchy} {c : Container} {t : Ty}

/-- The instance is the first application of the container in the list. -/
theorem instance?_eq_some_iff_first {args : List Ty} : h.instance? c t = some args ↔
    ∃ before after, h.closure t = before ++ .applied c args :: after ∧
      ∀ others, .applied c others ∉ before := by
  unfold instance?
  rw [List.findSome?_eq_some_iff]
  constructor
  · rintro ⟨before, u, after, heq, hu, hbefore⟩
    split at hu
    · split at hu
      · next hc =>
        cases hu
        refine ⟨before, after, hc ▸ heq, fun others hmem => ?_⟩
        simpa using hbefore _ hmem
      · cases hu
    · cases hu
  · rintro ⟨before, after, heq, hbefore⟩
    refine ⟨before, _, after, heq, by simp, fun u hu => ?_⟩
    split
    · exact if_neg fun hc => hbefore _ (hc ▸ hu)
    · rfl

theorem instance?_eq_none_iff : h.instance? c t = none ↔
    ∀ args, .applied c args ∉ h.closure t := by
  constructor
  · intro hnone args hmem
    obtain ⟨others, hsome⟩ := exists_instance?_of_mem_closure hmem
    rw [hnone] at hsome
    cases hsome
  · intro hall
    refine Option.eq_none_iff_forall_ne_some.mpr fun args hsome => ?_
    exact hall args (mem_closure_of_instance? hsome)

/-- Whatever the parents of types are, above a type from which finitely many can be reached the
search ends by itself, and what it lists are these types by their distance. A step for each of them
is enough. A hierarchy that has these parents, and there is one, finds this very list, and of a
container the first instance in it. -/
theorem closure_ascends (parents : Ty → List Ty) (t : Ty)
    (finite : {u | Reaches parents t u}.Finite) :
    ∃ found, Exhausts parents [] [t] found ∧ Ascends parents t found ∧
      (∀ steps, found.length ≤ steps → search parents steps [] [t] = found) ∧
      (∃ h : Hierarchy, h.Covers parents t) ∧
      ∀ h : Hierarchy, h.Covers parents t →
        h.closure t = found ∧
        (∀ c args, h.instance? c t = some args ↔
          ∃ before after, found = before ++ .applied c args :: after ∧
            ∀ others, .applied c others ∉ before) ∧
        ∀ c, h.instance? c t = none ↔ ∀ args, ¬ Reaches parents t (.applied c args) := by
  obtain ⟨found, hfound⟩ := exists_exhausts finite
  have hascends := hfound.ascends
  refine ⟨found, hfound, hascends, fun steps hsteps => hfound.search_eq (by simpa using hsteps),
    exists_covers hascends, fun h hcovers => ?_⟩
  obtain rfl := hcovers.closure_eq hfound
  refine ⟨rfl, fun c args => instance?_eq_some_iff_first, fun c => ?_⟩
  rw [instance?_eq_none_iff]
  exact forall_congr' fun args => not_congr (hascends.mem_iff _)

/-- Above `A` there is a circle with two ways through it, above an array there is no end. -/
def roundabout : Ty → List Ty
  | .entity "A" => [.entity "B", .entity "C"]
  | .entity "B" => [.entity "D"]
  | .entity "C" => [.entity "D", .list .int32]
  | .entity "D" => [.entity "A"]
  | .array t => [.array (.array t)]
  | _ => []

theorem closure_ascends_roundabout :
    {t | Reaches roundabout (.entity "A") t}.Finite ∧
      Exhausts roundabout [] [.entity "A"]
        [.entity "A", .entity "B", .entity "C", .entity "D", .list .int32] ∧
      ∃ h : Hierarchy, h.Covers roundabout (.entity "A") ∧
        h.instance? .list (.entity "A") = some [.int32] ∧
        h.instance? .dictionary (.entity "A") = none := by
  let circle : List Ty := [.entity "A", .entity "B", .entity "C", .entity "D", .list .int32]
  have hclosed : ∀ t ∈ circle, ∀ u ∈ roundabout t, u ∈ circle := by decide +kernel
  have hcircle : ∀ t, Reaches roundabout (.entity "A") t → t ∈ circle := by
    intro t ht
    induction ht with
    | refl => exact List.mem_cons_self
    | tail _ hu ih => exact hclosed _ ih _ hu
  have finite : {t | Reaches roundabout (.entity "A") t}.Finite :=
    circle.finite_toSet.subset hcircle
  obtain ⟨found, hfound, hascends, hsearch, ⟨h, hcovers⟩, hall⟩ :=
    closure_ascends roundabout (.entity "A") finite
  have hlength : found.length ≤ 5 :=
    (List.subperm_of_subset hascends.nodup fun t ht =>
      hcircle t ((hascends.mem_iff t).mp ht)).length_le
  have heq : found = circle := by
    rw [← hsearch 5 hlength]
    decide +kernel
  subst heq
  obtain ⟨-, hsome, hnone⟩ := hall h hcovers
  refine ⟨finite, hfound, h, hcovers, (hsome _ _).mpr ⟨circle.take 4, [], rfl, ?_⟩,
    (hnone _).mpr fun args hargs => ?_⟩
  · simp [circle]
  · simpa [circle] using hcircle _ hargs

end Hierarchy
end TypedQuery
