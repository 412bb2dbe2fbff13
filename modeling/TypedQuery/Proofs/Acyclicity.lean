import TypedQuery.Proofs.Compiler
import TypedQuery.Proofs.Reachability
/-!
No type of an accepted schema is above itself.

A line of bases that ends within the number of entities does not change when it may go on. So
each entity stands higher than its base, and with the heights of the library types this makes
every step upwards one to a smaller height.
-/
namespace TypedQuery

namespace Entity

/-- A line that stops short of its limit has ended. -/
theorem lineage_succ_of_length_le {entities : List Entity} {limit : Nat} {name : String}
    (h : (lineage entities (limit + 1) name).length ≤ limit) :
    lineage entities (limit + 1) name = lineage entities limit name := by
  induction limit generalizing name with
  | zero => exact List.length_eq_zero_iff.mp (Nat.le_zero.mp h)
  | succ limit ih =>
    rw [lineage] at h ⊢
    conv_rhs => rw [lineage]
    cases hfind : find? entities name with
    | none => rfl
    | some e =>
      simp only [hfind] at h ⊢
      cases hbase : e.base with
      | none => rfl
      | some base =>
        simp only [hbase, List.length_cons, Nat.add_le_add_iff_right] at h ⊢
        rw [ih h]

/-- How many entities there are from the one called `name` upwards. -/
def height (entities : List Entity) (name : String) : Nat :=
  (lineage entities (entities.length + 1) name).length

theorem height_base_lt {entities : List Entity} {e : Entity} {name base : String}
    (hends : ∀ e ∈ entities, isEndless entities e = false)
    (hfind : find? entities name = some e) (hbase : e.base = some base) :
    height entities base < height entities name := by
  have hname : lineage entities (entities.length + 1) name =
      e :: lineage entities entities.length base := by
    rw [lineage]
    simp only [hfind, hbase]
  rw [height, height, hname, List.length_cons, Nat.lt_succ_iff]
  cases hfind' : find? entities base with
  | none =>
    rw [lineage]
    simp only [hfind', List.length_nil, Nat.zero_le]
  | some b =>
    have hb : b.name = base := by simpa using List.find?_some hfind'
    have hle := hends b (List.mem_of_find?_eq_some hfind')
    rw [isEndless, decide_eq_false_iff_not, Nat.not_lt, hb] at hle
    exact Nat.le_of_eq (congrArg List.length (lineage_succ_of_length_le hle))

end Entity

/-- What the last check of a schema leaves: every line of bases ends. -/
theorem Schema.not_isEndless_of_resolve {schema : Schema} {model : Model}
    (h : schema.resolve = .ok model) :
    ∀ e ∈ model.entities, Entity.isEndless model.entities e = false := by
  obtain ⟨enums, _, h⟩ := except_bind_eq_ok.mp h
  obtain ⟨_, _, h⟩ := except_bind_eq_ok.mp h
  obtain ⟨entities, _, h⟩ := except_bind_eq_ok.mp h
  split at h
  · cases h
  · next hnone =>
    cases h
    intro e he
    simpa using List.find?_eq_none.mp hnone e he

namespace Model

variable {model : Model}

/-- How many steps there are at most upwards from a type. -/
def height (m : Model) : Ty → Nat
  | .entity name => Entity.height m.entities name
  | .applied .list _ | .array _ => 2
  | .applied .collection _ | .string => 1
  | _ => 0

theorem height_lt_of_mem_libraryParents {t u : Ty} (hu : u ∈ t.libraryParents) :
    model.height u < model.height t := by
  unfold Ty.libraryParents at hu
  split at hu <;> simp only [List.mem_cons, List.not_mem_nil, or_false] at hu
  · rcases hu with rfl | rfl <;> simp [height]
  · subst hu; simp [height]
  · rcases hu with rfl | rfl <;> simp [height]
  · subst hu; simp [height]

theorem height_lt_of_mem_parents (hends : ∀ e ∈ model.entities, e.isEndless model.entities = false)
    {t u : Ty} (hu : u ∈ model.hierarchy.parents t) : model.height u < model.height t := by
  rcases List.mem_append.mp hu with hu | hu
  · exact height_lt_of_mem_libraryParents hu
  · obtain ⟨d, hd, rfl, hbase⟩ := Hierarchy.mem_declaredParents.mp hu
    obtain ⟨e, _, rfl⟩ := List.mem_map.mp hd
    rw [parents, Option.mem_toList, Option.map_eq_some_iff] at hbase
    obtain ⟨base, hbase, rfl⟩ := hbase
    obtain ⟨e', hfind, hbase⟩ := Option.bind_eq_some_iff.mp hbase
    exact Entity.height_base_lt hends hfind hbase

theorem eq_or_height_lt_of_mem_closure
    (hends : ∀ e ∈ model.entities, e.isEndless model.entities = false) {t : Ty} :
    ∀ u ∈ model.hierarchy.closure t, u = t ∨ model.height u < model.height t := by
  refine Hierarchy.forall_mem_closure (.inl rfl) fun u v hu hv => .inr ?_
  have hlt := height_lt_of_mem_parents hends hv
  rcases hu with rfl | hu
  · exact hlt
  · exact Nat.lt_trans hlt hu

/-- Two types that are above each other are the same. -/
theorem closure_antisymm (hends : ∀ e ∈ model.entities, e.isEndless model.entities = false)
    {t u : Ty} (ht : t ∈ model.hierarchy.closure u) (hu : u ∈ model.hierarchy.closure t) :
    t = u := by
  rcases eq_or_height_lt_of_mem_closure hends t ht with heq | htu
  · exact heq
  · rcases eq_or_height_lt_of_mem_closure hends u hu with heq | hut
    · exact heq.symm
    · exact absurd htu (Nat.lt_asymm hut)

end Model
end TypedQuery
