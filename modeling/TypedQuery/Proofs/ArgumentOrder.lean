import Mathlib.Data.List.Perm.Subperm
import TypedQuery.Registry.Mapping
/-!
Arguments between the order of a query and the order of a member.

Both reorderings pick arguments by position and never look at them, so they commute with
whatever is done to each argument on its own.
-/
namespace TypedQuery

theorem mapM_map_option {α β γ : Type} (f : β → γ) (g : α → Option β) (xs : List α) :
    (xs.mapM fun x => (g x).map f) = (xs.mapM g).map (List.map f) := by
  induction xs with
  | nil => rfl
  | cons x xs ih =>
    simp only [List.mapM_cons, ih]
    cases g x with
    | none => rfl
    | some y => cases xs.mapM g <;> rfl

theorem lookup_zip_map {α β : Type} (f : α → β) (p : Nat) (order : List Nat) (args : List α) :
    (order.zip (args.map f)).lookup p = ((order.zip args).lookup p).map f := by
  induction order generalizing args with
  | nil => rfl
  | cons i order ih =>
    cases args with
    | nil => rfl
    | cons a args =>
      simp only [List.map_cons, List.zip_cons_cons, List.lookup_cons, ih]
      cases p == i <;> rfl

theorem Mapping.reorder?_map {α β : Type} (f : α → β) (mapping : Mapping) (args : List α) :
    mapping.reorder? (args.map f) = (mapping.reorder? args).map (List.map f) := by
  unfold Mapping.reorder?
  rw [List.length_map]
  split
  · simp only [lookup_zip_map, mapM_map_option]
  · rfl

theorem length_of_mapM_eq_some {α β : Type} {f : α → Option β} {xs : List α} {ys : List β}
    (h : xs.mapM f = some ys) : ys.length = xs.length := by
  induction xs generalizing ys with
  | nil => cases h; rfl
  | cons x xs ih =>
    simp only [List.mapM_cons, Option.bind_eq_bind, Option.bind_eq_some_iff] at h
    obtain ⟨y, _, zs, hzs, hy⟩ := h
    cases hy
    simp [ih hzs]

theorem mem_of_lookup_zip {α : Type} {p : Nat} {order : List Nat} {args : List α} {a : α}
    (h : (order.zip args).lookup p = some a) : a ∈ args := by
  induction order generalizing args with
  | nil => simp at h
  | cons i order ih =>
    cases args with
    | nil => simp at h
    | cons b args =>
      rw [List.zip_cons_cons, List.lookup_cons] at h
      split at h
      · cases h; exact List.mem_cons_self
      · exact List.mem_cons_of_mem _ (ih h)

theorem exists_of_mem_mapM {α β : Type} {f : α → Option β} {xs : List α} {ys : List β} {y : β}
    (h : xs.mapM f = some ys) (hy : y ∈ ys) : ∃ x ∈ xs, f x = some y := by
  induction xs generalizing ys with
  | nil => cases h; simp at hy
  | cons x xs ih =>
    simp only [List.mapM_cons, Option.bind_eq_bind, Option.bind_eq_some_iff] at h
    obtain ⟨z, hz, zs, hzs, hzz⟩ := h
    cases hzz
    rcases List.mem_cons.mp hy with rfl | hy
    · exact ⟨x, List.mem_cons_self, hz⟩
    · obtain ⟨x', hx', h'⟩ := ih hzs hy
      exact ⟨x', List.mem_cons_of_mem _ hx', h'⟩

theorem getElem?_mapM {α β : Type} {f : α → Option β} {xs : List α} {ys : List β}
    (h : xs.mapM f = some ys) {i : Nat} (hi : i < xs.length) : ys[i]? = f xs[i] := by
  induction xs generalizing ys i with
  | nil => cases hi
  | cons x xs ih =>
    simp only [List.mapM_cons, Option.bind_eq_bind, Option.bind_eq_some_iff] at h
    obtain ⟨y, hy, zs, hzs, h⟩ := h
    cases h
    cases i with
    | zero => exact hy.symm
    | succ i => exact ih hzs (Nat.lt_of_succ_lt_succ hi)

theorem Mapping.mapM_of_reorder? {α : Type} {m : Mapping} {args native : List α}
    (h : m.reorder? args = some native) : args.length = m.arity ∧
      ((List.range m.arity).mapM fun p => (m.order.zip args).lookup p) = some native :=
  Option.ite_none_right_eq_some.mp h

theorem Mapping.mapM_of_toQueryOrder? {α : Type} {m : Mapping} {native args : List α}
    (h : m.toQueryOrder? native = some args) :
    native.length = m.arity ∧ (m.order.mapM fun p => native[p]?) = some args :=
  Option.ite_none_right_eq_some.mp h

theorem Mapping.length_of_reorder? {α : Type} {mapping : Mapping} {args native : List α}
    (h : mapping.reorder? args = some native) : native.length = mapping.member.arity := by
  rw [length_of_mapM_eq_some (mapM_of_reorder? h).2, List.length_range, mapping.arity_member,
    Mapping.arity]

theorem Mapping.length_args_of_reorder? {α : Type} {mapping : Mapping} {args native : List α}
    (h : mapping.reorder? args = some native) : args.length = mapping.arity :=
  (mapM_of_reorder? h).1

theorem Mapping.mem_of_reorder? {α : Type} {mapping : Mapping} {args native : List α}
    (h : mapping.reorder? args = some native) {a : α} (ha : a ∈ native) : a ∈ args := by
  obtain ⟨p, _, hp⟩ := exists_of_mem_mapM (mapM_of_reorder? h).2 ha
  exact mem_of_lookup_zip hp

/-! ## There and back -/

/-- As many positions as there are, each of them in range and none twice, are all of them. -/
theorem perm_range_iff {order : List Nat} :
    order.Perm (List.range order.length) ↔ (∀ i ∈ order, i < order.length) ∧ order.Nodup := by
  constructor
  · intro h
    exact ⟨fun i hi => List.mem_range.mp (h.mem_iff.mp hi), h.nodup_iff.mpr List.nodup_range⟩
  · rintro ⟨hlt, hnodup⟩
    have hsub : order ⊆ List.range order.length := fun i hi => List.mem_range.mpr (hlt i hi)
    exact (List.subperm_of_subset hnodup hsub).perm_of_length_le (by simp)

theorem Mapping.mem_order {m : Mapping} {p : Nat} (hp : p < m.arity) : p ∈ m.order :=
  (perm_range_iff.mpr ⟨m.order_lt, m.order_nodup⟩).mem_iff.mpr (List.mem_range.mpr hp)

theorem mapM_congr_option {α β : Type} {f g : α → Option β} {xs : List α}
    (h : ∀ x ∈ xs, f x = g x) : xs.mapM f = xs.mapM g := by
  induction xs with
  | nil => rfl
  | cons x xs ih =>
    obtain ⟨hx, hxs⟩ := List.forall_mem_cons.mp h
    rw [List.mapM_cons, List.mapM_cons, hx, ih hxs]

theorem lookup_zip_of_mapM {α : Type} {native args : List α} {order : List Nat}
    (h : (order.mapM fun i => native[i]?) = some args) {p : Nat} (hp : p ∈ order) :
    (order.zip args).lookup p = native[p]? := by
  induction order generalizing args with
  | nil => cases hp
  | cons i order ih =>
    simp only [List.mapM_cons, Option.bind_eq_bind, Option.bind_eq_some_iff] at h
    obtain ⟨a, ha, rest, hrest, h⟩ := h
    cases h
    rw [List.zip_cons_cons, List.lookup_cons]
    by_cases hpi : p = i
    · rw [hpi, beq_self_eq_true, ha]
    · rw [beq_false_of_ne hpi]
      exact ih hrest ((List.mem_cons.mp hp).resolve_left hpi)

theorem mapM_getElem?_range' {α : Type} (front xs : List α) :
    ((List.range' front.length xs.length).mapM fun i => (front ++ xs)[i]?) = some xs := by
  induction xs generalizing front with
  | nil => rfl
  | cons x xs ih =>
    have := ih (front ++ [x])
    rw [List.append_assoc, List.length_append] at this
    rw [List.length_cons, List.range'_succ, List.mapM_cons]
    simp only [List.length_singleton, List.singleton_append] at this
    simp [this]

/-- What has been put into the order of a query is put back by the call. -/
theorem Mapping.reorder?_of_toQueryOrder? {α : Type} {m : Mapping} {native args : List α}
    (h : m.toQueryOrder? native = some args) : m.reorder? args = some native := by
  obtain ⟨hlen, h⟩ := mapM_of_toQueryOrder? h
  have hargs : args.length = m.arity := length_of_mapM_eq_some h
  rw [reorder?, if_pos hargs]
  have hlookup : ∀ p ∈ List.range m.arity, (m.order.zip args).lookup p = native[p]? :=
    fun p hp => lookup_zip_of_mapM h (mem_order (List.mem_range.mp hp))
  rw [mapM_congr_option hlookup]
  have := mapM_getElem?_range' [] native
  rwa [List.nil_append, List.length_nil, ← List.range_eq_range', hlen] at this

theorem Mapping.toQueryOrder?_map {α β : Type} (f : α → β) (m : Mapping) (args : List α) :
    m.toQueryOrder? (args.map f) = (m.toQueryOrder? args).map (List.map f) := by
  unfold toQueryOrder?
  rw [List.length_map]
  split
  · simp only [List.getElem?_map, mapM_map_option]
  · rfl

theorem exists_mapM {α β : Type} {f : α → Option β} {xs : List α}
    (h : ∀ x ∈ xs, ∃ y, f x = some y) : ∃ ys, xs.mapM f = some ys := by
  induction xs with
  | nil => exact ⟨[], rfl⟩
  | cons x xs ih =>
    obtain ⟨⟨y, hy⟩, hxs⟩ := List.forall_mem_cons.mp h
    obtain ⟨ys, hys⟩ := ih hxs
    exact ⟨y :: ys, by simp [hy, hys]⟩

/-- As many arguments as a function takes can be put into its order. -/
theorem Mapping.exists_toQueryOrder? {α : Type} {m : Mapping} {native : List α}
    (h : native.length = m.arity) : ∃ args, m.toQueryOrder? native = some args := by
  rw [toQueryOrder?, if_pos h]
  refine exists_mapM fun i hi => ?_
  have hlt : i < native.length := h ▸ m.order_lt i hi
  exact ⟨native[i], List.getElem?_eq_getElem hlt⟩

theorem exists_lookup_zip {α : Type} {p : Nat} {order : List Nat} {args : List α}
    (hp : p ∈ order) (hlen : args.length = order.length) :
    ∃ a, (order.zip args).lookup p = some a := by
  induction order generalizing args with
  | nil => cases hp
  | cons i order ih =>
    cases args with
    | nil => simp at hlen
    | cons a args =>
      rw [List.zip_cons_cons, List.lookup_cons]
      by_cases hpi : p = i
      · exact ⟨a, by rw [hpi, beq_self_eq_true]⟩
      · rw [beq_false_of_ne hpi]
        exact ih ((List.mem_cons.mp hp).resolve_left hpi) (by simpa using hlen)

/-- As many arguments as a function takes can be put into the order of its member. -/
theorem Mapping.exists_reorder? {α : Type} {m : Mapping} {args : List α}
    (h : args.length = m.arity) : ∃ native, m.reorder? args = some native := by
  rw [reorder?, if_pos h]
  refine exists_mapM fun p hp => ?_
  exact exists_lookup_zip (mem_order (List.mem_range.mp hp)) h

theorem mapM_lookup_zip {α : Type} {order : List Nat} {args : List α} (hnodup : order.Nodup)
    (hlen : args.length = order.length) :
    (order.mapM fun p => (order.zip args).lookup p) = some args := by
  induction order generalizing args with
  | nil =>
    rw [List.length_eq_zero_iff.mp hlen]
    rfl
  | cons i order ih =>
    cases args with
    | nil => simp at hlen
    | cons a args =>
      obtain ⟨hi, hnodup⟩ := List.nodup_cons.mp hnodup
      have hrest : ∀ p ∈ order,
          ((i, a) :: order.zip args).lookup p = (order.zip args).lookup p := by
        intro p hp
        have : p ≠ i := fun heq => hi (heq ▸ hp)
        rw [List.lookup_cons, beq_false_of_ne this]
      rw [List.zip_cons_cons, List.mapM_cons, List.lookup_cons_self, mapM_congr_option hrest,
        ih hnodup (by simpa using hlen)]
      rfl

/-- What the call has put into the order of a member is put back by the query. -/
theorem Mapping.toQueryOrder?_of_reorder? {α : Type} {m : Mapping} {args native : List α}
    (h : m.reorder? args = some native) : m.toQueryOrder? native = some args := by
  have hnative : native.length = m.arity := (length_of_reorder? h).trans m.arity_member
  obtain ⟨hlen, h⟩ := mapM_of_reorder? h
  rw [toQueryOrder?, if_pos hnative]
  have hget : ∀ p ∈ m.order, native[p]? = (m.order.zip args).lookup p := by
    intro p hp
    have hlt : p < (List.range m.arity).length := by
      rw [List.length_range]
      exact m.order_lt p hp
    have := getElem?_mapM h hlt
    rwa [List.getElem_range] at this
  rw [mapM_congr_option hget]
  exact mapM_lookup_zip m.order_nodup hlen

theorem Mapping.mem_reordered {α : Type} {m : Mapping} {args native : List α}
    (h : m.reorder? args = some native) {a : α} (ha : a ∈ args) : a ∈ native := by
  have horder := (mapM_of_toQueryOrder? (toQueryOrder?_of_reorder? h)).2
  obtain ⟨p, _, hp⟩ := exists_of_mem_mapM horder ha
  exact List.mem_of_getElem? hp

/-- Arguments that belong together stay together in the order of the query. -/
theorem Mapping.exists_pairs {α β : Type} {m : Mapping} {args native : List α} {qs : List β}
    (h : m.reorder? args = some native) (hlen : qs.length = native.length) :
    ∃ pairs : List (α × β), pairs.map Prod.fst = args ∧
      m.toQueryOrder? qs = some (pairs.map Prod.snd) ∧ ∀ p ∈ pairs, p ∈ native.zip qs := by
  have hnative : native.length = m.arity := (length_of_reorder? h).trans m.arity_member
  have hzip : (native.zip qs).length = m.arity := by
    rw [List.length_zip, hlen, Nat.min_self, hnative]
  obtain ⟨pairs, hpairs⟩ := exists_toQueryOrder? hzip
  have hfst := toQueryOrder?_map Prod.fst m (native.zip qs)
  have hsnd := toQueryOrder?_map Prod.snd m (native.zip qs)
  rw [hpairs, List.map_fst_zip (Nat.le_of_eq hlen.symm), toQueryOrder?_of_reorder? h] at hfst
  rw [hpairs, List.map_snd_zip (Nat.le_of_eq hlen)] at hsnd
  refine ⟨pairs, (Option.some.inj hfst).symm, hsnd, fun p hp => ?_⟩
  obtain ⟨i, _, hi⟩ := exists_of_mem_mapM (mapM_of_toQueryOrder? hpairs).2 hp
  exact List.mem_of_getElem? hi

end TypedQuery
