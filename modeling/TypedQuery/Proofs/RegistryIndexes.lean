import TypedQuery.Proofs.Registrations
import TypedQuery.Registry.Indexed
/-!
The tables of a registry say what its history says.

A registration that succeeds enters the position of the new function into both tables and adds
the function at that position, so what the tables held before goes on to stand for the same
functions. Each look-up therefore gives what going through the whole history would give: all
functions with a name and a number of arguments in their order, and for a member the last one.
-/
namespace TypedQuery

namespace Registry

/-- The functions that registrations make one after the other. Those that fail make none. -/
def registered (news : List Registration) : List Mapping :=
  news.filterMap fun new => (Mapping.parse new.1 new.2.1 new.2.2).toOption

theorem mappings_registerNext (r : Registry) (new : Registration) :
    (r.registerNext new).mappings = r.mappings ++ registered [new] := by
  unfold registerNext register registered
  cases hparse : Mapping.parse new.1 new.2.1 new.2.2 with
  | error => simp [hparse, Except.map, Except.toOption]
  | ok m => simp [hparse, Except.map, Except.toOption, add]

theorem mappings_registerEach (r : Registry) (news : List Registration) :
    (r.registerEach news).mappings = r.mappings ++ registered news := by
  induction news generalizing r with
  | nil => exact (List.append_nil _).symm
  | cons new news ih =>
    have hsplit : registered (new :: news) = registered [new] ++ registered news := by
      simp only [registered, ← List.filterMap_append, List.singleton_append]
    rw [registerEach, List.foldl_cons, ← registerEach, ih, mappings_registerNext, hsplit,
      List.append_assoc]

theorem exists_of_mem_registered {news : List Registration} {m : Mapping}
    (hm : m ∈ registered news) :
    ∃ new ∈ news, Mapping.parse new.1 new.2.1 new.2.2 = .ok m := by
  obtain ⟨new, hnew, heq⟩ := List.mem_filterMap.mp hm
  cases hparse : Mapping.parse new.1 new.2.1 new.2.2 with
  | error => simp [hparse, Except.toOption] at heq
  | ok m' =>
    obtain rfl : m' = m := by simpa [hparse, Except.toOption] using heq
    exact ⟨new, hnew, hparse⟩

end Registry

/-- A function keeps the identity of the member it was registered for. -/
theorem Mapping.id_member_of_parse {member : Member} {format : String} {style : CallStyle}
    {m : Mapping} (h : Mapping.parse member format style = .ok m) : m.member.id = member.id := by
  obtain ⟨⟨name, order⟩, _, h⟩ := except_bind_eq_ok.mp h
  dsimp only at h
  split at h
  · cases h
  · cases h
  · split at h
    · cases h
      exact congrArg MemberTemplate.id (Member.template_overWildcards member)
    · cases h

namespace IndexedRegistry

open Registry (Registration registered)

/-- The registry without its tables: all functions in the order they were registered. -/
def history (r : IndexedRegistry) : Registry := { mappings := r.mappings }

/-- The registry after one more registration, which changes nothing if it fails. -/
def registerNext (r : IndexedRegistry) (new : Registration) : IndexedRegistry :=
  match r.register new.1 new.2.1 new.2.2 with
  | .ok r => r
  | .error _ => r

/-- The registry after registrations one after the other. -/
def registerEach (r : IndexedRegistry) (news : List Registration) : IndexedRegistry :=
  news.foldl registerNext r

/-- The tables stand for what the history says. No position lies beyond the list of functions,
where a later function would come to stand. -/
structure InStep (r : IndexedRegistry) : Prop where
  position_lt : ∀ name, ∀ i ∈ r.positions name, i < r.mappings.length
  named : ∀ name, ((r.positions name).filterMap fun i => r.mappings[i]?) =
    r.mappings.filter fun m => m.name == name
  last_lt : ∀ id i, r.byMember.lookup id = some i → i < r.mappings.length
  identified : ∀ id, ((r.byMember.lookup id).bind fun i => r.mappings[i]?) =
    r.mappings.reverse.find? fun m => m.member.id == id

variable {r : IndexedRegistry}

theorem inStep_empty : InStep empty where
  position_lt := by simp [positions, empty]
  named := by simp [positions, empty]
  last_lt := by simp [empty]
  identified := by simp [empty]

/-! ## One more function -/

theorem positions_add (r : IndexedRegistry) (m : Mapping) (name : String) :
    (r.add m).positions name =
      r.positions name ++ if name = m.name then [r.mappings.length] else [] := by
  simp only [positions, add, size, Table.lookup_alter]
  by_cases hname : name = m.name
  · subst hname
    simp
  · simp [hname]

theorem lookup_byMember_add (r : IndexedRegistry) (m : Mapping) (id : String) :
    (r.add m).byMember.lookup id =
      if id = m.member.id then some r.mappings.length else r.byMember.lookup id := by
  simp only [add, size, Table.lookup_alter]

theorem length_mappings_add (r : IndexedRegistry) (m : Mapping) :
    (r.add m).mappings.length = r.mappings.length + 1 := by
  simp [add]

/-- The position that a new function gets. -/
theorem getElem?_mappings_add (r : IndexedRegistry) (m : Mapping) :
    (r.add m).mappings[r.mappings.length]? = some m := by
  simp [add]

/-- What stood at a position before goes on to stand there. -/
theorem getElem?_mappings_add_of_lt {m : Mapping} {i : Nat} (hi : i < r.mappings.length) :
    (r.add m).mappings[i]? = r.mappings[i]? := List.getElem?_append_left hi

theorem InStep.add (h : InStep r) (m : Mapping) : InStep (r.add m) where
  position_lt := by
    intro name i hi
    rw [positions_add, List.mem_append] at hi
    rw [length_mappings_add]
    rcases hi with hi | hi
    · have := h.position_lt name i hi
      omega
    · split at hi
      · rw [List.mem_singleton.mp hi]
        omega
      · cases hi
  named := by
    intro name
    have hold : ((r.positions name).filterMap fun i => (r.add m).mappings[i]?) =
        r.mappings.filter fun m => m.name == name := by
      rw [← h.named name]
      exact List.filterMap_congr fun i hi => getElem?_mappings_add_of_lt (h.position_lt name i hi)
    rw [positions_add, List.filterMap_append, hold]
    show _ = (r.mappings ++ [m]).filter fun m => m.name == name
    rw [List.filter_append]
    by_cases hname : name = m.name
    · simp [hname, getElem?_mappings_add]
    · have hne : ¬m.name = name := fun heq => hname heq.symm
      simp [hname, hne]
  last_lt := by
    intro id i hi
    rw [lookup_byMember_add] at hi
    rw [length_mappings_add]
    split at hi
    · cases hi
      omega
    · have := h.last_lt id i hi
      omega
  identified := by
    intro id
    rw [lookup_byMember_add]
    show _ = (r.mappings ++ [m]).reverse.find? fun m => m.member.id == id
    rw [List.reverse_append, List.reverse_singleton, List.singleton_append, List.find?_cons]
    by_cases hid : id = m.member.id
    · simp [hid, getElem?_mappings_add]
    · have hne : (m.member.id == id) = false := beq_eq_false_iff_ne.mpr fun heq => hid heq.symm
      rw [if_neg hid, hne, ← h.identified id]
      cases hlookup : r.byMember.lookup id with
      | none => rfl
      | some i => exact getElem?_mappings_add_of_lt (h.last_lt id i hlookup)

/-! ## Runs of registrations -/

theorem inStep_registerNext (h : InStep r) (new : Registration) : InStep (r.registerNext new) := by
  unfold registerNext register
  cases Mapping.parse new.1 new.2.1 new.2.2 with
  | error => exact h
  | ok m => exact h.add m

theorem inStep_registerEach (h : InStep r) (news : List Registration) :
    InStep (r.registerEach news) := by
  induction news generalizing r with
  | nil => exact h
  | cons new news ih => exact ih (inStep_registerNext h new)

theorem history_registerNext (r : IndexedRegistry) (new : Registration) :
    (r.registerNext new).history = r.history.registerNext new := by
  unfold registerNext register Registry.registerNext Registry.register
  cases Mapping.parse new.1 new.2.1 new.2.2 with
  | error => rfl
  | ok m => rfl

theorem history_registerEach (r : IndexedRegistry) (news : List Registration) :
    (r.registerEach news).history = r.history.registerEach news := by
  induction news generalizing r with
  | nil => rfl
  | cons new news ih =>
    rw [registerEach, List.foldl_cons, ← registerEach, ih, history_registerNext]
    rfl

theorem registerNext_of_error {new : Registration} {fault : MappingError}
    (h : Mapping.parse new.1 new.2.1 new.2.2 = .error fault) : r.registerNext new = r := by
  simp [registerNext, register, h, Except.map]

/-! ## Look-ups -/

theorem candidates_eq (h : InStep r) (name : String) (arity : Nat) :
    r.candidates name arity = r.history.candidates name arity := by
  rw [candidates, h.named, List.filter_filter]
  show _ = r.mappings.filter fun m => m.name == name && m.arity == arity
  exact congrArg (fun p => r.mappings.filter p) (funext fun m => Bool.and_comm _ _)

theorem functionOf?_eq (h : InStep r) (member : Member) :
    r.functionOf? member = r.history.functionOf? member := h.identified member.id

/-- Entering the functions of a plain registry one after the other changes none of its answers. -/
theorem answers_ofRegistry (r : Registry) :
    (∀ name arity, (ofRegistry r).candidates name arity = r.candidates name arity) ∧
      ∀ member, (ofRegistry r).functionOf? member = r.functionOf? member := by
  have hentered : ∀ (ms : List Mapping) (i : IndexedRegistry), InStep i →
      InStep (ms.foldl IndexedRegistry.add i) ∧
        (ms.foldl IndexedRegistry.add i).mappings = i.mappings ++ ms := by
    intro ms
    induction ms with
    | nil => exact fun i hi => ⟨hi, (List.append_nil _).symm⟩
    | cons m ms ih =>
      intro i hi
      obtain ⟨hstep, hmappings⟩ := ih (i.add m) (hi.add m)
      exact ⟨hstep, hmappings.trans (List.append_assoc i.mappings [m] ms)⟩
  obtain ⟨hstep, hmappings⟩ := hentered r.mappings empty inStep_empty
  have hhistory : (ofRegistry r).history = r := congrArg Registry.mk hmappings
  refine ⟨fun name arity => ?_, fun member => ?_⟩
  · exact (candidates_eq hstep name arity).trans (congrArg (·.candidates name arity) hhistory)
  · exact (functionOf?_eq hstep member).trans (congrArg (·.functionOf? member) hhistory)

/-- After registrations on an empty registry, whichever of them fail, the list holds the functions
of those that succeed, in their order and each for the member it was registered for. A name and a
number of arguments give those of them with that name and that number, in the same order, and a
member gives the last of them whose member has its identity. A registration that fails may as well
not have been made. The registry without tables answers alike. -/
theorem answers_registerEach (news : List Registration) :
    (empty.registerEach news).mappings = registered news ∧
      (∀ m ∈ registered news, ∃ new ∈ news,
        Mapping.parse new.1 new.2.1 new.2.2 = .ok m ∧ m.member.id = new.1.id) ∧
      (∀ name arity, (empty.registerEach news).candidates name arity =
        (registered news).filter fun m => m.name = name ∧ m.arity = arity) ∧
      (∀ member, (empty.registerEach news).functionOf? member =
        ((registered news).filter fun m => m.member.id = member.id).getLast?) ∧
      (∀ before new after fault, news = before ++ new :: after →
        Mapping.parse new.1 new.2.1 new.2.2 = .error fault →
        empty.registerEach news = empty.registerEach (before ++ after)) ∧
      (Registry.empty.registerEach news).mappings = (empty.registerEach news).mappings ∧
      (∀ name arity, (Registry.empty.registerEach news).candidates name arity =
        (empty.registerEach news).candidates name arity) ∧
      ∀ member, (Registry.empty.registerEach news).functionOf? member =
        (empty.registerEach news).functionOf? member := by
  have hstep := inStep_registerEach inStep_empty news
  have hhistory : (empty.registerEach news).history = Registry.empty.registerEach news :=
    history_registerEach empty news
  have hmappings : (Registry.empty.registerEach news).mappings = registered news :=
    Registry.mappings_registerEach Registry.empty news
  have hsame : (Registry.empty.registerEach news).mappings =
      (empty.registerEach news).mappings := by
    rw [← hhistory]
    rfl
  refine ⟨hsame.symm.trans hmappings, ?_, ?_, ?_, ?_, hsame, ?_, ?_⟩
  · intro m hm
    obtain ⟨new, hnew, hparse⟩ := Registry.exists_of_mem_registered hm
    exact ⟨new, hnew, hparse, Mapping.id_member_of_parse hparse⟩
  · intro name arity
    rw [candidates_eq hstep, hhistory, Registry.candidates, hmappings]
    simp only [Bool.decide_and, beq_eq_decide]
  · intro member
    rw [functionOf?_eq hstep, hhistory, Registry.functionOf?, hmappings, List.getLast?_filter]
    simp only [beq_eq_decide]
  · intro before new after fault hnews hfault
    subst hnews
    rw [registerEach, List.foldl_append, List.foldl_cons, registerNext_of_error hfault,
      ← List.foldl_append, ← registerEach]
  · intro name arity
    rw [candidates_eq hstep, hhistory]
  · intro member
    rw [functionOf?_eq hstep, hhistory]

/-- Two names for one member with a failing registration between them: calls find each name, the
member is written under the second. -/
theorem answers_registerEach_renamed :
    ∃ (first failing second : Registration) (fault : MappingError) (r : IndexedRegistry),
      first.1 = second.1 ∧ r = empty.registerEach [first, failing, second] ∧
      Mapping.parse failing.1 failing.2.1 failing.2.2 = .error fault ∧
      r.mappings.map Mapping.name = ["joined", "list"] ∧
      (r.candidates "joined" 1).map Mapping.name = ["joined"] ∧
      (r.functionOf? first.1).map Mapping.name = some "list" ∧
      r = empty.registerEach [first, second] := by
  let first := Query.joinedRegistration "joined({0})"
  let failing := Query.joinedRegistration "joined({0}"
  let second := Query.joinedRegistration "list({0})"
  have hfails : (Mapping.parse failing.1 failing.2.1 failing.2.2).toOption.isNone = true := by
    decide
  obtain ⟨fault, hfault⟩ : ∃ fault, Mapping.parse failing.1 failing.2.1 failing.2.2 =
      .error fault := by
    cases hparse : Mapping.parse failing.1 failing.2.1 failing.2.2 with
    | ok m =>
      rw [hparse] at hfails
      cases hfails
    | error fault => exact ⟨fault, rfl⟩
  obtain ⟨hmappings, -, hcandidates, hfunction, hfailing, -⟩ :=
    answers_registerEach [first, failing, second]
  refine ⟨first, failing, second, _, _, rfl, rfl, hfault, ?_, ?_, ?_,
    hfailing [first] failing [second] _ rfl hfault⟩
  · rw [hmappings]
    decide
  · rw [hcandidates]
    decide
  · rw [hfunction]
    decide

end IndexedRegistry
end TypedQuery
