import TypedQuery.Proofs.Validation
/-!
Lookups along a line of bases.

A declared entity begins a line: itself, its base, the base of that, and so on to the top. In an
accepted schema every line ends, and all questions about inheritance are answered from it. The
supertypes of an entity are the line, a property has the type that the first declaration of it in
the line gives, and an entity may stand for exactly those in its line.
-/
namespace TypedQuery
namespace Schema

/-- A declaration and those of its bases, the nearest first and up to an entity without base. -/
inductive Line (s : Schema) : EntityDecl → List EntityDecl → Prop
  | top {d : EntityDecl} : d ∈ s.entities → d.base = none → Line s d [d]
  | above {d b : EntityDecl} {line : List EntityDecl} : d ∈ s.entities → d.base = some b.name →
    Line s b line → Line s d (d :: line)

/-- The first expression in a line for the type of a property. -/
def nearest? (line : List EntityDecl) (property : String) : Option String :=
  line.findSome? fun d => d.properties.lookup property

namespace Line

variable {s : Schema} {d : EntityDecl} {line : List EntityDecl}

theorem mem_head (h : s.Line d line) : d ∈ line := by
  cases h <;> exact List.mem_cons_self

theorem mem_entities (h : s.Line d line) : ∀ b ∈ line, b ∈ s.entities := by
  induction h with
  | top hd _ => simpa using hd
  | above hd _ _ ih => exact List.forall_mem_cons.mpr ⟨hd, ih⟩

/-- What is in a line begins a line that is part of it. -/
theorem exists_of_mem (h : s.Line d line) :
    ∀ b ∈ line, ∃ rest, s.Line b rest ∧ rest ⊆ line := by
  induction h with
  | @top d hd hbase =>
    intro b hb
    obtain rfl : b = d := List.mem_singleton.mp hb
    exact ⟨[b], .top hd hbase, List.Subset.refl _⟩
  | @above d b line hd hbase hline ih =>
    refine List.forall_mem_cons.mpr ⟨⟨_, .above hd hbase hline, List.Subset.refl _⟩, fun c hc => ?_⟩
    obtain ⟨rest, hrest, hsubset⟩ := ih c hc
    exact ⟨rest, hrest, List.subset_cons_of_subset _ hsubset⟩

end Line

/-! ## The entities of a model -/

variable {s : Schema} {m : Model}

theorem made_of_resolve (h : s.resolve = .ok m) :
    List.Forall₂ (Made (s.entities.map EntityDecl.name) s.declared) s.entities m.entities :=
  (resolve_eq_ok_iff.mp h).2.2.1

theorem map_name_of_resolve (h : s.resolve = .ok m) :
    m.entities.map Entity.name = s.entities.map EntityDecl.name :=
  map_name_of_made (made_of_resolve h)

theorem entity?_eq_some_iff (h : s.resolve = .ok m) {name : String} {e : Entity} :
    m.entity? name = some e ↔ e ∈ m.entities ∧ e.name = name :=
  find?_eq_some_iff_of_nodup (map_name_of_resolve h ▸ (sound_of_resolve h).entities_nodup)

/-- An entity is found under the name it is declared with. -/
theorem exists_entity? (h : s.resolve = .ok m) {d : EntityDecl} (hd : d ∈ s.entities) :
    ∃ e, m.entity? d.name = some e ∧ Made (s.entities.map EntityDecl.name) s.declared d e := by
  obtain ⟨e, he, hmade⟩ := exists_right_of_forall₂ (made_of_resolve h) d hd
  exact ⟨e, (entity?_eq_some_iff h).mpr ⟨he, hmade.name_eq⟩, hmade⟩

/-- The names mean the same while the entities are read and afterwards. -/
theorem named_eq_declared (h : s.resolve = .ok m) : m.named = s.declared := by
  funext name
  have henums : m.enums = s.enums.map EnumDecl.definition := (resolve_eq_ok_iff.mp h).2.1
  unfold Model.named declared namedBy
  rw [Model.enum?, henums, ← map_name_of_resolve h]
  cases hfind : m.entity? name with
  | some e =>
    obtain ⟨he, rfl⟩ := (entity?_eq_some_iff h).mp hfind
    rw [if_pos (List.mem_map_of_mem he)]
  | none =>
    have hname : name ∉ m.entities.map Entity.name := by
      intro hmem
      obtain ⟨e, he, rfl⟩ := List.mem_map.mp hmem
      rw [(entity?_eq_some_iff h).mpr ⟨he, rfl⟩] at hfind
      cases hfind
    rw [if_neg hname]

theorem resolveType?_eq_some_iff (h : s.resolve = .ok m) {text : String} {t : Ty} :
    m.resolveType? text = some t ↔ TypeExpression.read s.declared text = .ok t := by
  rw [Model.resolveType?, named_eq_declared h]
  cases TypeExpression.read s.declared text <;> simp [Except.toOption]

/-! ## Every line ends -/

/-- Each declaration begins a line, for its base stands lower. -/
theorem exists_line (h : s.resolve = .ok m) {d : EntityDecl} (hd : d ∈ s.entities) :
    ∃ line, s.Line d line := by
  induction hheight : Entity.height m.entities d.name using Nat.strong_induction_on
    generalizing d with
  | _ height ih =>
    subst hheight
    cases hbase : d.base with
    | none => exact ⟨[d], .top hd hbase⟩
    | some base =>
      obtain ⟨e, he, hmade⟩ := exists_entity? h hd
      obtain ⟨b, hb, rfl⟩ := (sound_of_resolve h).bases d hd base hbase
      have hlower : Entity.height m.entities b.name < Entity.height m.entities d.name :=
        Entity.height_base_lt (not_isEndless_of_resolve h) he (hmade.base_eq.trans hbase)
      obtain ⟨line, hline⟩ := ih _ hlower hb rfl
      exact ⟨d :: line, .above hd hbase hline⟩

/-- The entities made from a line, as many of them as are asked for. -/
theorem Line.made_lineage (h : s.resolve = .ok m) {d : EntityDecl} {line : List EntityDecl}
    (hline : s.Line d line) {limit : Nat} (hlimit : line.length ≤ limit) :
    List.Forall₂ (Made (s.entities.map EntityDecl.name) s.declared) line
      (Entity.lineage m.entities limit d.name) := by
  induction hline generalizing limit with
  | @top d hd hbase =>
    obtain ⟨limit, rfl⟩ := Nat.exists_eq_add_of_le' hlimit
    obtain ⟨e, he, hmade⟩ := exists_entity? h hd
    have hfind : Entity.find? m.entities d.name = some e := he
    rw [List.length_singleton, Entity.lineage]
    simp only [hfind, hmade.base_eq, hbase]
    exact .cons hmade .nil
  | @above d b line hd hbase _ ih =>
    obtain ⟨limit, rfl⟩ := Nat.exists_eq_add_of_le' hlimit
    obtain ⟨e, he, hmade⟩ := exists_entity? h hd
    have hfind : Entity.find? m.entities d.name = some e := he
    rw [List.length_cons, ← Nat.add_assoc, Entity.lineage]
    simp only [hfind, hmade.base_eq, hbase]
    exact .cons hmade (ih (Nat.le_add_left _ _))

/-- No entity is twice in a line. -/
theorem Line.nodup (h : s.resolve = .ok m) {d : EntityDecl} {line : List EntityDecl}
    (hline : s.Line d line) : (line.map EntityDecl.name).Nodup := by
  have hnodup : (m.entities.map Entity.name).Nodup :=
    map_name_of_resolve h ▸ (sound_of_resolve h).entities_nodup
  rw [← map_name_of_made (hline.made_lineage h (Nat.le_refl _))]
  exact Entity.nodup_lineage
    (Entity.acyclic_of_not_isEndless hnodup (not_isEndless_of_resolve h)) _ _

theorem Line.length_le (h : s.resolve = .ok m) {d : EntityDecl} {line : List EntityDecl}
    (hline : s.Line d line) : line.length ≤ m.entities.length := by
  rw [← (made_of_resolve h).length_eq]
  exact (List.subperm_of_subset (.of_map _ (hline.nodup h)) hline.mem_entities).length_le

/-- A look-up that may go on beyond the number of entities does not meet more of them. -/
theorem Line.lineage_eq (h : s.resolve = .ok m) {d : EntityDecl} {line : List EntityDecl}
    (hline : s.Line d line) {limit : Nat} (hlimit : m.entities.length ≤ limit) :
    Entity.lineage m.entities limit d.name = m.lineage d.name := by
  induction limit, hlimit using Nat.le_induction with
  | base => rfl
  | succ limit hlimit ih =>
    have hlength : line.length ≤ limit := Nat.le_trans (hline.length_le h) hlimit
    have hmade := hline.made_lineage h (Nat.le_succ_of_le hlength)
    rw [Entity.lineage_succ_of_length_le (hmade.length_eq ▸ hlength), ih]

/-! ## Properties -/

theorem none_or_some_of_rel {α β : Type} {R : α → β → Prop} {a : Option α} {b : Option β}
    (h : Option.Rel R a b) :
    a = none ∧ b = none ∨ ∃ x y, a = some x ∧ b = some y ∧ R x y := by
  cases h with
  | none => exact .inl ⟨rfl, rfl⟩
  | some hr => exact .inr ⟨_, _, rfl, rfl, hr⟩

theorem eq_of_rel {α β : Type} {R R' : α → β → Prop} (hR : ∀ x y y', R x y → R' x y' → y = y')
    {a : Option α} {b b' : Option β} (h : Option.Rel R a b) (h' : Option.Rel R' a b') : b = b' := by
  cases h with
  | none =>
    cases h'
    rfl
  | some hr =>
    cases h' with
    | some hr' => rw [hR _ _ _ hr hr']

theorem rel_lookup_of_typed {named : String → Option Ty} {declared : List (String × String)}
    {properties : List (String × Ty)} (h : List.Forall₂ (Typed named) declared properties)
    (property : String) :
    Option.Rel (fun text t => TypeExpression.read named text = .ok t)
      (declared.lookup property) (properties.lookup property) := by
  induction h with
  | nil => exact .none
  | @cons p q _ _ hpq _ ih =>
    obtain ⟨_, text⟩ := p
    obtain ⟨name, t⟩ := q
    obtain ⟨rfl, ht⟩ := hpq
    rw [List.lookup_cons, List.lookup_cons]
    by_cases hname : (property == name) = true
    · simp only [hname]
      exact .some ht
    · simpa only [hname] using ih

theorem rel_nearest?_of_made {names : List String} {named : String → Option Ty}
    {line : List EntityDecl} {entities : List Entity}
    (h : List.Forall₂ (Made names named) line entities) (property : String) :
    Option.Rel (fun text t => TypeExpression.read named text = .ok t) (nearest? line property)
      (entities.findSome? fun e => e.properties.lookup property) := by
  unfold nearest?
  induction h with
  | nil => exact .none
  | @cons d e _ _ hde _ ih =>
    rw [List.findSome?_cons, List.findSome?_cons]
    rcases none_or_some_of_rel (rel_lookup_of_typed hde.typed property) with
      ⟨hd, he⟩ | ⟨text, t, hd, he, ht⟩
    · rw [hd, he]
      exact ih
    · rw [hd, he]
      exact .some ht

/-- A property has the type of the first expression for it in the line of its entity. -/
theorem Line.rel_property? (h : s.resolve = .ok m) {d : EntityDecl} {line : List EntityDecl}
    (hline : s.Line d line) (property : String) :
    Option.Rel (fun text t => m.resolveType? text = some t) (nearest? line property)
      (m.property? (.entity d.name) property) := by
  simp only [resolveType?_eq_some_iff h]
  exact rel_nearest?_of_made (hline.made_lineage h (hline.length_le h)) property

theorem Line.isSome_property? (h : s.resolve = .ok m) {d : EntityDecl} {line : List EntityDecl}
    (hline : s.Line d line) (property : String) :
    (m.property? (.entity d.name) property).isSome = true ↔
      ∃ b ∈ line, (b.properties.lookup property).isSome = true := by
  rw [← List.findSome?_isSome_iff]
  show _ ↔ (nearest? line property).isSome = true
  rcases none_or_some_of_rel (hline.rel_property? h property) with
    ⟨hline, hm⟩ | ⟨_, _, hline, hm, _⟩
  · simp [hline, hm]
  · simp [hline, hm]

/-! ## Supertypes -/

/-- What a model declares above an entity is its base. -/
theorem parents_of_mem (h : s.resolve = .ok m) {d : EntityDecl} (hd : d ∈ s.entities) :
    m.parents (.entity d.name) = (d.base.map Ty.entity).toList := by
  obtain ⟨e, hfind, hmade⟩ := exists_entity? h hd
  rw [Model.parents, hfind, Option.bind_some, hmade.base_eq]

/-- The one type above an entity is its base. -/
theorem parents_hierarchy_of_mem (h : s.resolve = .ok m) {d : EntityDecl} (hd : d ∈ s.entities) :
    m.hierarchy.parents (.entity d.name) = (d.base.map Ty.entity).toList := by
  obtain ⟨e, hfind, hmade⟩ := exists_entity? h hd
  have hnodup : (m.entities.map Entity.name).Nodup :=
    map_name_of_resolve h ▸ (sound_of_resolve h).entities_nodup
  have he : e ∈ m.entities := ((entity?_eq_some_iff h).mp hfind).1
  have honly : (m.entities.filter fun b => Ty.entity b.name = .entity d.name) = [e] := by
    have hcount : m.entities.count e = 1 := List.count_eq_one_of_mem (.of_map _ hnodup) he
    rw [← List.replicate_one, ← hcount, ← List.filter_eq]
    refine List.filter_congr fun b hb => decide_eq_decide.mpr ?_
    rw [Ty.entity.injEq, ← hmade.name_eq]
    exact ⟨fun heq => List.inj_on_of_nodup_map hnodup hb he heq, fun heq => heq ▸ rfl⟩
  show Hierarchy.declaredParents _ _ = _
  rw [Hierarchy.declaredParents, List.filter_map, List.flatMap_map]
  show (m.entities.filter fun b => Ty.entity b.name = .entity d.name).flatMap
    (fun b => m.parents (.entity b.name)) = _
  rw [honly, List.flatMap_singleton, hmade.name_eq, parents_of_mem h hd]

/-- A search from an entity visits the entities of its line one after another. -/
theorem Line.search_eq {parents : Ty → List Ty}
    (hparents : ∀ d ∈ s.entities, parents (.entity d.name) = (d.base.map Ty.entity).toList)
    {d : EntityDecl} {line : List EntityDecl} (hline : s.Line d line) {visited : List Ty}
    (hnodup : (visited ++ line.map fun b => Ty.entity b.name).Nodup) {steps : Nat}
    (hsteps : line.length ≤ steps) :
    Hierarchy.search parents steps visited [.entity d.name] =
      visited ++ line.map fun b => Ty.entity b.name := by
  induction hline generalizing visited steps with
  | @top d hd hbase =>
    obtain ⟨steps, rfl⟩ := Nat.exists_eq_add_of_le' hsteps
    rw [List.length_singleton, Hierarchy.search, hparents d hd, hbase]
    cases steps <;> rfl
  | @above d b line hd hbase hline ih =>
    obtain ⟨steps, rfl⟩ := Nat.exists_eq_add_of_le' hsteps
    have hsplit : (visited ++ (d :: line).map fun b => Ty.entity b.name) =
        visited ++ [.entity d.name] ++ line.map fun b => Ty.entity b.name := by simp
    rw [hsplit] at hnodup ⊢
    have hunseen : Ty.entity b.name ∉ visited ++ [.entity d.name] := by
      intro hmem
      have hb : Ty.entity b.name ∈ line.map fun b => Ty.entity b.name :=
        List.mem_map_of_mem (f := fun b : EntityDecl => Ty.entity b.name) hline.mem_head
      exact List.disjoint_of_nodup_append hnodup hmem hb
    rw [List.length_cons, ← Nat.add_assoc, Hierarchy.search, hparents d hd, hbase,
      Option.map_some, Option.toList_some, Hierarchy.unseen, if_neg hunseen]
    exact ih hnodup (Nat.le_add_left _ _)

/-- A list that holds the parents of all it holds has room for every line that begins in it. -/
theorem Line.forall_mem_of_closed {parents : Ty → List Ty}
    (hparents : ∀ d ∈ s.entities, parents (.entity d.name) = (d.base.map Ty.entity).toList)
    {domain : List Ty} (hclosed : ∀ u ∈ domain, ∀ v ∈ parents u, v ∈ domain)
    {d : EntityDecl} {line : List EntityDecl} (hline : s.Line d line)
    (hmem : .entity d.name ∈ domain) : ∀ b ∈ line, Ty.entity b.name ∈ domain := by
  induction hline with
  | top => simpa using hmem
  | @above d b line hd hbase _ ih =>
    refine List.forall_mem_cons.mpr ⟨hmem, ih (hclosed _ hmem _ ?_)⟩
    rw [hparents d hd, hbase]
    exact List.mem_singleton.mpr rfl

/-- The supertypes of an entity are its line. -/
theorem Line.closure_eq (h : s.resolve = .ok m) {d : EntityDecl} {line : List EntityDecl}
    (hline : s.Line d line) :
    m.hierarchy.closure (.entity d.name) = line.map fun b => Ty.entity b.name := by
  have hparents : ∀ d ∈ s.entities,
      m.hierarchy.parents (.entity d.name) = (d.base.map Ty.entity).toList :=
    fun d hd => parents_hierarchy_of_mem h hd
  have hnodup : (line.map fun b => Ty.entity b.name).Nodup := by
    have hmap := (hline.nodup h).map (f := Ty.entity) fun a b heq => Ty.entity.inj heq
    rwa [List.map_map] at hmap
  have hdomain : (line.map fun b => Ty.entity b.name) ⊆
      m.hierarchy.domain (.entity d.name) := by
    intro t ht
    obtain ⟨b, hb, rfl⟩ := List.mem_map.mp ht
    exact hline.forall_mem_of_closed hparents (fun u hu v hv => m.hierarchy.parent_mem_domain hu hv)
      (m.hierarchy.mem_domain _) b hb
  have hsteps := (List.subperm_of_subset hnodup hdomain).length_le
  rw [List.length_map] at hsteps
  rw [Hierarchy.closure, hline.search_eq hparents (by simpa using hnodup) hsteps, List.nil_append]

/-- What an entity may stand for are the entities of its line. -/
theorem Line.accepts_iff (h : s.resolve = .ok m) {d : EntityDecl} {line : List EntityDecl}
    (hline : s.Line d line) {name : String} :
    (Ty.entity name).accepts m.hierarchy (.entity d.name) = true ↔
      name ∈ line.map EntityDecl.name := by
  have hself : d.name ∈ line.map EntityDecl.name := List.mem_map_of_mem hline.mem_head
  have hmem : Ty.entity name ∈ m.hierarchy.closure (.entity d.name) ↔
      name ∈ line.map EntityDecl.name := by
    rw [hline.closure_eq h]
    simp
  simp only [Ty.accepts, Bool.or_eq_true, beq_iff_eq, List.contains_iff_mem, hmem]
  constructor
  · rintro (heq | heq | hmem)
    · exact Ty.entity.inj heq ▸ hself
    · cases heq
    · exact hmem
  · exact fun hmem => .inr (.inr hmem)

/-- Exactly the sound schemas are accepted, and then all questions about inheritance are answered
from one line for each entity. It ends, so that no look-up is cut off, and repeats nothing; it lists
the supertypes, gives every property its nearest declaration, and names all that the entity may
stand for and has the properties of. -/
theorem accepts_sound_and_lookups_agree (s : Schema) :
    ((∃ m, s.resolve = .ok m) ↔ s.Sound) ∧
    ∀ m, s.resolve = .ok m → ∀ d ∈ s.entities, ∃ line, s.Line d line ∧
      (line.map EntityDecl.name).Nodup ∧
      (∀ limit, m.entities.length ≤ limit →
        Entity.lineage m.entities limit d.name = m.lineage d.name) ∧
      m.hierarchy.closure (.entity d.name) = (line.map fun b => Ty.entity b.name) ∧
      (∀ property, Option.Rel (fun text t => m.resolveType? text = some t)
        (nearest? line property) (m.property? (.entity d.name) property)) ∧
      (∀ name, (Ty.entity name).accepts m.hierarchy (.entity d.name) = true ↔
        name ∈ line.map EntityDecl.name) ∧
      ∀ name, (Ty.entity name).accepts m.hierarchy (.entity d.name) = true → ∀ property,
        (m.property? (.entity name) property).isSome = true →
          (m.property? (.entity d.name) property).isSome = true := by
  refine ⟨exists_resolve_iff_sound, fun m h d hd => ?_⟩
  obtain ⟨line, hline⟩ := exists_line h hd
  refine ⟨line, hline, hline.nodup h, fun limit => hline.lineage_eq h, hline.closure_eq h,
    hline.rel_property? h, fun name => hline.accepts_iff h,
    fun name haccepts property hvisible => ?_⟩
  -- The line of what is above the entity is part of its own.
  obtain ⟨b, hb, rfl⟩ := List.mem_map.mp ((hline.accepts_iff h).mp haccepts)
  obtain ⟨rest, hrest, hsubset⟩ := hline.exists_of_mem b hb
  obtain ⟨c, hc, hown⟩ := (hrest.isSome_property? h property).mp hvisible
  exact (hline.isSome_property? h property).mpr ⟨c, hsubset hc, hown⟩

/-- A dog is declared before the animal that it inherits a name from. -/
theorem accepts_sound_and_lookups_agree_dog :
    ∃ (s : Schema) (m : Model) (dog animal : EntityDecl), s.entities = [dog, animal] ∧
      s.resolve = .ok m ∧ s.Sound ∧ s.Line dog [dog, animal] ∧
      m.hierarchy.closure (.entity dog.name) = [.entity dog.name, .entity animal.name] ∧
      (Ty.entity animal.name).accepts m.hierarchy (.entity dog.name) = true ∧
      (m.property? (.entity dog.name) "name").isSome = true := by
  let dog : EntityDecl := ⟨"Dog", some "Animal", [("friends", "List<Dog>")]⟩
  let animal : EntityDecl := ⟨"Animal", none, [("name", "String")]⟩
  have h : Schema.resolve ⟨[], [dog, animal]⟩ = .ok ⟨[],
      [⟨"Dog", some "Animal", [("friends", .list (.entity "Dog"))]⟩,
        ⟨"Animal", none, [("name", .string)]⟩]⟩ := by decide +kernel
  obtain ⟨hsound, hlookups⟩ := accepts_sound_and_lookups_agree ⟨[], [dog, animal]⟩
  obtain ⟨line, hline, -, -, hclosure, -, haccepts, hvisible⟩ :=
    hlookups _ h dog List.mem_cons_self
  have hpair : line = [dog, animal] := by
    cases hline with
    | top _ hnone => cases hnone
    | above _ hbase hrest =>
      cases hrest with
      | top hb hnone =>
        rcases List.mem_pair.mp hb with rfl | rfl
        · cases hnone
        · rfl
      | above hb hbase' _ =>
        rcases List.mem_pair.mp hb with rfl | rfl
        · exact absurd hbase (by decide)
        · cases hbase'
  subst hpair
  have hup : (Ty.entity animal.name).accepts _ (.entity dog.name) = true :=
    (haccepts animal.name).mpr (by simp)
  exact ⟨_, _, dog, animal, rfl, h, hsound.mp ⟨_, h⟩, hline, hclosure, hup,
    hvisible _ hup "name" (by decide +kernel)⟩

end Schema
end TypedQuery
