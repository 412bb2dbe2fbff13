import TypedQuery.Proofs.Inheritance
/-!
The order of declarations, and further declarations.

All names of a schema are known before a type or a base is looked up, and no name is declared
twice. So a declaration means the same wherever it stands, and it keeps its meaning when more are
added. A new name cannot come before one that is there, since the two would have to be equal.
-/
namespace TypedQuery
namespace Schema

/-- `s'` has the declarations of `s`, and maybe others. -/
structure Within (s s' : Schema) : Prop where
  enums : s.enums ⊆ s'.enums
  entities : s.entities ⊆ s'.entities

/-- The same declarations, in another order. -/
structure Reordered (s s' : Schema) : Prop where
  enums : s.enums.Perm s'.enums
  entities : s.entities.Perm s'.entities

variable {s s' : Schema} {m m' : Model}

namespace Reordered

theorem symm (h : s.Reordered s') : s'.Reordered s := ⟨h.enums.symm, h.entities.symm⟩

theorem within (h : s.Reordered s') : s.Within s' := ⟨h.enums.subset, h.entities.subset⟩

end Reordered

namespace Within

/-- A name that is declared keeps its type, unless another declaration takes it. -/
theorem declared (h : s.Within s') (hnodup : (s'.enums.map EnumDecl.name).Nodup)
    (hdisjoint : ∀ d ∈ s'.entities, ∀ e ∈ s'.enums, d.name ≠ e.name) {name : String} {t : Ty}
    (ht : s.declared name = some t) : s'.declared name = some t := by
  rcases declared_eq_some ht with ⟨d, hd, rfl, rfl⟩ | ⟨e, he, rfl, rfl⟩
  · exact declared_of_mem_entities (h.entities hd)
  · exact declared_of_mem_enums hnodup hdisjoint (h.enums he)

theorem read (h : s.Within s') (hnodup : (s'.enums.map EnumDecl.name).Nodup)
    (hdisjoint : ∀ d ∈ s'.entities, ∀ e ∈ s'.enums, d.name ≠ e.name) {text : String} {t : Ty}
    (ht : TypeExpression.read s.declared text = .ok t) :
    TypeExpression.read s'.declared text = .ok t :=
  TypeExpression.read_mono (fun _ _ => h.declared hnodup hdisjoint)
    (fun _ _ => text_of_declared) ht

theorem inherits (h : s.Within s') {a b : String} (hab : s.Inherits a b) : s'.Inherits a b := by
  obtain ⟨d, hd, hname, hbase⟩ := hab
  exact ⟨d, h.entities hd, hname, hbase⟩

theorem line (h : s.Within s') {d : EntityDecl} {line : List EntityDecl} (hline : s.Line d line) :
    s'.Line d line := by
  induction hline with
  | top hd hbase => exact .top (h.entities hd) hbase
  | above hd hbase _ ih => exact .above (h.entities hd) hbase ih

/-! ## Growth -/

theorem resolveType? (h : s.Within s') (hs : s.resolve = .ok m) (hs' : s'.resolve = .ok m')
    {text : String} {t : Ty} (ht : m.resolveType? text = some t) :
    m'.resolveType? text = some t := by
  have hsound := sound_of_resolve hs'
  rw [resolveType?_eq_some_iff hs] at ht
  rw [resolveType?_eq_some_iff hs']
  exact h.read hsound.enums_nodup hsound.disjoint ht

theorem parents_eq (h : s.Within s') (hs : s.resolve = .ok m) (hs' : s'.resolve = .ok m')
    {d : EntityDecl} (hd : d ∈ s.entities) :
    m'.parents (.entity d.name) = m.parents (.entity d.name) := by
  rw [parents_of_mem hs hd, parents_of_mem hs' (h.entities hd)]

/-- The line of an entity does not grow, and its expressions keep their types. -/
theorem property?_eq (h : s.Within s') (hs : s.resolve = .ok m) (hs' : s'.resolve = .ok m')
    {d : EntityDecl} (hd : d ∈ s.entities) (property : String) :
    m'.property? (.entity d.name) property = m.property? (.entity d.name) property := by
  obtain ⟨line, hline⟩ := exists_line hs hd
  refine eq_of_rel (fun text t t' ht ht' => ?_) ((h.line hline).rel_property? hs' property)
    (hline.rel_property? hs property)
  rw [h.resolveType? hs hs' ht'] at ht
  exact (Option.some.inj ht).symm

end Within

/-! ## Order -/

/-- What no entity is declared for has no properties and nothing above it. -/
theorem unknown_of_not_mem (h : s.resolve = .ok m) {t : Ty}
    (ht : ∀ d ∈ s.entities, t ≠ .entity d.name) :
    (∀ property, m.property? t property = none) ∧ m.parents t = [] := by
  cases t with
  | entity name =>
    have hfind : Entity.find? m.entities name = none := by
      rw [Entity.find?, List.find?_eq_none]
      intro e he hname
      obtain ⟨d, hd, hmade⟩ := exists_left_of_forall₂ (made_of_resolve h) e he
      exact ht d hd (by rw [← hmade.name_eq, eq_of_beq hname])
    have hline : m.lineage name = [] := by
      rw [Model.lineage]
      cases m.entities.length with
      | zero => rfl
      | succ limit => rw [Entity.lineage, hfind]
    refine ⟨fun property => ?_, ?_⟩
    · rw [Model.property?, Model.propertyType?, hline]
      rfl
    · rw [Model.parents, Model.entity?, hfind]
      rfl
  | _ => exact ⟨fun _ => rfl, rfl⟩

namespace Reordered

theorem sound (h : s.Reordered s') (hs : s.Sound) : s'.Sound := by
  have hnodup : (s'.enums.map EnumDecl.name).Nodup :=
    (h.enums.map EnumDecl.name).nodup_iff.mp hs.enums_nodup
  have hdisjoint : ∀ d ∈ s'.entities, ∀ e ∈ s'.enums, d.name ≠ e.name :=
    fun d hd e he => hs.disjoint d (h.entities.mem_iff.mpr hd) e (h.enums.mem_iff.mpr he)
  refine ⟨hnodup, (h.entities.map EntityDecl.name).nodup_iff.mp hs.entities_nodup, hdisjoint,
    fun d hd => hs.integral d (h.enums.mem_iff.mpr hd), fun d hd base hbase => ?_,
    fun d hd p hp => ?_, fun d hd hcycle => ?_⟩
  · obtain ⟨b, hb, hname⟩ := hs.bases d (h.entities.mem_iff.mpr hd) base hbase
    exact ⟨b, h.entities.mem_iff.mp hb, hname⟩
  · obtain ⟨t, ht⟩ := hs.properties d (h.entities.mem_iff.mpr hd) p hp
    exact ⟨t, h.within.read hnodup hdisjoint ht⟩
  · have hback : s'.Inherits ≤ s.Inherits := fun _ _ => h.symm.within.inherits
    exact hs.acyclic d (h.entities.mem_iff.mpr hd) (Relation.TransGen.mono hback _ _ hcycle)

theorem exists_resolve_iff (h : s.Reordered s') :
    (∃ m, s.resolve = .ok m) ↔ ∃ m, s'.resolve = .ok m := by
  rw [exists_resolve_iff_sound, exists_resolve_iff_sound]
  exact ⟨h.sound, h.symm.sound⟩

theorem resolveType?_eq (h : s.Reordered s') (hs : s.resolve = .ok m) (hs' : s'.resolve = .ok m')
    (text : String) : m'.resolveType? text = m.resolveType? text :=
  Option.ext fun _ =>
    ⟨h.symm.within.resolveType? hs' hs, h.within.resolveType? hs hs'⟩

theorem answers_eq (h : s.Reordered s') (hs : s.resolve = .ok m) (hs' : s'.resolve = .ok m')
    (t : Ty) :
    (∀ property, m'.property? t property = m.property? t property) ∧
      m'.parents t = m.parents t := by
  by_cases ht : ∃ d ∈ s.entities, t = .entity d.name
  · obtain ⟨d, hd, rfl⟩ := ht
    exact ⟨h.within.property?_eq hs hs' hd, h.within.parents_eq hs hs' hd⟩
  · have hnot : ∀ d ∈ s.entities, t ≠ .entity d.name := fun d hd heq => ht ⟨d, hd, heq⟩
    obtain ⟨hproperty, hparents⟩ := unknown_of_not_mem hs hnot
    obtain ⟨hproperty', hparents'⟩ :=
      unknown_of_not_mem hs' fun d hd => hnot d (h.entities.mem_iff.mpr hd)
    refine ⟨fun property => ?_, ?_⟩
    · rw [hproperty, hproperty']
    · rw [hparents, hparents']

end Reordered

/-- A schema means the same in every order of its declarations, and what it means stays when it
grows. -/
theorem answers_reordered_and_grown (s s' : Schema) :
    (s.Reordered s' →
      ((∃ m, s.resolve = .ok m) ↔ ∃ m', s'.resolve = .ok m') ∧
      ∀ m m', s.resolve = .ok m → s'.resolve = .ok m' →
        (∀ t property, m'.property? t property = m.property? t property) ∧
        (∀ text, m'.resolveType? text = m.resolveType? text) ∧
        ∀ t, m'.parents t = m.parents t) ∧
    (s.Within s' → ∀ m m', s.resolve = .ok m → s'.resolve = .ok m' →
      (∀ d ∈ s.entities,
        (∀ property, m'.property? (.entity d.name) property =
          m.property? (.entity d.name) property) ∧
        m'.parents (.entity d.name) = m.parents (.entity d.name)) ∧
      ∀ text t, m.resolveType? text = some t → m'.resolveType? text = some t) := by
  constructor
  · intro h
    refine ⟨h.exists_resolve_iff, fun m m' hs hs' => ⟨fun t => ?_, ?_, fun t => ?_⟩⟩
    · exact (h.answers_eq hs hs' t).1
    · exact h.resolveType?_eq hs hs'
    · exact (h.answers_eq hs hs' t).2
  · intro h m m' hs hs'
    refine ⟨fun d hd => ⟨?_, ?_⟩, fun text t => ?_⟩
    · exact h.property?_eq hs hs' hd
    · exact h.parents_eq hs hs' hd
    · exact h.resolveType? hs hs'

/-- A dog has the name of its animal where the animal is declared first, and where the model has
sizes and owners besides. -/
theorem answers_reordered_and_grown_dog :
    ∃ (s reordered grown : Schema) (m m₁ m₂ : Model),
      s.Reordered reordered ∧ s.Within grown ∧ s.resolve = .ok m ∧
      reordered.resolve = .ok m₁ ∧ grown.resolve = .ok m₂ ∧
      m₁.property? (.entity "Dog") "name" = some .string ∧
      m₂.property? (.entity "Dog") "name" = some .string ∧
      m₂.parents (.entity "Dog") = [.entity "Animal"] ∧
      m₂.resolveType? " List < Dog > " = some (.list (.entity "Dog")) := by
  let dog : EntityDecl := ⟨"Dog", some "Animal", [("friends", "List<Dog>")]⟩
  let animal : EntityDecl := ⟨"Animal", none, [("name", "String")]⟩
  let owner : EntityDecl := ⟨"Owner", none, [("dogs", "Dog[]"), ("name", "Size")]⟩
  let size : EnumDecl := ⟨"Size", some "Byte", [("Small", 0)]⟩
  let dog' : Entity := ⟨"Dog", some "Animal", [("friends", .list (.entity "Dog"))]⟩
  let animal' : Entity := ⟨"Animal", none, [("name", .string)]⟩
  let owner' : Entity :=
    ⟨"Owner", none, [("dogs", .array (.entity "Dog")), ("name", .enum size.definition)]⟩
  have hs : Schema.resolve ⟨[], [dog, animal]⟩ = .ok ⟨[], [dog', animal']⟩ := by decide +kernel
  have hs₁ : Schema.resolve ⟨[], [animal, dog]⟩ = .ok ⟨[], [animal', dog']⟩ := by decide +kernel
  have hs₂ : Schema.resolve ⟨[size], [owner, animal, dog]⟩ =
      .ok ⟨[size.definition], [owner', animal', dog']⟩ := by decide +kernel
  have hreordered : Schema.Reordered ⟨[], [dog, animal]⟩ ⟨[], [animal, dog]⟩ :=
    ⟨.refl _, .swap animal dog []⟩
  have hgrown : Schema.Within ⟨[], [dog, animal]⟩ ⟨[size], [owner, animal, dog]⟩ :=
    ⟨List.nil_subset _, by simp⟩
  obtain ⟨hproperty, -, -⟩ :=
    ((answers_reordered_and_grown _ _).1 hreordered).2 _ _ hs hs₁
  obtain ⟨hentity, htype⟩ := (answers_reordered_and_grown _ _).2 hgrown _ _ hs hs₂
  obtain ⟨hdog, hparents⟩ := hentity dog List.mem_cons_self
  refine ⟨_, _, _, _, _, _, hreordered, hgrown, hs, hs₁, hs₂, ?_, ?_, ?_, ?_⟩
  · rw [hproperty]
    decide
  · exact (hdog "name").trans (by decide)
  · exact hparents.trans (by decide)
  · exact htype " List < Dog > " _ (by decide +kernel)

end Schema
end TypedQuery
