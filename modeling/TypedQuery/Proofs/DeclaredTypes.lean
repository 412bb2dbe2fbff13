import TypedQuery.Proofs.TypeText
import TypedQuery.Proofs.Typing
/-!
The types that a resource model declares.

All of them have been read from type expressions, in which every name was found among the
enumerations and the entities. So a law about them goes by induction on type expressions.
-/
namespace TypedQuery

open TypeExpression (Expressed)

namespace Schema

/-- A name stands for an entity or for one of the enumerations. -/
theorem namedBy_eq_some {enums : List EnumDef} {names : List String} {name : String} {t : Ty}
    (h : namedBy enums names name = some t) : t = .entity name ∨ ∃ d ∈ enums, t = .enum d := by
  unfold namedBy at h
  split at h
  · exact .inl (Option.some.inj h).symm
  · obtain ⟨d, hd, rfl⟩ := Option.map_eq_some_iff.mp h
    exact .inr ⟨d, List.mem_of_find?_eq_some hd, rfl⟩

theorem expressed_of_resolveProperties {named : String → Option Ty} {entity : String}
    {declared : List (String × String)} {properties : List (String × Ty)}
    (h : resolveProperties named entity declared = .ok properties) :
    ∀ p ∈ properties, Expressed named p.2 := by
  induction declared generalizing properties with
  | nil =>
    cases h
    simp
  | cons d declared ih =>
    rw [resolveProperties] at h
    split at h
    · cases h
    · next t ht =>
      obtain ⟨rest, hrest, h⟩ := except_bind_eq_ok.mp h
      cases h
      exact List.forall_mem_cons.mpr ⟨TypeExpression.expressed_of_read ht, ih hrest⟩

theorem expressed_of_resolveEntities {names : List String} {named : String → Option Ty}
    {declared : List EntityDecl} {entities : List Entity}
    (h : resolveEntities names named declared = .ok entities) :
    ∀ e ∈ entities, ∀ p ∈ e.properties, Expressed named p.2 := by
  induction declared generalizing entities with
  | nil =>
    cases h
    simp
  | cons d declared ih =>
    rw [resolveEntities] at h
    obtain ⟨base, _, h⟩ := except_bind_eq_ok.mp h
    obtain ⟨properties, hproperties, h⟩ := except_bind_eq_ok.mp h
    obtain ⟨rest, hrest, h⟩ := except_bind_eq_ok.mp h
    cases h
    exact List.forall_mem_cons.mpr ⟨expressed_of_resolveProperties hproperties, ih hrest⟩

/-- The properties of a model have types that the schema expresses. -/
theorem expressed_of_resolve {schema : Schema} {model : Model}
    (h : schema.resolve = .ok model) :
    ∀ e ∈ model.entities, ∀ p ∈ e.properties,
      Expressed (namedBy model.enums (schema.entities.map EntityDecl.name)) p.2 := by
  obtain ⟨enums, henums, h⟩ := except_bind_eq_ok.mp h
  obtain ⟨_, _, h⟩ := except_bind_eq_ok.mp h
  obtain ⟨entities, hentities, h⟩ := except_bind_eq_ok.mp h
  split at h <;> cases h
  exact expressed_of_resolveEntities hentities

end Schema

namespace Model

variable {model : Model}

theorem named_eq_some {name : String} {t : Ty} (h : model.named name = some t) :
    (∃ entity, t = .entity entity) ∨ ∃ d ∈ model.enums, t = .enum d := by
  unfold named at h
  split at h
  · exact .inl ⟨_, (Option.some.inj h).symm⟩
  · obtain ⟨d, hd, rfl⟩ := Option.map_eq_some_iff.mp h
    exact .inr ⟨d, List.mem_of_find?_eq_some hd, rfl⟩

theorem expressed_of_resolveType? {text : String} {t : Ty} (h : model.resolveType? text = some t) :
    Expressed model.named t := by
  unfold resolveType? at h
  cases hread : TypeExpression.read model.named text with
  | error _ => simp [hread, Except.toOption] at h
  | ok u =>
    obtain rfl : u = t := by simpa [hread, Except.toOption] using h
    exact TypeExpression.expressed_of_read hread

/-- What holds of the types of all declared properties holds of every property there is. -/
theorem forall_property? {P : Ty → Prop} (hP : ∀ e ∈ model.entities, ∀ p ∈ e.properties, P p.2)
    {receiver : Ty} {name : String} {t : Ty} (h : model.property? receiver name = some t) :
    P t := by
  obtain ⟨entity, -, hproperty⟩ := hasProperty_of_property? h
  clear h
  induction hproperty with
  | @declared _ property e t he hlookup =>
    obtain ⟨front, back, hsplit, _⟩ := List.lookup_eq_some_iff.mp hlookup
    exact hP e (List.mem_of_find?_eq_some he) (property, t) (by simp [hsplit])
  | inherited _ _ _ _ ih => exact ih

end Model
end TypedQuery
