import Mathlib.Data.List.Forall2
import Mathlib.Data.List.Nodup
import TypedQuery.Proofs.Acyclicity
import TypedQuery.Proofs.TypeTokens
/-!
The schemas that are accepted.

A schema is checked in passes: its enumerations, the names of its entities, their bases and
properties, and last their lines of bases. Each pass succeeds exactly if the declarations it is
about are in order, and it returns them with all names looked up. So the passes together accept
the sound schemas and no others.
-/
namespace TypedQuery

/-- Another type that the values of an enumeration are stored in has to be an integral one. -/
def EnumDecl.IsIntegral (d : EnumDecl) : Prop :=
  ∀ text ∈ d.underlying, ∃ k : Integral, text = k.toPrimitive.name

/-- The enumeration that a declaration makes. Its values are stored as `Int32` if the declaration
does not say otherwise. -/
def EnumDecl.definition (d : EnumDecl) : EnumDef where
  name := d.name
  underlying :=
    (d.underlying.bind fun text => (Primitive.ofName? text).bind Integral.ofPrimitive?).getD .int32
  cases := d.cases

/-- Where keys are not repeated, the first element with a key is the only one. -/
theorem find?_eq_some_iff_of_nodup {α : Type} {key : α → String} {l : List α}
    (hnodup : (l.map key).Nodup) {k : String} {a : α} :
    (l.find? fun b => key b == k) = some a ↔ a ∈ l ∧ key a = k := by
  constructor
  · intro h
    exact ⟨List.mem_of_find?_eq_some h, eq_of_beq (List.find?_some (p := fun b => key b == k) h)⟩
  · rintro ⟨ha, rfl⟩
    cases hfind : l.find? fun b => key b == key a with
    | none => exact absurd (List.find?_eq_none.mp hfind a ha) (by simp)
    | some b =>
      have hb : key b = key a := eq_of_beq (List.find?_some (p := fun b => key b == key a) hfind)
      rw [List.inj_on_of_nodup_map hnodup (List.mem_of_find?_eq_some hfind) ha hb]

section Pointwise

variable {α β : Type} {R : α → β → Prop} {as : List α} {bs : List β}

theorem exists_right_of_forall₂ (h : List.Forall₂ R as bs) : ∀ a ∈ as, ∃ b ∈ bs, R a b := by
  induction h with
  | nil => simp
  | cons hab _ ih =>
    refine List.forall_mem_cons.mpr ⟨⟨_, List.mem_cons_self, hab⟩, fun a ha => ?_⟩
    obtain ⟨b, hb, hr⟩ := ih a ha
    exact ⟨b, List.mem_cons_of_mem _ hb, hr⟩

theorem exists_left_of_forall₂ (h : List.Forall₂ R as bs) : ∀ b ∈ bs, ∃ a ∈ as, R a b :=
  exists_right_of_forall₂ (List.Forall₂.flip h)

theorem exists_forall₂ (h : ∀ a ∈ as, ∃ b, R a b) : ∃ bs, List.Forall₂ R as bs := by
  induction as with
  | nil => exact ⟨[], .nil⟩
  | cons a as ih =>
    obtain ⟨⟨b, hb⟩, has⟩ := List.forall_mem_cons.mp h
    obtain ⟨bs, hbs⟩ := ih has
    exact ⟨b :: bs, .cons hb hbs⟩

end Pointwise

/-! ## Lines of bases -/

namespace Entity

/-- The entity called `a` has the base `b`. -/
def Inherits (entities : List Entity) (a b : String) : Prop :=
  ∃ e ∈ entities, e.name = a ∧ e.base = some b

variable {entities : List Entity}

theorem name_of_find? {name : String} {e : Entity} (hfind : find? entities name = some e) :
    e.name = name :=
  eq_of_beq (List.find?_some (p := fun e : Entity => e.name == name) hfind)

theorem inherits_of_find? {name base : String} {e : Entity} (hfind : find? entities name = some e)
    (hbase : e.base = some base) : Inherits entities name base :=
  ⟨e, List.mem_of_find?_eq_some hfind, name_of_find? hfind, hbase⟩

theorem mem_of_mem_lineage {limit : Nat} {name : String} :
    ∀ e ∈ lineage entities limit name, e ∈ entities := by
  induction limit generalizing name with
  | zero => simp [lineage]
  | succ limit ih =>
    rw [lineage]
    split
    · simp
    · next e hfind =>
      have he : e ∈ entities := List.mem_of_find?_eq_some hfind
      split
      · simpa using he
      · exact List.forall_mem_cons.mpr ⟨he, ih⟩

theorem reaches_of_mem_lineage {limit : Nat} {name : String} :
    ∀ e ∈ lineage entities limit name,
      Relation.ReflTransGen (Inherits entities) name e.name := by
  induction limit generalizing name with
  | zero => simp [lineage]
  | succ limit ih =>
    rw [lineage]
    split
    · simp
    · next e hfind =>
      have hself : Relation.ReflTransGen (Inherits entities) name e.name := by
        rw [name_of_find? hfind]
      split
      · simpa using hself
      · next base hbase =>
        refine List.forall_mem_cons.mpr ⟨hself, fun b hb => ?_⟩
        exact .head (inherits_of_find? hfind hbase) (ih b hb)

/-- Where no entity is above itself, none occurs twice in a line. -/
theorem nodup_lineage (hacyclic : ∀ name, ¬Relation.TransGen (Inherits entities) name name)
    (limit : Nat) (name : String) :
    ((lineage entities limit name).map Entity.name).Nodup := by
  induction limit generalizing name with
  | zero => simp [lineage]
  | succ limit ih =>
    rw [lineage]
    split
    · simp
    · next e hfind =>
      split
      · simp
      · next base hbase =>
        rw [List.map_cons, List.nodup_cons]
        refine ⟨fun hmem => ?_, ih base⟩
        obtain ⟨b, hb, heq⟩ := List.mem_map.mp hmem
        have hreaches := reaches_of_mem_lineage b hb
        rw [heq, name_of_find? hfind] at hreaches
        exact hacyclic name (.head' (inherits_of_find? hfind hbase) hreaches)

theorem not_isEndless_of_acyclic
    (hacyclic : ∀ name, ¬Relation.TransGen (Inherits entities) name name) (e : Entity) :
    isEndless entities e = false := by
  have hnodup : (lineage entities (entities.length + 1) e.name).Nodup :=
    .of_map Entity.name (nodup_lineage hacyclic _ _)
  have hle := (List.subperm_of_subset hnodup mem_of_mem_lineage).length_le
  rw [isEndless, decide_eq_false_iff_not]
  omega

/-- Where all lines of bases end, no entity is above itself: each stands higher than its base. -/
theorem acyclic_of_not_isEndless (hnodup : (entities.map Entity.name).Nodup)
    (hends : ∀ e ∈ entities, isEndless entities e = false) (name : String) :
    ¬Relation.TransGen (Inherits entities) name name := by
  have hlt : ∀ a b, Inherits entities a b → height entities b < height entities a := by
    intro a b ⟨e, he, hname, hbase⟩
    exact height_base_lt hends ((find?_eq_some_iff_of_nodup hnodup).mpr ⟨he, hname⟩) hbase
  have hbelow : ∀ b, Relation.TransGen (Inherits entities) name b →
      height entities b < height entities name := by
    intro b hb
    induction hb with
    | single h => exact hlt _ _ h
    | tail _ h ih => exact Nat.lt_trans (hlt _ _ h) ih
  intro hcycle
  exact Nat.lt_irrefl _ (hbelow name hcycle)

end Entity

namespace Schema

/-- The type declared under a name. -/
def declared (s : Schema) : String → Option Ty :=
  namedBy (s.enums.map EnumDecl.definition) (s.entities.map EntityDecl.name)

/-- The entity called `a` is declared with the base `b`. -/
def Inherits (s : Schema) (a b : String) : Prop :=
  ∃ d ∈ s.entities, d.name = a ∧ d.base = some b

/-- No name is declared twice, every type and base that a declaration names is there, and no
entity is above itself. -/
structure Sound (s : Schema) : Prop where
  enums_nodup : (s.enums.map EnumDecl.name).Nodup
  entities_nodup : (s.entities.map EntityDecl.name).Nodup
  disjoint : ∀ d ∈ s.entities, ∀ e ∈ s.enums, d.name ≠ e.name
  integral : ∀ d ∈ s.enums, d.IsIntegral
  bases : ∀ d ∈ s.entities, ∀ base ∈ d.base, ∃ b ∈ s.entities, b.name = base
  properties : ∀ d ∈ s.entities, ∀ p ∈ d.properties,
    ∃ t, TypeExpression.read s.declared p.2 = .ok t
  acyclic : ∀ d ∈ s.entities, ¬Relation.TransGen s.Inherits d.name d.name

/-! ## Declared names -/

variable {s : Schema} {m : Model}

theorem declared_eq_some {name : String} {t : Ty} (h : s.declared name = some t) :
    (∃ d ∈ s.entities, d.name = name ∧ t = .entity d.name) ∨
      ∃ d ∈ s.enums, d.name = name ∧ t = .enum d.definition := by
  unfold declared namedBy at h
  split at h
  · next hname =>
    obtain ⟨d, hd, rfl⟩ := List.mem_map.mp hname
    exact .inl ⟨d, hd, rfl, (Option.some.inj h).symm⟩
  · obtain ⟨definition, hfind, rfl⟩ := Option.map_eq_some_iff.mp h
    obtain ⟨d, hd, rfl⟩ := List.mem_map.mp (List.mem_of_find?_eq_some hfind)
    have hname := List.find?_some (p := fun d : EnumDef => d.name == name) hfind
    exact .inr ⟨d, hd, eq_of_beq hname, rfl⟩

theorem declared_of_mem_entities {d : EntityDecl} (hd : d ∈ s.entities) :
    s.declared d.name = some (.entity d.name) := by
  rw [declared, namedBy, if_pos (List.mem_map_of_mem hd)]

theorem declared_of_mem_enums (hnodup : (s.enums.map EnumDecl.name).Nodup)
    (hdisjoint : ∀ d ∈ s.entities, ∀ e ∈ s.enums, d.name ≠ e.name) {e : EnumDecl}
    (he : e ∈ s.enums) : s.declared e.name = some (.enum e.definition) := by
  have hname : e.name ∉ s.entities.map EntityDecl.name := by
    intro hmem
    obtain ⟨d, hd, heq⟩ := List.mem_map.mp hmem
    exact hdisjoint d hd e he heq
  have hfind : (s.enums.map EnumDecl.definition).find? (fun d => d.name == e.name) =
      some e.definition := by
    refine (find?_eq_some_iff_of_nodup ?_).mpr ⟨List.mem_map_of_mem he, rfl⟩
    rw [List.map_map]
    exact hnodup
  rw [declared, namedBy, if_neg hname, hfind]
  rfl

theorem text_of_declared {name : String} {t : Ty} (h : s.declared name = some t) :
    t.text = name := by
  rcases declared_eq_some h with ⟨_, _, rfl, rfl⟩ | ⟨_, _, rfl, rfl⟩ <;> rfl

/-! ## Enumerations -/

theorem ofPrimitive?_ofName? {text : String} {k : Integral} :
    (Primitive.ofName? text).bind Integral.ofPrimitive? = some k ↔ text = k.toPrimitive.name := by
  constructor
  · intro h
    unfold Primitive.ofName? at h
    split at h <;> cases h <;> rfl
  · rintro rfl
    cases k <;> rfl

theorem underlyingOf_eq_ok_iff {d : EnumDecl} {k : Integral} :
    underlyingOf d = .ok k ↔ d.IsIntegral ∧ k = d.definition.underlying := by
  obtain ⟨name, underlying, cases⟩ := d
  cases underlying with
  | none => simp [underlyingOf, EnumDecl.IsIntegral, EnumDecl.definition, eq_comm]
  | some text =>
    cases htext : (Primitive.ofName? text).bind Integral.ofPrimitive? with
    | none =>
      have hnone : ∀ k : Integral, text ≠ k.toPrimitive.name := by
        intro k heq
        rw [ofPrimitive?_ofName?.mpr heq] at htext
        cases htext
      simp [underlyingOf, EnumDecl.IsIntegral, htext, hnone]
    | some k' =>
      have hk' : ∃ k : Integral, text = k.toPrimitive.name := ⟨k', ofPrimitive?_ofName?.mp htext⟩
      simp [underlyingOf, EnumDecl.IsIntegral, EnumDecl.definition, htext, hk', eq_comm]

theorem resolveEnums_eq_ok_iff {seen : List String} {ds : List EnumDecl} {enums : List EnumDef} :
    resolveEnums seen ds = .ok enums ↔
      (∀ d ∈ ds, d.IsIntegral) ∧ (ds.map EnumDecl.name).Nodup ∧ (∀ d ∈ ds, d.name ∉ seen) ∧
        enums = ds.map EnumDecl.definition := by
  induction ds generalizing seen enums with
  | nil => simp [resolveEnums, eq_comm]
  | cons d ds ih =>
    rw [resolveEnums, except_bind_eq_ok]
    simp only [underlyingOf_eq_ok_iff, List.map_cons, List.nodup_cons, List.forall_mem_cons]
    by_cases hseen : d.name ∈ seen
    · simp [hseen]
    · simp only [hseen, if_false, except_bind_eq_ok, ih, Except.ok.injEq, List.mem_cons, not_or]
      constructor
      · rintro ⟨k, ⟨hd, rfl⟩, _, ⟨hds, hnodup, hfresh, rfl⟩, rfl⟩
        refine ⟨⟨hd, hds⟩, ⟨?_, hnodup⟩, ⟨not_false, fun e he => (hfresh e he).2⟩, rfl⟩
        intro hmem
        obtain ⟨e, he, hname⟩ := List.mem_map.mp hmem
        exact (hfresh e he).1 hname
      · rintro ⟨⟨hd, hds⟩, ⟨hname, hnodup⟩, ⟨_, hfresh⟩, rfl⟩
        refine ⟨_, ⟨hd, rfl⟩, _, ⟨hds, hnodup, fun e he => ⟨fun heq => ?_, hfresh e he⟩, rfl⟩, rfl⟩
        exact hname (heq ▸ List.mem_map_of_mem he)

/-! ## Names, bases and properties -/

theorem checkNames_eq_ok_iff {seen names : List String} :
    checkNames seen names = .ok () ↔ names.Nodup ∧ ∀ name ∈ names, name ∉ seen := by
  induction names generalizing seen with
  | nil => simp [checkNames]
  | cons name names ih =>
    rw [checkNames, List.nodup_cons, List.forall_mem_cons]
    by_cases hseen : name ∈ seen
    · simp [hseen]
    · rw [if_neg hseen, ih]
      constructor
      · rintro ⟨hnodup, hfresh⟩
        refine ⟨⟨fun hmem => hfresh name hmem List.mem_cons_self, hnodup⟩, hseen, fun n hn => ?_⟩
        exact fun h => hfresh n hn (List.mem_cons_of_mem _ h)
      · rintro ⟨⟨hname, hnodup⟩, _, hfresh⟩
        refine ⟨hnodup, fun n hn h => ?_⟩
        rcases List.mem_cons.mp h with rfl | h
        · exact hname hn
        · exact hfresh n hn h

theorem resolveBase_eq_ok_iff {names : List String} {d : EntityDecl} {base : Option String} :
    resolveBase names d = .ok base ↔ (∀ b ∈ d.base, b ∈ names) ∧ base = d.base := by
  unfold resolveBase
  cases hbase : d.base with
  | none => simp [eq_comm]
  | some b =>
    by_cases hb : b ∈ names
    · simp [hb, eq_comm]
    · simp [hb]

/-- A property has the type that its expression denotes. -/
def Typed (named : String → Option Ty) (declared : String × String) (property : String × Ty) :
    Prop :=
  property.1 = declared.1 ∧ TypeExpression.read named declared.2 = .ok property.2

theorem resolveProperties_eq_ok_iff {named : String → Option Ty} {entity : String}
    {declared : List (String × String)} {properties : List (String × Ty)} :
    resolveProperties named entity declared = .ok properties ↔
      List.Forall₂ (Typed named) declared properties := by
  induction declared generalizing properties with
  | nil => simp [resolveProperties, eq_comm]
  | cons p declared ih =>
    rw [resolveProperties, List.forall₂_cons_left_iff]
    cases hread : TypeExpression.read named p.2 with
    | error fault => simp [Typed, hread]
    | ok t =>
      simp only [except_bind_eq_ok, ih, Except.ok.injEq]
      constructor
      · rintro ⟨rest, hrest, rfl⟩
        exact ⟨(p.1, t), rest, ⟨rfl, hread⟩, hrest, rfl⟩
      · rintro ⟨⟨name, t'⟩, rest, ⟨rfl, ht'⟩, hrest, rfl⟩
        rw [hread] at ht'
        cases ht'
        exact ⟨rest, hrest, rfl⟩

/-- An entity is made from its declaration: the base is one of `names`, the properties have the
types that their expressions denote. -/
structure Made (names : List String) (named : String → Option Ty) (d : EntityDecl) (e : Entity) :
    Prop where
  name_eq : e.name = d.name
  base_eq : e.base = d.base
  base_mem : ∀ base ∈ d.base, base ∈ names
  typed : List.Forall₂ (Typed named) d.properties e.properties

theorem resolveEntities_eq_ok_iff {names : List String} {named : String → Option Ty}
    {ds : List EntityDecl} {entities : List Entity} :
    resolveEntities names named ds = .ok entities ↔
      List.Forall₂ (Made names named) ds entities := by
  induction ds generalizing entities with
  | nil => simp [resolveEntities, eq_comm]
  | cons d ds ih =>
    rw [resolveEntities, List.forall₂_cons_left_iff]
    simp only [except_bind_eq_ok, resolveBase_eq_ok_iff, resolveProperties_eq_ok_iff, ih,
      Except.ok.injEq]
    constructor
    · rintro ⟨_, ⟨hmem, rfl⟩, properties, htyped, rest, hrest, rfl⟩
      exact ⟨_, rest, ⟨rfl, rfl, hmem, htyped⟩, hrest, rfl⟩
    · rintro ⟨⟨name, base, properties⟩, rest, hmade, hrest, rfl⟩
      obtain rfl : name = d.name := hmade.name_eq
      obtain rfl : base = d.base := hmade.base_eq
      exact ⟨_, ⟨hmade.base_mem, rfl⟩, properties, hmade.typed, rest, hrest, rfl⟩

/-! ## All passes -/

/-- What an accepted schema makes, and what has been checked then. -/
theorem resolve_eq_ok_iff :
    s.resolve = .ok m ↔
      ((∀ d ∈ s.enums, d.IsIntegral) ∧ (s.enums.map EnumDecl.name).Nodup ∧
        (s.entities.map EntityDecl.name).Nodup ∧
        ∀ d ∈ s.entities, ∀ e ∈ s.enums, d.name ≠ e.name) ∧
      m.enums = s.enums.map EnumDecl.definition ∧
      List.Forall₂ (Made (s.entities.map EntityDecl.name) s.declared) s.entities m.entities ∧
      ∀ e ∈ m.entities, Entity.isEndless m.entities e = false := by
  have hnames : (s.enums.map EnumDecl.definition).map EnumDef.name =
      s.enums.map EnumDecl.name := by
    rw [List.map_map]
    rfl
  obtain ⟨enums, entities⟩ := m
  simp only [resolve, except_bind_eq_ok, resolveEnums_eq_ok_iff]
  constructor
  · rintro ⟨_, ⟨hintegral, henums, -, rfl⟩, _, hcheck, _, hentities, h⟩
    rw [hnames, checkNames_eq_ok_iff] at hcheck
    obtain ⟨hnodup, hdisjoint⟩ := hcheck
    have hmade := resolveEntities_eq_ok_iff.mp hentities
    split at h
    · cases h
    · next hnone =>
      cases h
      refine ⟨⟨hintegral, henums, hnodup, fun d hd e he heq => ?_⟩, rfl, hmade, fun e he => ?_⟩
      · exact hdisjoint d.name (List.mem_map_of_mem hd) (heq ▸ List.mem_map_of_mem he)
      · simpa using List.find?_eq_none.mp hnone e he
  · rintro ⟨⟨hintegral, henums, hnodup, hdisjoint⟩, rfl, hmade, hends⟩
    refine ⟨_, ⟨hintegral, henums, by simp, rfl⟩, (), ?_, entities,
      resolveEntities_eq_ok_iff.mpr hmade, ?_⟩
    · rw [hnames, checkNames_eq_ok_iff]
      refine ⟨hnodup, fun name hname hmem => ?_⟩
      obtain ⟨d, hd, rfl⟩ := List.mem_map.mp hname
      obtain ⟨e, he, heq⟩ := List.mem_map.mp hmem
      exact hdisjoint d hd e he heq.symm
    · rw [List.find?_eq_none.mpr fun e he => by simp [hends e he]]

/-- The entities of a model have the names and the bases of their declarations. -/
theorem inherits_iff {names : List String} {named : String → Option Ty} {entities : List Entity}
    (hmade : List.Forall₂ (Made names named) s.entities entities) {a b : String} :
    Entity.Inherits entities a b ↔ s.Inherits a b := by
  constructor
  · rintro ⟨e, he, rfl, hbase⟩
    obtain ⟨d, hd, hde⟩ := exists_left_of_forall₂ hmade e he
    exact ⟨d, hd, hde.name_eq.symm, hde.base_eq ▸ hbase⟩
  · rintro ⟨d, hd, rfl, hbase⟩
    obtain ⟨e, he, hde⟩ := exists_right_of_forall₂ hmade d hd
    exact ⟨e, he, hde.name_eq, hde.base_eq.trans hbase⟩

theorem map_name_of_made {names : List String} {named : String → Option Ty}
    {ds : List EntityDecl} {entities : List Entity}
    (hmade : List.Forall₂ (Made names named) ds entities) :
    entities.map Entity.name = ds.map EntityDecl.name := by
  induction hmade with
  | nil => rfl
  | cons hde _ ih => rw [List.map_cons, List.map_cons, hde.name_eq, ih]

theorem sound_of_resolve (h : s.resolve = .ok m) : s.Sound := by
  obtain ⟨⟨hintegral, henums, hnodup, hdisjoint⟩, -, hmade, hends⟩ := resolve_eq_ok_iff.mp h
  have hinherits : Entity.Inherits m.entities = s.Inherits :=
    funext fun a => funext fun b => propext (inherits_iff hmade)
  refine ⟨henums, hnodup, hdisjoint, hintegral, fun d hd base hbase => ?_, fun d hd p hp => ?_,
    fun d _ => ?_⟩
  · obtain ⟨e, _, hde⟩ := exists_right_of_forall₂ hmade d hd
    exact List.mem_map.mp (hde.base_mem base hbase)
  · obtain ⟨e, _, hde⟩ := exists_right_of_forall₂ hmade d hd
    obtain ⟨q, _, hq⟩ := exists_right_of_forall₂ hde.typed p hp
    exact ⟨q.2, hq.2⟩
  · rw [← hinherits]
    exact Entity.acyclic_of_not_isEndless (map_name_of_made hmade ▸ hnodup) hends d.name

theorem Sound.exists_resolve (h : s.Sound) : ∃ m, s.resolve = .ok m := by
  have hmade : ∀ d ∈ s.entities,
      ∃ e, Made (s.entities.map EntityDecl.name) s.declared d e := by
    intro d hd
    obtain ⟨properties, htyped⟩ := exists_forall₂ (R := Typed s.declared) fun p hp =>
      let ⟨t, ht⟩ := h.properties d hd p hp
      ⟨(p.1, t), rfl, ht⟩
    refine ⟨⟨d.name, d.base, properties⟩, rfl, rfl, fun base hbase => ?_, htyped⟩
    exact List.mem_map.mpr (h.bases d hd base hbase)
  obtain ⟨entities, hentities⟩ := exists_forall₂ hmade
  refine ⟨⟨s.enums.map EnumDecl.definition, entities⟩, resolve_eq_ok_iff.mpr
    ⟨⟨h.integral, h.enums_nodup, h.entities_nodup, h.disjoint⟩, rfl, hentities, fun e _ => ?_⟩⟩
  refine Entity.not_isEndless_of_acyclic (fun name hcycle => ?_) e
  -- A name that is above itself is the name of an entity.
  have hinherits : Entity.Inherits entities = s.Inherits :=
    funext fun a => funext fun b => propext (inherits_iff hentities)
  rw [hinherits] at hcycle
  obtain ⟨_, ⟨d, hd, rfl, _⟩, _⟩ := Relation.TransGen.head'_iff.mp hcycle
  exact h.acyclic d hd hcycle

/-- Exactly the sound schemas are accepted. -/
theorem exists_resolve_iff_sound : (∃ m, s.resolve = .ok m) ↔ s.Sound :=
  ⟨fun ⟨_, h⟩ => sound_of_resolve h, Sound.exists_resolve⟩

end Schema
end TypedQuery
