import Mathlib.Data.List.Permutation
import TypedQuery.Proofs.ShownMoments
/-!
A query is known by its JSON document, but for moments that are not regular.

The fields of a JSON object have no order of their own, and who stores a document may put them in
another one. Reading goes by the names of the fields, so it finds the query in whatever order they
come, with its moments as they are shown. A query whose moments are regular is found as it was, and
no two of these have documents that differ in the order of fields only.
-/
namespace TypedQuery

/-! ## The order of fields -/

namespace Json

/-- `Rearranged v w` says that `w` is the document `v`, but for the order in which its objects hold
their fields. -/
inductive Rearranged : Json → Json → Prop where
  | refl (v : Json) : Rearranged v v
  | array {vs ws : List Json} : List.Forall₂ Rearranged vs ws → Rearranged (.array vs) (.array ws)
  | object {fs gs hs : List (String × Json)} : fs.map Prod.fst = gs.map Prod.fst →
    List.Forall₂ Rearranged (fs.map Prod.snd) (gs.map Prod.snd) → gs.Perm hs →
    Rearranged (.object fs) (.object hs)

namespace Rearranged

theorem of_perm {fs gs : List (String × Json)} (h : fs.Perm gs) :
    (Json.object fs).Rearranged (.object gs) :=
  .object rfl (List.forall₂_same.mpr fun v _ => .refl v) h

theorem form (name : String) {v w : Json} (h : v.Rearranged w) :
    (Json.object [(name, v)]).Rearranged (.object [(name, w)]) :=
  @Rearranged.object _ [(name, w)] _ rfl (.cons h .nil) (.refl _)

theorem eq_string {s : String} {w : Json} (h : (Json.string s).Rearranged w) : w = .string s := by
  cases h
  rfl

theorem of_array {vs : List Json} {w : Json} (h : (Json.array vs).Rearranged w) :
    ∃ ws, w = .array ws ∧ List.Forall₂ Rearranged vs ws := by
  cases h with
  | refl => exact ⟨vs, rfl, List.forall₂_same.mpr fun v _ => .refl v⟩
  | array h => exact ⟨_, rfl, h⟩

/-- The fields keep their names, and the values of these names are rearranged. -/
theorem of_object {fs : List (String × Json)} {w : Json} (h : (Json.object fs).Rearranged w) :
    ∃ vs fields, w = .object fields ∧ List.Forall₂ Rearranged (fs.map Prod.snd) vs ∧
      ((fs.map Prod.fst).zip vs).Perm fields := by
  cases h with
  | refl =>
    refine ⟨fs.map Prod.snd, fs, rfl, List.forall₂_same.mpr fun v _ => .refl v, ?_⟩
    rw [← List.zip_of_prod rfl rfl]
  | @object _ gs hs hnames hvalues hperm =>
    refine ⟨gs.map Prod.snd, hs, rfl, hvalues, ?_⟩
    rwa [hnames, ← List.zip_of_prod rfl rfl]

/-- An object of one field is in order. -/
theorem of_form {form : String} {content w : Json}
    (h : (Json.object [(form, content)]).Rearranged w) :
    ∃ content', w = .object [(form, content')] ∧ content.Rearranged content' := by
  obtain ⟨_, fields, rfl, hvalues, hperm⟩ := h.of_object
  obtain - | ⟨hcontent, - | _⟩ := hvalues
  exact ⟨_, congrArg Json.object (List.singleton_perm.mp hperm).symm, hcontent⟩

theorem of_pair {name₁ name₂ : String} {v₁ v₂ w : Json}
    (h : (Json.object [(name₁, v₁), (name₂, v₂)]).Rearranged w) :
    ∃ w₁ w₂ fields, w = .object fields ∧ [(name₁, w₁), (name₂, w₂)].Perm fields ∧
      v₁.Rearranged w₁ ∧ v₂.Rearranged w₂ := by
  obtain ⟨_, fields, rfl, hvalues, hperm⟩ := h.of_object
  obtain - | ⟨h₁, - | ⟨h₂, - | _⟩⟩ := hvalues
  exact ⟨_, _, fields, rfl, hperm, h₁, h₂⟩

theorem of_triple {name₁ name₂ name₃ : String} {v₁ v₂ v₃ w : Json}
    (h : (Json.object [(name₁, v₁), (name₂, v₂), (name₃, v₃)]).Rearranged w) :
    ∃ w₁ w₂ w₃ fields, w = .object fields ∧
      [(name₁, w₁), (name₂, w₂), (name₃, w₃)].Perm fields ∧
      v₁.Rearranged w₁ ∧ v₂.Rearranged w₂ ∧ v₃.Rearranged w₃ := by
  obtain ⟨_, fields, rfl, hvalues, hperm⟩ := h.of_object
  obtain - | ⟨h₁, - | ⟨h₂, - | ⟨h₃, - | _⟩⟩⟩ := hvalues
  exact ⟨_, _, _, fields, rfl, hperm, h₁, h₂, h₃⟩

theorem eq_map_string {ss : List String} {ws : List Json}
    (h : List.Forall₂ Rearranged (ss.map .string) ws) : ws = ss.map .string := by
  induction ss generalizing ws with
  | nil => exact List.forall₂_nil_left_iff.mp h
  | cons s ss ih =>
    obtain ⟨w, ws, hs, hss, rfl⟩ := List.forall₂_cons_left_iff.mp h
    rw [hs.eq_string, ih hss, List.map_cons]

end Rearranged

theorem strings?_map_string (ss : List String) :
    (Json.array (ss.map .string)).strings? = some ss := by
  induction ss with
  | nil => rfl
  | cons s ss ih =>
    simp only [strings?, List.map_cons, List.mapM_cons] at ih ⊢
    rw [ih]
    rfl

end Json

namespace Query

open Json (Rearranged)

variable {content : Json}

/-! ## The parts of a query in any order -/

theorem readParts?_operands {op : Operator} {left right : Query}
    (hleft : ∀ w, left.toJson.Rearranged w → ofJson? w = some left.shown)
    (hright : ∀ w, right.toJson.Rearranged w → ofJson? w = some right.shown)
    (h : (Json.object [("op", .string op.jsonName), ("left", left.toJson),
      ("right", right.toJson)]).Rearranged content) :
    ∃ fields, content = .object fields ∧ readParts? ["op", "left", "right"] fields .none =
      some { Parts.none with
        op? := some op, left? := some left.shown, right? := some right.shown } := by
  obtain ⟨o, l, r, fields, rfl, hfields, ho, hl, hr⟩ := h.of_triple
  have hop : Operator.ofJson? o = some op := by
    rw [ho.eq_string]
    exact Operator.ofJsonName?_jsonName op
  -- A field is read by its name into a part of its own, in each of the six orders.
  have hmem := List.mem_permutations'.mpr hfields.symm
  simp only [List.permutations', List.permutations'Aux, List.flatMap_cons, List.flatMap_nil,
    List.map_cons, List.map_nil, List.append_nil, List.cons_append, List.nil_append,
    List.mem_cons, List.not_mem_nil, or_false] at hmem
  refine ⟨fields, rfl, ?_⟩
  rcases hmem with rfl | rfl | rfl | rfl | rfl | rfl <;>
    simp [readParts?, once, Parts.none, hop, hleft l hl, hright r hr]

theorem readParts?_arguments {name : String} {args : List Query}
    (hargs : ∀ ws, List.Forall₂ Rearranged (toJsons args) ws →
      ofJsons? ws = some (shownEach args))
    (h : (Json.object [("name", .string name), ("args", .array (toJsons args))]).Rearranged
      content) :
    ∃ fields, content = .object fields ∧ readParts? ["name", "args"] fields .none =
      some { Parts.none with name? := some name, args? := some (shownEach args) } := by
  obtain ⟨n, a, fields, rfl, hfields, hname, ha⟩ := h.of_pair
  obtain ⟨ws, rfl, hws⟩ := ha.of_array
  rw [hname.eq_string] at hfields
  refine ⟨fields, rfl, ?_⟩
  rcases List.pair_perm.mp hfields with rfl | rfl <;>
    simp [readParts?, once, Parts.none, Json.string?, hargs ws hws]

theorem readParts?_body {params : List String} {body : Query}
    (hbody : ∀ w, body.toJson.Rearranged w → ofJson? w = some body.shown)
    (h : (Json.object [("params", .array (params.map .string)), ("body", body.toJson)]).Rearranged
      content) :
    ∃ fields, content = .object fields ∧ readParts? ["params", "body"] fields .none =
      some { Parts.none with params? := some params, body? := some body.shown } := by
  obtain ⟨p, b, fields, rfl, hfields, hp, hb⟩ := h.of_pair
  obtain ⟨ws, rfl, hws⟩ := hp.of_array
  rw [Rearranged.eq_map_string hws] at hfields
  refine ⟨fields, rfl, ?_⟩
  rcases List.pair_perm.mp hfields with rfl | rfl <;>
    simp [readParts?, once, Parts.none, Json.strings?_map_string, hbody b hb]

/-! ## The whole query -/

-- The induction is on the query: an object or array of its document is as in the document of the
-- query but for the order of fields, and reading undoes one level of it.
mutual
theorem ofJson?_of_rearranged : ∀ (q : Query) (v : Json), q.toJson.Rearranged v →
    ofJson? v = some q.shown
  | .binary op l r, v, h => by
    obtain ⟨content, rfl, hcontent⟩ := Rearranged.of_form h
    obtain ⟨fields, rfl, hparts⟩ :=
      readParts?_operands (ofJson?_of_rearranged l) (ofJson?_of_rearranged r) hcontent
    simp [ofJson?, hparts, shown]
  | .call name args, v, h => by
    obtain ⟨content, rfl, hcontent⟩ := Rearranged.of_form h
    obtain ⟨fields, rfl, hparts⟩ := readParts?_arguments (ofJsons?_of_rearranged args) hcontent
    simp [ofJson?, hparts, shown]
  | .indexer name args, v, h => by
    obtain ⟨content, rfl, hcontent⟩ := Rearranged.of_form h
    obtain ⟨fields, rfl, hparts⟩ := readParts?_arguments (ofJsons?_of_rearranged args) hcontent
    simp [ofJson?, hparts, shown]
  | .symbol name, v, h => by
    obtain ⟨content, rfl, hcontent⟩ := Rearranged.of_form h
    rw [hcontent.eq_string]
    rfl
  | .lambda params body, v, h => by
    obtain ⟨content, rfl, hcontent⟩ := Rearranged.of_form h
    obtain ⟨fields, rfl, hparts⟩ := readParts?_body (ofJson?_of_rearranged body) hcontent
    simp [ofJson?, hparts, shown]
  | .string value, v, h => by
    obtain ⟨content, rfl, hcontent⟩ := Rearranged.of_form h
    rw [hcontent.eq_string]
    rfl
  | .number text, v, h => by
    obtain ⟨content, rfl, hcontent⟩ := Rearranged.of_form h
    rw [hcontent.eq_string]
    rfl
  | .guid value, v, h => by
    obtain ⟨content, rfl, hcontent⟩ := Rearranged.of_form h
    rw [hcontent.eq_string]
    simp [ofJson?, Json.string?, value.read?_text, shown]
  | .dateTime value, v, h => by
    obtain ⟨content, rfl, hcontent⟩ := Rearranged.of_form h
    rw [hcontent.eq_string]
    simp [ofJson?, Json.string?, value.read?_exchangeText, shown]
  | .array items, v, h => by
    obtain ⟨content, rfl, hcontent⟩ := Rearranged.of_form h
    obtain ⟨ws, rfl, hws⟩ := hcontent.of_array
    simp [ofJson?, ofJsons?_of_rearranged items ws hws, shown]

theorem ofJsons?_of_rearranged : ∀ (qs : List Query) (vs : List Json),
    List.Forall₂ Rearranged (toJsons qs) vs → ofJsons? vs = some (shownEach qs)
  | [], vs, h => by
    rw [List.forall₂_nil_left_iff.mp h]
    rfl
  | q :: qs, vs, h => by
    obtain ⟨v, vs, hq, hqs, rfl⟩ := List.forall₂_cons_left_iff.mp h
    simp [ofJsons?, ofJson?_of_rearranged q v hq, ofJsons?_of_rearranged qs vs hqs, shownEach]
end

/-- From its document a query is read as it is shown, also if the fields come in another order. So
it is read back unchanged exactly if its moments are regular, and two queries have the same
document, or documents that differ in the order of fields only, exactly if they are shown as the
same query. -/
theorem json_determines (q : Query) :
    (∀ v, q.toJson.Rearranged v → ofJson? v = some q.shown) ∧
      (ofJson? q.toJson = some q ↔ q.Regular) ∧
      (∀ q' : Query, q.toJson = q'.toJson ↔ q.shown = q'.shown) ∧
      ∀ (q' : Query) (v : Json), q.toJson.Rearranged v → q'.toJson.Rearranged v →
        q.shown = q'.shown := by
  have hsame : ∀ (q' : Query) (v : Json), q.toJson.Rearranged v → q'.toJson.Rearranged v →
      q.shown = q'.shown := by
    intro q' v hv hv'
    have hsome := ofJson?_of_rearranged q v hv
    rw [ofJson?_of_rearranged q' v hv'] at hsome
    exact (Option.some.inj hsome).symm
  refine ⟨ofJson?_of_rearranged q, ?_, fun q' => ⟨fun h => ?_, fun h => ?_⟩, hsame⟩
  · rw [ofJson?_of_rearranged q _ (.refl _), Option.some_inj, shown_eq_self_iff]
  · exact hsame q' _ (.refl _) (h ▸ .refl _)
  · rw [← toJson_shown q, h, toJson_shown q']

/-- The fields of a comparison in alphabetical order, and a moment in a leap second. -/
theorem json_determines_sorted :
    (Query.binary (.value .less) (.symbol "opened") (.dateTime leapSecond)).Regular ∧
      ofJson? (.object [("Binary", .object [
        ("left", .object [("Symbol", .string "opened")]),
        ("op", .string "LessThan"),
        ("right", .object [("DateTime", .string "2016-12-31T23:59:60.500")])])]) =
      some (.binary (.value .less) (.symbol "opened") (.dateTime leapSecond)) := by
  have htext : String.ofList leapSecond.exchangeText = "2016-12-31T23:59:60.500" := by
    decide +kernel
  have hregular :
      (Query.binary (.value .less) (.symbol "opened") (.dateTime leapSecond)).Regular :=
    ⟨trivial, Or.inr rfl⟩
  refine ⟨hregular, ?_⟩
  rw [← htext, ← (shown_eq_self_iff _).mpr hregular]
  exact (json_determines (.binary (.value .less) (.symbol "opened") (.dateTime leapSecond))).1 _
    (.form _ (.of_perm (.swap _ _ _)))

/-- The document of a second that runs on in the middle of a minute is that of the next second,
which is what is read from it. -/
theorem document_of_overrun :
    overrun.shown.second = 6 ∧ overrun.shown.nanos = 250000000 ∧
      (Query.dateTime overrun).toJson = (Query.dateTime overrun.shown).toJson ∧
      ofJson? (Query.dateTime overrun).toJson = some (.dateTime overrun.shown) ∧
      ofJson? (Query.dateTime overrun).toJson ≠ some (.dateTime overrun) := by
  have hread : ofJson? (Query.dateTime overrun).toJson = some (.dateTime overrun.shown) :=
    ofJson?_of_rearranged _ _ (.refl _)
  refine ⟨by decide, by decide, (toJson_shown (.dateTime overrun)).symm, hread, ?_⟩
  rw [hread, ne_eq, Option.some_inj, dateTime.injEq]
  decide

end Query
end TypedQuery
