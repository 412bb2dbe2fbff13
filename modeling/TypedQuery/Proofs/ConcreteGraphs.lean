import TypedQuery.Proofs.GroundTypes
import TypedQuery.Proofs.OperatorReading
/-!
Compiled graphs leave no type open.

Every type that a graph writes down is put together from types of the resource model, from
those of literals, and from signatures whose placeholders have all been bound. There is a single
way for `null` to get inside another type: `null in [null]` makes an array of it, which only the
search itself is about.
-/
namespace TypedQuery

/-! ## The rule of a node -/

namespace Expr

/-- All types that a node writes down: its own, those of its member, and the one it asks for. -/
def types (e : Expr) : List Ty :=
  e.type :: match e with
    | .memberAccess _ m | .call m _ | .callOn _ m _ => m.types
    | .typeIs _ t => [t]
    | _ => []

/-- A node is written with concrete types only. -/
def ConcreteRule (e : Expr) : Prop := ∀ t ∈ e.types, t.Concrete

variable {e e' : Expr}

/-- Nodes that write down no type but their own. -/
theorem concrete_plain (hplain : e.types = [e.type]) (ht : e.type.Concrete)
    (hchildren : ∀ c ∈ e.children, c.Everywhere ConcreteRule) : e.Everywhere ConcreteRule := by
  refine everywhere_iff.mpr ⟨?_, hchildren⟩
  rw [ConcreteRule, hplain]
  simpa using ht

theorem concrete_parameter {p : Param} (h : p.type.Ground) :
    (parameter p).Everywhere ConcreteRule :=
  concrete_plain rfl h.concrete (by simp [children])

theorem concrete_constant {v : Value} (h : v.type.Concrete) :
    (constant v).Everywhere ConcreteRule :=
  concrete_plain rfl h (by simp [children])

theorem concrete_convert {t : Ty} {explicit : Bool} (he : e.Everywhere ConcreteRule)
    (ht : t.Ground) : (convert e t explicit).Everywhere ConcreteRule :=
  concrete_plain rfl ht.concrete (by simpa [children] using he)

theorem concrete_binary {op : BinaryOp} {l r : Expr} {t : Ty} (hl : l.Everywhere ConcreteRule)
    (hr : r.Everywhere ConcreteRule) (ht : t.Ground) :
    (binary op l r t).Everywhere ConcreteRule :=
  concrete_plain rfl ht.concrete (by simpa [children] using ⟨hl, hr⟩)

theorem concrete_typeIs {t : Ty} (he : e.Everywhere ConcreteRule) (ht : t.Ground) :
    (typeIs e t).Everywhere ConcreteRule := by
  refine everywhere_iff.mpr ⟨?_, by simpa [children] using he⟩
  show ∀ u ∈ [.bool, t], u.Concrete
  simp [(Ty.ground_primitive .bool).concrete, ht.concrete]

/-- The type of a node with a member is one of those of the member. -/
theorem concreteRule_member {m : Member} (he : e.types = m.result :: m.types)
    (hm : ∀ t ∈ m.types, t.Concrete) : e.ConcreteRule := by
  rw [ConcreteRule, he]
  exact List.forall_mem_cons.mpr ⟨hm _ (List.mem_cons_of_mem _ List.mem_cons_self), hm⟩

/-! ## Operators and constructs -/

theorem ground_of_isNumeric {t : Ty} (h : t.isNumeric = true) : t.Ground := by
  obtain ⟨p, rfl⟩ := Ty.exists_primitive_of_isNumeric h
  exact Ty.ground_primitive p

theorem concrete_coerce {t : Ty} (he : e.Everywhere ConcreteRule) (ht : t.isNumeric = true) :
    (e.coerce t).Everywhere ConcreteRule := by
  rcases coerce_cases e t with ⟨-, heq⟩ | ⟨v, w, rfl, hw, heq⟩ | heq <;> rw [heq]
  · exact he
  · refine concrete_constant ?_
    rw [Value.type_convert? hw]
    exact (ground_of_isNumeric ht).concrete
  · exact concrete_convert he (ground_of_isNumeric ht)

theorem concrete_combine {h : Hierarchy} {op : BinaryOp} {l r : Expr}
    (hl : l.Everywhere ConcreteRule) (hr : r.Everywhere ConcreteRule)
    (he : combine h op l r = .ok e) : e.Everywhere ConcreteRule := by
  have hcase : ∀ d name c, caseConstant d name = .ok c → c.Everywhere ConcreteRule := by
    intro d name c hc
    obtain ⟨n, holds, -, rfl⟩ := caseConstant_eq_ok hc
    exact concrete_constant (Ty.ground_primitive _).concrete
  obtain ⟨l', r', t, rfl, hop⟩ := operation_of_combine he
  cases hop with
  | widened _ ht =>
    have hnumeric := (Ty.isNumeric_of_promote? (Ty.promote?_join ht).1).2
    refine concrete_binary (concrete_coerce hl hnumeric) (concrete_coerce hr hnumeric) ?_
    split
    · exact ground_of_isNumeric hnumeric
    · exact Ty.ground_primitive _
  | caseOnRight _ _ hc =>
    exact concrete_binary (concrete_convert hl (Ty.ground_primitive _)) (hcase _ _ _ hc)
      (Ty.ground_primitive _)
  | caseOnLeft _ _ hc =>
    exact concrete_binary (hcase _ _ _ hc) (concrete_convert hr (Ty.ground_primitive _))
      (Ty.ground_primitive _)
  | logical | equality | relational => exact concrete_binary hl hr (Ty.ground_primitive _)

/-- The search for a value of a ground type. -/
theorem concreteRule_search {t : Ty} (ht : t.Ground) (es : List Expr) :
    (call (.instantiate Catalogue.enumerableContains [] [t]) es).ConcreteRule := by
  have hsequence : (Ty.enumerable t).Concrete := by
    refine ⟨Ty.closed_applied.mpr (by simpa using ht.closed), ?_⟩
    simpa [Ty.hasWildcard, Ty.anyPart, Ty.anyPartOf] using ht.concrete.known
  have hbool : Ty.Concrete .bool := (Ty.ground_primitive _).concrete
  have hclass : Ty.Concrete (.entity "Enumerable") := ⟨rfl, rfl⟩
  refine concreteRule_member rfl ?_
  show ∀ u ∈ [.entity "Enumerable", .bool, .enumerable t, t, t], u.Concrete
  simp [hbool, hclass, hsequence, ht.concrete]

/-- What an indexer finds in a dictionary. -/
theorem concreteRule_lookup {t : Ty} (ht : t.Definite) (e : Expr) (es : List Expr) :
    (callOn e (.instantiate Catalogue.dictionaryGet [.string, t] []) es).ConcreteRule := by
  have hstring : Ty.Definite .string := ⟨Ty.ground_primitive _, by simp⟩
  have hdictionary : (Ty.dictionary .string t).Ground :=
    Ty.ground_applied.mpr ⟨rfl, by simp [hstring, ht]⟩
  refine concreteRule_member rfl ?_
  show ∀ u ∈ [.dictionary .string t, t, .string, .string, t], u.Concrete
  simp [hdictionary.concrete, hstring.ground.concrete, ht.ground.concrete]

/-- A graph with concrete types only. Its own type is ground, unless an array of `null` was
expected. -/
structure Settled (expected : Option Ty) (e : Expr) : Prop where
  concrete : e.Everywhere ConcreteRule
  type : e.type.Ground ∨ e.type = .array .null ∧ expected = some (.array .null)

theorem Settled.ground {expected : Option Ty} (he : e.Settled expected)
    (hexpected : ∀ t ∈ expected, t.Proper) : e.type.Ground := by
  refine he.type.resolve_right ?_
  rintro ⟨-, rfl⟩
  exact (Ty.proper_array.mp (hexpected _ rfl)).1 rfl

/-- An array with items of ground types. -/
theorem settled_arrayOf {expected : Option Ty} {items : List Expr}
    (hitems : ∀ item ∈ items, item.type.Ground ∧ item.Everywhere ConcreteRule)
    (hexpected : ∀ t ∈ Query.expectedElement expected, t.Ground)
    (hnull : Query.expectedElement expected = some .null → expected = some (.array .null))
    (he : arrayOf (Query.expectedElement expected) items = .ok e) : e.Settled expected := by
  obtain ⟨element, helement, -, he⟩ := arrayOf_eq_ok he
  have hground : element.Ground ∧ (element = .null → expected = some (.array .null)) := by
    obtain hknown | ⟨-, item, hitem, rfl, hne⟩ := elementType?_cases helement
    · exact ⟨hexpected _ hknown, fun hn => hnull (hn ▸ hknown)⟩
    · exact ⟨(hitems item hitem).1, fun hn => absurd hn hne⟩
  have hconcrete : (Ty.array element).Concrete := by
    refine ⟨Ty.closed_array.trans hground.1.closed, ?_⟩
    simpa [Ty.hasWildcard, Ty.anyPart] using hground.1.concrete.known
  have htype : (Ty.array element).Ground ∨
      Ty.array element = .array .null ∧ expected = some (.array .null) := by
    by_cases hn : element = .null
    · exact .inr ⟨by rw [hn], hground.2 hn⟩
    · exact .inl (Ty.ground_array.mpr ⟨hground.1, hn⟩)
  rcases he with rfl | ⟨values, -, rfl⟩
  · exact ⟨concrete_plain rfl hconcrete fun item hitem => (hitems item hitem).2, htype⟩
  · exact ⟨concrete_constant hconcrete, htype⟩

end Expr

/-! ## Functions and models -/

/-- The type arguments of a function can be told from a call: its signature is proper, and if it
is a property its receiver decides all of them. -/
structure Member.Inferable (m : Member) : Prop where
  tidy : m.Tidy
  revealed : m.kind.isProperty = true → m.template.Revealed

def Registry.Inferable (r : Registry) : Prop := ∀ mapping ∈ r.mappings, mapping.member.Inferable

theorem Registry.inferable_standard : standard.Inferable := by
  have hsignature : ∀ mapping ∈ standard.mappings, ∀ t ∈ mapping.member.template.signature,
      t.Proper := by
    decide
  have hargs : ∀ mapping ∈ standard.mappings,
      ∀ t ∈ mapping.member.declaringArgs ++ mapping.member.methodArgs,
        t.hasPlaceholder = true := by
    decide
  have htransparent : ∀ mapping ∈ standard.mappings, mapping.member.kind.isProperty = true →
      mapping.member.template.declaring.anyPart Ty.isCallable = false ∧
        mapping.member.template.declaring.isPlaceholder = false := by
    decide
  have hmentions : ∀ mapping ∈ standard.mappings, mapping.member.kind.isProperty = true →
      (∀ i < mapping.member.template.slots .declaring,
        mapping.member.template.declaring.Mentions ⟨.declaring, i⟩) ∧
      ∀ i < mapping.member.template.slots .method,
        mapping.member.template.declaring.Mentions ⟨.method, i⟩ := by
    decide
  intro mapping hmapping
  refine ⟨⟨hsignature mapping hmapping, fun origin t ht => .inl ?_⟩, fun hproperty => ?_⟩
  · refine hargs mapping hmapping t ?_
    cases origin
    · exact List.mem_append_left _ ht
    · exact List.mem_append_right _ ht
  · obtain ⟨hplain, hconstructed⟩ := htransparent mapping hmapping hproperty
    refine ⟨⟨hsignature mapping hmapping _ List.mem_cons_self, hplain⟩, hconstructed, ?_⟩
    intro origin
    cases origin
    · exact (hmentions mapping hmapping hproperty).1
    · exact (hmentions mapping hmapping hproperty).2

theorem TypeExpression.definite_of_expressed {named : String → Option Ty}
    (hnamed : ∀ name t, named name = some t → t.Definite) {t : Ty} (h : Expressed named t) :
    t.Definite := by
  induction h with
  | @primitive p hp => exact ⟨Ty.ground_primitive p, by simpa using hp⟩
  | declared _ _ ht => exact hnamed _ _ ht
  | array _ ih => exact ⟨Ty.ground_array.mpr ih, by simp⟩
  | applied hlen _ ih => exact ⟨Ty.ground_applied.mpr ⟨hlen, ih⟩, by simp⟩

/-- Properties are of ground types. -/
def Model.IsGround (model : Model) : Prop := ∀ e ∈ model.entities, ∀ p ∈ e.properties, p.2.Ground

theorem Schema.ground_of_resolve {schema : Schema} {model : Model}
    (h : schema.resolve = .ok model) : model.IsGround := by
  intro e he p hp
  refine (TypeExpression.definite_of_expressed (fun name t ht => ?_)
    (expressed_of_resolve h e he p hp)).ground
  rcases namedBy_eq_some ht with rfl | ⟨d, -, rfl⟩ <;> exact ⟨⟨rfl, rfl⟩, by simp⟩

theorem Model.definite_of_resolveType? {model : Model} {text : String} {t : Ty}
    (h : model.resolveType? text = some t) : t.Definite := by
  refine TypeExpression.definite_of_expressed (fun name t ht => ?_) (expressed_of_resolveType? h)
  rcases named_eq_some ht with ⟨entity, rfl⟩ | ⟨d, -, rfl⟩ <;> exact ⟨⟨rfl, rfl⟩, by simp⟩

/-! ## Queries -/

namespace Query

variable {s : Setting} {q : Query} {scope : List Param} {receiver : Option Expr}
  {expected : Option Ty} {n m : Nat} {e : Expr}

/-- A query is compiled among ground types. Only an array of `null` may be expected besides
proper types. -/
structure GroundContext (scope : List Param) (receiver : Option Expr) (expected : Option Ty) :
    Prop where
  scope : ∀ p ∈ scope, p.type.Ground
  receiver : ∀ base ∈ receiver, base.type.Ground ∧ base.Everywhere Expr.ConcreteRule
  expected : ∀ t ∈ expected, t.Proper ∨ t = .array .null

theorem GroundContext.alone (h : GroundContext scope receiver expected) :
    GroundContext scope none none :=
  ⟨h.scope, by simp, by simp⟩

theorem GroundContext.wanting (h : GroundContext scope receiver expected) {wanted : Option Ty}
    (hwanted : ∀ t ∈ wanted, t.Proper) : GroundContext scope none wanted :=
  ⟨h.scope, by simp, fun t ht => .inl (hwanted t ht)⟩

/-- An array of any ground type may be expected, of `null` as well. -/
theorem GroundContext.wanting_array (h : GroundContext scope receiver expected) {t : Ty}
    (ht : t.Ground) : GroundContext scope none (some (.array t)) := by
  refine ⟨h.scope, by simp, ?_⟩
  rintro _ ⟨⟩
  by_cases hn : t = .null
  · exact .inr (by rw [hn])
  · exact .inl (Ty.ground_array.mpr ⟨ht, hn⟩).proper

theorem GroundContext.concrete_getD (h : GroundContext scope receiver expected)
    (hthis : s.this.type.Ground) :
    (receiver.getD (.parameter s.this)).Everywhere Expr.ConcreteRule := by
  cases receiver with
  | none => exact Expr.concrete_parameter hthis
  | some base => exact (h.receiver base rfl).2

theorem settled_keyword (hthis : s.this.type.Ground) {name : String}
    (h : s.keyword? name = some e) : e.Settled expected := by
  cases Setting.keyword?_eq_some_iff.mp h with
  | this => exact ⟨Expr.concrete_parameter hthis, .inl hthis⟩
  | true | false | null =>
    exact ⟨Expr.concrete_constant (Ty.ground_primitive _).concrete, .inl (Ty.ground_primitive _)⟩

theorem settled_property (hmodel : s.model.IsGround) {base : Expr} {name : String} {t : Ty}
    (ht : s.model.property? base.type name = some t)
    (hbase : base.Everywhere Expr.ConcreteRule) : (Expr.property base name t).Settled expected := by
  have ht := Model.forall_property? hmodel ht
  refine ⟨Expr.concrete_plain rfl ht.concrete ?_, .inl ht⟩
  simpa [Expr.children] using hbase

/-- What is expected of the items of an array. It is `null` only where an array of that is
expected. -/
theorem ground_expectedElement (h : ∀ t ∈ expected, t.Proper ∨ t = .array .null) {t : Ty}
    (ht : expectedElement expected = some t) :
    t.Ground ∧ (t = .null → expected = some (.array .null)) := by
  obtain ⟨u, hu, ht⟩ := Option.bind_eq_some_iff.mp ht
  obtain ⟨array, harray, hu⟩ := Option.bind_eq_some_iff.mp hu
  obtain rfl : array = .array u := by
    unfold Ty.element? at hu
    split at hu <;> cases hu
    rfl
  unfold Setting.known at ht
  split at ht <;> cases ht
  next hclosed =>
    refine ⟨⟨?_, by simpa using hclosed⟩, fun hn => hn ▸ harray⟩
    rcases h _ harray with hproper | hnull
    · exact (Ty.proper_array.mp hproper).2
    · cases hnull
      rfl

theorem ground_paramsFrom {names : List String} {types : List Ty} (h : ∀ t ∈ types, t.Ground)
    (hlen : types.length = names.length) (n : Nat) :
    ∀ p ∈ Setting.paramsFrom n names types, p.type.Ground := by
  intro p hp
  exact h _ (map_type_paramsFrom hlen n ▸ List.mem_map_of_mem hp)

/-- The receiver of a member is compiled for a proper type, if one is known of it. -/
theorem settled_receiver {mapping : Mapping} {u : Part} (hmember : mapping.member.Inferable)
    (hcontext : GroundContext scope receiver expected)
    (hexpected : u.expected = Setting.known mapping.member.template.declaring)
    (hu : GroundContext scope none u.expected → u.graph.Settled u.expected) :
    u.graph.type.Ground ∧ u.graph.Everywhere Expr.ConcreteRule := by
  have hdeclaring := hmember.tidy.signature _ List.mem_cons_self
  have hwanted : ∀ t ∈ u.expected, t.Proper := hexpected ▸ Setting.forall_mem_known hdeclaring
  have hu := hu (hcontext.wanting hwanted)
  exact ⟨hu.ground hwanted, hu.concrete⟩

/-- Arguments that fit a declaration are compiled for proper types, and with what they bind the
member has ground types. -/
theorem concrete_arguments {member : Member} {us : List Part} {b : Bindings}
    (htidy : member.Tidy)
    (hf : Fitted s.hierarchy member.template.params us (.ofMember member) b)
    (hdeclaring : (b.instantiate member).hasOpenDeclaring = false)
    (hmethod : (b.instantiate member).hasOpenMethod = false)
    (hus : ∀ v ∈ us, (∀ t ∈ v.expected, t.Proper) → v.graph.Settled v.expected) :
    (b.instantiate member).result.Ground ∧
      (∀ t ∈ (b.instantiate member).types, t.Concrete) ∧
      ∀ v ∈ us, v.graph.Everywhere Expr.ConcreteRule := by
  obtain ⟨hdefinite, hexpected⟩ := hf.definite
    (fun w hw => htidy.signature w (MemberTemplate.mem_signature hw))
    (fun v hv hexpected => (hus v hv hexpected).ground hexpected) htidy.ofMember
  obtain ⟨hresult, hm⟩ :=
    (htidy.instantiate hdefinite).concrete (Member.closed_args hdeclaring hmethod)
  exact ⟨hresult, hm, fun v hv => (hus v hv (hexpected v hv)).concrete⟩

theorem settled_lambda {names : List String} {types : List Ty} {result : Ty} {body : Expr}
    (hlen : types.length = names.length) (hclosed : types.any Ty.hasPlaceholder = false)
    (hproper : (Ty.function types result).Proper) (hscope : ∀ p ∈ scope, p.type.Ground)
    (hbody : GroundContext (Setting.paramsFrom n names types ++ scope) none
      (Setting.known result) → body.Settled (Setting.known result)) :
    (Expr.lambda (Setting.paramsFrom n names types) body).Settled expected := by
  obtain ⟨htypes, hresult⟩ := Ty.proper_function.mp hproper
  have hground : ∀ t ∈ types, t.Ground := by
    rw [List.any_eq_false] at hclosed
    exact fun t ht => ⟨htypes t ht, Bool.eq_false_iff.mpr (hclosed t ht)⟩
  have hwanted : ∀ t ∈ Setting.known result, t.Proper := Setting.forall_mem_known hresult
  have hparams := List.forall_mem_append.mpr ⟨ground_paramsFrom hground hlen n, hscope⟩
  have hbody := hbody ⟨hparams, by simp, fun t ht => .inl (hwanted t ht)⟩
  have htype : (Expr.lambda (Setting.paramsFrom n names types) body).type.Ground := by
    rw [Expr.type, map_type_paramsFrom hlen n]
    exact Ty.ground_function.mpr ⟨hground, hbody.ground hwanted⟩
  refine ⟨Expr.concrete_plain rfl htype.concrete ?_, .inl htype⟩
  simpa [Expr.children] using hbody.concrete

/-- Every rule of elaboration makes a graph with concrete types only out of such graphs. -/
theorem Elaborates.settled (h : Elaborates s q scope receiver expected n e m)
    (hregistry : s.registry.Inferable) (hmodel : s.model.IsGround)
    (hthis : s.this.type.Ground) (hcontext : GroundContext scope receiver expected) :
    e.Settled expected := by
  induction h with
  | keyword hk => exact settled_keyword hthis hk
  | param _ hp =>
    have ht := hcontext.scope _ (List.mem_of_find?_eq_some hp)
    exact ⟨Expr.concrete_parameter ht, .inl ht⟩
  | ownProperty _ _ ht => exact settled_property hmodel ht (Expr.concrete_parameter hthis)
  | property ht => exact settled_property hmodel ht (hcontext.receiver _ rfl).2
  | @indexer name _ _ receiver _ _ _ t value _ ht hd _ _ ih =>
    have hvalue : value.Definite :=
      (Model.definite_of_instance? (Model.forall_property? hmodel ht) hd).2 value (by simp)
    have hdictionary : (Expr.property (receiver.getD (.parameter s.this)) name t).Settled none :=
      settled_property hmodel ht (hcontext.concrete_getD hthis)
    have hexpected : ∀ t ∈ some Ty.string, t.Proper := by
      rintro _ ⟨⟩
      exact (Ty.ground_primitive _).proper
    have hkey := ih (hcontext.wanting hexpected)
    refine ⟨Expr.everywhere_iff.mpr ⟨Expr.concreteRule_lookup hvalue _ _, ?_⟩, .inl hvalue.ground⟩
    exact List.forall_mem_cons.mpr ⟨hdictionary.concrete, by simpa using hkey.concrete⟩
  | path _ _ ihl ihr =>
    have hl := ihl ⟨hcontext.scope, hcontext.receiver, by simp⟩
    have hr := ihr ⟨hcontext.scope, fun base hbase =>
      Option.some.inj hbase ▸ ⟨hl.ground (by simp), hl.concrete⟩, by simp⟩
    exact ⟨hr.concrete, .inl (hr.ground (by simp))⟩
  | chained _ ih =>
    have he := ih hcontext.alone
    exact ⟨he.concrete, .inl (he.ground (by simp))⟩
  | isIn _ _ _ ihl ihr =>
    have hvalue := ihl hcontext.alone
    have hground := hvalue.ground (by simp)
    have harray := ihr (hcontext.wanting_array hground)
    refine ⟨Expr.everywhere_iff.mpr ⟨Expr.concreteRule_search hground _, ?_⟩,
      .inl (Ty.ground_primitive _)⟩
    simpa [Expr.children] using ⟨harray.concrete, hvalue.concrete⟩
  | operator _ _ he ihl ihr =>
    obtain ⟨p, hp⟩ := Expr.type_combine he
    refine ⟨Expr.concrete_combine (ihl hcontext.alone).concrete (ihr hcontext.alone).concrete he,
      .inl ?_⟩
    rw [hp]
    exact Ty.ground_primitive p
  | isofThis _ ht =>
    exact ⟨Expr.concrete_typeIs (Expr.concrete_parameter hthis)
      (Model.definite_of_resolveType? ht).ground, .inl (Ty.ground_primitive _)⟩
  | isof _ _ ht ih =>
    exact ⟨Expr.concrete_typeIs (ih hcontext.alone).concrete
      (Model.definite_of_resolveType? ht).ground, .inl (Ty.ground_primitive _)⟩
  | castThis _ ht =>
    have ht := (Model.definite_of_resolveType? ht).ground
    exact ⟨Expr.concrete_convert (Expr.concrete_parameter hthis) ht, .inl ht⟩
  | cast _ _ ht _ ih =>
    have ht := (Model.definite_of_resolveType? ht).ground
    exact ⟨Expr.concrete_convert (ih hcontext.alone).concrete ht, .inl ht⟩
  | @access _ _ _ _ _ _ mapping _ _ hm _ _ _ hexpected _ hb hproperty ih =>
    have hmember := hregistry mapping (Registry.mem_candidates.mp hm).1
    obtain ⟨hground, hu⟩ := settled_receiver hmember hcontext hexpected ih
    have hclosed :=
      hmember.tidy.closed_of_bindDeclaring (hmember.revealed hproperty) hground hb
    obtain ⟨hresult, hm⟩ := (hmember.tidy.bindDeclaring hground hb).concrete hclosed
    refine ⟨Expr.everywhere_iff.mpr ⟨Expr.concreteRule_member rfl hm, ?_⟩, .inl hresult⟩
    simpa [Expr.children] using hu
  | @callOn _ _ _ _ _ _ mapping _ _ _ _ hm _ _ hexpected _ _ _ hb hf hd hmethod ihu ihus =>
    have hmember := hregistry mapping (Registry.mem_candidates.mp hm).1
    obtain ⟨hground, hu⟩ := settled_receiver hmember hcontext hexpected ihu
    have hbound := hmember.tidy.bindDeclaring hground hb
    obtain ⟨hresult, hm, hus⟩ := concrete_arguments hbound hf hd hmethod
      fun v hv hexpected => ihus v hv (hcontext.wanting hexpected)
    refine ⟨Expr.everywhere_iff.mpr ⟨Expr.concreteRule_member rfl hm, ?_⟩, .inl hresult⟩
    exact List.forall_mem_cons.mpr ⟨hu, List.forall_mem_map.mpr hus⟩
  | @call _ _ _ _ _ _ mapping _ _ hm _ _ _ _ hf hd hmethod ih =>
    have hmember := hregistry mapping (Registry.mem_candidates.mp hm).1
    obtain ⟨hresult, hm, hus⟩ := concrete_arguments hmember.tidy hf hd hmethod
      fun v hv hexpected => ih v hv (hcontext.wanting hexpected)
    exact ⟨Expr.everywhere_iff.mpr ⟨Expr.concreteRule_member rfl hm, List.forall_mem_map.mpr hus⟩,
      .inl hresult⟩
  | lambda hlen hclosed _ ih =>
    exact settled_lambda hlen hclosed ((hcontext.expected _ rfl).resolve_right (by simp))
      hcontext.scope ih
  | quoted _ ih =>
    have hproper := Ty.proper_quoted.mp ((hcontext.expected _ rfl).resolve_right (by simp))
    have hwanted : ∀ t ∈ some _, Ty.Proper t := fun t ht => Option.some.inj ht ▸ hproper
    have hinner := ih (hcontext.wanting hwanted)
    have htype := Ty.ground_quoted.mpr (hinner.ground hwanted)
    refine ⟨Expr.concrete_plain rfl htype.concrete ?_, .inl htype⟩
    simpa [Expr.children] using hinner.concrete
  | @array _ _ expected _ _ us _ _ _ _ he ih =>
    have hwanted : ∀ t ∈ expectedElement expected, t.Proper := fun t ht =>
      (ground_expectedElement hcontext.expected ht).1.proper
    refine Expr.settled_arrayOf (List.forall_mem_map.mpr fun v hv => ?_)
      (fun t ht => (ground_expectedElement hcontext.expected ht).1)
      (fun ht => (ground_expectedElement hcontext.expected ht).2 rfl) he
    have hv := ih v hv (hcontext.wanting hwanted)
    exact ⟨hv.ground hwanted, hv.concrete⟩
  | number he =>
    obtain ⟨v, rfl⟩ := constant_of_numberConstant he
    have ht := Expr.ground_of_isNumeric (isNumeric_of_numberConstant he)
    exact ⟨Expr.concrete_constant ht.concrete, .inl ht⟩
  | string | guid | dateTime =>
    exact ⟨Expr.concrete_constant (Ty.ground_primitive _).concrete, .inl (Ty.ground_primitive _)⟩

/-- No placeholder and no wildcard is left in a graph: not in the type of a node, and not in
the arguments, the parameters and the result of a member. -/
theorem concrete_of_compilePredicate {schema : Schema} {model : Model} {text : String} {root : Ty}
    {graph : Expr} (hschema : schema.resolve = .ok model)
    (hroot : model.resolveType? text = some root)
    (h : q.compilePredicate .standard model root = .ok graph) :
    graph.Everywhere Expr.ConcreteRule := by
  obtain ⟨body, hbody, rfl⟩ := compilePredicate_eq_ok.mp h
  obtain ⟨m, hmeaning⟩ := bodyFrom_eq_ok.mp hbody
  have hthis : (receiverParam root).type.Ground := (Model.definite_of_resolveType? hroot).ground
  have hsettled : body.Settled none :=
    (elaborates_of_meaning q hmeaning).settled Registry.inferable_standard
      (Schema.ground_of_resolve hschema) hthis ⟨by simp [receiverParam], by simp, by simp⟩
  have htype : (Ty.function [root] body.type).Ground :=
    Ty.ground_function.mpr ⟨by simpa [receiverParam] using hthis, hsettled.ground (by simp)⟩
  exact Expr.concrete_plain rfl htype.concrete (by simpa [Expr.children] using hsettled.concrete)

/-- A property of a generic type, a function with a lambda, and a search for `null`. -/
theorem concrete_of_compilePredicate_null :
    ∃ model, Schema.resolve ⟨[], [⟨"Dog", none, [("Names", "List<String>")]⟩]⟩ = .ok model ∧
      model.resolveType? "Dog" = some (.entity "Dog") ∧
      ∃ graph, compilePredicate .standard model (.entity "Dog")
        (.binary (.value .and) (.binary (.value .and)
          (.binary (.value .less) (.call "count" [.symbol "Names"]) (.number "3"))
          (.call "any" [.symbol "Names", .lambda ["n"] (.binary (.value .equal) (.symbol "n")
            (.symbol "null"))]))
          (.binary .isIn (.symbol "null") (.array [.symbol "null"]))) = .ok graph ∧
        graph.Everywhere Expr.ConcreteRule := by
  have hschema : Schema.resolve ⟨[], [⟨"Dog", none, [("Names", "List<String>")]⟩]⟩ =
      .ok ⟨[], [⟨"Dog", none, [("Names", .list .string)]⟩]⟩ := by
    decide +kernel
  have hroot : Model.resolveType? ⟨[], [⟨"Dog", none, [("Names", .list .string)]⟩]⟩ "Dog" =
      some (.entity "Dog") := by
    decide +kernel
  exact ⟨_, hschema, hroot,
    Exists.imp (fun graph h => ⟨h, concrete_of_compilePredicate hschema hroot h⟩) ⟨_, rfl⟩⟩

end Query
end TypedQuery
