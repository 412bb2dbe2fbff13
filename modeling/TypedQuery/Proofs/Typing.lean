import TypedQuery.Proofs.NodeLaws
/-!
Compiled graphs are well typed.

Every sort of node has a rule about the types of what stands below it. The compiler never
checks a finished graph against these rules; each construct keeps to its own, also where
operands were widened, enumerations turned into numbers, or constants converted in place.
-/
namespace TypedQuery

/-! ## The rules -/

/-- The items of an array may stand in it, at every depth. -/
inductive Value.WellTyped : Value → Prop
  | scalar {v : Value} : (∀ element items, v ≠ .array element items) → WellTyped v
  | array {element : Ty} {items : List Value} :
    (∀ v ∈ items, v.type = element ∨ v = .null ∧ element.isReference = true) →
    (∀ v ∈ items, WellTyped v) → WellTyped (.array element items)

/-- An entity has a property if it declares it or its base has it. A declaration hides those
of the bases. -/
inductive Model.HasProperty (model : Model) : String → String → Ty → Prop
  | declared {entity property : String} {e : Entity} {t : Ty} :
    model.entity? entity = some e → e.properties.lookup property = some t →
    HasProperty model entity property t
  | inherited {entity base property : String} {e : Entity} {t : Ty} :
    model.entity? entity = some e → e.properties.lookup property = none →
    e.base = some base → HasProperty model base property t →
    HasProperty model entity property t

namespace Expr

/-- The rule of an operator for the types of its operands and its result. -/
inductive OperatorRule (h : Hierarchy) (op : BinaryOp) : Ty → Ty → Ty → Prop
  | logical : op.isLogical = true → OperatorRule h op .bool .bool .bool
  | arithmetic {t : Ty} : op.isArithmetic = true → t.isNumeric = true → OperatorRule h op t t t
  | equality {left right : Ty} : op.isEquality = true →
    left = right ∨ left.accepts h right = true ∨ right.accepts h left = true →
    OperatorRule h op left right .bool
  | relational {t : Ty} : op.isRelational = true → t.isOrdered = true →
    OperatorRule h op t t .bool

/-- The rule of a conversion. Without a cast it widens a number, or it takes an enumeration as
the number it is stored as. -/
inductive ConvertRule (h : Hierarchy) : Ty → Ty → (explicit : Bool) → Prop
  | cast {source target : Ty} : target.castsFrom h source = true →
    ConvertRule h source target true
  | widening {source target : Ty} : source.isNumeric = true →
    Ty.promote? source target = some target → ConvertRule h source target false
  | enumeration {d : EnumDef} : ConvertRule h (.enum d) (.integral d.underlying) false

/-- The typing rule of a node. -/
def TypingRule (model : Model) : Expr → Prop
  | .constant v => v.WellTyped
  | .parameter _ => True
  | .property e name t => ∃ entity, e.type = .entity entity ∧ model.HasProperty entity name t
  | .memberAccess _ m => m.kind.isProperty = true
  | .call m es => m.hasReceiver = false ∧ es.length = m.params.length
  | .callOn _ m es => m.hasReceiver = true ∧ es.length = m.params.length
  | .binary op l r t => OperatorRule model.hierarchy op l.type r.type t
  | .convert e t explicit => ConvertRule model.hierarchy e.type t explicit
  | .typeIs _ target => ∃ text, model.resolveType? text = some target
  | .newArray t es => ∀ e ∈ es, e.type = t ∨ e.type = .null ∧ t.isReference = true
  | .lambda _ _ => True
  | .quote e => (∃ ps body, e = .lambda ps body) ∨ ∃ inner, e = .quote inner

/-- Every node of the graph satisfies its typing rule. -/
def WellTyped (model : Model) (e : Expr) : Prop := e.Everywhere (TypingRule model)

theorem TypingRule.renumber {model : Model} (f : Nat → Nat) {e : Expr}
    (h : e.TypingRule model) : (e.renumber f).TypingRule model := by
  cases e with
  | parameter | lambda => trivial
  | quote inner =>
    rcases h with ⟨ps, body, rfl⟩ | ⟨inner, rfl⟩
    · exact .inl ⟨_, _, rfl⟩
    · exact .inr ⟨_, rfl⟩
  | _ => simpa [TypingRule, Expr.renumber, renumberEach_eq_map] using h

end Expr

/-! ## Constants -/

namespace Ty

theorem eq_integral_of_integral? {t : Ty} {k : Integral} (h : t.integral? = some k) :
    t = .integral k := by
  cases t with
  | primitive p => cases p <;> cases k <;> first | rfl | cases h
  | _ => cases h

end Ty

namespace Value

/-- A constant that is no array is well typed. -/
theorem wellTyped_of_type {v : Value} (h : ∀ t, v.type ≠ .array t) : v.WellTyped :=
  .scalar fun element _ hv => h element (hv ▸ rfl)

theorem type_ofIntAs? {target : Ty} {n : Int} {v : Value} (h : ofIntAs? target n = some v) :
    v.type = target := by
  rcases ofIntAs?_cases h with ⟨rfl, _, -, rfl⟩ | ⟨rfl, _, -, rfl⟩ | ⟨rfl, _, -, rfl⟩ | ⟨_, hk, h⟩
  · rfl
  · rfl
  · rfl
  · rw [type_ofInt? h, Ty.eq_integral_of_integral? hk]

theorem type_convert? {target : Ty} {v w : Value} (h : convert? target v = some w) :
    w.type = target := by
  rcases convert?_cases h with ⟨ht, rfl⟩ | ⟨_, _, _, -, h⟩ | ⟨_, -, rfl, rfl⟩
  · exact ht
  · exact type_ofIntAs? h
  · rfl

theorem wellTyped_ofIntAs? {target : Ty} {n : Int} {v : Value} (h : ofIntAs? target n = some v) :
    v.WellTyped := by
  refine wellTyped_of_type fun t ht => ?_
  rw [type_ofIntAs? h] at ht
  subst ht
  simp [ofIntAs?, Ty.integral?] at h

theorem wellTyped_convert? {target : Ty} {v w : Value} (hv : v.WellTyped)
    (h : convert? target v = some w) : w.WellTyped := by
  rcases convert?_cases h with ⟨-, rfl⟩ | ⟨_, _, _, -, h⟩ | ⟨_, -, -, rfl⟩
  · exact hv
  · exact wellTyped_ofIntAs? h
  · exact .scalar (by simp)

end Value

namespace NumberLiteral

theorem type_readSuffixed? {suffix : Suffix} {body : List Char} {v : Value}
    (h : readSuffixed? suffix body = some v) : v.type = suffix.type := by
  cases suffix with
  | decimal | single | double => obtain ⟨_, _, rfl⟩ := Option.map_eq_some_iff.mp h; rfl
  | int64 =>
    obtain ⟨n, _, h⟩ := Option.bind_eq_some_iff.mp h
    exact Value.type_ofInt? h

theorem type_readWhole? {body : List Char} {v : Value} (h : readWhole? body = some v) :
    v.type = .int32 ∨ v.type = .int64 := by
  obtain ⟨_, h⟩ := readWhole?_cases h
  exact h.imp Value.type_ofInt? Value.type_ofInt?

theorem type_readPlain? {body : List Char} {v : Value} (h : readPlain? body = some v) :
    v.type = .double ∨ v.type = .int32 ∨ v.type = .int64 := by
  unfold readPlain? at h
  split at h
  · obtain ⟨_, _, rfl⟩ := Option.map_eq_some_iff.mp h
    exact .inl rfl
  · exact .inr (type_readWhole? h)

theorem isNumeric_value {text : List Char} {literal : NumberLiteral}
    (h : read? text = some literal) : literal.value.type.isNumeric = true := by
  rcases read?_cases h with ⟨suffix, hv⟩ | hv
  · rw [type_readSuffixed? hv]
    cases suffix <;> rfl
  · rcases type_readPlain? hv with ht | ht | ht <;> rw [ht] <;> rfl

theorem type_as? {literal : NumberLiteral} {target : Ty} {v : Value}
    (h : literal.as? target = some v) : v.type = target := by
  unfold as? at h
  split at h
  · exact Value.type_convert? h
  · split at h
    · obtain ⟨_, _, rfl⟩ := Option.map_eq_some_iff.mp h; rfl
    · obtain ⟨_, _, rfl⟩ := Option.map_eq_some_iff.mp h; rfl
    · obtain ⟨_, _, rfl⟩ := Option.map_eq_some_iff.mp h; rfl
    · cases h

/-- A number literal is of a numeric type, whatever is expected where it stands. -/
theorem isNumeric_valueFor {text : List Char} {literal : NumberLiteral}
    (h : read? text = some literal) (expected : Option Ty) :
    (literal.valueFor expected).type.isNumeric = true := by
  rcases valueFor_cases literal expected with heq | ⟨target, htarget, has⟩
  · rw [heq]
    exact isNumeric_value h
  · rwa [type_as? has]

end NumberLiteral

/-! ## The constructs -/

namespace Expr

variable {model : Model} {l r e : Expr} {t : Ty}

theorem wellTyped_iff :
    e.WellTyped model ↔ e.TypingRule model ∧ ∀ c ∈ e.children, c.WellTyped model :=
  everywhere_iff

theorem wellTyped_constant {v : Value} (h : v.WellTyped) : (constant v).WellTyped model :=
  wellTyped_iff.mpr ⟨h, by simp [children]⟩

theorem wellTyped_parameter (p : Param) : (parameter p).WellTyped model :=
  wellTyped_iff.mpr ⟨trivial, by simp [children]⟩

theorem wellTyped_binary {op : BinaryOp} (hl : l.WellTyped model) (hr : r.WellTyped model)
    (h : OperatorRule model.hierarchy op l.type r.type t) :
    (binary op l r t).WellTyped model :=
  wellTyped_iff.mpr ⟨h, by simp [children, hl, hr]⟩

theorem wellTyped_convert {explicit : Bool} (he : e.WellTyped model)
    (h : ConvertRule model.hierarchy e.type t explicit) :
    (convert e t explicit).WellTyped model :=
  wellTyped_iff.mpr ⟨h, by simp [children, he]⟩

theorem wellTyped_coerce (he : e.WellTyped model) (h : Ty.promote? e.type t = some t) :
    (e.coerce t).WellTyped model := by
  rcases coerce_cases e t with ⟨-, heq⟩ | ⟨v, w, rfl, hw, heq⟩ | heq <;> rw [heq]
  · exact he
  · exact wellTyped_constant (Value.wellTyped_convert? he.root hw)
  · exact wellTyped_convert he (.widening (Ty.isNumeric_of_promote? h).1 h)

/-- Operands that have been brought to one type suit every operator on numbers. -/
theorem operatorRule_of_isNumeric {h : Hierarchy} {op : BinaryOp} (hop : op.isLogical = false)
    (ht : t.isNumeric = true) :
    OperatorRule h op t t (if op.isArithmetic then t else .bool) := by
  cases harithmetic : op.isArithmetic with
  | true => exact .arithmetic harithmetic ht
  | false =>
    cases hequality : op.isEquality with
    | true => exact .equality hequality (.inl rfl)
    | false =>
      exact .relational (BinaryOp.isRelational_iff.mpr ⟨hop, harithmetic, hequality⟩)
        (by simp [Ty.isOrdered, ht])

theorem wellTyped_caseConstant {d : EnumDef} {name : String} (h : caseConstant d name = .ok e) :
    e.WellTyped model ∧ e.type = .integral d.underlying := by
  obtain ⟨n, holds, -, rfl⟩ := caseConstant_eq_ok h
  exact ⟨wellTyped_constant (.scalar (by simp)), rfl⟩

theorem wellTyped_combine {op : BinaryOp} (hl : l.WellTyped model) (hr : r.WellTyped model)
    (h : combine model.hierarchy op l r = .ok e) : e.WellTyped model := by
  obtain ⟨l', r', t, rfl, hop⟩ := operation_of_combine h
  cases hop with
  | logical hop hlt hrt =>
    refine wellTyped_binary hl hr ?_
    rw [hlt, hrt]
    exact .logical hop
  | widened hop ht =>
    obtain ⟨hlt, hrt⟩ := Ty.promote?_join ht
    refine wellTyped_binary (wellTyped_coerce hl hlt) (wellTyped_coerce hr hrt) ?_
    rw [type_coerce _ _ fun _ _ => Value.type_convert?,
      type_coerce _ _ fun _ _ => Value.type_convert?]
    exact operatorRule_of_isNumeric hop (Ty.isNumeric_of_promote? hlt).2
  | caseOnRight hop hd hc =>
    obtain ⟨hc, hctype⟩ := wellTyped_caseConstant hc
    have hside := enum_of_enumComparison? hd
    exact wellTyped_binary (wellTyped_convert hl (hside ▸ .enumeration)) hc
      (.equality hop (.inl hctype.symm))
  | caseOnLeft hop hd hc =>
    obtain ⟨hc, hctype⟩ := wellTyped_caseConstant hc
    have hside := enum_of_enumComparison? hd
    exact wellTyped_binary hc (wellTyped_convert hr (hside ▸ .enumeration))
      (.equality hop (.inl hctype))
  | equality hop _ _ _ hfits => exact wellTyped_binary hl hr (.equality hop hfits)
  | relational hop _ heq hordered =>
    refine wellTyped_binary hl hr ?_
    rw [heq]
    exact .relational hop hordered

theorem eq_null_of_type {v : Value} (h : v.type = .null) : v = .null := by
  cases v with
  | null => rfl
  | integer k => cases k <;> cases h
  | _ => cases h

theorem wellTyped_arrayOf {expected : Option Ty} {items : List Expr}
    (hitems : ∀ item ∈ items, item.WellTyped model) (h : arrayOf expected items = .ok e) :
    e.WellTyped model := by
  obtain ⟨element, _, hfits, he⟩ := arrayOf_eq_ok h
  have hfits : ∀ item ∈ items,
      item.type = element ∨ item.type = .null ∧ element.isReference = true := by
    intro item hitem
    simpa [fitsArray] using hfits item hitem
  rcases he with rfl | ⟨values, rfl, rfl⟩
  · exact wellTyped_iff.mpr ⟨hfits, hitems⟩
  · rw [List.forall_mem_map] at hfits hitems
    refine wellTyped_constant (.array (fun v hv => ?_) fun v hv => (hitems v hv).root)
    rcases hfits v hv with ht | ⟨ht, href⟩
    · exact .inl ht
    · exact .inr ⟨eq_null_of_type ht, href⟩

end Expr

namespace Model

variable {model : Model}

theorem hasProperty_of_lineage {limit : Nat} {entity property : String} {t : Ty}
    (h : (Entity.lineage model.entities limit entity).findSome?
      (fun e => e.properties.lookup property) = some t) :
    model.HasProperty entity property t := by
  induction limit generalizing entity with
  | zero => simp [Entity.lineage] at h
  | succ limit ih =>
    unfold Entity.lineage at h
    split at h
    · simp at h
    · next e he =>
      split at h
      · rw [List.findSome?_singleton] at h
        exact .declared he h
      · next base hbase =>
        rw [List.findSome?_cons] at h
        split at h
        · next ht => exact .declared he (ht.trans h)
        · next ht => exact .inherited he ht hbase (ih h)

theorem hasProperty_of_property? {receiver : Ty} {property : String} {t : Ty}
    (h : model.property? receiver property = some t) :
    ∃ entity, receiver = .entity entity ∧ model.HasProperty entity property t := by
  cases receiver with
  | entity name => exact ⟨name, rfl, hasProperty_of_lineage h⟩
  | _ => cases h

end Model

/-! ## Whole graphs -/

@[simp]
theorem Member.length_params (m : Member) : m.params.length = m.template.params.length :=
  List.length_map _

@[simp]
theorem Bindings.template_instantiate (b : Bindings) (m : Member) :
    (b.instantiate m).template = m.template := rfl

namespace Query

variable {s : Setting}

theorem wellTyped_of_keyword {name : String} {e : Expr} (h : s.keyword? name = some e) :
    e.WellTyped s.model := by
  cases Setting.keyword?_eq_some_iff.mp h with
  | this => exact Expr.wellTyped_parameter _
  | true | false | null => exact Expr.wellTyped_constant (.scalar (by simp))

theorem isNumeric_of_numberConstant {text : String} {expected : Option Ty} {e : Expr}
    (h : numberConstant text expected = .ok e) : e.type.isNumeric = true := by
  obtain ⟨_, hread, rfl⟩ := numberConstant_eq_ok.mp h
  exact NumberLiteral.isNumeric_valueFor hread expected

theorem wellTyped_of_numberConstant {text : String} {expected : Option Ty} {e : Expr}
    (h : numberConstant text expected = .ok e) : e.WellTyped s.model := by
  obtain ⟨v, rfl⟩ := constant_of_numberConstant h
  refine Expr.wellTyped_constant (Value.wellTyped_of_type fun t ht => ?_)
  have hnumeric := isNumeric_of_numberConstant h
  rw [Expr.type, ht] at hnumeric
  cases hnumeric

/-- Every rule of elaboration makes a well-typed graph out of well-typed ones. -/
theorem Elaborates.wellTyped {q : Query} {scope : List Param} {receiver : Option Expr}
    {expected : Option Ty} {n m : Nat} {e : Expr}
    (h : Elaborates s q scope receiver expected n e m)
    (hreceiver : ∀ base ∈ receiver, base.WellTyped s.model) : e.WellTyped s.model := by
  induction h with
  | keyword hk => exact wellTyped_of_keyword hk
  | param => exact Expr.wellTyped_parameter _
  | ownProperty _ _ ht =>
    exact Expr.wellTyped_iff.mpr ⟨Model.hasProperty_of_property? ht,
      by simp [Expr.children, Expr.wellTyped_parameter]⟩
  | property ht =>
    exact Expr.wellTyped_iff.mpr ⟨Model.hasProperty_of_property? ht,
      by simpa [Expr.children] using hreceiver⟩
  | @indexer _ _ _ receiver _ _ _ _ _ _ ht _ _ _ ih =>
    refine Expr.wellTyped_iff.mpr ⟨⟨rfl, rfl⟩, ?_⟩
    refine List.forall_mem_cons.mpr ⟨?_, by simpa using ih (by simp)⟩
    refine Expr.wellTyped_iff.mpr ⟨Model.hasProperty_of_property? ht, ?_⟩
    simp only [Expr.children, List.mem_singleton, forall_eq]
    cases receiver with
    | none => exact Expr.wellTyped_parameter _
    | some base => exact hreceiver base rfl
  | path _ _ ihl ihr =>
    exact ihr fun base hbase => Option.some.inj hbase ▸ ihl hreceiver
  | chained _ ih => exact ih (by simp)
  | isIn _ _ _ ihl ihr =>
    refine Expr.wellTyped_iff.mpr ⟨⟨rfl, rfl⟩, ?_⟩
    simp only [Expr.children, List.forall_mem_cons]
    exact ⟨ihr (by simp), ihl (by simp), by simp⟩
  | operator _ _ he ihl ihr =>
    exact Expr.wellTyped_combine (ihl (by simp)) (ihr (by simp)) he
  | isofThis _ ht =>
    exact Expr.wellTyped_iff.mpr ⟨⟨_, ht⟩, by simp [Expr.children, Expr.wellTyped_parameter]⟩
  | isof _ _ ht ih =>
    exact Expr.wellTyped_iff.mpr ⟨⟨_, ht⟩, by simpa [Expr.children] using ih (by simp)⟩
  | castThis _ _ hc => exact Expr.wellTyped_convert (Expr.wellTyped_parameter _) (.cast hc)
  | cast _ _ _ hc ih => exact Expr.wellTyped_convert (ih (by simp)) (.cast hc)
  | access _ _ _ _ _ _ hb hp ih =>
    refine Expr.wellTyped_iff.mpr ⟨?_, by simpa [Expr.children] using ih (by simp)⟩
    rwa [Expr.TypingRule, Member.kind, Member.template_of_bindDeclaring hb]
  | callOn _ _ _ _ _ _ hr hb hf _ _ ihu ihus =>
    refine Expr.wellTyped_iff.mpr ⟨⟨?_, by simp [hf.length_eq]⟩, ?_⟩
    · rwa [Member.hasReceiver, Member.kind, Bindings.template_instantiate,
        Member.template_of_bindDeclaring hb]
    · refine List.forall_mem_cons.mpr ⟨ihu (by simp), List.forall_mem_map.mpr fun v hv => ?_⟩
      exact ihus v hv (by simp)
  | call _ _ _ _ hr hf _ _ ih =>
    refine Expr.wellTyped_iff.mpr ⟨⟨hr, by simp [hf.length_eq]⟩, ?_⟩
    exact List.forall_mem_map.mpr fun v hv => ih v hv (by simp)
  | lambda _ _ _ ih =>
    exact Expr.wellTyped_iff.mpr ⟨trivial, by simpa [Expr.children] using ih (by simp)⟩
  | quoted h ih =>
    refine Expr.wellTyped_iff.mpr ⟨?_, by simpa [Expr.children] using ih (by simp)⟩
    cases h with
    | lambda => exact .inl ⟨_, _, rfl⟩
    | quoted => exact .inr ⟨_, rfl⟩
  | array _ _ _ he ih =>
    refine Expr.wellTyped_arrayOf (fun item hitem => ?_) he
    obtain ⟨u, hu, rfl⟩ := List.mem_map.mp hitem
    exact ih u hu (by simp)
  | string => exact Expr.wellTyped_constant (.scalar (by simp))
  | guid => exact Expr.wellTyped_constant (.scalar (by simp))
  | dateTime => exact Expr.wellTyped_constant (.scalar (by simp))
  | number he => exact wellTyped_of_numberConstant he

/-- Compilation makes well-typed graphs only, whatever the functions and the model are and
wherever names are looked up. -/
theorem wellTyped_of_compile {registry : Registry} {model : Model} {q : Query} {this : Param}
    {params outer : List Param} {graph : Expr}
    (h : q.compile registry model this params outer = .ok graph) : graph.WellTyped model :=
  everywhere_of_compile (fun _ _ => trivial) (fun f _ => .renumber f)
    (fun hel => hel.wellTyped (by simp)) h

/-- An inherited property as an argument, and a property that is widened to meet a literal. -/
theorem wellTyped_of_compile_inherited :
    ∃ graph, compile .standard ⟨[], [⟨"Animal", none, [("Name", .string)]⟩,
          ⟨"Dog", some "Animal", [("Age", .int16)]⟩]⟩
        (.binary (.value .and) (.call "startswith" [.symbol "Name", .string "R"])
          (.binary (.value .less) (.symbol "Age") (.number "3")))
        (receiverParam (.entity "Dog")) [] [] = .ok graph ∧
      graph.WellTyped ⟨[], [⟨"Animal", none, [("Name", .string)]⟩,
          ⟨"Dog", some "Animal", [("Age", .int16)]⟩]⟩ :=
  Exists.imp (fun _ h => ⟨h, wellTyped_of_compile h⟩) ⟨_, rfl⟩

end Query
end TypedQuery
