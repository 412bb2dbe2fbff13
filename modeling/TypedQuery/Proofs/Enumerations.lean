import TypedQuery.Proofs.DeclaredTypes
import TypedQuery.Proofs.Renderable
import TypedQuery.Proofs.Signatures
/-!
The enumerations that a graph is about.

Types are put together from those of properties and casts, and from those of the signatures of
functions. So an enumeration that a graph mentions is one of the resource model, unless a
function mentions another one.
-/
namespace TypedQuery

/-! ## Marks -/

namespace Ty

variable {mark : Ty → Bool} {lookup : Slot → Option Ty}

mutual
/-- Nothing is marked after a substitution that was not marked before. -/
theorem anyPart_substitute (hmark : IsMark mark)
    (hlookup : ∀ p t, lookup p = some t → t.anyPart mark = false) :
    ∀ t : Ty, t.anyPart mark = false → (t.substitute lookup).anyPart mark = false
  | .primitive _, h | .enum _, h | .entity _, h | .wildcard, h => h
  | .placeholder p, h => by
    rw [substitute]
    cases hp : lookup p.toSlot with
    | none => exact h
    | some t => exact hlookup p.toSlot t hp
  | .array t, h => by
    rw [hmark.anyPart_array] at h
    rw [substitute, hmark.anyPart_array]
    exact anyPart_substitute hmark hlookup t h
  | .quoted t, h => by
    rw [hmark.anyPart_quoted] at h
    rw [substitute, hmark.anyPart_quoted]
    exact anyPart_substitute hmark hlookup t h
  | .applied c ts, h => by
    rw [hmark.anyPart_applied] at h
    rw [substitute, hmark.anyPart_applied]
    exact anyPart_substituteEach hmark hlookup ts h
  | .function ps r, h => by
    rw [hmark.anyPart_function, Bool.or_eq_false_iff] at h
    rw [substitute, hmark.anyPart_function, Bool.or_eq_false_iff]
    exact ⟨anyPart_substituteEach hmark hlookup ps h.1, anyPart_substitute hmark hlookup r h.2⟩

theorem anyPart_substituteEach (hmark : IsMark mark)
    (hlookup : ∀ p t, lookup p = some t → t.anyPart mark = false) :
    ∀ ts : List Ty, anyPartOf mark ts = false →
      anyPartOf mark (substituteEach lookup ts) = false
  | [], _ => rfl
  | t :: ts, h => by
    obtain ⟨ht, hts⟩ := Bool.or_eq_false_iff.mp h
    rw [substituteEach, anyPartOf, anyPart_substitute hmark hlookup t ht,
      anyPart_substituteEach hmark hlookup ts hts]
    rfl
end

/-- A mark that is weaker than another one marks no less. -/
theorem anyPart_mono {weak : Ty → Bool} (h : ∀ t, mark t = true → weak t = true) :
    ∀ t : Ty, t.anyPart weak = false → t.anyPart mark = false := by
  refine ofChildren fun t ih ht => ?_
  rw [anyPart_eq, Bool.or_eq_false_iff, List.any_eq_false] at ht ⊢
  obtain ⟨hroot, hchildren⟩ := ht
  refine ⟨Bool.eq_false_iff.mpr fun hm => Bool.eq_false_iff.mp hroot (h t hm), ?_⟩
  intro child hchild
  exact Bool.eq_false_iff.mp (ih child hchild (Bool.eq_false_iff.mpr (hchildren child hchild)))

end Ty

theorem Bindings.mem_of_mem_pick {slots : List (Option Ty)} {current : List Ty} {t : Ty}
    (h : t ∈ pick slots current) : some t ∈ slots ∨ t ∈ current := by
  fun_induction pick slots current with
  | case1 u slots c current ih =>
    rcases List.mem_cons.mp h with rfl | h
    · exact .inl List.mem_cons_self
    · exact (ih h).imp (List.mem_cons_of_mem _) (List.mem_cons_of_mem _)
  | case2 slots c current ih =>
    rcases List.mem_cons.mp h with rfl | h
    · exact .inr List.mem_cons_self
    · exact (ih h).imp (List.mem_cons_of_mem _) (List.mem_cons_of_mem _)
  | case3 => exact .inr h

/-- Bindings replace arguments of a member by types that they bind. -/
theorem Bindings.mem_args_instantiate {b : Bindings} {m : Member} {origin : Origin} {t : Ty}
    (ht : t ∈ (b.instantiate m).args origin) : (∃ p, b.get? p = some t) ∨ t ∈ m.args origin := by
  rw [args_instantiate] at ht
  refine (mem_of_mem_pick ht).imp_left fun ht => ?_
  obtain ⟨i, hi⟩ := List.mem_iff_getElem?.mp ht
  exact ⟨⟨origin, i⟩, by rw [get?, slot?, hi, Option.join_some]⟩

theorem MemberTemplate.mem_signature {t : MemberTemplate} {w : Ty} (hw : w ∈ t.params) :
    w ∈ t.signature :=
  List.mem_cons_of_mem _ (List.mem_cons_of_mem _ hw)

/-- The member and its declaration are without marks. -/
structure Member.Free (mark : Ty → Bool) (m : Member) : Prop where
  signature : ∀ t ∈ m.template.signature, t.anyPart mark = false
  args : ∀ origin, ∀ t ∈ m.args origin, t.anyPart mark = false

namespace Member.Free

variable {mark : Ty → Bool} {m : Member} (hm : m.Free mark)

include hm

theorem forall_mem_known : ∀ t ∈ Setting.known m.template.declaring, t.anyPart mark = false :=
  Setting.forall_mem_known (hm.signature _ List.mem_cons_self)

theorem ofMember : (Bindings.ofMember m).Free mark := by
  intro p t hp
  exact hm.args p.origin t (List.mem_of_getElem? (Bindings.get?_ofMember.mp hp).1)

theorem instantiate {b : Bindings} (hb : b.Free mark) : (b.instantiate m).Free mark where
  signature := hm.signature
  args := by
    intro origin t ht
    rcases Bindings.mem_args_instantiate ht with ⟨p, hp⟩ | ht
    · exact hb hp
    · exact hm.args origin t ht

theorem bindDeclaring {model : Model} (hmark : Ty.IsMark mark) {bound : Member} {receiver : Ty}
    (hr : receiver.anyPart mark = false)
    (hb : m.bindDeclaring model.hierarchy receiver = .ok bound) : bound.Free mark := by
  obtain ⟨b, rfl, hmatched⟩ := Member.matched_of_bindDeclaring hb
  exact hm.instantiate (hmatched.free hmark hr hm.ofMember)

theorem result (hmark : Ty.IsMark mark) : m.result.anyPart mark = false := by
  refine Ty.anyPart_substitute hmark (fun p t hp => ?_) _ (hm.signature _ ?_)
  · exact hm.args p.origin t (List.mem_of_getElem? hp)
  · exact List.mem_cons_of_mem _ List.mem_cons_self

end Member.Free

/-- Arguments bind nothing with a mark unless they have one themselves, and then no type with a
mark is expected of those behind them. -/
theorem Fitted.free {model : Model} {mark : Ty → Bool} (hmark : Ty.IsMark mark)
    {signature : List Ty} {us : List Part} {b b' : Bindings}
    (hf : Fitted model.hierarchy signature us b b')
    (hsignature : ∀ w ∈ signature, w.anyPart mark = false)
    (hus : ∀ u ∈ us, (∀ t ∈ u.expected, t.anyPart mark = false) →
      u.graph.type.anyPart mark = false)
    (hb : b.Free mark) :
    b'.Free mark ∧ ∀ u ∈ us, ∀ t ∈ u.expected, t.anyPart mark = false :=
  hf.preserves (fun w hw _ hb => Ty.anyPart_substitute hmark hb w (hsignature w hw))
    (fun w _ _ _ _ hb ht hm => (Bindings.matched_of_matchType w hm).free hmark ht hb) hus hb

/-! ## Enumerations of a model -/

/-- An enumeration that is not among `enums`. -/
def Ty.isForeign (enums : List EnumDef) : Ty → Bool
  | .enum d => !enums.contains d
  | _ => false

/-- The type mentions no other enumerations than these. -/
def Ty.Native (enums : List EnumDef) (t : Ty) : Prop := t.anyPart (isForeign enums) = false

theorem Ty.isMark_isForeign (enums : List EnumDef) : IsMark (isForeign enums) := by
  intro t ht
  cases t with
  | enum d => exact .inr ⟨d, rfl⟩
  | _ => cases ht

theorem Ty.native_enum {enums : List EnumDef} {d : EnumDef} :
    (Ty.enum d).Native enums ↔ d ∈ enums := by
  simp [Native, anyPart, isForeign]

/-- Properties are of types with enumerations of the model. -/
def Model.IsNative (model : Model) : Prop :=
  ∀ e ∈ model.entities, ∀ p ∈ e.properties, p.2.Native model.enums

theorem TypeExpression.native_of_expressed {named : String → Option Ty} {enums : List EnumDef}
    (hnamed : ∀ name t, named name = some t → t.Native enums) {t : Ty}
    (h : Expressed named t) : t.Native enums := by
  have hmark := Ty.isMark_isForeign enums
  induction h with
  | primitive => rfl
  | declared _ _ ht => exact hnamed _ _ ht
  | array _ ih => rwa [Ty.Native, hmark.anyPart_array]
  | applied _ _ ih =>
    rw [Ty.Native, hmark.anyPart_applied, Ty.anyPartOf_eq_any, List.any_eq_false]
    intro t ht
    rw [ih t ht]
    exact Bool.false_ne_true

namespace Schema

end Schema

namespace Model

variable {model : Model}

theorem native_of_resolveType? {text : String} {t : Ty} (h : model.resolveType? text = some t) :
    t.Native model.enums := by
  refine TypeExpression.native_of_expressed (fun name t ht => ?_) (expressed_of_resolveType? h)
  rcases named_eq_some ht with ⟨entity, rfl⟩ | ⟨d, hd, rfl⟩
  · rfl
  · exact Ty.native_enum.mpr hd

theorem IsNative.property? (hmodel : model.IsNative) {receiver : Ty} {name : String} {t : Ty}
    (h : model.property? receiver name = some t) : t.Native model.enums :=
  forall_property? hmodel h

end Model

/-! ## Graphs -/

/-- No function mentions an enumeration. -/
def Registry.EnumFree (r : Registry) : Prop :=
  ∀ mapping ∈ r.mappings, ∀ enums, mapping.member.Free (Ty.isForeign enums)

theorem Expr.type_combine {h : Hierarchy} {op : BinaryOp} {l r e : Expr}
    (he : combine h op l r = .ok e) : ∃ p, e.type = .primitive p := by
  obtain ⟨l', r', t, rfl, hop⟩ := operation_of_combine he
  cases hop with
  | @widened t _ ht =>
    have hnumeric := (Ty.isNumeric_of_promote? (Ty.promote?_join ht).1).2
    rw [type]
    split
    · exact Ty.exists_primitive_of_isNumeric hnumeric
    · exact ⟨_, rfl⟩
  | logical | caseOnRight | caseOnLeft | equality | relational => exact ⟨_, rfl⟩

namespace Query

variable {s : Setting} {q : Query} {scope : List Param} {receiver : Option Expr}
  {expected : Option Ty} {n m : Nat} {e : Expr}

/-- The types that a query is compiled with mention enumerations of the model only. -/
structure NativeContext (s : Setting) (scope : List Param) (receiver : Option Expr)
    (expected : Option Ty) : Prop where
  scope : ∀ p ∈ scope, p.type.Native s.model.enums
  receiver : ∀ base ∈ receiver, base.type.Native s.model.enums
  expected : ∀ t ∈ expected, t.Native s.model.enums

theorem native_of_keyword (hthis : s.this.type.Native s.model.enums) {name : String}
    (h : s.keyword? name = some e) : e.type.Native s.model.enums := by
  cases Setting.keyword?_eq_some_iff.mp h with
  | this => exact hthis
  | true | false | null => rfl

theorem native_paramsFrom {enums : List EnumDef} {names : List String} {types : List Ty}
    (h : Ty.anyPartOf (Ty.isForeign enums) types = false) (hlen : types.length = names.length)
    (n : Nat) : ∀ p ∈ Setting.paramsFrom n names types, p.type.Native enums := by
  intro p hp
  have hmem : p.type ∈ types := map_type_paramsFrom hlen n ▸ List.mem_map_of_mem hp
  rw [Ty.anyPartOf_eq_any, List.any_eq_false] at h
  exact Bool.eq_false_iff.mpr (h p.type hmem)

theorem native_expectedElement {enums : List EnumDef} (h : ∀ t ∈ expected, t.Native enums) :
    ∀ t ∈ expectedElement expected, t.Native enums := by
  intro t ht
  obtain ⟨u, hu, ht⟩ := Option.bind_eq_some_iff.mp ht
  obtain ⟨array, harray, hu⟩ := Option.bind_eq_some_iff.mp hu
  unfold Ty.element? at hu
  split at hu <;> cases hu
  have := h _ harray
  rw [Ty.Native, (Ty.isMark_isForeign enums).anyPart_array] at this
  exact Setting.forall_mem_known this t ht

theorem native_arrayOf {enums : List EnumDef} {items : List Expr}
    (hitems : ∀ item ∈ items, item.type.Native enums)
    (hexpected : ∀ t ∈ expectedElement expected, t.Native enums)
    (he : Expr.arrayOf (expectedElement expected) items = .ok e) : e.type.Native enums := by
  obtain ⟨element, helement, _, he⟩ := Expr.arrayOf_eq_ok he
  have htype : e.type = .array element := by
    rcases he with rfl | ⟨_, _, rfl⟩ <;> rfl
  rw [htype, Ty.Native, (Ty.isMark_isForeign enums).anyPart_array]
  obtain hknown | ⟨-, item, hitem, rfl, -⟩ := Expr.elementType?_cases helement
  · exact hexpected _ hknown
  · exact hitems item hitem

/-- The receiver of a member is compiled for a type without an enumeration, if one is known. -/
theorem native_receiver {mapping : Mapping} {u : Part}
    (hmember : mapping.member.Free (Ty.isForeign s.model.enums))
    (hcontext : NativeContext s scope receiver expected)
    (hexpected : u.expected = Setting.known mapping.member.template.declaring)
    (hu : NativeContext s scope none u.expected → u.graph.type.Native s.model.enums) :
    u.graph.type.Native s.model.enums :=
  hu ⟨hcontext.scope, by simp, hexpected ▸ hmember.forall_mem_known⟩

/-- A graph is of a type with enumerations of the model. -/
theorem Elaborates.native (h : Elaborates s q scope receiver expected n e m)
    (hregistry : s.registry.EnumFree) (hmodel : s.model.IsNative)
    (hthis : s.this.type.Native s.model.enums)
    (hcontext : NativeContext s scope receiver expected) : e.type.Native s.model.enums := by
  have hmark := Ty.isMark_isForeign s.model.enums
  induction h with
  | keyword hk => exact native_of_keyword hthis hk
  | param _ hp => exact hcontext.scope _ (List.mem_of_find?_eq_some hp)
  | ownProperty _ _ ht | property ht => exact hmodel.property? ht
  | indexer ht hd _ _ _ =>
    have hargs := Model.anyPart_of_mem_closure hmark (hmodel.property? ht) _
      (Model.instance?_eq_some_iff.mp hd)
    rw [hmark.anyPart_applied, Ty.anyPartOf, Ty.anyPartOf, Bool.or_eq_false_iff,
      Bool.or_eq_false_iff] at hargs
    exact hargs.2.1
  | path _ _ ihl ihr =>
    have hl := ihl ⟨hcontext.scope, hcontext.receiver, by simp⟩
    exact ihr ⟨hcontext.scope, fun base hbase => Option.some.inj hbase ▸ hl, by simp⟩
  | chained _ ih => exact ih ⟨hcontext.scope, by simp, by simp⟩
  | isIn | isofThis | isof => rfl
  | operator _ _ he =>
    obtain ⟨p, hp⟩ := Expr.type_combine he
    rw [hp]
    rfl
  | castThis _ ht | cast _ _ ht => exact Model.native_of_resolveType? ht
  | @access _ _ _ _ _ _ mapping _ _ hm _ _ _ hexpected _ hb _ ih =>
    have hmember := hregistry mapping (Registry.mem_candidates.mp hm).1 s.model.enums
    have hu := native_receiver hmember hcontext hexpected ih
    exact (hmember.bindDeclaring hmark hu hb).result hmark
  | @callOn _ _ _ _ _ _ mapping _ _ _ _ hm _ _ hexpected _ _ _ hb hf _ _ ihu ihus =>
    have hmember := hregistry mapping (Registry.mem_candidates.mp hm).1 s.model.enums
    have hu := native_receiver hmember hcontext hexpected ihu
    have hbound := hmember.bindDeclaring hmark hu hb
    have hb := hf.free hmark (fun w hw => hbound.signature w (MemberTemplate.mem_signature hw))
      (fun v hv hexpected => ihus v hv ⟨hcontext.scope, by simp, hexpected⟩) hbound.ofMember
    exact (hbound.instantiate hb.1).result hmark
  | @call _ _ _ _ _ _ mapping _ _ hm _ _ _ _ hf _ _ ih =>
    have hmember := hregistry mapping (Registry.mem_candidates.mp hm).1 s.model.enums
    have hb := hf.free hmark (fun w hw => hmember.signature w (MemberTemplate.mem_signature hw))
      (fun v hv hexpected => ih v hv ⟨hcontext.scope, by simp, hexpected⟩) hmember.ofMember
    exact (hmember.instantiate hb.1).result hmark
  | @lambda names _ _ types _ n _ _ hlen _ _ ih =>
    have ht := hcontext.expected _ rfl
    rw [Ty.Native, hmark.anyPart_function, Bool.or_eq_false_iff] at ht
    rw [Expr.type, Ty.Native, hmark.anyPart_function, map_type_paramsFrom hlen n,
      Bool.or_eq_false_iff]
    have hscope := List.forall_mem_append.mpr ⟨native_paramsFrom ht.1 hlen n, hcontext.scope⟩
    exact ⟨ht.1, ih ⟨hscope, by simp, Setting.forall_mem_known ht.2⟩⟩
  | quoted _ ih =>
    have ht := hcontext.expected _ rfl
    rw [Ty.Native, hmark.anyPart_quoted] at ht
    rw [Expr.type, Ty.Native, hmark.anyPart_quoted]
    exact ih ⟨hcontext.scope, by simp, fun t h => Option.some.inj h ▸ ht⟩
  | array _ _ _ he ih =>
    have hexpected := native_expectedElement hcontext.expected
    exact native_arrayOf (List.forall_mem_map.mpr fun v hv =>
      ih v hv ⟨hcontext.scope, by simp, hexpected⟩) hexpected he
  | number he =>
    obtain ⟨p, hp⟩ := Ty.exists_primitive_of_isNumeric (isNumeric_of_numberConstant he)
    rw [hp]
    rfl
  | string | guid | dateTime => rfl

end Query
end TypedQuery
