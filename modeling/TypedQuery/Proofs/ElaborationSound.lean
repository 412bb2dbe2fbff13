import TypedQuery.Proofs.Calls
/-!
The compiler keeps to the rules of elaboration.

Whatever a query compiles to is an instance of a rule, by induction on the query. A call is the
one place where parts are compiled more than once; there the rule is about the last time.
-/
namespace TypedQuery

namespace Query

variable {s : Setting}

/-- The rules hold of whatever the compiler makes of a query. -/
def Sound (s : Setting) (q : Query) : Prop :=
  ∀ ⦃scope : List Param⦄ ⦃receiver : Option Expr⦄ ⦃expected : Option Ty⦄ ⦃n : Nat⦄ ⦃e : Expr⦄
    ⦃m : Nat⦄, q.meaning s scope receiver expected n = .ok (e, m) →
    Elaborates s q scope receiver expected n e m

theorem monotone_of_sound {qs : List Query} (hqs : ∀ q ∈ qs, Sound s q) :
    ∀ o ∈ qs.map (operand s), o.Monotone := by
  intro o ho scope receiver expected n e m h
  obtain ⟨q, hq, rfl⟩ := List.mem_map.mp ho
  exact (hqs q hq h).le

theorem resolveType?_of_typeNamed {op : TypeOperator} {type : Query} {t : Ty}
    (h : s.typeNamed op (type.operand s) = .ok t) :
    ∃ name, type.typeName? = some name ∧ s.model.resolveType? name = some t := by
  unfold Setting.typeNamed at h
  simp only [operand] at h
  cases hname : type.typeName? with
  | none => simp [hname] at h
  | some name =>
    cases hresolve : s.model.resolveType? name with
    | none => simp [hname, hresolve] at h
    | some u =>
      simp only [hname, hresolve, Except.ok.injEq] at h
      exact ⟨name, rfl, h ▸ hresolve⟩

section Calls

variable {scope : List Param} {expected : Option Ty} {name : String} {args : List Query}
  {mapping : Mapping} {n m : Nat} {e : Expr}

theorem consecutive_of_contiguous {us : List Part} (hus : ∀ v ∈ us, Sound s v.query)
    (hc : Contiguous n us m) (h : ∀ v ∈ us, v.Compiled s scope) : Consecutive n us m := by
  induction us generalizing n with
  | nil => exact Nat.le_of_eq hc
  | cons u us ih =>
    obtain ⟨hbefore, hc⟩ := hc
    obtain ⟨hu, hrest⟩ := List.forall_mem_cons.mp h
    obtain ⟨hsound, hsounds⟩ := List.forall_mem_cons.mp hus
    exact ⟨Nat.le_of_eq hbefore.symm, (hsound hu).le, ih hsounds hc hrest⟩

theorem elaborates_of_applied (hargs : ∀ q ∈ args, Sound s q)
    (hm : mapping ∈ s.registry.candidates name args.length)
    (h : Applied s mapping args scope n e m) {n₀ : Nat} (hn : n₀ ≤ n) :
    Elaborates s (.call name args) scope none expected n₀ e m := by
  have hnative : ∀ us : List Part, mapping.reorder? args = some (us.map Part.query) →
      ∀ v ∈ us, Sound s v.query :=
    fun _ hr v hv => hargs _ (Mapping.mem_of_reorder? hr (List.mem_map_of_mem hv))
  cases h with
  | @access u _ hr hu hbefore hexpected hbind hp =>
    have hsound := hnative [u] hr u List.mem_cons_self hu
    exact .access hm hr (hbefore ▸ hn) (Nat.le_refl _) hexpected hsound hbind hp
  | @callOn u us _ _ _ hr hus hc hexpected hbind hreceiver _ hf hd ho =>
    have hsound := hnative (u :: us) hr
    obtain ⟨hu, hrest⟩ :=
      List.forall_mem_cons.mp fun v hv => hsound v hv (hus v hv)
    have hconsecutive := (consecutive_of_contiguous hsound hc hus).mono hn
    exact .callOn hm hr hconsecutive hexpected hu hrest hreceiver hbind hf hd ho
  | call hr hus hc hreceiver hf hd ho =>
    have hsound := hnative _ hr
    exact .call hm hr ((consecutive_of_contiguous hsound hc hus).mono hn)
      (fun v hv => hsound v hv (hus v hv)) hreceiver hf hd ho

theorem elaborates_of_firstFit (hargs : ∀ q ∈ args, Sound s q) {mappings : List Mapping}
    (hm : ∀ mapping ∈ mappings, mapping ∈ s.registry.candidates name args.length)
    (h : s.firstFit (args.map (operand s)) scope mappings n = .ok (some e, m)) {n₀ : Nat}
    (hn : n₀ ≤ n) : Elaborates s (.call name args) scope none expected n₀ e m := by
  induction mappings generalizing n with
  | nil => simp [Setting.firstFit] at h
  | cons mapping mappings ih =>
    simp only [Setting.firstFit, Compiler.bind_eq_ok] at h
    obtain ⟨found, k, hk, h⟩ := h
    cases found with
    | some e' =>
      simp only [Compiler.pure_eq_ok, Option.some.injEq] at h
      obtain ⟨rfl, rfl⟩ := h
      exact elaborates_of_applied hargs (hm mapping List.mem_cons_self) (applied_of_attempt hk) hn
    | none =>
      have hmono : n ≤ k := Setting.monotone_attempt (monotone_of_sound hargs) mapping hk
      exact ih (fun mapping' hm' => hm mapping' (List.mem_cons_of_mem _ hm')) h
        (Nat.le_trans hn hmono)

/-- What a type operator has done when it succeeds. -/
theorem applyType_eq_ok {op : TypeOperator} {operand r : Expr} {type : Query}
    (h : s.applyType op operand (type.operand s) = .ok r) :
    ∃ name t, type.typeName? = some name ∧ s.model.resolveType? name = some t ∧
      match op with
      | .isof => r = .typeIs operand t
      | .cast => t.castsFrom s.hierarchy operand.type = true ∧ r = .convert operand t true := by
  obtain ⟨t, ht, h⟩ := except_bind_eq_ok.mp h
  obtain ⟨name, hname, hresolve⟩ := resolveType?_of_typeNamed ht
  refine ⟨name, t, hname, hresolve, ?_⟩
  cases op with
  | isof => exact (Except.ok.inj h).symm
  | cast =>
    dsimp only at h
    split at h
    · next hcast => exact ⟨hcast, (Except.ok.inj h).symm⟩
    · cases h

theorem elaborates_of_typeCall (hargs : ∀ q ∈ args, Sound s q) {op : TypeOperator}
    (h : s.typeCall op (args.map (operand s)) scope n = .ok (e, m)) :
    Elaborates s (.call op.name args) scope none expected n e m := by
  match args, hargs with
  | [], _ => simp [Setting.typeCall] at h
  | [type], _ =>
    simp only [List.map_cons, List.map_nil, Setting.typeCall, Compiler.liftM_eq_ok] at h
    obtain ⟨h, rfl⟩ := h
    obtain ⟨name, t, hname, ht, h⟩ := applyType_eq_ok h
    cases op with
    | isof => exact h ▸ .isofThis hname ht
    | cast => exact h.2 ▸ .castThis hname ht h.1
  | [x, type], hargs =>
    simp only [List.map_cons, List.map_nil, Setting.typeCall, Compiler.bind_eq_ok,
      Compiler.liftM_eq_ok] at h
    obtain ⟨e, k, hx, h, rfl⟩ := h
    have hx := hargs x List.mem_cons_self hx
    obtain ⟨name, t, hname, ht, h⟩ := applyType_eq_ok h
    cases op with
    | isof => exact h ▸ .isof hx hname ht
    | cast => exact h.2 ▸ .cast hx hname ht h.1
  | _ :: _ :: _ :: _, _ => simp [Setting.typeCall] at h

theorem elaborates_of_call (hargs : ∀ q ∈ args, Sound s q)
    (h : s.call name (args.map (operand s)) scope n = .ok (e, m)) :
    Elaborates s (.call name args) scope none expected n e m := by
  cases hop : TypeOperator.ofName? name with
  | some op =>
    rw [Setting.call_of_typeOperator hop] at h
    obtain rfl := TypeOperator.ofName?_eq_some_iff.mp hop
    exact elaborates_of_typeCall hargs h
  | none =>
    rw [Setting.call_eq_ok hop, List.length_map] at h
    exact elaborates_of_firstFit hargs (fun _ hm => hm) h (Nat.le_refl _)

end Calls

section Constructs

variable {scope : List Param} {receiver : Option Expr} {expected : Option Ty} {name : String}
  {n m : Nat} {e : Expr}

theorem property_eq_ok {base : Expr} (h : s.property base name = .ok e) :
    ∃ t, s.model.property? base.type name = some t ∧ e = .property base name t := by
  unfold Setting.property at h
  split at h
  · next t ht => exact ⟨t, ht, (Except.ok.inj h).symm⟩
  · cases h

theorem elaborates_of_symbol (h : s.symbol name scope receiver = .ok e) :
    Elaborates s (.symbol name) scope receiver expected n e n := by
  unfold Setting.symbol at h
  cases receiver with
  | some base =>
    obtain ⟨t, ht, rfl⟩ := property_eq_ok h
    exact .property ht
  | none =>
    dsimp only at h
    split at h
    · next hkeyword =>
      cases h
      exact .keyword hkeyword
    · next hkeyword =>
      split at h
      · next hparam =>
        cases h
        exact .param hkeyword hparam
      · next hparam =>
        obtain ⟨t, ht, rfl⟩ := property_eq_ok h
        exact .ownProperty hkeyword hparam ht

/-- What a lookup needs, and what it is then. -/
theorem indexer_eq_ok {args : List Query} :
    s.indexer name (args.map (operand s)) scope receiver n = .ok (e, m) ↔
      ∃ key t value k, args = [key] ∧
        s.model.property? (receiver.getD (.parameter s.this)).type name = some t ∧
        s.hierarchy.instance? .dictionary t = some [.string, value] ∧
        key.meaning s scope none (some .string) n = .ok (k, m) ∧ k.type = .string ∧
        e = .callOn (.property (receiver.getD (.parameter s.this)) name t)
          (.instantiate Catalogue.dictionaryGet [.string, value] []) [k] := by
  simp only [Setting.indexer, Compiler.bind_eq_ok, Compiler.liftM_eq_ok]
  constructor
  · rintro ⟨dictionary, k, ⟨hd, rfl⟩, h⟩
    obtain ⟨t, ht, rfl⟩ := property_eq_ok hd
    -- The step is named, so that the cases are those of the step and not of its result.
    obtain ⟨x, hx, hok⟩ : ∃ x : Compiler Expr, x = _ ∧ x n = .ok (e, m) := ⟨_, rfl, h⟩
    split at hx
    · next value hvalue =>
      rcases args with _ | ⟨key, _ | ⟨_, _⟩⟩
      · simp [hx] at hok
      · simp only [hx, List.map_cons, List.map_nil, Compiler.bind_eq_ok] at hok
        obtain ⟨k, j, hk, hok⟩ := hok
        split at hok
        · next hstring =>
          obtain ⟨rfl, rfl⟩ := Compiler.pure_eq_ok.mp hok
          exact ⟨key, t, value, k, rfl, ht, hvalue, hk, hstring, rfl⟩
        · simp at hok
      · simp [hx] at hok
    · simp [hx] at hok
  · rintro ⟨key, t, value, k, rfl, ht, hvalue, hk, hstring, rfl⟩
    refine ⟨.property (receiver.getD (.parameter s.this)) name t, n, ⟨?_, rfl⟩, ?_⟩
    · rw [Setting.property, ht]
    · have htype : (Expr.property (receiver.getD (.parameter s.this)) name t).type = t := rfl
      rw [htype, hvalue]
      refine Compiler.bind_eq_ok.mpr ⟨k, m, hk, ?_⟩
      rw [if_pos hstring]
      rfl

theorem elaborates_of_indexer {args : List Query} (hargs : ∀ q ∈ args, Sound s q)
    (h : s.indexer name (args.map (operand s)) scope receiver n = .ok (e, m)) :
    Elaborates s (.indexer name args) scope receiver expected n e m := by
  obtain ⟨key, t, value, k, rfl, ht, hvalue, hk, hstring, rfl⟩ := indexer_eq_ok.mp h
  exact .indexer ht hvalue (hargs key List.mem_cons_self hk) hstring

theorem map_type_paramsFrom {names : List String} {types : List Ty}
    (h : types.length = names.length) (next : Nat) :
    (Setting.paramsFrom next names types).map Param.type = types := by
  induction names generalizing types next with
  | nil => exact (List.length_eq_zero_iff.mp h).symm
  | cons name names ih =>
    cases types with
    | nil => simp at h
    | cons t types => rw [Setting.paramsFrom, List.map_cons, ih (by simpa using h)]

theorem map_name_paramsFrom {names : List String} {types : List Ty}
    (h : types.length = names.length) (next : Nat) :
    (Setting.paramsFrom next names types).map Param.name = names := by
  induction names generalizing types next with
  | nil => rfl
  | cons name names ih =>
    cases types with
    | nil => simp at h
    | cons t types => rw [Setting.paramsFrom, List.map_cons, ih (by simpa using h)]

theorem length_paramsFrom {names : List String} {types : List Ty}
    (h : types.length = names.length) (next : Nat) :
    (Setting.paramsFrom next names types).length = names.length := by
  rw [← List.length_map Param.name, map_name_paramsFrom h]

theorem lambda_quoted_eq_ok {names : List String} {body : Meaning} {inner : Ty} :
    Setting.lambda names body scope (.quoted inner) n = .ok (e, m) ↔
      ∃ e', Setting.lambda names body scope inner n = .ok (e', m) ∧ e = .quote e' := by
  rw [Setting.lambda, Compiler.bind_eq_ok]
  simp only [Compiler.pure_eq_ok]
  constructor
  · rintro ⟨e', _, h, rfl, rfl⟩
    exact ⟨e', h, rfl⟩
  · rintro ⟨e', h, rfl⟩
    exact ⟨e', m, h, rfl, rfl⟩

/-- A lambda has as many parameters as are expected, with types that are known. They have the
next numbers. -/
theorem lambda_function_eq_ok {names : List String} {body : Meaning} {types : List Ty}
    {result : Ty} :
    Setting.lambda names body scope (.function types result) n = .ok (e, m) ↔
      types.length = names.length ∧ types.any Ty.hasPlaceholder = false ∧
        ∃ e', body (Setting.paramsFrom n names types ++ scope) none (Setting.known result)
          (n + names.length) = .ok (e', m) ∧
          e = .lambda (Setting.paramsFrom n names types) e' := by
  rw [Setting.lambda]
  by_cases hlen : types.length = names.length
  · by_cases hknown : types.any Ty.hasPlaceholder = true
    · simp [hlen, hknown]
    · rw [if_neg (not_not.mpr hlen), if_neg hknown, Compiler.bind_eq_ok]
      constructor
      · rintro ⟨_, _, ⟨⟩, h⟩
        obtain ⟨e', k, he, h⟩ := Compiler.bind_eq_ok.mp h
        obtain ⟨rfl, rfl⟩ := Compiler.pure_eq_ok.mp h
        rw [length_paramsFrom hlen] at he
        exact ⟨hlen, Bool.eq_false_iff.mpr hknown, e', he, rfl⟩
      · rintro ⟨-, -, e', he, rfl⟩
        rw [← length_paramsFrom hlen n] at he
        exact ⟨_, _, rfl, Compiler.bind_eq_ok.mpr ⟨e', m, he, rfl⟩⟩
  · simp [hlen]

theorem elaborates_of_lambda {names : List String} {body : Query} (hbody : Sound s body) :
    ∀ (t : Ty) {e : Expr}, Setting.lambda names (body.meaning s) scope t n = .ok (e, m) →
      Elaborates s (.lambda names body) scope none (some t) n e m
  | .quoted inner, e, h => by
    have hinner := @elaborates_of_lambda names body hbody inner
    obtain ⟨e, hbody, rfl⟩ := lambda_quoted_eq_ok.mp h
    exact .quoted (hinner hbody)
  | .function types result, e, h => by
    obtain ⟨hlen, hknown, e, he, rfl⟩ := lambda_function_eq_ok.mp h
    exact .lambda hlen hknown (hbody he)
  | .primitive _, _, h | .enum _, _, h | .entity _, _, h | .array _, _, h | .applied .., _, h
  | .placeholder _, _, h | .wildcard, _, h => by simp [Setting.lambda] at h

theorem numberConstant_eq_ok {text : String} :
    numberConstant text expected = .ok e ↔
      ∃ literal, NumberLiteral.read? text.toList = some literal ∧
        e = .constant (literal.valueFor expected) := by
  unfold numberConstant
  cases NumberLiteral.read? text.toList with
  | none => simp
  | some literal => simp [eq_comm]

theorem constant_of_numberConstant {text : String} (h : numberConstant text expected = .ok e) :
    ∃ v, e = .constant v := by
  obtain ⟨_, -, rfl⟩ := numberConstant_eq_ok.mp h
  exact ⟨_, rfl⟩

theorem search_eq_ok {value array : Expr} (h : Expr.search value array = .ok e) :
    array.type = .array value.type ∧
      e = .call (.instantiate Catalogue.enumerableContains [] [value.type]) [array, value] := by
  unfold Expr.search at h
  split at h
  · next element helement =>
    split at h
    · next heq => exact ⟨heq ▸ helement, (Except.ok.inj h).symm⟩
    · cases h
  · cases h

/-- A dot in front of anything but a call. -/
theorem meaning_path {left right : Query} (h : ∀ name args, right ≠ .call name args) :
    (Query.binary .dot left right).meaning s = fun scope receiver _ =>
      left.meaning s scope receiver none >>= fun l => right.meaning s scope (some l) none := by
  rw [meaning]
  exact h

/-- A call behind a dot takes what stands before it as its first argument. -/
theorem meaning_chained_eq_ok {left : Query} {name : String} {args : List Query} :
    (Query.binary .dot left (.call name args)).meaning s scope receiver expected n = .ok (e, m) ↔
      receiver = none ∧ s.call name ((left :: args).map (operand s)) scope n = .ok (e, m) := by
  rw [← operands_eq_map]
  cases receiver with
  | none => exact (and_iff_right rfl).symm
  | some _ => exact ⟨fun h => absurd h Compiler.throw_ne_ok, nofun⟩

theorem meaning_isIn_eq_ok {left right : Query} :
    (Query.binary .isIn left right).meaning s scope receiver expected n = .ok (e, m) ↔
      receiver = none ∧ ∃ value k array, left.meaning s scope none none n = .ok (value, k) ∧
        right.meaning s scope none (some (.array value.type)) k = .ok (array, m) ∧
        Expr.search value array = .ok e := by
  refine Setting.standalone_eq_ok.trans (and_congr_right fun _ => ?_)
  simp only [Compiler.bind_eq_ok, Compiler.liftM_eq_ok]
  constructor
  · rintro ⟨value, k, hvalue, array, _, harray, he, rfl⟩
    exact ⟨value, k, array, hvalue, harray, he⟩
  · rintro ⟨value, k, array, hvalue, harray, he⟩
    exact ⟨value, k, hvalue, array, m, harray, he, rfl⟩

theorem meaning_operator_eq_ok {op : BinaryOp} {left right : Query} :
    (Query.binary (.value op) left right).meaning s scope receiver expected n = .ok (e, m) ↔
      receiver = none ∧ ∃ l k r, left.meaning s scope none none n = .ok (l, k) ∧
        right.meaning s scope none none k = .ok (r, m) ∧
        Expr.combine s.hierarchy op l r = .ok e := by
  refine Setting.standalone_eq_ok.trans (and_congr_right fun _ => ?_)
  simp only [Compiler.bind_eq_ok, Compiler.liftM_eq_ok]
  constructor
  · rintro ⟨l, k, hl, r, _, hr, he, rfl⟩
    exact ⟨l, k, r, hl, hr, he⟩
  · rintro ⟨l, k, r, hl, hr, he⟩
    exact ⟨l, k, hl, r, m, hr, he, rfl⟩

theorem meaning_call_eq_ok {name : String} {args : List Query} :
    (Query.call name args).meaning s scope receiver expected n = .ok (e, m) ↔
      receiver = none ∧ s.call name (args.map (operand s)) scope n = .ok (e, m) := by
  rw [← operands_eq_map]
  exact Setting.standalone_eq_ok

/-- A lambda only compiles where a type is expected, which says what its parameters are. -/
theorem meaning_lambda_eq_ok {names : List String} {body : Query} :
    (Query.lambda names body).meaning s scope receiver expected n = .ok (e, m) ↔
      receiver = none ∧ ∃ t, expected = some t ∧
        Setting.lambda names (body.meaning s) scope t n = .ok (e, m) := by
  refine Setting.standalone_eq_ok.trans (and_congr_right fun _ => ?_)
  cases expected with
  | none => simp
  | some t => simp

theorem meaning_array_eq_ok {items : List Query} :
    (Query.array items).meaning s scope receiver expected n = .ok (e, m) ↔
      receiver = none ∧ ∃ es, ((items.map (operand s)).mapM fun item : Operand =>
        item.meaning scope none (expectedElement expected)) n = .ok (es, m) ∧
        Expr.arrayOf (expectedElement expected) es = .ok e := by
  refine Setting.standalone_eq_ok.trans (and_congr_right fun _ => ?_)
  simp only [operands_eq_map, Compiler.bind_eq_ok, Compiler.liftM_eq_ok]
  constructor
  · rintro ⟨es, _, hes, he, rfl⟩
    exact ⟨es, hes, he⟩
  · rintro ⟨es, hes, he⟩
    exact ⟨es, m, hes, he, rfl⟩

theorem meaning_number_eq_ok {text : String} :
    (Query.number text).meaning s scope receiver expected n = .ok (e, m) ↔
      receiver = none ∧ numberConstant text expected = .ok e ∧ n = m :=
  Setting.standalone_eq_ok.trans (and_congr_right fun _ => Compiler.liftM_eq_ok)

theorem elaborates_of_mapM {items : List Query} (hitems : ∀ q ∈ items, Sound s q)
    {element : Option Ty} {es : List Expr}
    (h : ((items.map (operand s)).mapM fun item : Operand => item.meaning scope none element)
      n = .ok (es, m)) :
    ∃ us : List Part, us.map Part.query = items ∧ us.map Part.graph = es ∧
      Consecutive n us m ∧
      ∀ v ∈ us, Elaborates s v.query scope none element v.before v.graph v.after := by
  obtain ⟨us, rfl, rfl, hc, hus, hexpected⟩ := mapM_eq_ok_iff.mp h
  have hsound : ∀ v ∈ us, Sound s v.query := fun v hv => hitems _ (List.mem_map_of_mem hv)
  refine ⟨us, rfl, rfl, consecutive_of_contiguous hsound hc hus, fun v hv => ?_⟩
  exact hexpected v hv ▸ hsound v hv (hus v hv)

end Constructs

mutual
/-- The rules account for everything the compiler makes. -/
theorem elaborates_of_meaning : ∀ q : Query, Sound s q
  | .symbol name => by
    intro scope receiver expected n e m h
    rw [meaning, Compiler.liftM_eq_ok] at h
    obtain ⟨h, rfl⟩ := h
    exact elaborates_of_symbol h
  | .indexer name args => by
    intro scope receiver expected n e m h
    rw [meaning, operands_eq_map] at h
    exact elaborates_of_indexer (elaborates_of_meanings args) h
  | .binary op left right => by
    intro scope receiver expected n e m h
    have hleft : Sound s left := elaborates_of_meaning left
    have hright : Sound s right := elaborates_of_meaning right
    cases op with
    | dot =>
      by_cases hcall : ∃ name args, right = .call name args
      · obtain ⟨name, args, rfl⟩ := hcall
        obtain ⟨rfl, hchained⟩ := meaning_chained_eq_ok.mp h
        have hargs : ∀ q ∈ left :: args, Sound s q :=
          List.forall_mem_cons.mpr ⟨hleft, elaborates_of_meanings args⟩
        exact .chained (elaborates_of_call hargs hchained)
      · rw [meaning_path fun name args hr => hcall ⟨name, args, hr⟩] at h
        obtain ⟨l, k, hl, he⟩ := Compiler.bind_eq_ok.mp h
        exact .path (hleft hl) (hright he)
    | isIn =>
      obtain ⟨rfl, value, k, array, hvalue, harray, he⟩ := meaning_isIn_eq_ok.mp h
      obtain ⟨htype, rfl⟩ := search_eq_ok he
      exact .isIn (hleft hvalue) (hright harray) htype
    | value op =>
      obtain ⟨rfl, l, k, r, hl, hr, he⟩ := meaning_operator_eq_ok.mp h
      exact .operator (hleft hl) (hright hr) he
  | .call name args => by
    intro scope receiver expected n e m h
    obtain ⟨rfl, hcall⟩ := meaning_call_eq_ok.mp h
    exact elaborates_of_call (elaborates_of_meanings args) hcall
  | .lambda names body => by
    intro scope receiver expected n e m h
    obtain ⟨rfl, t, rfl, hlambda⟩ := meaning_lambda_eq_ok.mp h
    exact elaborates_of_lambda (elaborates_of_meaning body) t hlambda
  | .array items => by
    intro scope receiver expected n e m h
    obtain ⟨rfl, es, hes, he⟩ := meaning_array_eq_ok.mp h
    obtain ⟨us, rfl, rfl, hc, hel⟩ := elaborates_of_mapM (elaborates_of_meanings items) hes
    exact .array rfl hc hel he
  | .number text => by
    intro scope receiver expected n e m h
    obtain ⟨rfl, he, rfl⟩ := meaning_number_eq_ok.mp h
    exact .number he
  | .string value => by
    intro scope receiver expected n e m h
    rw [meaning, Setting.standalone_eq_ok, Compiler.pure_eq_ok] at h
    obtain ⟨rfl, rfl, rfl⟩ := h
    exact .string
  | .guid value => by
    intro scope receiver expected n e m h
    rw [meaning, Setting.standalone_eq_ok, Compiler.pure_eq_ok] at h
    obtain ⟨rfl, rfl, rfl⟩ := h
    exact .guid
  | .dateTime value => by
    intro scope receiver expected n e m h
    rw [meaning, Setting.standalone_eq_ok, Compiler.pure_eq_ok] at h
    obtain ⟨rfl, rfl, rfl⟩ := h
    exact .dateTime

theorem elaborates_of_meanings : ∀ qs : List Query, ∀ q ∈ qs, Sound s q
  | [], _, h => absurd h List.not_mem_nil
  | q :: qs, q', h => by
    rcases List.mem_cons.mp h with h | h
    · exact h ▸ elaborates_of_meaning q
    · exact elaborates_of_meanings qs q' h
end

end Query
end TypedQuery
