import TypedQuery.Proofs.CallReading
import TypedQuery.Proofs.Scoping
/-!
Names, lambdas and arrays that are read again.

What follows a dot is written with what stands before it, unless that is the implicit receiver:
its properties are written as bare names. So a bare name has to be found nowhere else, which
the parameters of lambdas can spoil.
-/
namespace TypedQuery
namespace Query

variable {s : Setting} {style : RenderStyle} {scope : List Param} {receiver : Option Expr}
  {expected : Option Ty} {n₀ n m : Nat} {e base : Expr} {name : String} {t : Ty}

/-! ## Names -/

theorem meaning_symbol (h : s.symbol name scope receiver = .ok e) (n : Nat) :
    (Query.symbol name).meaning s scope receiver expected n = .ok (e, n) := by
  rw [meaning]
  exact Compiler.liftM_eq_ok.mpr ⟨h, rfl⟩

theorem symbol_of_keyword (h : s.keyword? name = some e) : s.symbol name scope none = .ok e := by
  simp only [Setting.symbol, h]

/-- A keyword is written as itself. -/
theorem rereads_keyword (h : s.keyword? name = some e) (n : Nat) :
    e.Rereads s style scope expected n n := by
  have hsettle : e.settle = e := Setting.relabel_keyword rfl h
  intro q hq
  rw [hsettle]
  obtain rfl : q = .symbol name := by
    cases Setting.keyword?_eq_some_iff.mp h with
    | this =>
      have hthis : (s.renderer style).isReceiver (.parameter s.this) = true := beq_self_eq_true _
      rw [Renderer.query, if_pos hthis] at hq
      exact (Except.ok.inj hq).symm
    | true | false | null => exact (Except.ok.inj hq).symm
  exact meaning_symbol (symbol_of_keyword h) n

/-- What stands before a dot, or else the implicit receiver. -/
theorem rereads_anchor (h : Anchored s style scope receiver n₀ n) :
    (receiver.getD (.parameter s.this)).Rereads s style scope none n₀ n := by
  cases h with
  | none =>
    have hthis : s.keyword? "this" = some (.parameter s.this) := rfl
    exact rereads_keyword hthis _
  | some _ hread => exact hread

/-- A bare name is a property of the implicit receiver if it is nothing else. -/
theorem bare_name (hs : s.Readable) (hygienic : s.Hygienic scope n)
    (ht : s.model.property? s.this.type name = some t) :
    s.keyword? name = none ∧ (scope.find? fun p => p.name == name) = none := by
  constructor
  · cases hk : s.keyword? name with
    | none => rfl
    | some e =>
      rw [hs.keywords name e hk] at ht
      cases ht
  · cases hp : scope.find? fun p => p.name == name with
    | none => rfl
    | some p =>
      obtain rfl : p.name = name := by simpa using List.find?_some hp
      rw [hygienic.unshadowed p (List.mem_of_find?_eq_some hp)] at ht
      cases ht

/-- A property is found again, of the implicit receiver as well as behind a dot. -/
theorem rereads_property (hs : s.Readable) (hygienic : s.Hygienic scope n₀)
    (hbase : base.Rereads s style scope none n₀ n)
    (ht : s.model.property? base.type name = some t) :
    (Expr.property base name t).Rereads s style scope expected n₀ n := by
  intro q hq
  have hproperty : s.property base name = .ok (.property base name t) := by
    rw [Setting.property, ht]
  have hagain := Setting.property_relabel .settling base name (s := s)
  rw [hproperty] at hagain
  rw [Renderer.query] at hq
  by_cases hthis : (s.renderer style).isReceiver base = true
  · obtain ⟨hsettle, rfl⟩ := hbase.eq_this hthis
    rw [if_pos hthis] at hq
    cases hq
    have htype : base.type = s.this.type := by
      rw [← Expr.type_relabel .settling base]
      exact congrArg Expr.type hsettle
    obtain ⟨hkeyword, hparam⟩ := bare_name hs hygienic (htype ▸ ht)
    refine meaning_symbol ?_ n
    simp only [Setting.symbol, hkeyword, hparam]
    rw [← hsettle]
    exact hagain
  · rw [if_neg hthis] at hq
    obtain ⟨qb, hqb, hq⟩ := except_bind_eq_ok.mp hq
    cases hq
    rw [dot, meaning_path (by simp)]
    have hsymbol : s.symbol name scope (some base.settle) =
        .ok (Expr.property base name t).settle := hagain
    exact Compiler.bind_eq_ok.mpr ⟨_, n, hbase qb hqb, meaning_symbol hsymbol n⟩

theorem rereads_lookup {k : Expr} {value : Ty} (hbase : base.Rereads s style scope none n₀ n)
    (hkey : k.Rereads s style scope (some .string) n m)
    (ht : s.model.property? base.type name = some t)
    (hvalue : s.hierarchy.instance? .dictionary t = some [.string, value])
    (hstring : k.type = .string) :
    (Expr.callOn (.property base name t)
      (.instantiate Catalogue.dictionaryGet [.string, value] []) [k]).Rereads s style scope expected
        n₀ m := by
  intro q hq
  rw [Renderer.query_lookup rfl] at hq
  obtain ⟨qk, hqk, hq⟩ := except_bind_eq_ok.mp hq
  have hagain (receiver : Option Expr)
      (hreceiver : receiver.getD (.parameter s.this) = base.settle) :
      (Query.indexer name [qk]).meaning s scope receiver none n =
        .ok (.callOn (.property base.settle name t)
          (.instantiate Catalogue.dictionaryGet [.string, value] []) [k.settle], m) := by
    rw [meaning, operands_eq_map]
    refine indexer_eq_ok.mpr ⟨qk, t, value, k.settle, rfl, ?_, hvalue, hkey qk hqk, ?_, ?_⟩
    · rwa [hreceiver, Expr.settle, Expr.type_relabel]
    · rwa [Expr.settle, Expr.type_relabel]
    · rw [hreceiver]
  by_cases hthis : (s.renderer style).isReceiver base = true
  · obtain ⟨hsettle, rfl⟩ := hbase.eq_this hthis
    rw [if_pos hthis] at hq
    cases hq
    exact hagain none hsettle.symm
  · rw [if_neg hthis] at hq
    obtain ⟨qb, hqb, hq⟩ := except_bind_eq_ok.mp hq
    cases hq
    rw [dot, meaning_path (by simp)]
    exact Compiler.bind_eq_ok.mpr ⟨_, n, hbase qb hqb, hagain (some base.settle) rfl⟩

theorem recompiles_symbol (hs : s.Readable) (name : String) :
    (Query.symbol name).Recompiles s style := by
  intro scope receiver expected n₀ n m e hygienic _ hanchored _ h
  have hbase := rereads_anchor hanchored
  cases elaborates_of_meaning _ h with
  | keyword hk =>
    cases hanchored
    exact rereads_keyword hk _
  | @param _ _ _ _ p hk hp =>
    cases hanchored
    intro q hq
    have hne : (s.renderer style).isReceiver (.parameter p) ≠ true := by
      simpa [Renderer.isReceiver, Setting.renderer, Expr.isParameter] using
        hygienic.ne_this p (List.mem_of_find?_eq_some hp)
    obtain rfl : p.name = name := by simpa using List.find?_some hp
    rw [Renderer.query, if_neg hne] at hq
    cases hq
    refine meaning_symbol ?_ _
    simp only [Setting.symbol, hk, hp]
    rfl
  | ownProperty _ _ ht => exact rereads_property hs hygienic hbase ht
  | property ht => exact rereads_property hs hygienic hbase ht

theorem recompiles_indexer {args : List Query} (hargs : ∀ q ∈ args, q.Recompiles s style)
    (name : String) : (Query.indexer name args).Recompiles s style := by
  intro scope receiver expected n₀ n m e hygienic hcontext hanchored _ h
  rw [meaning, operands_eq_map] at h
  obtain ⟨key, t, value, k, rfl, ht, hvalue, hk, hstring, rfl⟩ := indexer_eq_ok.mp h
  have hexpected : ∀ u ∈ some Ty.string, u.Meets k.type := by
    rintro _ ⟨⟩
    exact hstring ▸ Ty.meets_self _
  have hnative : ∀ u ∈ some Ty.string, u.Native s.model.enums := by
    rintro _ ⟨⟩
    rfl
  have hkey := hargs key List.mem_cons_self (hygienic.mono hanchored.le)
    ⟨hcontext.scope, by simp, hnative⟩ .none hexpected hk
  exact rereads_lookup (rereads_anchor hanchored) hkey ht hvalue hstring

/-! ## Lambdas -/

section Lambdas

variable {names : List String} {types : List Ty}

/-- The parameters of a lambda are told apart from everything else that its body may name. -/
theorem hygienic_append (hygienic : s.Hygienic scope n) (hlen : types.length = names.length)
    (hnames : ∀ name ∈ names, s.model.property? s.this.type name = none) :
    s.Hygienic (Setting.paramsFrom n names types ++ scope) (n + names.length) := by
  have hfresh := Fresh.paramsFrom n names types
  have hthis := hygienic.this_lt
  refine ⟨by omega, ?_, ?_, ?_⟩ <;> refine List.forall_mem_append.mpr ⟨fun p hp => ?_, ?_⟩
  · exact (hfresh.2 p hp).2
  · exact (hygienic.mono (Nat.le_add_right _ _)).scope_lt
  · have := (hfresh.2 p hp).1
    omega
  · exact hygienic.ne_this
  · refine hnames _ ?_
    rw [← map_name_paramsFrom hlen n]
    exact List.mem_map_of_mem hp
  · exact hygienic.unshadowed

/-- A lambda is read again as soon as its body is. -/
theorem reread_lambda {body : Query} (hbody : body.Recompiles s style)
    (hygienic : s.Hygienic scope n) (hscope : ∀ p ∈ scope, p.type.Native s.model.enums)
    (hnames : ∀ name ∈ names, s.model.property? s.this.type name = none) :
    ∀ (t : Ty) {e : Expr} {q : Query} {m : Nat}, t.Native s.model.enums → t.Meets e.type →
      Setting.lambda names (body.meaning s) scope t n = .ok (e, m) →
      (s.renderer style).query e = .ok q →
      ∃ body', q = .lambda names body' ∧
        Setting.lambda names (body'.meaning s) scope t n = .ok (e.settle, m)
  | .quoted inner, e, q, _, hnative, hmeets, h, hq => by
    obtain ⟨e, hinner, rfl⟩ := lambda_quoted_eq_ok.mp h
    rw [Ty.Native, (Ty.isMark_isForeign _).anyPart_quoted] at hnative
    rw [Renderer.query] at hq
    obtain ⟨body', rfl, hagain⟩ :=
      reread_lambda hbody hygienic hscope hnames inner hnative (hmeets e.type rfl) hinner hq
    exact ⟨body', rfl, lambda_quoted_eq_ok.mpr ⟨e.settle, hagain, rfl⟩⟩
  | .function types result, e, q, _, hnative, hmeets, h, hq => by
    obtain ⟨hlen, hknown, e, he, rfl⟩ := lambda_function_eq_ok.mp h
    rw [Ty.Native, (Ty.isMark_isForeign _).anyPart_function, Bool.or_eq_false_iff] at hnative
    have hscope' := List.forall_mem_append.mpr ⟨native_paramsFrom hnative.1 hlen n, hscope⟩
    have hread := hbody (hygienic_append hygienic hlen hnames)
      ⟨hscope', by simp, Setting.forall_mem_known hnative.2⟩ .none
      (Setting.forall_mem_known (hmeets _ _ rfl)) he
    rw [Renderer.query] at hq
    obtain ⟨body', hbody', hq⟩ := except_bind_eq_ok.mp hq
    cases hq
    refine ⟨body', by rw [map_name_paramsFrom hlen], ?_⟩
    have hsettle (ps : List Param) : (Expr.lambda ps e).settle = .lambda ps e.settle := by
      rw [Expr.settle, Expr.relabel]
      exact congrArg (Expr.lambda · _) (List.map_id ps)
    exact lambda_function_eq_ok.mpr ⟨hlen, hknown, e.settle, hread body' hbody', hsettle _⟩
  | .primitive _, _, _, _, _, _, h, _ | .enum _, _, _, _, _, _, h, _
  | .entity _, _, _, _, _, _, h, _ | .array _, _, _, _, _, _, h, _
  | .applied .., _, _, _, _, _, h, _ | .placeholder _, _, _, _, _, _, h, _
  | .wildcard, _, _, _, _, _, h, _ => by simp [Setting.lambda] at h

theorem recompiles_lambda {body : Query} (hbody : body.Recompiles s style)
    (hnames : ∀ name ∈ names, s.model.property? s.this.type name = none) :
    (Query.lambda names body).Recompiles s style := by
  intro scope receiver expected n₀ n m e hygienic hcontext hanchored hmeets h q hq
  obtain ⟨rfl, t, rfl, hlambda⟩ := meaning_lambda_eq_ok.mp h
  cases hanchored
  obtain ⟨body', rfl, hagain⟩ := reread_lambda hbody hygienic hcontext.scope hnames t
    (hcontext.expected t rfl) (hmeets t rfl) hlambda hq
  exact hagain

end Lambdas

/-! ## Arrays -/

theorem queries_constants (r : Renderer) (values : List Value) :
    r.queries (values.map Expr.constant) = Renderer.constants values := by
  induction values with
  | nil => rfl
  | cons v values ih => rw [List.map_cons, Renderer.queries, ih]; rfl

/-- An array is written with its items, also if it has become a constant. -/
theorem query_arrayOf {element : Option Ty} {items : List Expr}
    (h : Expr.arrayOf element items = .ok e) (r : Renderer) :
    r.query e = r.queries items >>= fun qs => .ok (.array qs) := by
  obtain ⟨_, _, _, rfl | ⟨values, rfl, rfl⟩⟩ := Expr.arrayOf_eq_ok h
  · rw [Renderer.query]
  · rw [queries_constants, Renderer.query, Renderer.constant]

theorem recompiles_array {items : List Query} (hitems : ∀ q ∈ items, q.Recompiles s style) :
    (Query.array items).Recompiles s style := by
  intro scope receiver expected n₀ n m e hygienic hcontext hanchored _ h q hq
  obtain ⟨rfl, es, hes, he⟩ := meaning_array_eq_ok.mp h
  cases hanchored
  obtain ⟨us, rfl, rfl, hc, hus, hexpected⟩ := mapM_eq_ok_iff.mp hes
  obtain ⟨element, helement, hfits, _⟩ := Expr.arrayOf_eq_ok he
  rw [query_arrayOf he] at hq
  obtain ⟨qs, hqs, hq⟩ := except_bind_eq_ok.mp hq
  cases hq
  have hbefore := (consecutive_of_contiguous (fun u _ => elaborates_of_meaning u.query) hc
    hus).le_before
  have hread : ∀ u ∈ us, u.graph.Rereads s style scope u.expected u.before u.after := by
    intro u hu
    have hmeets : ∀ t ∈ u.expected, t.Meets u.graph.type := by
      rw [hexpected u hu]
      intro t ht
      obtain rfl : element = t := by
        rw [Expr.elementType?, ht] at helement
        exact (Option.some.inj helement).symm
      exact Ty.meets_of_fitsArray (hfits _ (List.mem_map_of_mem hu))
    exact hitems _ (List.mem_map_of_mem hu) (hygienic.mono (hbefore u hu))
      ⟨hcontext.scope, by simp, hexpected u hu ▸ native_expectedElement hcontext.expected⟩
      .none hmeets (hus u hu)
  have hlen : qs.length = us.length := by
    rw [Renderer.length_queries hqs, List.length_map]
  have hagain := mapM_eq_ok_iff.mpr ⟨List.zipWith Part.reread us qs, map_query_reread hlen,
    map_graph_reread hlen, hc.reread hlen, compiled_reread hqs hread,
    expected_reread hexpected qs⟩
  refine meaning_array_eq_ok.mpr ⟨rfl, _, hagain, ?_⟩
  rw [Expr.relabels_eq_map, Expr.arrayOf_relabel, he]
  rfl

end Query
end TypedQuery
