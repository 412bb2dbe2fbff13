import TypedQuery.Proofs.ConstructReading
/-!
Rendering inverts compilation.

Every compiled graph can be written as a query, and the query compiles to the graph again. Each
construct is read again if its parts are, in whatever scope and for whatever type they are
compiled, so the law is an induction on the query.
-/
namespace TypedQuery
namespace Query

variable {s : Setting} {style : RenderStyle} {left right : Query}

/-- What a compiled query is about is a type with enumerations of the model. -/
theorem native_of_meaning (hs : s.Readable) {q : Query} {scope : List Param}
    {receiver : Option Expr} {expected : Option Ty} {n m : Nat} {e : Expr}
    (hcontext : NativeContext s scope receiver expected)
    (h : q.meaning s scope receiver expected n = .ok (e, m)) : e.type.Native s.model.enums :=
  (elaborates_of_meaning q h).native hs.enumFree hs.native hs.native_this hcontext

theorem recompiles_path (hs : s.Readable) (hcall : ∀ name args, right ≠ .call name args)
    (hleft : left.Recompiles s style) (hright : right.Recompiles s style) :
    (Query.binary .dot left right).Recompiles s style := by
  intro scope receiver expected n₀ n m e hygienic hcontext hanchored hmeets h
  rw [meaning_path hcall] at h
  obtain ⟨l, k, hl, he⟩ := Compiler.bind_eq_ok.mp h
  have hcontext' : NativeContext s scope receiver none :=
    ⟨hcontext.scope, hcontext.receiver, by simp⟩
  have hread := hleft hygienic hcontext' hanchored (by simp) hl
  have hle : n₀ ≤ k := Nat.le_trans hanchored.le (elaborates_of_meaning left hl).le
  have hnative : ∀ base ∈ some l, base.type.Native s.model.enums := by
    rintro _ ⟨⟩
    exact native_of_meaning hs hcontext' hl
  rw [meaning_eq_of_receiver right l none expected] at he
  exact hright hygienic ⟨hcontext.scope, hnative, hcontext.expected⟩ (.some hle hread) hmeets he

theorem recompiles_isIn (hs : s.Readable) (hleft : left.Recompiles s style)
    (hright : right.Recompiles s style) : (Query.binary .isIn left right).Recompiles s style := by
  intro scope receiver expected n₀ n m e hygienic hcontext hanchored _ h q hq
  obtain ⟨rfl, value, k, array, hvalue, harray, he⟩ := meaning_isIn_eq_ok.mp h
  cases hanchored
  have hscope : NativeContext s scope none none := ⟨hcontext.scope, by simp, by simp⟩
  have hnative : ∀ t ∈ some (Ty.array value.type), t.Native s.model.enums := by
    rintro _ ⟨⟩
    rw [Ty.Native, (Ty.isMark_isForeign _).anyPart_array]
    exact native_of_meaning hs hscope hvalue
  have hmeets : ∀ t ∈ some (Ty.array value.type), t.Meets array.type := by
    rintro _ ⟨⟩
    exact Ty.meets_of_not_numeric rfl (by simp) (by simp)
  have hle := (elaborates_of_meaning left hvalue).le
  have hl := hleft hygienic hscope .none (by simp) hvalue
  have hr := hright (hygienic.mono hle) ⟨hcontext.scope, by simp, hnative⟩ .none hmeets harray
  have hagain := Expr.search_relabel .settling value array
  rw [he] at hagain
  obtain ⟨_, rfl⟩ := search_eq_ok he
  rw [Renderer.query_search rfl] at hq
  obtain ⟨ql, hql, hq⟩ := except_bind_eq_ok.mp hq
  obtain ⟨qr, hqr, hq⟩ := except_bind_eq_ok.mp hq
  cases hq
  refine meaning_isIn_eq_ok.mpr ⟨rfl, _, _, _, hl ql hql, ?_, hagain⟩
  rw [Expr.settle, Expr.type_relabel]
  exact hr qr hqr

theorem recompiles_operator (hs : s.Readable) (op : BinaryOp) (hleft : left.Recompiles s style)
    (hright : right.Recompiles s style) :
    (Query.binary (.value op) left right).Recompiles s style := by
  intro scope receiver expected n₀ n m e hygienic hcontext hanchored _ h
  obtain ⟨rfl, l, k, r, hl, hr, he⟩ := meaning_operator_eq_ok.mp h
  cases hanchored
  have hscope : NativeContext s scope none none := ⟨hcontext.scope, by simp, by simp⟩
  have hle := (elaborates_of_meaning left hl).le
  have hdistinct : ∀ d, l.type = .enum d ∨ r.type = .enum d → d.Distinct := by
    rintro d (ht | ht) <;> refine hs.distinct d (Ty.native_enum.mp (ht ▸ ?_))
    · exact native_of_meaning hs hscope hl
    · exact native_of_meaning hs hscope hr
  exact rereads_combine (elaborates_of_meaning left hl) (elaborates_of_meaning right hr)
    (hleft hygienic hscope .none (by simp) hl)
    (hright (hygienic.mono hle) hscope .none (by simp) hr) hdistinct expected he

theorem recompiles_number (text : String) : (Query.number text).Recompiles s style := by
  intro scope receiver expected n₀ n m e _ _ hanchored hmeets h q hq
  obtain ⟨rfl, he, rfl⟩ := meaning_number_eq_ok.mp h
  cases hanchored
  have hnumeric := isNumeric_of_numberConstant he
  obtain ⟨v, text', rfl, hwritten, hagain⟩ := numberConstant_again he fun t ht hn => by
    obtain ⟨p, rfl⟩ := Ty.exists_primitive_of_isNumeric hn
    refine (hmeets _ ht hn).resolve_right fun hnull => ?_
    rw [hnull] at hnumeric
    cases hnumeric
  obtain rfl : q = .number text' := Except.ok.inj (hq.symm.trans hwritten)
  exact meaning_number_eq_ok.mpr ⟨rfl, hagain, rfl⟩

/-- Other literals are written as they are. -/
theorem recompiles_literal {q : Query} (v : Value)
    (hq : ∀ {scope receiver expected n e m}, q.meaning s scope receiver expected n = .ok (e, m) ↔
      receiver = none ∧ .constant v = e ∧ n = m)
    (hwritten : Renderer.constant v = .ok q) (hsettle : v.settle = v) : q.Recompiles s style := by
  intro scope receiver expected n₀ n m e _ _ hanchored _ h q' hq'
  obtain ⟨rfl, rfl, rfl⟩ := hq.mp h
  cases hanchored
  obtain rfl : q' = q := Except.ok.inj (hq'.symm.trans hwritten)
  exact hq.mpr ⟨rfl, congrArg Expr.constant hsettle.symm, rfl⟩

/-- Whatever a call compiles to is read again, before a dot and behind it. -/
theorem recompiles_call (hs : s.Readable) {q : Query} (name : String) {args : List Query}
    (hargs : ∀ q ∈ args, q.Recompiles s style)
    (hq : ∀ {scope receiver expected n e m}, q.meaning s scope receiver expected n = .ok (e, m) →
      receiver = none ∧ s.call name (args.map (operand s)) scope n = .ok (e, m)) :
    q.Recompiles s style := by
  intro scope receiver expected n₀ n m e hygienic hcontext hanchored _ h
  obtain ⟨rfl, hcall⟩ := hq h
  cases hanchored
  exact rereads_of_call hs hygienic hcontext.scope hargs hcall expected

mutual
/-- What a query compiles to is read again from the query that stands for it, if no parameter
of a lambda has the name of a property of the implicit receiver. -/
theorem recompiles (hs : s.Readable) : ∀ q : Query,
    (∀ name ∈ q.lambdaNames, s.model.property? s.this.type name = none) → q.Recompiles s style
  | .symbol name, _ => recompiles_symbol hs name
  | .indexer name args, h => recompiles_indexer (recompiles_each hs args h) name
  | .binary op left right, h => by
    obtain ⟨hl, hr⟩ := List.forall_mem_append.mp h
    have hleft : left.Recompiles s style := recompiles hs left hl
    have hright : right.Recompiles s style := recompiles hs right hr
    cases op with
    | dot =>
      by_cases hcall : ∃ name args, right = .call name args
      · obtain ⟨name, args, rfl⟩ := hcall
        have hargs : ∀ q ∈ left :: args, q.Recompiles s style :=
          List.forall_mem_cons.mpr ⟨hleft, recompiles_each hs args hr⟩
        exact recompiles_call hs name hargs meaning_chained_eq_ok.mp
      · exact recompiles_path hs (fun name args hr => hcall ⟨name, args, hr⟩) hleft hright
    | isIn => exact recompiles_isIn hs hleft hright
    | value op => exact recompiles_operator hs op hleft hright
  | .call name args, h => recompiles_call hs name (recompiles_each hs args h) meaning_call_eq_ok.mp
  | .lambda names body, h => by
    obtain ⟨hnames, hbody⟩ := List.forall_mem_append.mp h
    exact recompiles_lambda (recompiles hs body hbody) hnames
  | .array items, h => recompiles_array (recompiles_each hs items h)
  | .number text, _ => recompiles_number text
  | .string value, _ =>
    recompiles_literal (.string value)
      (by simp only [meaning, Setting.standalone_eq_ok, Compiler.pure_eq_ok, implies_true]) rfl rfl
  | .guid value, _ =>
    recompiles_literal (.guid value)
      (by simp only [meaning, Setting.standalone_eq_ok, Compiler.pure_eq_ok, implies_true]) rfl rfl
  | .dateTime value, _ =>
    recompiles_literal (.dateTime value)
      (by simp only [meaning, Setting.standalone_eq_ok, Compiler.pure_eq_ok, implies_true]) rfl rfl

theorem recompiles_each (hs : s.Readable) : ∀ qs : List Query,
    (∀ name ∈ lambdaNamesOf qs, s.model.property? s.this.type name = none) →
    ∀ q ∈ qs, q.Recompiles s style
  | [], _, _, hq => absurd hq List.not_mem_nil
  | q :: qs, h, q', hq => by
    obtain ⟨hhead, htail⟩ := List.forall_mem_append.mp h
    rcases List.mem_cons.mp hq with hq | hq
    · exact hq ▸ recompiles hs q hhead
    · exact recompiles_each hs qs htail q' hq
end

/-! ## Compiled predicates -/

/-- The setting that predicates about `root` are compiled in. -/
def predicateSetting (model : Model) (root : Ty) : Setting where
  registry := .standard
  model := model
  this := receiverParam root

/-- A predicate compiles to a lambda with the meaning of the query, numbered from 1 on. -/
theorem compilePredicate_standard_eq_ok {model : Model} {root : Ty} {q : Query} {graph : Expr} :
    q.compilePredicate .standard model root = .ok graph ↔
      ∃ body m, graph = .lambda [receiverParam root] body ∧
        q.meaning (predicateSetting model root) [] none none 1 = .ok (body, m) := by
  simp only [compilePredicate_eq_ok, bodyFrom_eq_ok]
  constructor
  · rintro ⟨body, ⟨m, hbody⟩, rfl⟩
    exact ⟨body, m, rfl, by simpa [predicateSetting] using hbody⟩
  · rintro ⟨body, m, rfl, hbody⟩
    exact ⟨body, ⟨m, by simpa [predicateSetting] using hbody⟩, rfl⟩

end Query
end TypedQuery
