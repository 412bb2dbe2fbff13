import TypedQuery.Proofs.NodeLaws
import TypedQuery.Proofs.Relabelling
import TypedQuery.Rendering
/-!
Compiled graphs can be written.

There are graphs that no query stands for: a lookup in what is no property, a member without a
function, a constant without a literal. The compiler makes none of them.
-/
namespace TypedQuery

open Catalogue

/-- The member is written as a call, with this number of arguments. -/
def Member.Callable (registry : Registry) (m : Member) (count : Nat) : Prop :=
  (m.id ≠ dictionaryGet.id ∧ m.id ≠ enumerableContains.id) ∧
    ∃ mapping, registry.functionOf? m = some mapping ∧ mapping.arity = count

namespace Expr

/-- What a node has to be for there to be a query. -/
def RenderingRule (registry : Registry) : Expr → Prop
  | .constant v => v.Writable
  | .memberAccess _ m => m.Callable registry 1
  | .call m es => m.Callable registry es.length ∨
    m.id = enumerableContains.id ∧ ∃ array value, es = [array, value]
  | .callOn e m es => m.Callable registry (es.length + 1) ∨
    m.id = dictionaryGet.id ∧ ∃ base name t key, e = .property base name t ∧ es = [key]
  | _ => True

/-- There is a query for the graph. -/
def Renderable (registry : Registry) (e : Expr) : Prop := e.Everywhere (RenderingRule registry)

variable {registry : Registry} {e e' : Expr}

theorem renderable_iff :
    e.Renderable registry ↔
      e.RenderingRule registry ∧ ∀ c ∈ e.children, c.Renderable registry :=
  everywhere_iff

end Expr

/-! ## From graphs to queries -/

namespace Renderer

variable {r : Renderer}

mutual
theorem exists_constant : ∀ v : Value, v.Writable → ∃ q, constant v = .ok q
  | .null, _ | .bool _, _ | .single _, _ | .double _, _ | .decimal _, _ | .char _, _
  | .string _, _ | .guid _, _ | .dateTime _, _ => ⟨_, rfl⟩
  | .integer k n holds, _ => by cases k <;> exact ⟨_, rfl⟩
  | .enumCase .., h => by cases h
  | .array t items, h => by
    cases h with
    | array hitems =>
      obtain ⟨qs, hqs⟩ := exists_constants items hitems
      exact ⟨.array qs, by rw [constant, hqs]; rfl⟩

theorem exists_constants : ∀ vs : List Value, (∀ v ∈ vs, v.Writable) → ∃ qs, constants vs = .ok qs
  | [], _ => ⟨[], rfl⟩
  | v :: vs, h => by
    obtain ⟨hv, hvs⟩ := List.forall_mem_cons.mp h
    obtain ⟨q, hq⟩ := exists_constant v hv
    obtain ⟨qs, hqs⟩ := exists_constants vs hvs
    exact ⟨q :: qs, by rw [constants, hq, hqs]; rfl⟩
end

theorem queries_cons_eq_ok {e : Expr} {es : List Expr} {qs : List Query} :
    r.queries (e :: es) = .ok qs ↔
      ∃ q qs', r.query e = .ok q ∧ r.queries es = .ok qs' ∧ qs = q :: qs' := by
  rw [queries]
  constructor
  · intro h
    obtain ⟨q, hq, h⟩ := except_bind_eq_ok.mp h
    obtain ⟨qs, hqs, h⟩ := except_bind_eq_ok.mp h
    cases h
    exact ⟨q, qs, hq, hqs, rfl⟩
  · rintro ⟨q, qs, hq, hqs, rfl⟩
    rw [hq, hqs]
    rfl

theorem length_queries {es : List Expr} {qs : List Query} (h : r.queries es = .ok qs) :
    qs.length = es.length := by
  induction es generalizing qs with
  | nil =>
    cases h
    rfl
  | cons e es ih =>
    obtain ⟨q, qs, _, hqs, rfl⟩ := queries_cons_eq_ok.mp h
    rw [List.length_cons, List.length_cons, ih hqs]

theorem exists_function {m : Member} {qs : List Query} (h : m.Callable r.registry qs.length) :
    ∃ q, r.function m qs = .ok q := by
  obtain ⟨_, mapping, hmapping, harity⟩ := h
  obtain ⟨args, hargs⟩ := Mapping.exists_toQueryOrder? harity.symm
  exact ⟨r.call mapping args, by rw [function, hmapping]; dsimp only; rw [hargs]⟩

/-! The members of calls decide how these are written. Two of them are written as syntax. -/

/-- `value in array`. -/
def search (r : Renderer) : List Expr → Except RenderError Query
  | [array, value] => do
    let value ← r.query value
    let array ← r.query array
    .ok (.binary .isIn value array)
  | _ => .error (.unsupportedShape .searchArity)

/-- `name[key]`. -/
def lookup (r : Renderer) : Expr → List Expr → Except RenderError Query
  | .property receiver name _, [key] => do
    let key ← r.query key
    if r.isReceiver receiver then .ok (.indexer name [key])
    else
      let receiver ← r.query receiver
      .ok (.dot receiver (.indexer name [key]))
  | _, _ => .error (.unsupportedShape .lookupWithoutProperty)

theorem query_call_eq (m : Member) (es : List Expr) :
    r.query (.call m es) =
      if m.id = dictionaryGet.id then .error (.unsupportedShape .lookupWithoutProperty)
      else if m.id = enumerableContains.id then r.search es
      else r.queries es >>= r.function m := by
  match es with
  | [] | [_] | [_, _] | _ :: _ :: _ :: _ => rfl

theorem query_callOn_eq (e : Expr) (m : Member) (es : List Expr) :
    r.query (.callOn e m es) =
      if m.id = dictionaryGet.id then r.lookup e es
      else if m.id = enumerableContains.id then r.search es
      else r.query e >>= fun receiver =>
        r.queries es >>= fun args => r.function m (receiver :: args) := by
  match es with
  | [] | [_, _] | _ :: _ :: _ :: _ => cases e <;> rfl
  | [_] => cases e <;> rfl

theorem query_call {m : Member} {es : List Expr} (h : m.id ≠ dictionaryGet.id)
    (h' : m.id ≠ enumerableContains.id) :
    r.query (.call m es) = r.queries es >>= r.function m := by
  rw [query_call_eq, if_neg h, if_neg h']

theorem query_callOn {e : Expr} {m : Member} {es : List Expr} (h : m.id ≠ dictionaryGet.id)
    (h' : m.id ≠ enumerableContains.id) :
    r.query (.callOn e m es) =
      r.query e >>= fun receiver =>
        r.queries es >>= fun args => r.function m (receiver :: args) := by
  rw [query_callOn_eq, if_neg h, if_neg h']

theorem query_search {m : Member} {array value : Expr} (h : m.id = enumerableContains.id) :
    r.query (.call m [array, value]) =
      r.query value >>= fun value => r.query array >>= fun array =>
        .ok (.binary .isIn value array) := by
  have hne : m.id ≠ dictionaryGet.id := by
    rw [h]
    decide
  rw [query_call_eq, if_neg hne, if_pos h, search]

theorem query_lookup {m : Member} {base key : Expr} {name : String} {t : Ty}
    (h : m.id = dictionaryGet.id) :
    r.query (.callOn (.property base name t) m [key]) =
      r.query key >>= fun key =>
        if r.isReceiver base then .ok (.indexer name [key])
        else r.query base >>= fun base => .ok (.dot base (.indexer name [key])) := by
  rw [query_callOn_eq, if_pos h, lookup]

mutual
/-- A graph that keeps to the rules can be written, in whatever style. -/
theorem exists_query : ∀ e : Expr, e.Renderable r.registry → ∃ q, r.query e = .ok q
  | .constant v, h => exists_constant v h.root
  | .parameter _, _ => ⟨_, rfl⟩
  | .property e name t, h => by
    obtain ⟨q, hq⟩ := exists_query e ((Expr.renderable_iff.mp h).2 e (by simp [Expr.children]))
    simp only [query, hq]
    split <;> exact ⟨_, rfl⟩
  | .memberAccess e m, h => by
    obtain ⟨hrule, hchildren⟩ := Expr.renderable_iff.mp h
    obtain ⟨q, hq⟩ := exists_query e (hchildren e (by simp [Expr.children]))
    have hcallable : m.Callable r.registry [q].length := hrule
    obtain ⟨q', hq'⟩ := exists_function hcallable
    exact ⟨q', by rw [query, hq]; exact hq'⟩
  | .call m es, h => by
    obtain ⟨hrule, hchildren⟩ := Expr.renderable_iff.mp h
    obtain ⟨qs, hqs⟩ := exists_queries es hchildren
    rcases hrule with hrule | ⟨hid, array, value, rfl⟩
    · obtain ⟨q, hq⟩ := exists_function (length_queries hqs ▸ hrule)
      exact ⟨q, by rw [query_call hrule.1.1 hrule.1.2, hqs]; exact hq⟩
    · obtain ⟨qa, _, ha, hqs, _⟩ := queries_cons_eq_ok.mp hqs
      obtain ⟨qv, _, hv, _, _⟩ := queries_cons_eq_ok.mp hqs
      exact ⟨.binary .isIn qv qa, by rw [query_search hid, hv, ha]; rfl⟩
  | .callOn e m es, h => by
    obtain ⟨hrule, hchildren⟩ := Expr.renderable_iff.mp h
    obtain ⟨he, hes⟩ := List.forall_mem_cons.mp hchildren
    obtain ⟨q, hq⟩ := exists_query e he
    obtain ⟨qs, hqs⟩ := exists_queries es hes
    rcases hrule with hrule | ⟨hid, base, name, t, key, rfl, rfl⟩
    · have hcallable : m.Callable r.registry (q :: qs).length := by
        rwa [List.length_cons, length_queries hqs]
      obtain ⟨q', hq'⟩ := exists_function hcallable
      exact ⟨q', by rw [query_callOn hrule.1.1 hrule.1.2, hq, hqs]; exact hq'⟩
    · obtain ⟨qk, _, hk, _, _⟩ := queries_cons_eq_ok.mp hqs
      rw [query_lookup hid]
      rw [query] at hq
      by_cases hbase : r.isReceiver base = true
      · exact ⟨_, except_bind_eq_ok.mpr ⟨qk, hk, if_pos hbase⟩⟩
      · rw [if_neg hbase] at hq
        obtain ⟨qb, hb, _⟩ := except_bind_eq_ok.mp hq
        refine ⟨.dot qb (.indexer name [qk]), except_bind_eq_ok.mpr ⟨qk, hk, ?_⟩⟩
        rw [if_neg hbase, hb]
        rfl
  | .binary op l r' t, h => by
    obtain ⟨hl, hr⟩ := List.forall_mem_cons.mp (Expr.renderable_iff.mp h).2
    obtain ⟨ql, hql⟩ := exists_query l hl
    obtain ⟨qr, hqr⟩ := exists_query r' (hr r' List.mem_cons_self)
    rw [query, hql, hqr]
    split <;> exact ⟨_, rfl⟩
  | .convert e t explicit, h => by
    obtain ⟨q, hq⟩ := exists_query e ((Expr.renderable_iff.mp h).2 e (by simp [Expr.children]))
    simp only [query, hq]
    split
    · exact ⟨_, rfl⟩
    · split <;> exact ⟨_, rfl⟩
  | .typeIs e t, h => by
    obtain ⟨q, hq⟩ := exists_query e ((Expr.renderable_iff.mp h).2 e (by simp [Expr.children]))
    simp only [query, hq]
    split <;> exact ⟨_, rfl⟩
  | .newArray t es, h => by
    obtain ⟨qs, hqs⟩ := exists_queries es (Expr.renderable_iff.mp h).2
    exact ⟨_, by rw [query, hqs]; rfl⟩
  | .lambda ps e, h => by
    obtain ⟨q, hq⟩ := exists_query e ((Expr.renderable_iff.mp h).2 e (by simp [Expr.children]))
    exact ⟨_, by rw [query, hq]; rfl⟩
  | .quote e, h => by
    rw [query]
    exact exists_query e ((Expr.renderable_iff.mp h).2 e (by simp [Expr.children]))

theorem exists_queries : ∀ es : List Expr, (∀ e ∈ es, e.Renderable r.registry) →
    ∃ qs, r.queries es = .ok qs
  | [], _ => ⟨[], rfl⟩
  | e :: es, h => by
    obtain ⟨he, hes⟩ := List.forall_mem_cons.mp h
    obtain ⟨q, hq⟩ := exists_query e he
    obtain ⟨qs, hqs⟩ := exists_queries es hes
    exact ⟨q :: qs, by rw [queries, hq, hqs]; rfl⟩
end

end Renderer

/-! ## From queries to graphs -/

theorem Mapping.arity_of_hasReceiver {mapping : Mapping} {count : Nat}
    (h : mapping.member.hasReceiver = true)
    (hcount : count = mapping.member.template.params.length) : mapping.arity = count + 1 := by
  rw [Mapping.arity, ← mapping.arity_member, Member.arity, h, if_pos rfl, hcount]

namespace Query

variable {s : Setting} {q : Query} {scope : List Param} {receiver : Option Expr}
  {expected : Option Ty} {n m : Nat} {e : Expr}

/-- A member that a function makes of its own is written as that function. -/
theorem callable_of_template (hr : s.registry.Unambiguous) {count : Nat} {mapping : Mapping}
    (hm : mapping ∈ s.registry.mappings) (harity : mapping.arity = count) {member : Member}
    (ht : member.template = mapping.member.template) : member.Callable s.registry count := by
  have hid : member.id = mapping.member.id := congrArg MemberTemplate.id ht
  refine ⟨?_, mapping, hr.functionOf?_eq hm hid, harity⟩
  rw [hid]
  exact hr.proper mapping hm

theorem keeps_renderingRule (hr : s.registry.Unambiguous) :
    s.Keeps (Expr.RenderingRule s.registry) where
  plain e he := by
    cases e with
    | constant | memberAccess | call | callOn => cases he
    | _ => trivial
  constant _ hv := hv
  changed _ _ hvw hv := hvw hv
  items _ _ hvs := .array hvs
  property _ _ _ _ := trivial
  lookup e key name t _ _ _ := .inr ⟨rfl, e, name, t, key, rfl, rfl⟩
  search value array _ := .inr ⟨rfl, array, value, rfl⟩
  access mapping e member hm hproperty hb := by
    refine callable_of_template hr hm ?_ (Member.template_of_bindDeclaring hb)
    exact Mapping.arity_of_hasReceiver (MemberKind.hasReceiver_of_isProperty hproperty)
      (MemberKind.length_params_of_isProperty hproperty).symm
  callOn mapping e member us b hm hon hb hf := by
    have ht := Member.template_of_bindDeclaring hb
    refine .inl (callable_of_template hr hm ?_ ht)
    exact Mapping.arity_of_hasReceiver hon (by rw [List.length_map, hf.length_eq, ht])
  call mapping us b hm hon hf := by
    refine .inl (callable_of_template hr hm ?_ rfl)
    rw [Mapping.arity, ← mapping.arity_member, Member.arity, hon, List.length_map, hf.length_eq]
    rfl

/-- Every rule of elaboration makes a graph that can be written out of such graphs. -/
theorem Elaborates.renderable (h : Elaborates s q scope receiver expected n e m)
    (hr : s.registry.Unambiguous)
    (hreceiver : ∀ base ∈ receiver, base.Renderable s.registry) : e.Renderable s.registry :=
  h.everywhere (keeps_renderingRule hr) hreceiver

end Query
end TypedQuery
