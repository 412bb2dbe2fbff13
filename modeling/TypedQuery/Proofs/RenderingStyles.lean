import TypedQuery.Proofs.Renderable
/-!
The two styles in which a graph is written.

A style decides about calls alone: whether the first argument stands before the name of the
function or behind it. So a graph that cannot be written in one style cannot be written in the
other either, for the same reason, and the two queries become one when every call is written
before its arguments.
-/
namespace TypedQuery

namespace Query

mutual
/-- The query with every call that stands behind its first argument written before it. -/
def unchained : Query → Query
  | .binary .dot left (.call name args) => .call name (left.unchained :: unchainedEach args)
  | .binary op left right => .binary op left.unchained right.unchained
  | .call name args => .call name (unchainedEach args)
  | .indexer name args => .indexer name (unchainedEach args)
  | .lambda params body => .lambda params body.unchained
  | .array items => .array (unchainedEach items)
  | .symbol name => .symbol name
  | .string value => .string value
  | .number text => .number text
  | .guid value => .guid value
  | .dateTime value => .dateTime value

def unchainedEach : List Query → List Query
  | [] => []
  | q :: qs => q.unchained :: unchainedEach qs
end

theorem unchainedEach_eq_map (qs : List Query) : unchainedEach qs = qs.map unchained := by
  induction qs with
  | nil => rfl
  | cons q qs ih => rw [unchainedEach, ih, List.map_cons]

end Query

/-- What is done to both parts of a step is done to the step. -/
theorem map_bind_eq {ε α α' β β' : Type} {x : Except ε α} {x' : Except ε α'}
    {f : α → Except ε β} {f' : α' → Except ε β'} {u : α → α'} {w : β → β'}
    (hx : x.map u = x') (hf : ∀ a, (f a).map w = f' (u a)) :
    (x >>= f).map w = x' >>= f' := by
  subst hx
  cases x with
  | error => rfl
  | ok a => exact hf a

namespace Renderer

open Query (unchained unchainedEach unchainedEach_eq_map)

variable {r : Renderer}

/-- The renderer that writes all calls before their arguments. -/
def staticStyle (r : Renderer) : Renderer := { r with style := .static }

@[simp]
theorem registry_staticStyle : r.staticStyle.registry = r.registry := rfl

@[simp]
theorem isReceiver_staticStyle (e : Expr) : r.staticStyle.isReceiver e = r.isReceiver e := rfl

/-! ## Calls -/

theorem call_staticStyle (mapping : Mapping) (args : List Query) :
    r.staticStyle.call mapping args = .call mapping.name args := by
  cases args <;> rfl

theorem unchained_call (mapping : Mapping) (args : List Query) :
    (r.call mapping args).unchained = r.staticStyle.call mapping (args.map unchained) := by
  rw [call_staticStyle]
  unfold call
  split
  · rw [Query.dot, unchained, unchainedEach_eq_map, List.map_cons]
  · rw [unchained, unchainedEach_eq_map]

theorem function_staticStyle (member : Member) (args : List Query) :
    (r.function member args).map unchained =
      r.staticStyle.function member (args.map unchained) := by
  unfold function
  rw [registry_staticStyle]
  cases r.registry.functionOf? member with
  | none => rfl
  | some mapping =>
    dsimp only
    rw [Mapping.toQueryOrder?_map]
    cases mapping.toQueryOrder? args with
    | none => rfl
    | some args => exact congrArg Except.ok (unchained_call mapping args)

/-! ## The two members that are written as syntax -/

theorem search_staticStyle {args : List Expr}
    (hargs : ∀ e ∈ args, (r.query e).map unchained = r.staticStyle.query e) :
    (r.search args).map unchained = r.staticStyle.search args := by
  match args with
  | [array, value] =>
    refine map_bind_eq (hargs value (by simp)) fun value => ?_
    exact map_bind_eq (hargs array (by simp)) fun array => rfl
  | [] | [_] | _ :: _ :: _ :: _ => rfl

theorem lookup_staticStyle {e : Expr} {args : List Expr}
    (he : ∀ receiver name t, e = .property receiver name t →
      (r.query receiver).map unchained = r.staticStyle.query receiver)
    (hargs : ∀ e ∈ args, (r.query e).map unchained = r.staticStyle.query e) :
    (r.lookup e args).map unchained = r.staticStyle.lookup e args := by
  unfold lookup
  split
  · next receiver name t key =>
    refine map_bind_eq (hargs key (by simp)) fun key => ?_
    rw [isReceiver_staticStyle]
    split
    · rfl
    · exact map_bind_eq (he receiver name t rfl) fun receiver => rfl
  · rfl

/-- A type operator is written before its operand in every style. -/
theorem typeCall_staticStyle (name : String) (t : Ty) {e : Expr}
    (he : (r.query e).map unchained = r.staticStyle.query e) :
    (if r.isReceiver e then .ok (.call name [typeName t])
      else r.query e >>= fun operand => .ok (.call name [operand, typeName t])).map unchained =
      if r.isReceiver e then .ok (.call name [typeName t])
      else r.staticStyle.query e >>= fun operand =>
        (.ok (.call name [operand, typeName t]) : Except RenderError Query) := by
  have htype : (typeName t).unchained = typeName t := by
    unfold typeName
    split <;> rfl
  have hcall : ∀ operands : List Query, unchained (.call name (operands ++ [typeName t])) =
      .call name (operands.map unchained ++ [typeName t]) := by
    intro operands
    rw [unchained, unchainedEach_eq_map, List.map_append, List.map_singleton, htype]
  split
  · exact congrArg Except.ok (hcall [])
  · exact map_bind_eq he fun operand => congrArg Except.ok (hcall [operand])

/-! ## Graphs -/

mutual
theorem map_unchained_constant : ∀ v : Value, (constant v).map unchained = constant v
  | .array t items => by
    rw [constant]
    refine map_bind_eq (map_unchained_constants items) fun qs => ?_
    simp only [Except.map, unchained, unchainedEach_eq_map]
  | .enumCase d n => by
    rw [constant]
    cases d.nameOf? n <;> rfl
  | .integer k n _ => by cases k <;> rfl
  | .bool b => by cases b <;> rfl
  | .null | .single _ | .double _ | .decimal _ | .char _ | .string _ | .guid _ | .dateTime _ => rfl

theorem map_unchained_constants : ∀ vs : List Value,
    (constants vs).map (List.map unchained) = constants vs
  | [] => rfl
  | v :: vs => by
    rw [constants]
    refine map_bind_eq (map_unchained_constant v) fun q => ?_
    exact map_bind_eq (map_unchained_constants vs) fun qs => rfl
end

theorem queries_staticStyle {es : List Expr}
    (hes : ∀ e ∈ es, (r.query e).map unchained = r.staticStyle.query e) :
    (r.queries es).map (List.map unchained) = r.staticStyle.queries es := by
  induction es with
  | nil => rfl
  | cons e es ih =>
    obtain ⟨he, hes⟩ := List.forall_mem_cons.mp hes
    rw [queries, queries]
    refine map_bind_eq he fun q => ?_
    exact map_bind_eq (ih hes) fun qs => rfl

mutual
/-- What is written in any style is what is written in the static one but for the calls behind
their first arguments, and so is what cannot be written. -/
theorem query_staticStyle : ∀ e : Expr, (r.query e).map unchained = r.staticStyle.query e
  | .constant v => map_unchained_constant v
  | .parameter p => by
    rw [query, query, isReceiver_staticStyle]
    cases r.isReceiver (.parameter p) <;> rfl
  | .property e name t => by
    rw [query, query, isReceiver_staticStyle]
    split
    · rfl
    · exact map_bind_eq (query_staticStyle e) fun receiver => rfl
  | .memberAccess e member => by
    rw [query, query]
    exact map_bind_eq (query_staticStyle e) fun receiver => function_staticStyle member [receiver]
  | .call member args => by
    have hargs := query_staticStyle_each args
    rw [query_call_eq, query_call_eq]
    split
    · rfl
    split
    · exact search_staticStyle hargs
    · exact map_bind_eq (queries_staticStyle hargs) fun args => function_staticStyle member args
  | .callOn e member args => by
    have hargs := query_staticStyle_each args
    have he : (r.query e).map unchained = r.staticStyle.query e := query_staticStyle e
    -- A lookup writes what the property is taken of, which is no child of the call itself.
    have hreceiver : ∀ receiver name t, e = .property receiver name t →
        (r.query receiver).map unchained = r.staticStyle.query receiver := by
      cases e with
      | property receiver =>
        have hreceiver := query_staticStyle receiver
        rintro _ _ _ ⟨⟩
        exact hreceiver
      | _ => intro _ _ _ h; cases h
    rw [query_callOn_eq, query_callOn_eq]
    split
    · exact lookup_staticStyle hreceiver hargs
    split
    · exact search_staticStyle hargs
    · refine map_bind_eq he fun receiver => ?_
      exact map_bind_eq (queries_staticStyle hargs) fun args =>
        function_staticStyle member (receiver :: args)
  | .binary op left right t => by
    have hleft : (r.query left).map unchained = r.staticStyle.query left := query_staticStyle left
    have hright := query_staticStyle right
    rw [query, query]
    split
    · exact map_bind_eq hleft fun left => rfl
    · exact map_bind_eq hright fun right => rfl
    · exact map_bind_eq hleft fun left => map_bind_eq hright fun right => rfl
  | .convert e t explicit => by
    rw [query, query, isReceiver_staticStyle]
    split
    · exact query_staticStyle e
    · exact typeCall_staticStyle "cast" t (query_staticStyle e)
  | .typeIs e t => by
    rw [query, query, isReceiver_staticStyle]
    exact typeCall_staticStyle "isof" t (query_staticStyle e)
  | .newArray t es => by
    rw [query, query]
    refine map_bind_eq (queries_staticStyle (query_staticStyle_each es)) fun items => ?_
    simp only [Except.map, unchained, unchainedEach_eq_map]
  | .lambda ps body => by
    rw [query, query]
    exact map_bind_eq (query_staticStyle body) fun q => rfl
  | .quote e => by
    rw [query, query]
    exact query_staticStyle e

theorem query_staticStyle_each : ∀ es : List Expr, ∀ e ∈ es,
    (r.query e).map unchained = r.staticStyle.query e
  | [], _, h => absurd h List.not_mem_nil
  | e :: es, e', h => by
    rcases List.mem_cons.mp h with h | h
    · exact h ▸ query_staticStyle e
    · exact query_staticStyle_each es e' h
end

end Renderer

/-- A graph can be written in one style just if it can in the static one, else for the same reason
not, and the query of the static style is the other with every call written before its arguments.
For the static style itself this says that none of its calls stands behind an argument. -/
theorem Expr.toQuery_static (registry : Registry) (style : RenderStyle) (e : Expr) :
    (e.toQuery registry style).map Query.unchained = e.toQuery registry .static := by
  unfold toQuery
  split
  · exact Renderer.query_staticStyle _
  · exact Renderer.query_staticStyle _

end TypedQuery
