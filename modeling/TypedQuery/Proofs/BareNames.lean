import TypedQuery.Proofs.RoundTrip
/-!
Bare names and the lambdas around them.

A property of the implicit receiver is written as its name alone, wherever it stands. A name is
looked up among keywords and in all lambdas around it before it is a property. So a bare name
means the property again at just those places where no lambda around it has a parameter of the
name.
-/
namespace TypedQuery

/-! ## Places -/

namespace Query

/-- What is read by itself in a query behind a dot: the arguments. -/
def behindDot : Query → List Query
  | .binary .dot left right => left.behindDot ++ right.behindDot
  | .call _ args | .indexer _ args => args
  | _ => []

/-- The queries right below the root that are read in the same scope. -/
def parts : Query → List Query
  | .binary .dot left right => left :: right.behindDot
  | .binary _ left right => [left, right]
  | .call _ args | .indexer _ args | .array args => args
  | _ => []

/-- `x.At around q` says that `x` stands somewhere in `q` and is read there by itself. The names
`around` it are those of the parameters of all lambdas it stands in, the innermost first. -/
inductive At (x : Query) : List String → Query → Prop
  | here : At x [] x
  | part {around : List String} {p q : Query} : p ∈ q.parts → At x around p → At x around q
  | body {around params : List String} {body : Query} :
    At x around body → At x (around ++ params) (.lambda params body)

theorem At.trans {x y z : Query} {inner outer : List String} (hx : x.At inner y)
    (hy : y.At outer z) : x.At (inner ++ outer) z := by
  induction hy with
  | here =>
    rw [List.append_nil]
    exact hx
  | part hp _ ih => exact .part hp ih
  | body _ ih =>
    rw [← List.append_assoc]
    exact .body ih

end Query

namespace Expr

/-- The graphs right below the root that stand in the same lambdas. -/
def parts : Expr → List Expr
  | .lambda _ _ => []
  | e => e.children

/-- `x.At around e` says that `x` is a node of `e` inside of lambdas with the parameters
`around` it, the innermost first. -/
inductive At (x : Expr) : List Param → Expr → Prop
  | here : At x [] x
  | part {around : List Param} {p e : Expr} : p ∈ e.parts → At x around p → At x around e
  | body {around params : List Param} {body : Expr} :
    At x around body → At x (around ++ params) (.lambda params body)

variable {x e p : Expr} {around : List Param}

theorem mem_children_of_mem_parts (h : p ∈ e.parts) : p ∈ e.children := by
  cases e with
  | lambda => cases h
  | _ => exact h

theorem At.within (h : x.At around e) : Within x e := by
  induction h with
  | here => exact .root
  | part hp _ ih => exact .child (mem_children_of_mem_parts hp) ih
  | body _ ih => exact .child (by simp [children]) ih

/-- Nothing but the root stands in a node without children. -/
theorem At.eq_of_children (h : x.At around e) (he : e.children = []) : x = e := by
  cases h with
  | here => rfl
  | part hp =>
    have hp := mem_children_of_mem_parts hp
    rw [he] at hp
    cases hp
  | body => cases he

end Expr

/-! ## Places of a graph and of the query it is written as -/

namespace Renderer

variable {ρ : Renderer} {e p : Expr} {q : Query}

theorem eq_parameter_of_isReceiver (h : ρ.isReceiver e = true) : ∃ p, e = .parameter p := by
  unfold isReceiver at h
  split at h
  · cases e with
    | parameter p => exact ⟨p, rfl⟩
    | _ => cases h
  · cases h

/-- A call has all of its arguments as parts. -/
theorem mem_parts_of_function {m : Member} {args : List Query} (h : ρ.function m args = .ok q) :
    ∀ a ∈ args, a ∈ q.parts := by
  intro a ha
  unfold function at h
  split at h
  · cases h
  · next mapping _ =>
    split at h
    · cases h
    · next args' hargs =>
      cases h
      have hmem : a ∈ args' := Mapping.mem_of_reorder? (Mapping.reorder?_of_toQueryOrder? hargs) ha
      unfold call
      split
      · exact hmem
      · exact hmem

theorem exists_of_mem_queries {es : List Expr} {qs : List Query} (h : ρ.queries es = .ok qs) :
    ∀ e ∈ es, ∃ q ∈ qs, ρ.query e = .ok q := by
  induction es generalizing qs with
  | nil => simp
  | cons e es ih =>
    obtain ⟨q, qs', hq, hqs, rfl⟩ := queries_cons_eq_ok.mp h
    refine List.forall_mem_cons.mpr ⟨⟨q, List.mem_cons_self, hq⟩, fun e he => ?_⟩
    obtain ⟨q', hmem, hq'⟩ := ih hqs e he
    exact ⟨q', List.mem_cons_of_mem _ hmem, hq'⟩

/-- The graph is written somewhere in the query, with no lambda around it. -/
def WrittenIn (ρ : Renderer) (p : Expr) (q : Query) : Prop := ∃ a, ρ.query p = .ok a ∧ a.At [] q

theorem writtenIn_of_mem {a : Query} (ha : ρ.query p = .ok a) (hmem : a ∈ q.parts) :
    ρ.WrittenIn p q :=
  ⟨a, ha, .part hmem .here⟩

theorem writtenIn_of_queries {es : List Expr} {qs : List Query} (hqs : ρ.queries es = .ok qs)
    (hparts : ∀ a ∈ qs, a ∈ q.parts) : ∀ p ∈ es, ρ.WrittenIn p q := by
  intro p hp
  obtain ⟨a, hmem, ha⟩ := exists_of_mem_queries hqs p hp
  exact writtenIn_of_mem ha (hparts a hmem)

/-- The implicit receiver may be left out, but it has no parts. -/
theorem writtenIn_of_isReceiver {short : Query} {long : Query → Query}
    (hq : (if ρ.isReceiver p then .ok short else ρ.query p >>= fun a => .ok (long a)) = .ok q)
    (hlong : ∀ a, a ∈ (long a).parts) : ρ.WrittenIn p q ∨ p.children = [] := by
  by_cases hreceiver : ρ.isReceiver p = true
  · obtain ⟨_, rfl⟩ := eq_parameter_of_isReceiver hreceiver
    exact .inr rfl
  · rw [if_neg hreceiver] at hq
    obtain ⟨a, ha, hq⟩ := except_bind_eq_ok.mp hq
    cases hq
    exact .inl (writtenIn_of_mem ha (hlong a))

theorem writtenIn_call {m : Member} {es : List Expr}
    (hrule : (Expr.call m es).RenderingRule ρ.registry) (hq : ρ.query (.call m es) = .ok q) :
    ∀ p ∈ es, ρ.WrittenIn p q := by
  rcases hrule with hrule | ⟨hid, array, value, rfl⟩
  · rw [query_call hrule.1.1 hrule.1.2] at hq
    obtain ⟨qs, hqs, hq⟩ := except_bind_eq_ok.mp hq
    exact writtenIn_of_queries hqs (mem_parts_of_function hq)
  · rw [query_search hid] at hq
    obtain ⟨qv, hqv, hq⟩ := except_bind_eq_ok.mp hq
    obtain ⟨qa, hqa, hq⟩ := except_bind_eq_ok.mp hq
    cases hq
    refine List.forall_mem_cons.mpr ⟨writtenIn_of_mem hqa (by simp [Query.parts]), ?_⟩
    exact List.forall_mem_singleton.mpr (writtenIn_of_mem hqv (by simp [Query.parts]))

/-- The property that an indexer is about is the only part of a call that is not written. -/
theorem writtenIn_callOn {m : Member} {es : List Expr}
    (hrule : (Expr.callOn e m es).RenderingRule ρ.registry)
    (hq : ρ.query (.callOn e m es) = .ok q) (hp : p ∈ e :: es) :
    ρ.WrittenIn p q ∨ ∃ base name t key, e = .property base name t ∧ es = [key] ∧
      m.id = Catalogue.dictionaryGet.id ∧ p = e := by
  rcases hrule with hrule | ⟨hid, base, name, t, key, rfl, rfl⟩
  · rw [query_callOn hrule.1.1 hrule.1.2] at hq
    obtain ⟨qe, hqe, hq⟩ := except_bind_eq_ok.mp hq
    obtain ⟨qs, hqs, hq⟩ := except_bind_eq_ok.mp hq
    obtain ⟨hreceiver, hargs⟩ := List.forall_mem_cons.mp (mem_parts_of_function hq)
    rcases List.mem_cons.mp hp with rfl | hp
    · exact .inl (writtenIn_of_mem hqe hreceiver)
    · exact .inl (writtenIn_of_queries hqs hargs p hp)
  · rcases List.mem_cons.mp hp with rfl | hp
    · exact .inr ⟨base, name, t, key, rfl, rfl, hid, rfl⟩
    · obtain rfl := List.mem_singleton.mp hp
      rw [query_lookup hid] at hq
      obtain ⟨qk, hqk, hq⟩ := except_bind_eq_ok.mp hq
      refine .inl (writtenIn_of_mem hqk ?_)
      split at hq
      · cases hq
        exact List.mem_cons_self
      · obtain ⟨qb, _, hq⟩ := except_bind_eq_ok.mp hq
        cases hq
        simp [Query.parts, Query.dot, Query.behindDot]

/-- The number that a comparison writes as a name is a constant. -/
theorem children_of_caseName? {side other : Expr} {name : String}
    (h : caseName? side other = some name) : other.children = [] := by
  unfold caseName? at h
  split at h
  · obtain ⟨n, hn, _⟩ := Option.bind_eq_some_iff.mp h
    cases other with
    | constant => rfl
    | _ => cases hn
  · cases h

theorem writtenIn_binary {op : BinaryOp} {l r : Expr} {t : Ty}
    (hq : ρ.query (.binary op l r t) = .ok q) :
    (ρ.WrittenIn l q ∨ l.children = []) ∧ (ρ.WrittenIn r q ∨ r.children = []) := by
  rw [query] at hq
  split at hq
  · next name hl =>
    obtain ⟨ql, hql, hq⟩ := except_bind_eq_ok.mp hq
    cases hq
    exact ⟨.inl (writtenIn_of_mem hql (by simp [Query.parts])), .inr (children_of_caseName? hl)⟩
  · next name _ hr =>
    obtain ⟨qr, hqr, hq⟩ := except_bind_eq_ok.mp hq
    cases hq
    exact ⟨.inr (children_of_caseName? hr), .inl (writtenIn_of_mem hqr (by simp [Query.parts]))⟩
  · obtain ⟨ql, hql, hq⟩ := except_bind_eq_ok.mp hq
    obtain ⟨qr, hqr, hq⟩ := except_bind_eq_ok.mp hq
    cases hq
    exact ⟨.inl (writtenIn_of_mem hql (by simp [Query.parts])),
      .inl (writtenIn_of_mem hqr (by simp [Query.parts]))⟩

/-- What stands right below the root of a graph stands below the root of what it is written as,
but for what has no parts of its own and for the property that an indexer is about. -/
theorem writtenIn_of_mem_parts (hrule : e.RenderingRule ρ.registry) (hq : ρ.query e = .ok q)
    (hp : p ∈ e.parts) :
    ρ.WrittenIn p q ∨ p.children = [] ∨
      ∃ base name t m key, e = .callOn (.property base name t) m [key] ∧
        m.id = Catalogue.dictionaryGet.id ∧ p = .property base name t := by
  cases e with
  | constant | parameter | lambda => cases hp
  | property e name t =>
    obtain rfl := List.mem_singleton.mp hp
    rw [query] at hq
    exact (writtenIn_of_isReceiver hq fun _ => List.mem_cons_self).imp_right .inl
  | memberAccess e m =>
    obtain rfl := List.mem_singleton.mp hp
    obtain ⟨a, ha, hq⟩ := except_bind_eq_ok.mp hq
    exact .inl (writtenIn_of_mem ha (mem_parts_of_function hq a List.mem_cons_self))
  | call m es => exact .inl (writtenIn_call hrule hq p hp)
  | callOn e m es =>
    refine (writtenIn_callOn hrule hq hp).imp_right fun h => .inr ?_
    obtain ⟨base, name, t, key, rfl, rfl, hid, rfl⟩ := h
    exact ⟨base, name, t, m, key, rfl, hid, rfl⟩
  | binary op l r t =>
    obtain ⟨hl, hr⟩ := writtenIn_binary hq
    rcases List.mem_cons.mp hp with rfl | hp
    · exact hl.imp_right .inl
    · obtain rfl := List.mem_singleton.mp hp
      exact hr.imp_right .inl
  | convert e t explicit =>
    obtain rfl := List.mem_singleton.mp hp
    cases explicit with
    | false => exact .inl ⟨q, hq, .here⟩
    | true =>
      rw [query] at hq
      exact (writtenIn_of_isReceiver hq fun _ => List.mem_cons_self).imp_right .inl
  | typeIs e t =>
    obtain rfl := List.mem_singleton.mp hp
    rw [query] at hq
    exact (writtenIn_of_isReceiver hq fun _ => List.mem_cons_self).imp_right .inl
  | newArray t es =>
    obtain ⟨qs, hqs, hq⟩ := except_bind_eq_ok.mp hq
    cases hq
    exact .inl (writtenIn_of_queries hqs (fun _ => id) p hp)
  | quote e =>
    obtain rfl := List.mem_singleton.mp hp
    exact .inl ⟨q, hq, .here⟩

/-- A property is written under its name alone, or as an indexer of that name. -/
def Names (name : String) (x : Query) : Prop := x = .symbol name ∨ ∃ key, x = .indexer name [key]

/-- What stands behind a dot does not matter for the place of a name before it. -/
theorem at_of_names_dot {name other : String} {x a : Query} {around : List String}
    (hx : Names name x) (h : x.At around (.dot a (.symbol other))) : x.At around a := by
  generalize hdot : Query.dot a (.symbol other) = y at h
  cases h with
  | here => rcases hx with rfl | ⟨key, rfl⟩ <;> cases hdot
  | part hp h =>
    subst hdot
    obtain rfl : _ = a := by simpa [Query.parts, Query.dot, Query.behindDot] using hp
    exact h
  | body => cases hdot

/-- Properties of the implicit receiver are written where they stand: inside of the same
lambdas, and by their names. -/
theorem exists_at_of_property {base : Expr} {name : String} {t : Ty} {around : List Param}
    (hbase : ρ.isReceiver base = true) (h : (Expr.property base name t).At around e)
    (hrenderable : e.Renderable ρ.registry) (hq : ρ.query e = .ok q) :
    ∃ x, Names name x ∧ x.At (around.map Param.name) q := by
  induction h generalizing q with
  | here =>
    rw [query, if_pos hbase] at hq
    cases hq
    exact ⟨.symbol name, .inl rfl, .here⟩
  | @body around params body h ih =>
    obtain ⟨a, ha, hq⟩ := except_bind_eq_ok.mp hq
    cases hq
    have hbody := (Expr.renderable_iff.mp hrenderable).2 body (by simp [Expr.children])
    obtain ⟨x, hx, hat⟩ := ih hbody ha
    refine ⟨x, hx, ?_⟩
    rw [List.map_append]
    exact .body hat
  | @part around p e hp h ih =>
    obtain ⟨hrule, hchildren⟩ := Expr.renderable_iff.mp hrenderable
    have hp' := hchildren p (Expr.mem_children_of_mem_parts hp)
    rcases writtenIn_of_mem_parts hrule hq hp with
      ⟨a, ha, hat⟩ | hleaf | ⟨base', name', t', m, key, rfl, hid, rfl⟩
    · obtain ⟨x, hx, hxa⟩ := ih hp' ha
      refine ⟨x, hx, ?_⟩
      rw [← List.append_nil (around.map Param.name)]
      exact hxa.trans hat
    · rw [← h.eq_of_children hleaf] at hleaf
      cases hleaf
    · -- an indexer is written from the property that it is about
      rw [query_lookup hid] at hq
      obtain ⟨qk, _, hq⟩ := except_bind_eq_ok.mp hq
      by_cases hreceiver : ρ.isReceiver base' = true
      · rw [if_pos hreceiver] at hq
        cases hq
        obtain ⟨par, rfl⟩ := eq_parameter_of_isReceiver hreceiver
        cases h with
        | here => exact ⟨_, .inr ⟨qk, rfl⟩, .here⟩
        | part hp h =>
          obtain rfl := List.mem_singleton.mp hp
          cases h.eq_of_children rfl
      · rw [if_neg hreceiver] at hq
        obtain ⟨qb, hqb, hq⟩ := except_bind_eq_ok.mp hq
        cases hq
        have hproperty : ρ.query (.property base' name' t') = .ok (.dot qb (.symbol name')) := by
          rw [query, if_neg hreceiver, hqb]
          rfl
        obtain ⟨x, hx, hat⟩ := ih hp' hproperty
        exact ⟨x, hx, .part List.mem_cons_self (at_of_names_dot hx hat)⟩

end Renderer

/-! ## What a bare name means -/

namespace Query

variable {s : Setting} {q : Query} {scope : List Param} {name : String} {t : Ty}

theorem keyword?_eq_none_iff :
    s.keyword? name = none ↔ name ∉ ["this", "true", "false", "null"] := by
  unfold Setting.keyword?
  split <;> simp_all

/-- A name of a property is read as the property unless it is a parameter or a keyword. -/
theorem symbol_eq_property_iff (ht : s.model.property? s.this.type name = some t) :
    s.symbol name scope none = .ok (.property (.parameter s.this) name t) ↔
      name ∉ scope.map Param.name ∧ name ∉ ["this", "true", "false", "null"] := by
  have hproperty : s.property (.parameter s.this) name =
      .ok (.property (.parameter s.this) name t) := by
    rw [Setting.property, Expr.type, ht]
  rw [← @keyword?_eq_none_iff s]
  unfold Setting.symbol
  dsimp only
  cases hk : s.keyword? name with
  | some e =>
    have hne : e ≠ .property (.parameter s.this) name t := by
      cases Setting.keyword?_eq_some_iff.mp hk <;> simp
    simpa using hne
  | none =>
    cases hfind : scope.find? fun p => p.name == name with
    | some p =>
      have hmem := List.mem_of_find?_eq_some hfind
      have hname : p.name = name := by simpa using List.find?_some hfind
      have hmem : name ∈ scope.map Param.name := hname ▸ List.mem_map_of_mem hmem
      simp [hmem]
    | none =>
      have hnot : name ∉ scope.map Param.name := by
        intro hmem
        obtain ⟨p, hp, rfl⟩ := List.mem_map.mp hmem
        have := List.find?_eq_none.mp hfind p hp
        simp at this
      simp [hproperty, hnot]

end Query

/-- The type of a property is the one that the model finds. -/
def Expr.PropertyRule (model : Model) : Expr → Prop
  | .property e name t => model.property? e.type name = some t
  | _ => True

namespace Query

variable {q : Query}

theorem keeps_propertyRule {s : Setting} : s.Keeps (Expr.PropertyRule s.model) where
  plain e he := by
    cases e with
    | property => cases he
    | _ => trivial
  constant _ _ := trivial
  changed _ _ _ _ := trivial
  items _ _ _ := trivial
  property _ _ _ ht := ht
  lookup _ _ _ _ _ _ _ := trivial
  search _ _ _ := trivial
  access _ _ _ _ _ _ := trivial
  callOn _ _ _ _ _ _ _ _ _ := trivial
  call _ _ _ _ _ _ := trivial

/-- Every property of the receiver is written where it stands, by its name. The name is read as
the property again exactly where no lambda around it has a parameter of the name and it is no
keyword. -/
theorem bareNames_of_compilePredicate {model : Model} {root : Ty} {graph : Expr}
    (style : RenderStyle) (h : q.compilePredicate .standard model root = .ok graph) :
    ∃ body written, graph = .lambda [receiverParam root] body ∧
      graph.toQuery .standard style = .ok written ∧
      ∀ around name t, Expr.At (.property (.parameter (receiverParam root)) name t) around body →
        (∃ x, Renderer.Names name x ∧ x.At (around.map Param.name) written) ∧
        ∀ scope : List Param, scope.map Param.name = around.map Param.name →
          ((predicateSetting model root).symbol name scope none =
              .ok (.property (.parameter (receiverParam root)) name t) ↔
            name ∉ around.map Param.name ∧ name ∉ ["this", "true", "false", "null"]) := by
  obtain ⟨body, m, rfl, hbody⟩ := compilePredicate_standard_eq_ok.mp h
  have hel := elaborates_of_meaning q hbody
  have hrenderable : body.Renderable .standard :=
    hel.renderable Registry.unambiguous_standard (by simp)
  let ρ : Renderer := (predicateSetting model root).renderer style
  obtain ⟨written, hwritten⟩ := ρ.exists_query body hrenderable
  refine ⟨body, written, rfl, hwritten, fun around name t hat => ⟨?_, fun scope hscope => ?_⟩⟩
  · exact @Renderer.exists_at_of_property ρ body written _ _ _ _ rfl hat hrenderable hwritten
  · have ht : model.property? root name = some t :=
      hel.everywhere keeps_propertyRule (by simp) _ hat.within
    rw [← hscope]
    exact symbol_eq_property_iff ht

/-- A property in a lambda with a parameter of another name. -/
theorem bareNames_of_compilePredicate_lambda :
    ∃ graph written,
      (Query.call "any" [.symbol "Names", .lambda ["n"] (.binary (.value .equal) (.symbol "n")
        (.symbol "Name"))]).compilePredicate .standard
          ⟨[], [⟨"Dog", none, [("Name", .string), ("Names", .list .string)]⟩]⟩ (.entity "Dog") =
        .ok graph ∧
      graph.toQuery .standard .static = .ok written ∧
      (∃ x, Renderer.Names "Name" x ∧ x.At ["n"] written) ∧
      (predicateSetting ⟨[], [⟨"Dog", none, [("Name", .string), ("Names", .list .string)]⟩]⟩
        (.entity "Dog")).symbol "Name" [⟨1, "n", .string⟩] none =
          .ok (.property (.parameter (receiverParam (.entity "Dog"))) "Name" .string) := by
  have h : ∃ member, (Query.call "any" [.symbol "Names", .lambda ["n"] (.binary (.value .equal)
      (.symbol "n") (.symbol "Name"))]).compilePredicate .standard
        ⟨[], [⟨"Dog", none, [("Name", .string), ("Names", .list .string)]⟩]⟩ (.entity "Dog") =
      .ok (.lambda [receiverParam (.entity "Dog")] (.call member
        [.property (.parameter (receiverParam (.entity "Dog"))) "Names" (.list .string),
          .lambda [⟨1, "n", .string⟩] (.binary .equal (.parameter ⟨1, "n", .string⟩)
            (.property (.parameter (receiverParam (.entity "Dog"))) "Name" .string) .bool)])) :=
    ⟨_, rfl⟩
  obtain ⟨member, h⟩ := h
  obtain ⟨_, written, heq, hwritten, hplaces⟩ := bareNames_of_compilePredicate .static h
  cases heq
  obtain ⟨hplace, hsymbol⟩ := hplaces ([] ++ [⟨1, "n", .string⟩]) "Name" .string
    (.part (List.mem_cons_of_mem _ List.mem_cons_self)
      (.body (.part (List.mem_cons_of_mem _ List.mem_cons_self) .here)))
  exact ⟨_, written, h, hwritten, hplace, (hsymbol [⟨1, "n", .string⟩] rfl).mpr (by decide)⟩

/-- A property in a lambda with a parameter of the same name: written as a bare name, it is read
as the parameter. -/
theorem bareName_of_parameter :
    ∃ body graph,
      (Query.call "any" [.symbol "tags", .lambda ["name"] (.binary (.value .equal)
          (.dot (.symbol "this") (.symbol "name")) (.string "x"))]).compilePredicate .standard
        ⟨[], [⟨"Critter", none, [("name", .string), ("tags", .list .string)]⟩]⟩
        (.entity "Critter") = .ok (.lambda [receiverParam (.entity "Critter")] body) ∧
      Expr.At (.property (.parameter (receiverParam (.entity "Critter"))) "name" .string)
        [⟨1, "name", .string⟩] body ∧
      (predicateSetting ⟨[], [⟨"Critter", none, [("name", .string), ("tags", .list .string)]⟩]⟩
        (.entity "Critter")).symbol "name" [⟨1, "name", .string⟩] none =
          .ok (.parameter ⟨1, "name", .string⟩) ∧
      (Expr.lambda [receiverParam (.entity "Critter")] body).toQuery .standard .static =
        .ok (.call "any" [.symbol "tags",
          .lambda ["name"] (.binary (.value .equal) (.symbol "name") (.string "x"))]) ∧
      (Query.call "any" [.symbol "tags", .lambda ["name"] (.binary (.value .equal)
          (.symbol "name") (.string "x"))]).compilePredicate .standard
        ⟨[], [⟨"Critter", none, [("name", .string), ("tags", .list .string)]⟩]⟩
        (.entity "Critter") = .ok graph ∧
      graph.same (.lambda [receiverParam (.entity "Critter")] body) = false := by
  have hplace : ∀ member tags,
      Expr.At (.property (.parameter (receiverParam (.entity "Critter"))) "name" .string)
        ([] ++ [⟨1, "name", .string⟩])
        (.call member [tags, .lambda [⟨1, "name", .string⟩] (.binary .equal
          (.property (.parameter (receiverParam (.entity "Critter"))) "name" .string)
          (.constant (.string "x")) .bool)]) := by
    intro member tags
    apply Expr.At.part (List.mem_cons_of_mem _ List.mem_cons_self)
    apply Expr.At.body
    exact .part List.mem_cons_self .here
  exact ⟨.call _ [_, .lambda [_] _], _, rfl, hplace _ _, rfl, rfl, rfl, rfl⟩

end Query
end TypedQuery
