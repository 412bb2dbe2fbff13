import TypedQuery.Proofs.FunctionChoice
/-!
Calls that are read again.

A call is written as the function that was registered for its member, and that function is
found again. Those tried before it fail again, though their arguments have changed: either
nothing that matters is expected of the arguments, or a suffix now says that they are no
`Double`.
-/
namespace TypedQuery

/-! ## Arguments -/

/-- A part as it is read again from the query `q`. -/
def Part.reread (u : Part) (q : Query) : Part := { u with query := q, graph := u.graph.settle }

section Parts

variable {us : List Part} {qs : List Query}

theorem map_query_reread (h : qs.length = us.length) :
    (List.zipWith Part.reread us qs).map Part.query = qs := by
  induction us generalizing qs with
  | nil => exact (List.length_eq_zero_iff.mp h).symm
  | cons u us ih =>
    cases qs with
    | nil => simp at h
    | cons q qs => rw [List.zipWith_cons_cons, List.map_cons, ih (by simpa using h)]; rfl

theorem map_graph_reread (h : qs.length = us.length) :
    (List.zipWith Part.reread us qs).map Part.graph =
      Expr.relabels .settling (us.map Part.graph) := by
  induction us generalizing qs with
  | nil => rfl
  | cons u us ih =>
    cases qs with
    | nil => simp at h
    | cons q qs => rw [List.zipWith_cons_cons, List.map_cons, ih (by simpa using h)]; rfl

theorem Contiguous.reread {n m : Nat} (hc : Contiguous n us m) (h : qs.length = us.length) :
    Contiguous n (List.zipWith Part.reread us qs) m := by
  induction us generalizing qs n with
  | nil => exact hc
  | cons u us ih =>
    cases qs with
    | nil => simp at h
    | cons q qs => exact ⟨hc.1, ih hc.2 (by simpa using h)⟩

/-- Whether arguments fit is a matter of their types. -/
theorem Fitted.reread {h : Hierarchy} {signature : List Ty} {b b' : Bindings}
    (hf : Fitted h signature us b b') (hlen : qs.length = us.length) :
    Fitted h signature (List.zipWith Part.reread us qs) b b' := by
  induction hf generalizing qs with
  | nil => exact .nil
  | cons hexpected hm _ ih =>
    cases qs with
    | nil => simp at hlen
    | cons q qs =>
      refine .cons hexpected ?_ (ih (by simpa using hlen))
      rwa [Part.reread, Expr.settle, Expr.type_relabel]

/-- The same is expected of a part when it is read again. -/
theorem expected_reread {expected : Option Ty} (h : ∀ u ∈ us, u.expected = expected)
    (qs : List Query) : ∀ v ∈ List.zipWith Part.reread us qs, v.expected = expected := by
  induction us generalizing qs with
  | nil => simp
  | cons u us ih =>
    obtain ⟨hu, hus⟩ := List.forall_mem_cons.mp h
    cases qs with
    | nil => simp
    | cons q qs => exact List.forall_mem_cons.mpr ⟨hu, ih hus qs⟩

theorem compiled_reread {s : Setting} {style : RenderStyle} {scope : List Param}
    (hqs : (s.renderer style).queries (us.map Part.graph) = .ok qs)
    (h : ∀ u ∈ us, u.graph.Rereads s style scope u.expected u.before u.after) :
    ∀ v ∈ List.zipWith Part.reread us qs, v.Compiled s scope := by
  induction us generalizing qs with
  | nil => simp
  | cons u us ih =>
    obtain ⟨q, qs, hq, hrest, rfl⟩ := Renderer.queries_cons_eq_ok.mp hqs
    obtain ⟨hu, hus⟩ := List.forall_mem_cons.mp h
    exact List.forall_mem_cons.mpr ⟨hu q hq, ih hrest hus⟩

/-- Every part is written as the query that has its place. -/
theorem query_of_mem_zip {r : Renderer} (hqs : r.queries (us.map Part.graph) = .ok qs) :
    ∀ p ∈ (us.map Part.query).zip qs, ∃ u ∈ us, u.query = p.1 ∧ r.query u.graph = .ok p.2 := by
  induction us generalizing qs with
  | nil => simp
  | cons u us ih =>
    obtain ⟨q, qs, hq, hrest, rfl⟩ := Renderer.queries_cons_eq_ok.mp hqs
    rw [List.map_cons, List.zip_cons_cons, List.forall_mem_cons]
    refine ⟨⟨u, List.mem_cons_self, rfl, hq⟩, fun p hp => ?_⟩
    obtain ⟨v, hv, hquery, hwritten⟩ := ih hrest p hp
    exact ⟨v, List.mem_cons_of_mem _ hv, hquery, hwritten⟩

end Parts

namespace Query

variable {s : Setting} {style : RenderStyle} {scope : List Param} {mapping : Mapping}
  {args : List Query} {n m : Nat} {e : Expr}

/-- What a function was applied to, and how its use is put together from that. -/
structure AppliedTo (s : Setting) (scope : List Param) (mapping : Mapping) (args : List Query)
    (n : Nat) (e : Expr) (m : Nat) (us : List Part) : Prop where
  reorder : mapping.reorder? args = some (us.map Part.query)
  compiled : ∀ u ∈ us, u.Compiled s scope
  contiguous : Contiguous n us m
  meets : ∀ u ∈ us, ∀ t ∈ u.expected, t.Meets u.graph.type
  wanted : ∀ Wanted, Setting.Expects Wanted mapping → ∀ u ∈ us, Wanted u.expected
  free : ∀ {mark}, Ty.IsMark mark → mapping.member.Free mark →
    (∀ u ∈ us, (∀ t ∈ u.expected, t.anyPart mark = false) →
      u.graph.type.anyPart mark = false) →
    ∀ u ∈ us, ∀ t ∈ u.expected, t.anyPart mark = false
  written : ∃ member : Member, member.template = mapping.member.template ∧
    ∀ r : Renderer, member.id ≠ Catalogue.dictionaryGet.id →
      member.id ≠ Catalogue.enumerableContains.id →
      r.query e = r.queries (us.map Part.graph) >>= r.function member
  again : ∀ {args' qs : List Query}, qs.length = us.length → mapping.reorder? args' = some qs →
    (∀ v ∈ List.zipWith Part.reread us qs, v.Compiled s scope) →
    Applied s mapping args' scope n e.settle m

theorem Applied.exists_parts (h : Applied s mapping args scope n e m) :
    ∃ us, AppliedTo s scope mapping args n e m us := by
  cases h with
  | @access u member hr hu hbefore hexpected hbind hp =>
    refine ⟨[u], hr, by simpa using hu, ⟨hbefore, rfl⟩, ?meets, ?wanted, ?free, ?written, ?again⟩
    case meets =>
      rw [List.forall_mem_singleton, hexpected]
      exact Member.meets_of_bindDeclaring hbind
    case wanted =>
      intro Wanted hwanted
      rw [List.forall_mem_singleton, hexpected]
      exact hwanted.1 (MemberKind.hasReceiver_of_isProperty hp)
    case free =>
      intro mark _ hmember _
      rw [List.forall_mem_singleton, hexpected]
      exact hmember.forall_mem_known
    case written =>
      refine ⟨member, Member.template_of_bindDeclaring hbind, fun r _ _ => ?_⟩
      rw [Renderer.query, List.map_singleton, Renderer.queries, Renderer.queries]
      cases r.query u.graph <;> rfl
    case again =>
      intro args' qs hlen hr' hcompiled
      obtain ⟨q, rfl⟩ := List.length_eq_one_iff.mp hlen
      refine .access (u := u.reread q) hr' (hcompiled _ List.mem_cons_self) hbefore hexpected ?_ hp
      rwa [Part.reread, Expr.settle, Expr.type_relabel]
  | @callOn u us member b _ hr hus hc hexpected hbind hon hp hf hd ho =>
    have htemplate := Member.template_of_bindDeclaring hbind
    refine ⟨u :: us, hr, hus, hc, ?meets, ?wanted, ?free, ?written, ?again⟩
    case meets =>
      rw [List.forall_mem_cons, hexpected]
      exact ⟨Member.meets_of_bindDeclaring hbind, hf.meets⟩
    case wanted =>
      intro Wanted hwanted
      rw [List.forall_mem_cons, hexpected]
      refine ⟨hwanted.1 hon, hf.wanted ?_⟩
      rw [htemplate]
      exact hwanted.2
    case free =>
      intro mark hmark hmember hgraphs
      obtain ⟨hgraph, hgraphs⟩ := List.forall_mem_cons.mp hgraphs
      have hu : ∀ t ∈ u.expected, t.anyPart mark = false := hexpected ▸ hmember.forall_mem_known
      have hbound := hmember.bindDeclaring hmark (hgraph hu) hbind
      have hus := hf.free hmark (fun w hw => hbound.signature w (MemberTemplate.mem_signature hw))
        hgraphs hbound.ofMember
      exact List.forall_mem_cons.mpr ⟨hu, hus.2⟩
    case written =>
      refine ⟨b.instantiate member, htemplate, fun r h h' => ?_⟩
      rw [Renderer.query_callOn h h', List.map_cons, Renderer.queries]
      cases r.query u.graph with
      | error => rfl
      | ok => cases r.queries (us.map Part.graph) <;> rfl
    case again =>
      intro args' qs hlen hr' hcompiled
      cases qs with
      | nil => simp at hlen
      | cons q qs =>
        have hlen : qs.length = us.length := by simpa using hlen
        have hc' : Contiguous n (List.zipWith Part.reread (u :: us) (q :: qs)) m :=
          hc.reread (by simp [hlen])
        have happlied : Applied s mapping args' scope n (.callOn (u.reread q).graph
            (b.instantiate member) ((List.zipWith Part.reread us qs).map Part.graph)) m :=
          .callOn (by rw [map_query_reread hlen]; exact hr') hcompiled hc' hexpected
            (by rwa [Part.reread, Expr.settle, Expr.type_relabel]) hon hp (hf.reread hlen) hd ho
        rwa [map_graph_reread hlen] at happlied
  | @call us b _ hr hus hc hon hf hd ho =>
    refine ⟨us, hr, hus, hc, hf.meets, fun _ hwanted => hf.wanted hwanted.2, ?free,
      ⟨b.instantiate mapping.member, rfl, fun r h h' => Renderer.query_call h h'⟩, ?again⟩
    case free =>
      intro mark hmark hmember hgraphs
      have hsignature : ∀ w ∈ mapping.member.template.params, w.anyPart mark = false :=
        fun w hw => hmember.signature w (MemberTemplate.mem_signature hw)
      exact (hf.free hmark hsignature hgraphs hmember.ofMember).2
    case again =>
      intro args' qs hlen hr' hcompiled
      have happlied : Applied s mapping args' scope n (.call (b.instantiate mapping.member)
          ((List.zipWith Part.reread us qs).map Part.graph)) m :=
        .call (by rw [map_query_reread hlen]; exact hr') hcompiled (hc.reread hlen) hon
          (hf.reread hlen) hd ho
      rwa [map_graph_reread hlen] at happlied

/-! ## Functions -/

theorem meaning_call (r : Renderer) (mapping : Mapping) (args : List Query)
    (expected : Option Ty) :
    (r.call mapping args).meaning s scope none expected =
      s.call mapping.name (args.map (operand s)) scope := by
  unfold Renderer.call
  split
  · rw [dot, meaning, operands_eq_map]
    rfl
  · simp only [meaning, Setting.standalone, operands_eq_map]

/-- The arguments of a function are written in the order of the query. -/
theorem AppliedTo.exists_written {us : List Part} (ha : AppliedTo s scope mapping args n e m us)
    (hr : s.registry.Unambiguous) (hmapping : mapping ∈ s.registry.mappings) {q : Query}
    (hq : (s.renderer style).query e = .ok q) :
    ∃ (pairs : List (Query × Query)) (qs : List Query), pairs.map Prod.fst = args ∧
      q = (s.renderer style).call mapping (pairs.map Prod.snd) ∧
      (s.renderer style).queries (us.map Part.graph) = .ok qs ∧
      mapping.reorder? (pairs.map Prod.snd) = some qs ∧
      ∀ p ∈ pairs, ∃ u ∈ us, u.query = p.1 ∧ (s.renderer style).query u.graph = .ok p.2 := by
  obtain ⟨member, htemplate, hwritten⟩ := ha.written
  have hid : member.id = mapping.member.id := congrArg MemberTemplate.id htemplate
  obtain ⟨hlookup, hsearch⟩ := hr.proper mapping hmapping
  rw [hwritten _ (hid ▸ hlookup) (hid ▸ hsearch)] at hq
  obtain ⟨qs, hqs, hq⟩ := except_bind_eq_ok.mp hq
  have hlen : qs.length = (us.map Part.query).length := by
    rw [Renderer.length_queries hqs, List.length_map, List.length_map]
  obtain ⟨pairs, hfst, hsnd, hpairs⟩ := Mapping.exists_pairs ha.reorder hlen
  have hfunction : s.registry.functionOf? member = some mapping := hr.functionOf?_eq hmapping hid
  rw [Renderer.function] at hq
  dsimp only [Setting.renderer] at hq
  rw [hfunction] at hq
  dsimp only at hq
  rw [hsnd] at hq
  cases hq
  exact ⟨pairs, qs, hfst, rfl, hqs, Mapping.reorder?_of_toQueryOrder? hsnd,
    fun p hp => query_of_mem_zip hqs p (hpairs p hp)⟩

section Functions

variable (hs : s.Readable) (hygienic : s.Hygienic scope n)
  (hscope : ∀ p ∈ scope, p.type.Native s.model.enums) (hargs : ∀ q ∈ args, q.Recompiles s style)

include hs hygienic hscope hargs

/-- The arguments of a function are read again, each where it was read. -/
theorem AppliedTo.rereads {k : Nat} {us : List Part}
    (ha : AppliedTo s scope mapping args k e m us) (hmapping : mapping ∈ s.registry.mappings)
    (hle : n ≤ k) :
    ∀ u ∈ us, n ≤ u.before ∧ u.graph.Rereads s style scope u.expected u.before u.after := by
  have hsound : ∀ u ∈ us, Sound s u.query := fun u _ => elaborates_of_meaning u.query
  have hbefore : ∀ u ∈ us, n ≤ u.before :=
    ((consecutive_of_contiguous hsound ha.contiguous ha.compiled).mono hle).le_before
  have hnative := ha.free (Ty.isMark_isForeign s.model.enums)
    (hs.enumFree mapping hmapping s.model.enums) fun u hu hexpected =>
      (hsound u hu (ha.compiled u hu)).native hs.enumFree hs.native hs.native_this
        ⟨hscope, by simp, hexpected⟩
  intro u hu
  have hq : u.query ∈ args := Mapping.mem_of_reorder? ha.reorder (List.mem_map_of_mem hu)
  exact ⟨hbefore u hu, hargs _ hq (hygienic.mono (hbefore u hu)) ⟨hscope, by simp, hnative u hu⟩
    .none (ha.meets u hu) (ha.compiled u hu)⟩

/-- What the arguments of a function are written as is read again behind the functions that were
tried before. -/
theorem AppliedTo.writtenAs {k : Nat} {us : List Part} {pairs : List (Query × Query)}
    (ha : AppliedTo s scope mapping args k e m us) (hmapping : mapping ∈ s.registry.mappings)
    (hle : n ≤ k)
    (hpairs : ∀ p ∈ pairs, ∃ u ∈ us, u.query = p.1 ∧ (s.renderer style).query u.graph = .ok p.2) :
    ∀ p ∈ pairs, ∃ u ∈ us, u.query = p.1 ∧ u.WrittenAs s style scope n p.2 := by
  intro p hp
  obtain ⟨u, hu, hquery, hq⟩ := hpairs p hp
  obtain ⟨hbefore, hread⟩ := ha.rereads hs hygienic hscope hargs hmapping hle u hu
  have hmem : u.query ∈ args := Mapping.mem_of_reorder? ha.reorder (List.mem_map_of_mem hu)
  exact ⟨u, hu, hquery, ha.compiled u hu, hbefore, hargs _ hmem, hq, hread⟩

omit hs hargs in
/-- Where nothing that matters is expected of the arguments, they fail again as they did. -/
theorem AppliedTo.firstFit_none_of_quiet {k : Nat} {us : List Part} {pairs : List (Query × Query)}
    {front : List Mapping} (ha : AppliedTo s scope mapping args k e m us)
    (hquiet : mapping.isQuiet = true) (hrivals : ∀ m ∈ front, m.Rivals mapping)
    (hfst : pairs.map Prod.fst = args)
    (hwritten : ∀ p ∈ pairs, ∃ u ∈ us, u.query = p.1 ∧ u.WrittenAs s style scope n p.2)
    (h : s.firstFit (args.map (operand s)) scope front n = .ok (none, k)) :
    s.firstFit ((pairs.map Prod.snd).map (operand s)) scope front n = .ok (none, k) := by
  have hfront : ∀ m ∈ front, m.isQuiet = true := by
    intro m hm
    rcases hrivals m hm with ⟨hm, _⟩ | ⟨_, hkind⟩
    · exact hm
    · rw [Mapping.isQuiet, MemberTemplate.params, ← Member.kind, hkind] at hquiet
      simp [MemberKind.params, Ty.isQuiet, Ty.isNumeric] at hquiet
  have hexpected := ha.wanted _ (Mapping.expects_of_isQuiet hquiet)
  have hpairs : ∀ p ∈ pairs, ∃ u : Part, u.query = p.1 ∧ u.WrittenAs s style scope n p.2 ∧
      p.1.Ignores u.expected := by
    intro p hp
    obtain ⟨u, hu, hquery, hwritten⟩ := hwritten p hp
    exact ⟨u, hquery, hwritten, fun t ht => .inl (hexpected u hu t ht)⟩
  exact firstFit_again hygienic hscope hpairs
    (fun p _ E hE => ⟨fun t ht => .inl (hE t ht), fun t ht => .inl (hE t ht)⟩)
    (fun m hm => Mapping.expects_of_isQuiet (hfront m hm)) (hfst ▸ h)

omit hs hargs in
/-- Functions of a `Double` in front of one of a `Decimal` fail again at its only argument. -/
theorem AppliedTo.firstFit_none_of_decimal {k : Nat} {us : List Part}
    {pairs : List (Query × Query)} {front : List Mapping}
    (ha : AppliedTo s scope mapping args k e m us)
    (hkind : mapping.member.kind = .staticMethod [.decimal])
    (hfront : ∀ m ∈ front, m.member.kind = .staticMethod [.double])
    (hfst : pairs.map Prod.fst = args)
    (hwritten : ∀ p ∈ pairs, ∃ u ∈ us, u.query = p.1 ∧ u.WrittenAs s style scope n p.2)
    (h : s.firstFit (args.map (operand s)) scope front n = .ok (none, k)) :
    s.firstFit ((pairs.map Prod.snd).map (operand s)) scope front n = .ok (none, k) := by
  have harity : mapping.arity = 1 := by
    rw [Mapping.arity, ← mapping.arity_member, Member.arity, Member.hasReceiver,
      MemberTemplate.params, ← Member.kind, hkind]
    rfl
  have hlen : pairs.length = 1 := by
    rw [← harity, ← Mapping.length_args_of_reorder? ha.reorder, ← hfst, List.length_map]
  obtain ⟨p, rfl⟩ := List.length_eq_one_iff.mp hlen
  obtain ⟨u, hu, hquery, hwritten⟩ := hwritten p List.mem_cons_self
  have hexpected := ha.wanted _ (Mapping.expects_of_kind hkind) u hu
  have hmeets : u.graph.type.isNumeric = true → u.graph.type = .decimal := by
    intro hnumeric
    refine (ha.meets u hu .decimal hexpected rfl).resolve_right fun hnull => ?_
    rw [hnull] at hnumeric
    cases hnumeric
  rw [← hfst, List.map_singleton, List.map_singleton, ← hquery] at h
  exact firstFit_again_of_double hygienic hscope hwritten hexpected hmeets hfront h

/-- Functions that did not fit before this one do not fit again. -/
theorem AppliedTo.firstFit_none {k : Nat} {us : List Part} {pairs : List (Query × Query)}
    {front : List Mapping} (ha : AppliedTo s scope mapping args k e m us)
    (hmapping : mapping ∈ s.registry.mappings) (hrivals : ∀ m ∈ front, m.Rivals mapping)
    (hle : n ≤ k) (hfst : pairs.map Prod.fst = args)
    (hpairs : ∀ p ∈ pairs, ∃ u ∈ us, u.query = p.1 ∧ (s.renderer style).query u.graph = .ok p.2)
    (h : s.firstFit (args.map (operand s)) scope front n = .ok (none, k)) :
    s.firstFit ((pairs.map Prod.snd).map (operand s)) scope front n = .ok (none, k) := by
  have hwritten := ha.writtenAs hs hygienic hscope hargs hmapping hle hpairs
  by_cases hquiet : mapping.isQuiet = true
  · exact ha.firstFit_none_of_quiet hygienic hscope hquiet hrivals hfst hwritten h
  · have hkinds : ∀ m ∈ front, m.member.kind = .staticMethod [.double] ∧
        mapping.member.kind = .staticMethod [.decimal] :=
      fun m hm => (hrivals m hm).resolve_left fun h => hquiet h.2
    cases front with
    | nil => exact h
    | cons m front =>
      exact ha.firstFit_none_of_decimal hygienic hscope (hkinds m List.mem_cons_self).2
        (fun m hm => (hkinds m hm).1) hfst hwritten h

/-- A call is read as the use of the function that it was before. -/
theorem rereads_of_firstFit {name : String} (hname : TypeOperator.ofName? name = none)
    (h : s.firstFit (args.map (operand s)) scope (s.registry.candidates name args.length) n =
      .ok (some e, m)) (expected : Option Ty) : e.Rereads s style scope expected n m := by
  intro q hq
  obtain ⟨front, mapping, back, k, hcandidates, hfront, happlied⟩ := Setting.firstFit_eq_some h
  have hle : n ≤ k := Setting.monotone_firstFit
    (monotone_of_sound fun q _ => elaborates_of_meaning q) front hfront
  have hmem : mapping ∈ s.registry.candidates name args.length := by simp [hcandidates]
  obtain ⟨hmapping, rfl, harity⟩ := Registry.mem_candidates.mp hmem
  obtain ⟨us, ha⟩ := (applied_of_attempt happlied).exists_parts
  obtain ⟨pairs, qs, hfst, rfl, hqs, hreorder, hpairs⟩ :=
    ha.exists_written hs.unambiguous hmapping hq
  have hread := ha.rereads hs hygienic hscope hargs hmapping hle
  have hagain : Applied s mapping (pairs.map Prod.snd) scope k e.settle m :=
    ha.again (by rw [Renderer.length_queries hqs, List.length_map]) hreorder
      (compiled_reread hqs fun u hu => (hread u hu).2)
  have hnone := ha.firstFit_none hs hygienic hscope hargs hmapping
    (hs.unambiguous.rivals_of_candidates hcandidates) hle hfst hpairs hfront
  have hlen : (pairs.map Prod.snd).length = args.length := by rw [← hfst]; simp
  rw [meaning_call, Setting.call_eq_ok hname, List.length_map, hlen, hcandidates,
    Setting.firstFit_append hnone]
  exact Setting.firstFit_cons_of_some (attempt_of_applied hagain)

end Functions

/-! ## Type operators -/

theorem typeName?_typeName (t : Ty) : (Renderer.typeName t).typeName? = some t.text := by
  unfold Renderer.typeName
  split <;> rfl

/-- The name of a type is written so that it is read as the type. -/
theorem typeNamed_typeName {op : TypeOperator} {text : String} {t : Ty}
    (h : s.model.resolveType? text = some t) :
    s.typeNamed op ((Renderer.typeName t).operand s) = .ok t := by
  simp only [Setting.typeNamed, operand, typeName?_typeName, Model.resolveType?_text h]

/-- A type operator is written with the name of its type, and leaves out the implicit receiver. -/
theorem exists_typeName {op : TypeOperator} {x : Expr} {type : Query}
    (h : s.applyType op x (type.operand s) = .ok e) (r : Renderer) :
    ∃ t, s.applyType op x.settle ((Renderer.typeName t).operand s) = .ok e.settle ∧
      r.query e =
        if r.isReceiver x then .ok (.call op.name [Renderer.typeName t])
        else r.query x >>= fun q => .ok (.call op.name [q, Renderer.typeName t]) := by
  have hagain := applyType_relabel .settling op x type (s := s)
  rw [h] at hagain
  obtain ⟨t, ht, h⟩ := except_bind_eq_ok.mp h
  obtain ⟨text, -, hresolve⟩ := resolveType?_of_typeNamed ht
  refine ⟨t, ?_, ?_⟩
  · rw [Setting.applyType, ht] at hagain
    rw [Setting.applyType, typeNamed_typeName hresolve]
    exact hagain
  · cases op with
    | isof =>
      cases h
      rw [Renderer.query]
      rfl
    | cast =>
      dsimp only at h
      split at h <;> cases h
      rw [Renderer.query]
      rfl

theorem meaning_typeCall (op : TypeOperator) (expected : Option Ty) :
    (Query.call op.name args).meaning s scope none expected =
      s.typeCall op (args.map (operand s)) scope := by
  rw [← Setting.call_of_typeOperator (TypeOperator.ofName?_eq_some_iff.mpr rfl), ← operands_eq_map]
  rfl

theorem rereads_of_typeCall (hygienic : s.Hygienic scope n)
    (hscope : ∀ p ∈ scope, p.type.Native s.model.enums) (hargs : ∀ q ∈ args, q.Recompiles s style)
    {op : TypeOperator} (h : s.typeCall op (args.map (operand s)) scope n = .ok (e, m))
    (expected : Option Ty) : e.Rereads s style scope expected n m := by
  intro q hq
  match args, hargs with
  | [], _ => simp [Setting.typeCall] at h
  | [type], _ =>
    simp only [List.map_cons, List.map_nil, Setting.typeCall, Compiler.liftM_eq_ok] at h
    obtain ⟨h, rfl⟩ := h
    obtain ⟨t, hagain, hwritten⟩ := exists_typeName h (s.renderer style)
    have hthis : (s.renderer style).isReceiver (.parameter s.this) = true := beq_self_eq_true _
    rw [hwritten, if_pos hthis] at hq
    cases hq
    rw [meaning_typeCall]
    exact Compiler.liftM_eq_ok.mpr ⟨hagain, rfl⟩
  | [x, type], hargs =>
    simp only [List.map_cons, List.map_nil, Setting.typeCall, Compiler.bind_eq_ok,
      Compiler.liftM_eq_ok] at h
    obtain ⟨base, k, hx, h, rfl⟩ := h
    obtain ⟨t, hagain, hwritten⟩ := exists_typeName h (s.renderer style)
    have hread : base.Rereads s style scope none n k := hargs x List.mem_cons_self hygienic
      ⟨hscope, by simp, by simp⟩ .none (by simp) hx
    by_cases hthis : (s.renderer style).isReceiver base = true
    · obtain ⟨hbase, rfl⟩ := hread.eq_this hthis
      rw [hwritten, if_pos hthis] at hq
      cases hq
      rw [meaning_typeCall]
      exact Compiler.liftM_eq_ok.mpr ⟨hbase ▸ hagain, rfl⟩
    · rw [hwritten, if_neg hthis] at hq
      obtain ⟨qx, hqx, hq⟩ := except_bind_eq_ok.mp hq
      cases hq
      rw [meaning_typeCall]
      exact Compiler.bind_eq_ok.mpr ⟨_, _, hread qx hqx, Compiler.liftM_eq_ok.mpr ⟨hagain, rfl⟩⟩
  | _ :: _ :: _ :: _, _ => simp [Setting.typeCall] at h

/-- Whatever a call compiles to is read again. -/
theorem rereads_of_call (hs : s.Readable) (hygienic : s.Hygienic scope n)
    (hscope : ∀ p ∈ scope, p.type.Native s.model.enums) (hargs : ∀ q ∈ args, q.Recompiles s style)
    {name : String} (h : s.call name (args.map (operand s)) scope n = .ok (e, m))
    (expected : Option Ty) : e.Rereads s style scope expected n m := by
  cases hop : TypeOperator.ofName? name with
  | some op =>
    rw [Setting.call_of_typeOperator hop] at h
    exact rereads_of_typeCall hygienic hscope hargs h expected
  | none =>
    rw [Setting.call_eq_ok hop, List.length_map] at h
    exact rereads_of_firstFit hs hygienic hscope hargs hop h expected

end Query
end TypedQuery
