import TypedQuery.Proofs.Elaboration
/-!
What a function makes of its arguments.

An attempt at a function compiles the arguments in the order of its member, each right after
the other. It succeeds just if all of them compile and fit, and then the call consists of what
they compiled to.
-/
namespace TypedQuery

theorem MatchOutcome.eq_fit {o : MatchOutcome} (h : o.error? = none) : o = .fit o.bindings := by
  cases o
  cases h
  rfl

theorem MemberKind.length_params_of_isProperty {kind : MemberKind}
    (h : kind.isProperty = true) : kind.params.length = 0 := by
  cases kind with
  | property => rfl
  | method | staticMethod => simp [isProperty] at h

theorem MemberKind.hasReceiver_of_isProperty {kind : MemberKind} (h : kind.isProperty = true) :
    kind.hasReceiver = true := by
  cases kind with
  | property => rfl
  | method | staticMethod => simp [isProperty] at h

theorem Fitted.length_eq {h : Hierarchy} {signature : List Ty} {us : List Part}
    {b b' : Bindings} (hf : Fitted h signature us b b') : us.length = signature.length := by
  induction hf with
  | nil => rfl
  | cons _ _ _ ih => simp [ih]

/-- What every step of inference preserves holds of the bindings in the end. Whatever it says of
a resolved type holds of all that was expected of the arguments on the way. -/
theorem Fitted.preserves {h : Hierarchy} {signature : List Ty} {us : List Part} {b b' : Bindings}
    (hf : Fitted h signature us b b') {Holds : Bindings → Prop} {Wanted Given : Ty → Prop}
    (hresolve : ∀ w ∈ signature, ∀ b, Holds b → Wanted (b.resolve w))
    (hinfer : ∀ w ∈ signature, ∀ t b b', Holds b → Given t → b.infer h w t = .fit b' → Holds b')
    (hus : ∀ u ∈ us, (∀ t ∈ u.expected, Wanted t) → Given u.graph.type) (hb : Holds b) :
    Holds b' ∧ ∀ u ∈ us, ∀ t ∈ u.expected, Wanted t := by
  induction hf with
  | nil => exact ⟨hb, by simp⟩
  | @cons w _ u us b b₁ _ hexpected hm _ ih =>
    obtain ⟨hresolve, hresolves⟩ := List.forall_mem_cons.mp hresolve
    obtain ⟨hinfer, hinfers⟩ := List.forall_mem_cons.mp hinfer
    obtain ⟨hu, hus⟩ := List.forall_mem_cons.mp hus
    have hwanted : ∀ t ∈ u.expected, Wanted t := by
      rw [hexpected]
      rintro t ⟨⟩
      exact hresolve b hb
    obtain ⟨hb', hrest⟩ := ih hresolves hinfers hus (hinfer _ b b₁ hb (hu hwanted) hm)
    exact ⟨hb', List.forall_mem_cons.mpr ⟨hwanted, hrest⟩⟩

/-- What holds of a type holds of it as far as it is known. -/
theorem Setting.forall_mem_known {P : Ty → Prop} {t : Ty} (h : P t) : ∀ u ∈ known t, P u := by
  intro u hu
  unfold known at hu
  split at hu <;> cases hu
  exact h

/-- The query of the part compiles to its graph. -/
def Part.Compiled (s : Setting) (scope : List Param) (u : Part) : Prop :=
  u.query.meaning s scope none u.expected u.before = .ok (u.graph, u.after)

/-- Parts that were compiled right after each other, from the number `n` up to `m`. -/
def Contiguous (n : Nat) : List Part → Nat → Prop
  | [], m => n = m
  | u :: us, m => u.before = n ∧ Contiguous u.after us m

namespace Query

variable {s : Setting} {scope : List Param}

/-- What a call sees of an argument. -/
def operand (s : Setting) (q : Query) : Operand := ⟨q.kind, q.typeName?, q.meaning s⟩

theorem operands_eq_map (qs : List Query) : operands s qs = qs.map (operand s) := by
  induction qs with
  | nil => rfl
  | cons q qs ih => rw [operands, ih, List.map_cons, operand]

theorem matchArgs_eq_some_iff {qs : List Query} {signature : List Ty}
    (hlen : qs.length = signature.length) {b b' : Bindings} {n m : Nat} {es : List Expr} :
    s.matchArgs scope (qs.map (operand s)) signature b n = .ok (some (es, b'), m) ↔
      ∃ us : List Part, us.map Part.query = qs ∧ us.map Part.graph = es ∧ Contiguous n us m ∧
        (∀ u ∈ us, u.Compiled s scope) ∧ Fitted s.hierarchy signature us b b' := by
  induction qs generalizing signature b n es with
  | nil =>
    cases signature with
    | nil =>
      simp only [List.map_nil, Setting.matchArgs, Compiler.pure_eq_ok, List.map_eq_nil_iff]
      constructor
      · rintro ⟨h, rfl⟩
        cases h
        exact ⟨[], rfl, rfl, rfl, by simp, .nil⟩
      · rintro ⟨us, rfl, rfl, rfl, _, hf⟩
        cases hf
        exact ⟨rfl, rfl⟩
    | cons => simp at hlen
  | cons q qs ih =>
    cases signature with
    | nil => simp at hlen
    | cons wanted signature =>
      have ih := fun b n es => @ih signature (by simpa using hlen) b n es
      simp only [List.map_cons, Setting.matchArgs, Compiler.bind_eq_ok]
      constructor
      · rintro ⟨e, k, he, h⟩
        cases hfit : (b.infer s.hierarchy wanted e.type).error? with
        | some _ => simp [hfit] at h
        | none =>
          simp only [hfit, Compiler.bind_eq_ok, Compiler.pure_eq_ok] at h
          obtain ⟨rest, j, hrest, hr, rfl⟩ := h
          obtain ⟨⟨es', b''⟩, rfl, hr⟩ := Option.map_eq_some_iff.mp hr
          cases hr
          obtain ⟨us, rfl, rfl, hc, hus, hf⟩ := (ih _ _ _).mp hrest
          refine ⟨⟨q, some (b.resolve wanted), n, e, k⟩ :: us, rfl, rfl, ⟨rfl, hc⟩, ?_, ?_⟩
          · exact List.forall_mem_cons.mpr ⟨he, hus⟩
          · exact .cons rfl (MatchOutcome.eq_fit hfit) hf
      · rintro ⟨us, hqs, rfl, hc, hus, hf⟩
        cases hf with
        | @cons _ _ u us _ b₁ _ hexpected hfit hf =>
          obtain ⟨rfl, rfl⟩ := List.cons_eq_cons.mp hqs
          obtain ⟨rfl, hc⟩ := hc
          obtain ⟨hu, hus⟩ := List.forall_mem_cons.mp hus
          refine ⟨u.graph, u.after, hexpected ▸ hu, ?_⟩
          rw [hfit]
          simp only [MatchOutcome.fit, Compiler.bind_eq_ok, Compiler.pure_eq_ok]
          exact ⟨_, _, (ih _ _ _).mpr ⟨us, rfl, rfl, hc, hus, hf⟩, rfl, rfl⟩

/-- A completed call has matched its arguments and left nothing open. -/
theorem complete_eq_ok_iff {args : List Operand} {member completed : Member} {n m : Nat}
    {es : List Expr} :
    s.complete member args scope n = .ok (some (completed, es), m) ↔
      ∃ b : Bindings, s.matchArgs scope args member.template.params (.ofMember member) n =
          .ok (some (es, b), m) ∧
        completed = b.instantiate member ∧ completed.hasOpenDeclaring = false ∧
        completed.hasOpenMethod = false := by
  simp only [Setting.complete, Compiler.bind_eq_ok, Compiler.pure_eq_ok]
  constructor
  · rintro ⟨matched, k, hm, hb, rfl⟩
    obtain ⟨⟨es', b⟩, rfl, hdecided⟩ := Option.bind_eq_some_iff.mp hb
    split at hdecided
    · cases hdecided
    · next hopen =>
      cases hdecided
      simp only [Bool.or_eq_true, not_or, Bool.not_eq_true] at hopen
      exact ⟨b, hm, rfl, hopen⟩
  · rintro ⟨b, hm, rfl, hd, ho⟩
    refine ⟨_, _, hm, ?_, rfl⟩
    simp [hd, ho]

theorem complete_eq_some_iff {qs : List Query} {member member' : Member}
    (hlen : qs.length = member.template.params.length) {n m : Nat} {es : List Expr} :
    s.complete member (qs.map (operand s)) scope n = .ok (some (member', es), m) ↔
      ∃ (us : List Part) (b : Bindings), us.map Part.query = qs ∧ us.map Part.graph = es ∧
        Contiguous n us m ∧ (∀ u ∈ us, u.Compiled s scope) ∧
        Fitted s.hierarchy member.template.params us (.ofMember member) b ∧
        member' = b.instantiate member ∧ member'.hasOpenDeclaring = false ∧
        member'.hasOpenMethod = false := by
  rw [complete_eq_ok_iff]
  constructor
  · rintro ⟨b, hm, hdecided⟩
    obtain ⟨us, hqs, hes, hc, hus, hf⟩ := (matchArgs_eq_some_iff hlen).mp hm
    exact ⟨us, b, hqs, hes, hc, hus, hf, hdecided⟩
  · rintro ⟨us, b, hqs, hes, hc, hus, hf, hdecided⟩
    exact ⟨b, (matchArgs_eq_some_iff hlen).mpr ⟨us, hqs, hes, hc, hus, hf⟩, hdecided⟩

/-- Items are compiled one after the other for one and the same type. -/
theorem mapM_eq_ok_iff {items : List Query} {element : Option Ty} {n m : Nat} {es : List Expr} :
    ((items.map (operand s)).mapM fun item : Operand => item.meaning scope none element) n =
      .ok (es, m) ↔
      ∃ us : List Part, us.map Part.query = items ∧ us.map Part.graph = es ∧ Contiguous n us m ∧
        (∀ u ∈ us, u.Compiled s scope) ∧ ∀ u ∈ us, u.expected = element := by
  induction items generalizing n es with
  | nil =>
    simp only [List.map_nil, List.mapM_nil, Compiler.pure_eq_ok, List.map_eq_nil_iff]
    constructor
    · rintro ⟨rfl, rfl⟩
      exact ⟨[], rfl, rfl, rfl, by simp, by simp⟩
    · rintro ⟨us, rfl, rfl, rfl, _⟩
      exact ⟨rfl, rfl⟩
  | cons q items ih =>
    simp only [List.map_cons, List.mapM_cons, Compiler.bind_eq_ok, Compiler.pure_eq_ok]
    constructor
    · rintro ⟨e, k, he, es, j, hes, rfl, rfl⟩
      obtain ⟨us, rfl, rfl, hc, hus, hexpected⟩ := ih.mp hes
      exact ⟨⟨q, element, n, e, k⟩ :: us, rfl, rfl, ⟨rfl, hc⟩, List.forall_mem_cons.mpr ⟨he, hus⟩,
        List.forall_mem_cons.mpr ⟨rfl, hexpected⟩⟩
    · rintro ⟨us, hqs, rfl, hc, hus, hexpected⟩
      cases us with
      | nil => cases hqs
      | cons u us =>
        obtain ⟨rfl, rfl⟩ := List.cons_eq_cons.mp hqs
        obtain ⟨rfl, hc⟩ := hc
        obtain ⟨hu, hus⟩ := List.forall_mem_cons.mp hus
        obtain ⟨hexpectedu, hexpected⟩ := List.forall_mem_cons.mp hexpected
        exact ⟨u.graph, u.after, hexpectedu ▸ hu, _, _, ih.mpr ⟨us, rfl, rfl, hc, hus, hexpected⟩,
          rfl, rfl⟩

/-- `Applied s mapping args scope n e m` says that the function takes the arguments `args`
there, and that its use of them is `e`. -/
inductive Applied (s : Setting) (mapping : Mapping) (args : List Query) (scope : List Param)
    (n : Nat) : Expr → Nat → Prop
  | access {u : Part} {member : Member} :
    mapping.reorder? args = some [u.query] → u.Compiled s scope → u.before = n →
    u.expected = Setting.known mapping.member.template.declaring →
    mapping.member.bindDeclaring s.hierarchy u.graph.type = .ok member →
    mapping.member.kind.isProperty = true →
    Applied s mapping args scope n (.memberAccess u.graph member) u.after
  | callOn {u : Part} {us : List Part} {member : Member} {b : Bindings} {m : Nat} :
    mapping.reorder? args = some (u.query :: us.map Part.query) →
    (∀ v ∈ u :: us, v.Compiled s scope) → Contiguous n (u :: us) m →
    u.expected = Setting.known mapping.member.template.declaring →
    mapping.member.bindDeclaring s.hierarchy u.graph.type = .ok member →
    mapping.member.hasReceiver = true → mapping.member.kind.isProperty = false →
    Fitted s.hierarchy member.template.params us (.ofMember member) b →
    (b.instantiate member).hasOpenDeclaring = false →
    (b.instantiate member).hasOpenMethod = false →
    Applied s mapping args scope n
      (.callOn u.graph (b.instantiate member) (us.map Part.graph)) m
  | call {us : List Part} {b : Bindings} {m : Nat} :
    mapping.reorder? args = some (us.map Part.query) →
    (∀ v ∈ us, v.Compiled s scope) → Contiguous n us m →
    mapping.member.hasReceiver = false →
    Fitted s.hierarchy mapping.member.template.params us (.ofMember mapping.member) b →
    (b.instantiate mapping.member).hasOpenDeclaring = false →
    (b.instantiate mapping.member).hasOpenMethod = false →
    Applied s mapping args scope n (.call (b.instantiate mapping.member) (us.map Part.graph)) m

variable {mapping : Mapping} {args : List Query} {n m : Nat} {e : Expr}

theorem applied_of_attemptOn {first : Query} {rest : List Query}
    (hr : mapping.reorder? args = some (first :: rest))
    (hreceiver : mapping.member.hasReceiver = true)
    (h : s.attemptOn mapping.member (operand s first) (rest.map (operand s)) scope n =
      .ok (some e, m)) : Applied s mapping args scope n e m := by
  have hlen : rest.length = mapping.member.template.params.length := by
    have := Mapping.length_of_reorder? hr
    simpa [Member.arity, hreceiver] using this
  simp only [Setting.attemptOn, Compiler.bind_eq_ok] at h
  obtain ⟨receiver, k, hk, h⟩ := h
  cases hbind : mapping.member.bindDeclaring s.hierarchy receiver.type with
  | error _ => simp [hbind] at h
  | ok member =>
    have htemplate := Member.template_of_bindDeclaring hbind
    have hkind : member.kind.isProperty = mapping.member.kind.isProperty := by
      rw [Member.kind, htemplate, Member.kind]
    simp only [hbind, hkind] at h
    let u : Part := ⟨first, Setting.known mapping.member.template.declaring, n, receiver, k⟩
    cases hp : mapping.member.kind.isProperty with
    | true =>
      simp only [hp, if_true, Compiler.pure_eq_ok, Option.some.injEq] at h
      obtain ⟨rfl, rfl⟩ := h
      have hrest : rest = [] := by
        rw [← List.length_eq_zero_iff, hlen]
        exact MemberKind.length_params_of_isProperty hp
      exact .access (u := u) (hrest ▸ hr) hk rfl rfl hbind hp
    | false =>
      simp only [hp, Bool.false_eq_true, if_false, Compiler.bind_eq_ok,
        Compiler.pure_eq_ok] at h
      obtain ⟨completed, j, hcompleted, he, rfl⟩ := h
      obtain ⟨⟨member', es⟩, rfl, he⟩ := Option.map_eq_some_iff.mp he
      cases he
      obtain ⟨us, b, rfl, rfl, hc, hus, hf, rfl, hd, ho⟩ :=
        (complete_eq_some_iff (by rw [hlen, htemplate])).mp hcompleted
      exact .callOn (u := u) hr (List.forall_mem_cons.mpr ⟨hk, hus⟩) ⟨rfl, hc⟩ rfl hbind
        hreceiver hp hf hd ho

theorem applied_of_attempt
    (h : s.attempt mapping (args.map (operand s)) scope n = .ok (some e, m)) :
    Applied s mapping args scope n e m := by
  unfold Setting.attempt at h
  rw [Mapping.reorder?_map] at h
  cases hr : mapping.reorder? args with
  | none => simp [hr] at h
  | some native =>
    simp only [hr, Option.map_some] at h
    cases hreceiver : mapping.member.hasReceiver with
    | true =>
      simp only [hreceiver, if_true] at h
      cases native with
      | nil => simp at h
      | cons first rest => exact applied_of_attemptOn hr hreceiver h
    | false =>
      simp only [hreceiver, Bool.false_eq_true, if_false, Compiler.bind_eq_ok,
        Compiler.pure_eq_ok] at h
      obtain ⟨completed, k, hcompleted, he, rfl⟩ := h
      obtain ⟨⟨member', es⟩, rfl, he⟩ := Option.map_eq_some_iff.mp he
      cases he
      have hlen : native.length = mapping.member.template.params.length := by
        simpa [Member.arity, hreceiver] using Mapping.length_of_reorder? hr
      obtain ⟨us, b, rfl, rfl, hc, hus, hf, rfl, hd, ho⟩ :=
        (complete_eq_some_iff hlen).mp hcompleted
      exact .call hr hus hc hreceiver hf hd ho

theorem attempt_of_applied (h : Applied s mapping args scope n e m) :
    s.attempt mapping (args.map (operand s)) scope n = .ok (some e, m) := by
  unfold Setting.attempt
  rw [Mapping.reorder?_map]
  cases h with
  | @access u member hr hu hbefore hexpected hbind hp =>
    have hreceiver : mapping.member.hasReceiver = true := MemberKind.hasReceiver_of_isProperty hp
    have hkind : member.kind.isProperty = true := by
      rwa [Member.kind, Member.template_of_bindDeclaring hbind]
    rw [hr, Option.map_some]
    simp only [List.map_cons, List.map_nil, hreceiver, if_true, Setting.attemptOn,
      Compiler.bind_eq_ok]
    refine ⟨u.graph, u.after, hbefore ▸ hexpected ▸ hu, ?_⟩
    simp [hbind, hkind]
  | @callOn u us member b _ hr hus hc hexpected hbind hreceiver hp hf hd ho =>
    obtain ⟨hu, hus⟩ := List.forall_mem_cons.mp hus
    obtain ⟨hbefore, hc⟩ := hc
    have hkind : member.kind.isProperty = false := by
      rwa [Member.kind, Member.template_of_bindDeclaring hbind]
    have hlen : (us.map Part.query).length = member.template.params.length := by
      rw [List.length_map, hf.length_eq]
    rw [hr, Option.map_some]
    simp only [List.map_cons, hreceiver, if_true, Setting.attemptOn, Compiler.bind_eq_ok]
    refine ⟨u.graph, u.after, hbefore ▸ hexpected ▸ hu, ?_⟩
    simp only [hbind, hkind, Bool.false_eq_true, if_false, Compiler.bind_eq_ok,
      Compiler.pure_eq_ok]
    exact ⟨_, _, (complete_eq_some_iff hlen).mpr ⟨us, b, rfl, rfl, hc, hus, hf, rfl, hd, ho⟩,
      rfl, rfl⟩
  | @call us b _ hr hus hc hreceiver hf hd ho =>
    have hlen : (us.map Part.query).length = mapping.member.template.params.length := by
      rw [List.length_map, hf.length_eq]
    rw [hr, Option.map_some]
    simp only [hreceiver, Bool.false_eq_true, if_false, Compiler.bind_eq_ok,
      Compiler.pure_eq_ok]
    exact ⟨_, _, (complete_eq_some_iff hlen).mpr ⟨us, b, rfl, rfl, hc, hus, hf, rfl, hd, ho⟩,
      rfl, rfl⟩

end Query
end TypedQuery
