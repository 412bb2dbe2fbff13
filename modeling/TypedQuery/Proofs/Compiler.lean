import TypedQuery.Compile.Basic
import TypedQuery.Proofs.ArgumentOrder
/-!
Steps of compilation, taken apart.

A step is a function of the next free number. What it returns there, which number is free
afterwards, and why it fails is read off the parts of the step by these equivalences. A property
of steps that composition keeps is passed on to the larger steps of a call once for all such
properties.
-/
namespace TypedQuery

/-- Binding a receiver decides arguments and leaves the declaration as it is. -/
theorem Member.template_of_bindDeclaring {h : Hierarchy} {m bound : Member} {receiver : Ty}
    (hb : m.bindDeclaring h receiver = .ok bound) : bound.template = m.template := by
  unfold bindDeclaring at hb
  dsimp only at hb
  split at hb
  · cases hb; rfl
  · simp at hb

/-- A step that takes no numbers succeeds in two parts. -/
theorem except_bind_eq_ok {ε α β : Type} {x : Except ε α} {f : α → Except ε β} {b : β} :
    (x >>= f) = .ok b ↔ ∃ a, x = .ok a ∧ f a = .ok b := by
  cases x <;> simp [bind, Except.bind]

namespace Compiler

variable {α β : Type} {n m : Nat}

@[simp]
theorem pure_eq_ok {a b : α} :
    (pure a : Compiler α) n = .ok (b, m) ↔ a = b ∧ n = m := by
  change Except.ok (a, n) = .ok (b, m) ↔ a = b ∧ n = m
  simp

@[simp]
theorem throw_ne_ok {e : CompileError} {b : α} :
    (throw e : Compiler α) n ≠ .ok (b, m) := by
  simp [throw, throwThe, MonadExceptOf.throw, StateT.lift, bind, Except.bind]

@[simp]
theorem liftM_eq_ok {x : Except CompileError α} {b : α} :
    (liftM x : Compiler α) n = .ok (b, m) ↔ x = .ok b ∧ n = m := by
  cases x <;> simp [liftM, monadLift, MonadLift.monadLift, StateT.lift, bind, Except.bind,
    pure, Except.pure]

theorem bind_eq_ok {x : Compiler α} {f : α → Compiler β} {b : β} :
    (x >>= f) n = .ok (b, m) ↔ ∃ a k, x n = .ok (a, k) ∧ f a k = .ok (b, m) := by
  simp only [bind, StateT.bind, Except.bind]
  cases x n with
  | error e => simp
  | ok v =>
    constructor
    · exact fun h => ⟨v.1, v.2, rfl, h⟩
    · rintro ⟨a, k, hv, h⟩
      cases hv
      exact h

@[simp]
theorem pure_ne_error {a : α} {e : CompileError} : (pure a : Compiler α) n ≠ .error e := by
  change Except.ok (a, n) ≠ .error e
  simp

@[simp]
theorem throw_eq_error {e e' : CompileError} : (throw e : Compiler α) n = .error e' ↔ e = e' := by
  simp [throw, throwThe, MonadExceptOf.throw, StateT.lift, bind, Except.bind]

@[simp]
theorem liftM_eq_error {x : Except CompileError α} {e : CompileError} :
    (liftM x : Compiler α) n = .error e ↔ x = .error e := by
  cases x <;> simp [liftM, monadLift, MonadLift.monadLift, StateT.lift, bind, Except.bind,
    pure, Except.pure]

theorem bind_eq_error {x : Compiler α} {f : α → Compiler β} {e : CompileError} :
    (x >>= f) n = .error e ↔
      x n = .error e ∨ ∃ a k, x n = .ok (a, k) ∧ f a k = .error e := by
  simp only [bind, StateT.bind, Except.bind]
  cases x n with
  | error e' => simp
  | ok v =>
    constructor
    · exact fun h => .inr ⟨v.1, v.2, rfl, h⟩
    · rintro (h | ⟨a, k, hv, h⟩)
      · cases h
      · cases hv
        exact h

/-! ## Steps that are put together -/

/-- A property that the steps which only return have, and that steps put together from others
inherit from them. -/
structure Compositional (P : {α : Type} → Compiler α → Prop) : Prop where
  pure : ∀ {α : Type} (a : α), P (pure a : Compiler α)
  bind : ∀ {α β : Type} {x : Compiler α} {f : α → Compiler β}, P x → (∀ a, P (f a)) → P (x >>= f)

/-- The step never gives numbers back. -/
def Monotone {α : Type} (x : Compiler α) : Prop :=
  ∀ ⦃n : Nat⦄ ⦃a : α⦄ ⦃m : Nat⦄, x n = .ok (a, m) → n ≤ m

theorem compositional_monotone : Compositional Monotone where
  pure _ _ _ _ h := Nat.le_of_eq (pure_eq_ok.mp h).2
  bind hx hf n b m h := by
    obtain ⟨a, k, ha, hb⟩ := bind_eq_ok.mp h
    exact Nat.le_trans (hx ha) (hf a hb)

/-- The step never fails from the number `base` on. -/
def Succeeds (base : Nat) {α : Type} (x : Compiler α) : Prop :=
  ∀ n, base ≤ n → ∃ a m, base ≤ m ∧ x n = .ok (a, m)

theorem compositional_succeeds (base : Nat) : Compositional (Succeeds base) where
  pure a n hn := ⟨a, n, hn, rfl⟩
  bind hx hf n hn := by
    obtain ⟨a, k, hk, ha⟩ := hx n hn
    obtain ⟨b, m, hm, hb⟩ := hf a k hk
    exact ⟨b, m, hm, bind_eq_ok.mpr ⟨a, k, ha, hb⟩⟩

/-- The step leaves the next free number as it is. -/
def Steady {α : Type} (x : Compiler α) : Prop :=
  ∀ ⦃n : Nat⦄ ⦃a : α⦄ ⦃m : Nat⦄, x n = .ok (a, m) → m = n

theorem compositional_steady : Compositional Steady where
  pure _ _ _ _ h := (pure_eq_ok.mp h).2.symm
  bind hx hf n b m h := by
    obtain ⟨a, k, ha, hb⟩ := bind_eq_ok.mp h
    exact (hf a hb).trans (hx ha)

theorem steady_liftM (x : Except CompileError α) : Steady (liftM x : Compiler α) :=
  fun _ _ _ h => (liftM_eq_ok.mp h).2.symm

end Compiler

/-- A call only takes numbers where its arguments do. -/
def Operand.Monotone (o : Operand) : Prop :=
  ∀ scope receiver expected, Compiler.Monotone (o.meaning scope receiver expected)

namespace Setting

variable {s : Setting} {scope : List Param} {args : List Operand}

/-- The types that a function expects of its arguments satisfy `Wanted`. -/
def Expects (Wanted : Option Ty → Prop) (mapping : Mapping) : Prop :=
  (mapping.member.hasReceiver = true → Wanted (known mapping.member.template.declaring)) ∧
    ∀ w ∈ mapping.member.template.params, ∀ b : Bindings, Wanted (some (b.resolve w))

theorem expects_anything (mapping : Mapping) : Expects (fun _ => True) mapping :=
  ⟨fun _ => trivial, fun _ _ _ => trivial⟩

section Attempts

variable {P : {α : Type} → Compiler α → Prop} {Wanted : Option Ty → Prop}
  (hP : Compiler.Compositional P)

include hP

theorem compositional_matchArgs
    (hargs : ∀ o ∈ args, ∀ expected, Wanted expected → P (o.meaning scope none expected))
    {signature : List Ty} (hwanted : ∀ w ∈ signature, ∀ b : Bindings, Wanted (some (b.resolve w)))
    (b : Bindings) : P (s.matchArgs scope args signature b) := by
  induction args generalizing signature b with
  | nil => cases signature <;> exact hP.pure _
  | cons o args ih =>
    cases signature with
    | nil => exact hP.pure _
    | cons wanted signature =>
      obtain ⟨ho, hargs⟩ := List.forall_mem_cons.mp hargs
      obtain ⟨hw, hsignature⟩ := List.forall_mem_cons.mp hwanted
      rw [matchArgs]
      refine hP.bind (ho _ (hw b)) fun e => ?_
      dsimp only
      split
      · exact hP.pure _
      · exact hP.bind (ih hargs hsignature _) fun _ => hP.pure _

theorem compositional_complete
    (hargs : ∀ o ∈ args, ∀ expected, Wanted expected → P (o.meaning scope none expected))
    {member : Member}
    (hwanted : ∀ w ∈ member.template.params, ∀ b : Bindings, Wanted (some (b.resolve w))) :
    P (s.complete member args scope) :=
  hP.bind (compositional_matchArgs hP hargs hwanted _) fun _ => hP.pure _

/-- What holds of compiling an argument, for whatever type a function expects of it, holds of
trying the function. -/
theorem compositional_attempt
    (hargs : ∀ o ∈ args, ∀ expected, Wanted expected → P (o.meaning scope none expected))
    {mapping : Mapping} (hwanted : Expects Wanted mapping) :
    P (s.attempt mapping args scope) := by
  unfold attempt
  split
  · exact hP.pure _
  · next native hr =>
    have hnative : ∀ o ∈ native, ∀ expected, Wanted expected →
        P (o.meaning scope none expected) :=
      fun o ho => hargs o (Mapping.mem_of_reorder? hr ho)
    split
    · next hreceiver =>
      cases native with
      | nil => exact hP.pure _
      | cons first rest =>
        obtain ⟨hfirst, hrest⟩ := List.forall_mem_cons.mp hnative
        refine hP.bind (hfirst _ (hwanted.1 hreceiver)) fun receiver => ?_
        split
        · exact hP.pure _
        · next member hbind =>
          split
          · exact hP.pure _
          · have hparams := Member.template_of_bindDeclaring hbind ▸ hwanted.2
            exact hP.bind (compositional_complete hP hrest hparams) fun _ => hP.pure _
    · exact hP.bind (compositional_complete hP hnative hwanted.2) fun _ => hP.pure _

theorem compositional_firstFit
    (hargs : ∀ o ∈ args, ∀ expected, Wanted expected → P (o.meaning scope none expected))
    {mappings : List Mapping} (hwanted : ∀ mapping ∈ mappings, Expects Wanted mapping) :
    P (s.firstFit args scope mappings) := by
  induction mappings with
  | nil => exact hP.pure _
  | cons mapping mappings ih =>
    obtain ⟨hmapping, hmappings⟩ := List.forall_mem_cons.mp hwanted
    refine hP.bind (compositional_attempt hP hargs hmapping) fun found => ?_
    cases found with
    | none => exact ih hmappings
    | some e => exact hP.pure _

end Attempts

section Constructs

variable {P : {α : Type} → Compiler α → Prop} (hP : Compiler.Compositional P)
  (hlift : ∀ {α : Type} (x : Except CompileError α), P (liftM x : Compiler α))

include hP hlift

theorem compositional_typeCall
    (hargs : ∀ o ∈ args, ∀ expected, P (o.meaning scope none expected)) (op : TypeOperator) :
    P (s.typeCall op args scope) := by
  rcases args with _ | ⟨first, _ | ⟨second, _ | ⟨_, _⟩⟩⟩
  · exact hlift (.error _)
  · exact hlift _
  · exact hP.bind (hargs first List.mem_cons_self none) fun _ => hlift _
  · exact hlift (.error _)

/-- What holds of the steps that return or fail at once, and of compiling the arguments, holds of
a call. -/
theorem compositional_call
    (hargs : ∀ o ∈ args, ∀ expected, P (o.meaning scope none expected)) (name : String) :
    P (s.call name args scope) := by
  unfold call
  split
  · exact compositional_typeCall hP hlift hargs _
  · have hfirst : P (s.firstFit args scope (s.registry.candidates name args.length)) :=
      compositional_firstFit hP (fun o ho expected _ => hargs o ho expected)
        fun m _ => expects_anything m
    refine hP.bind hfirst fun found => ?_
    cases found with
    | some e => exact hP.pure e
    | none => exact hlift (.error _)

theorem compositional_indexer
    (hargs : ∀ o ∈ args, ∀ expected, P (o.meaning scope none expected)) (name : String)
    (receiver : Option Expr) : P (s.indexer name args scope receiver) := by
  refine hP.bind (hlift _) fun dictionary => ?_
  split
  · rcases args with _ | ⟨key, _ | ⟨_, _⟩⟩
    · exact hlift (.error _)
    · refine hP.bind (hargs key List.mem_cons_self _) fun k => ?_
      split
      · exact hP.pure _
      · exact hlift (.error _)
    · exact hlift (.error _)
  · exact hlift (.error _)

omit hlift in
theorem compositional_items
    (hargs : ∀ o ∈ args, ∀ expected, P (o.meaning scope none expected)) (element : Option Ty) :
    P (args.mapM fun item : Operand => item.meaning scope none element) := by
  induction args with
  | nil => exact hP.pure []
  | cons o args ih =>
    obtain ⟨ho, hargs⟩ := List.forall_mem_cons.mp hargs
    rw [List.mapM_cons]
    exact hP.bind (ho element) fun _ => hP.bind (ih hargs) fun _ => hP.pure _

omit hP in
theorem compositional_standalone {kind : Query.Kind}
    {meaning : List Param → Option Ty → Compiler Expr} {expected : Option Ty}
    (h : P (meaning scope expected)) (receiver : Option Expr) :
    P (standalone kind meaning scope receiver expected) := by
  cases receiver with
  | none => exact h
  | some _ => exact hlift (.error _)

end Constructs

/-- A query that is no member compiles only where nothing stands before it. -/
theorem standalone_eq_ok {kind : Query.Kind} {meaning : List Param → Option Ty → Compiler Expr}
    {receiver : Option Expr} {expected : Option Ty} {n m : Nat} {e : Expr} :
    standalone kind meaning scope receiver expected n = .ok (e, m) ↔
      receiver = none ∧ meaning scope expected n = .ok (e, m) := by
  cases receiver with
  | none => simp [standalone]
  | some _ => simp [standalone]

theorem call_of_typeOperator {name : String} {op : TypeOperator}
    (hname : TypeOperator.ofName? name = some op) (args : List Operand) :
    s.call name args scope = s.typeCall op args scope := by
  rw [call, hname]

/-- Any other call is a use of the first function that takes the arguments. -/
theorem call_eq_ok {name : String} (hname : TypeOperator.ofName? name = none) {n m : Nat}
    {e : Expr} : s.call name args scope n = .ok (e, m) ↔
      s.firstFit args scope (s.registry.candidates name args.length) n = .ok (some e, m) := by
  rw [call, hname, Compiler.bind_eq_ok]
  constructor
  · rintro ⟨found, k, hfound, h⟩
    cases found with
    | none => exact absurd h Compiler.throw_ne_ok
    | some e' =>
      obtain ⟨rfl, rfl⟩ := Compiler.pure_eq_ok.mp h
      exact hfound
  · intro h
    exact ⟨some e, m, h, Compiler.pure_eq_ok.mpr ⟨rfl, rfl⟩⟩

theorem monotone_attempt (hargs : ∀ o ∈ args, o.Monotone) (mapping : Mapping) :
    Compiler.Monotone (s.attempt mapping args scope) :=
  compositional_attempt Compiler.compositional_monotone
    (fun o ho expected _ => hargs o ho scope none expected) (expects_anything mapping)

theorem monotone_firstFit (hargs : ∀ o ∈ args, o.Monotone) (mappings : List Mapping) :
    Compiler.Monotone (s.firstFit args scope mappings) :=
  compositional_firstFit Compiler.compositional_monotone
    (fun o ho expected _ => hargs o ho scope none expected) fun m _ => expects_anything m

end Setting

/-! ## Whole queries -/

namespace Query

variable {next : Nat} {registry : Registry} {model : Model} {q : Query} {this : Param}
  {params outer : List Param}

theorem bodyFrom_eq_ok {body : Expr} :
    bodyFrom next registry model q this params outer = .ok body ↔
      ∃ m, q.meaning ⟨registry, model, this⟩ (params.filter (fun p => p.id ≠ this.id) ++ outer)
        none none next = .ok (body, m) := by
  rw [bodyFrom, except_bind_eq_ok]
  constructor
  · rintro ⟨⟨_, m⟩, hbody, h⟩
    cases h
    exact ⟨m, hbody⟩
  · rintro ⟨m, hbody⟩
    exact ⟨(body, m), hbody, rfl⟩

theorem compile_eq_ok {graph : Expr} :
    q.compile registry model this params outer = .ok graph ↔
      ∃ body, bodyFrom (above (this :: params ++ outer)) registry model q this params outer =
          .ok body ∧
        .lambda params (body.renumber (idOf (this :: params ++ outer))) = graph := by
  simp only [compile, except_bind_eq_ok, Except.ok.injEq]

theorem compilePredicate_eq_ok {t : Ty} {graph : Expr} :
    q.compilePredicate registry model t = .ok graph ↔
      ∃ body, bodyFrom 1 registry model q (receiverParam t) [receiverParam t] [] = .ok body ∧
        .lambda [receiverParam t] body = graph := by
  simp only [compilePredicate, except_bind_eq_ok, Except.ok.injEq]
  rfl

end Query
end TypedQuery
