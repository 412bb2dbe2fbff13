import TypedQuery.Proofs.Congruence
/-!
A call may be written before its arguments or behind the first of them.

`f(a, b)` and `a.f(b)` are two queries with one meaning. Which of the two is written can be chosen
for every call of a query on its own, and whatever is chosen, the query compiles to the same
graph or fails for a reason of the same kind. The text of an error may tell the two apart, since
it can name the form of a query.

Two places need a look. Inside a path neither form is allowed, and both are refused as unsupported.
And where a type is wanted, neither of them names one.
-/
namespace TypedQuery
namespace Query

/-! ## Calls behind their first arguments -/

/-- What is chosen inside the child at position `i`. -/
def within (chosen : List Nat → Bool) (i : Nat) : List Nat → Bool := fun place =>
  chosen (i :: place)

/-- A call, behind its first argument if it is to be chained and has one. -/
def callStyled (chain : Bool) (name : String) : List Query → Query
  | [] => .call name []
  | first :: rest => if chain then .dot first (.call name rest) else .call name (first :: rest)

mutual
/-- The query with the chosen calls behind their first arguments. A place in a query is given by
the positions of the children on the way to it. A call that stands behind a dot is written in
this way already, so only its arguments are looked at. -/
def chained (chosen : List Nat → Bool) : Query → Query
  | .call name args => callStyled (chosen []) name (chainedEach chosen 0 args)
  | .binary .dot left (.call name args) =>
    .binary .dot (left.chained (within chosen 0))
      (.call name (chainedEach (within chosen 1) 0 args))
  | .binary op left right =>
    .binary op (left.chained (within chosen 0)) (right.chained (within chosen 1))
  | .indexer name args => .indexer name (chainedEach chosen 0 args)
  | .lambda params body => .lambda params (body.chained (within chosen 0))
  | .array items => .array (chainedEach chosen 0 items)
  | .symbol name => .symbol name
  | .string value => .string value
  | .number text => .number text
  | .guid value => .guid value
  | .dateTime value => .dateTime value

def chainedEach (chosen : List Nat → Bool) (i : Nat) : List Query → List Query
  | [] => []
  | q :: qs => q.chained (within chosen i) :: chainedEach chosen (i + 1) qs
end

/-- Only what is a call already is a call with other calls behind their arguments. -/
theorem chained_ne_call {chosen : List Nat → Bool} {q : Query}
    (h : ∀ name args, q ≠ .call name args) : ∀ name args, q.chained chosen ≠ .call name args := by
  intro name args
  cases q with
  | call name' args' => exact absurd rfl (h name' args')
  | binary op left right =>
    unfold chained
    split <;> simp_all
  | _ => simp [chained]

theorem chained_binary {chosen : List Nat → Bool} {op : Operator} {left right : Query}
    (h : op = .dot → ∀ name args, right ≠ .call name args) :
    (Query.binary op left right).chained chosen =
      .binary op (left.chained (within chosen 0)) (right.chained (within chosen 1)) := by
  rw [chained]
  intro name args hop hright
  exact h hop name args hright

theorem typeName?_callStyled (chain : Bool) (name : String) (args : List Query) :
    (callStyled chain name args).typeName? = none := by
  cases args with
  | nil => rfl
  | cons => cases chain <;> rfl

theorem typeName?_chained (chosen : List Nat → Bool) (q : Query) :
    q.typeName? = (q.chained chosen).typeName? := by
  cases q with
  | call name args => rw [chained, typeName?_callStyled]; rfl
  | binary op left right =>
    unfold chained
    split <;> simp_all [typeName?]
  | _ => rfl

mutual
/-- With nothing chosen, the query stays as it is. -/
theorem chained_none : ∀ q : Query, q.chained (fun _ => false) = q
  | .call name args => by
    rw [chained, chainedEach_none args 0]
    cases args <;> rfl
  | .binary op left right => by
    have hleft : left.chained (fun _ => false) = left := chained_none left
    have hright : right.chained (fun _ => false) = right := chained_none right
    by_cases hcall : ∃ name args, op = .dot ∧ right = .call name args
    · obtain ⟨name, args, rfl, rfl⟩ := hcall
      have hargs := chainedEach_none args 0
      rw [chained]
      exact congrArg₂ _ hleft (congrArg _ hargs)
    · rw [chained_binary fun hop name args hright => hcall ⟨name, args, hop, hright⟩]
      exact congrArg₂ _ hleft hright
  | .indexer name args => by rw [chained, chainedEach_none args 0]
  | .lambda params body => congrArg _ (chained_none body)
  | .array items => by rw [chained, chainedEach_none items 0]
  | .symbol _ | .string _ | .number _ | .guid _ | .dateTime _ => rfl

theorem chainedEach_none : ∀ (qs : List Query) (i : Nat), chainedEach (fun _ => false) i qs = qs
  | [], _ => rfl
  | q :: qs, i => congrArg₂ _ (chained_none q) (chainedEach_none qs (i + 1))
end

/-! ## What they compile to -/

section Related

variable {R : {α : Type} → Compiler α → Compiler α → Prop} {s : Setting} {r : Registry}

/-- A query compiles as it does in another setting with some of its calls behind their first
arguments, whichever are chosen. -/
def RelatedChained (R : {α : Type} → Compiler α → Compiler α → Prop) (s : Setting) (r : Registry)
    (q : Query) : Prop :=
  ∀ chosen scope receiver expected, R (q.meaning s scope receiver expected)
    ((q.chained chosen).meaning (s.withRegistry r) scope receiver expected)

/-- Calls in both settings are related when their operands are. -/
def RelatedCalls (R : {α : Type} → Compiler α → Compiler α → Prop) (s : Setting)
    (r : Registry) : Prop :=
  ∀ (name : String) (pairs : List (Operand × Operand)) (scope : List Param),
    Setting.OperandsRelated R pairs →
      R (s.call name (pairs.map Prod.fst) scope)
        ((s.withRegistry r).call name (pairs.map Prod.snd) scope)

/-- The operands of queries before and after. -/
def operandPairs (s : Setting) (r : Registry) (chosen : List Nat → Bool) (i : Nat) :
    List Query → List (Operand × Operand)
  | [] => []
  | q :: qs => (q.operand s, (q.chained (within chosen i)).operand (s.withRegistry r)) ::
      operandPairs s r chosen (i + 1) qs

theorem map_fst_operandPairs (chosen : List Nat → Bool) (i : Nat) (qs : List Query) :
    (operandPairs s r chosen i qs).map Prod.fst = operands s qs := by
  induction qs generalizing i with
  | nil => rfl
  | cons q qs ih => rw [operandPairs, List.map_cons, ih, operands, operand]

theorem map_snd_operandPairs (chosen : List Nat → Bool) (i : Nat) (qs : List Query) :
    (operandPairs s r chosen i qs).map Prod.snd =
      operands (s.withRegistry r) (chainedEach chosen i qs) := by
  induction qs generalizing i with
  | nil => rfl
  | cons q qs ih => rw [operandPairs, List.map_cons, ih, chainedEach, operands]; rfl

theorem operandsRelated_operandPairs {qs : List Query} (hqs : ∀ q ∈ qs, RelatedChained R s r q)
    (chosen : List Nat → Bool) (i : Nat) :
    Setting.OperandsRelated R (operandPairs s r chosen i qs) := by
  induction qs generalizing i with
  | nil => simp [operandPairs, Setting.OperandsRelated]
  | cons q qs ih =>
    obtain ⟨hq, hqs⟩ := List.forall_mem_cons.mp hqs
    refine List.forall_mem_cons.mpr ⟨⟨typeName?_chained _ q, fun scope expected => ?_⟩, ih hqs _⟩
    exact hq _ scope none expected

theorem relatedChained_call (hR : Compiler.Congruence R) (hcalls : RelatedCalls R s r)
    {name : String} {args : List Query}
    (hargs : ∀ q ∈ args, RelatedChained R s r q) : RelatedChained R s r (.call name args) := by
  intro chosen scope receiver expected
  have hpairs := operandsRelated_operandPairs hargs chosen 0
  have hcall := hcalls name _ scope hpairs
  rw [map_fst_operandPairs, map_snd_operandPairs] at hcall
  rw [meaning, chained]
  cases hargs' : chainedEach chosen 0 args with
  | nil =>
    rw [hargs'] at hcall
    rw [callStyled, meaning]
    exact Setting.related_standalone hR hcall
  | cons first rest =>
    rw [hargs'] at hcall
    rw [callStyled]
    split
    · rw [dot, meaning]
      cases receiver with
      | none => exact hcall
      | some _ => exact hR.throw rfl
    · rw [meaning]
      exact Setting.related_standalone hR hcall

mutual
/-- Whichever calls are chosen, the query compiles in a related way. -/
theorem relatedChained (hR : Compiler.Congruence R) (hcalls : RelatedCalls R s r) :
    ∀ q : Query, RelatedChained R s r q
  | .call name args => relatedChained_call hR hcalls (relatedChained_each hR hcalls args)
  | .symbol name => fun _ _ _ _ => hR.refl _
  | .indexer name args => by
    intro chosen scope receiver expected
    have hpairs := operandsRelated_operandPairs (relatedChained_each hR hcalls args) chosen 0
    have hindexer := Setting.related_indexer (s := s) (r := r) hR hpairs name scope receiver
    rw [map_fst_operandPairs, map_snd_operandPairs] at hindexer
    exact hindexer
  | .binary op left right => by
    intro chosen scope receiver expected
    have hleft : RelatedChained R s r left := relatedChained hR hcalls left
    have hright : RelatedChained R s r right := relatedChained hR hcalls right
    cases op with
    | dot =>
      by_cases hcall : ∃ name args, right = .call name args
      · obtain ⟨name, args, rfl⟩ := hcall
        have hargs :=
          operandsRelated_operandPairs (relatedChained_each hR hcalls args) (within chosen 1) 0
        have hpairs : Setting.OperandsRelated R
            ((left.operand s, (left.chained (within chosen 0)).operand (s.withRegistry r)) ::
              operandPairs s r (within chosen 1) 0 args) :=
          List.forall_mem_cons.mpr ⟨⟨typeName?_chained _ left, fun scope expected =>
            hleft _ scope none expected⟩, hargs⟩
        have hcall := hcalls name _ scope hpairs
        rw [List.map_cons, List.map_cons, map_fst_operandPairs, map_snd_operandPairs] at hcall
        rw [chained, meaning, meaning]
        cases receiver with
        | none => exact hcall
        | some _ => exact hR.throw rfl
      · have hne : ∀ name args, right ≠ .call name args :=
          fun name args h => hcall ⟨name, args, h⟩
        rw [chained_binary fun _ => hne, meaning_path hne, meaning_path (chained_ne_call hne)]
        exact hR.bind (hleft _ scope receiver none) fun l => hright _ scope (some l) none
    | isIn =>
      simp only [chained, meaning]
      refine Setting.related_standalone hR (hR.bind (hleft _ scope none none) fun value => ?_)
      exact hR.bind (hright _ scope none _) fun _ => hR.refl _
    | value op =>
      simp only [chained, meaning]
      refine Setting.related_standalone hR (hR.bind (hleft _ scope none none) fun l => ?_)
      exact hR.bind (hright _ scope none none) fun _ => hR.refl _
  | .lambda params body => by
    intro chosen scope receiver expected
    have hbody : RelatedChained R s r body := relatedChained hR hcalls body
    rw [chained, meaning, meaning]
    refine Setting.related_standalone hR ?_
    cases expected with
    | none => exact hR.refl _
    | some t => exact Setting.related_lambda hR params (fun scope => hbody _ scope none) t
  | .array items => by
    intro chosen scope receiver expected
    have hpairs := operandsRelated_operandPairs (relatedChained_each hR hcalls items) chosen 0
    have hitems := Setting.related_items hR hpairs scope (expectedElement expected)
    rw [map_fst_operandPairs, map_snd_operandPairs] at hitems
    rw [chained, meaning, meaning]
    exact Setting.related_standalone hR (hR.bind hitems fun _ => hR.refl _)
  | .string _ | .number _ | .guid _ | .dateTime _ => fun _ _ _ _ => hR.refl _

theorem relatedChained_each (hR : Compiler.Congruence R) (hcalls : RelatedCalls R s r) :
    ∀ qs : List Query, ∀ q ∈ qs, RelatedChained R s r q
  | [], _, h => absurd h List.not_mem_nil
  | q :: qs, q', h => by
    rcases List.mem_cons.mp h with h | h
    · exact h ▸ relatedChained hR hcalls q
    · exact relatedChained_each hR hcalls qs q' h
end

end Related

/-! ## Outcomes -/

/-- The body of a query is the same with other call places, or fails for the same kind of
reason. -/
theorem bodyFrom_chained (next : Nat) (registry : Registry) (model : Model) (q : Query)
    (chosen : List Nat → Bool) (this : Param) (params outer : List Param) :
    (bodyFrom next registry model (q.chained chosen) this params outer).mapError CompileError.kind =
      (bodyFrom next registry model q this params outer).mapError CompileError.kind := by
  let s : Setting := { registry := registry, model := model, this := this }
  have hcalls : RelatedCalls Compiler.SameOutcome s registry := fun name pairs scope hpairs =>
    Setting.related_call Compiler.congruence_sameOutcome hpairs name rfl
  have hbody : Compiler.SameOutcome _ _ :=
    relatedChained Compiler.congruence_sameOutcome hcalls q chosen
      (params.filter (fun p => p.id ≠ this.id) ++ outer) none none
  exact mapError_bind (hbody next) fun _ => rfl

/-- Which calls are behind their first arguments changes neither the graph that a query compiles
to, the numbers of its parameters among it, nor the kind of the error that it fails with. That
is so in every scope, and in particular for predicates. -/
theorem compile_chained (registry : Registry) (model : Model) (q : Query)
    (chosen : List Nat → Bool) :
    (∀ (this : Param) (params outer : List Param),
      ((q.chained chosen).compile registry model this params outer).mapError CompileError.kind =
        (q.compile registry model this params outer).mapError CompileError.kind) ∧
    ∀ t : Ty, ((q.chained chosen).compilePredicate registry model t).mapError CompileError.kind =
      (q.compilePredicate registry model t).mapError CompileError.kind :=
  ⟨fun _ _ _ => mapError_bind (bodyFrom_chained ..) fun _ => rfl,
    fun _ => mapError_bind (bodyFrom_chained ..) fun _ => rfl⟩

/-- With all calls chosen, `any(tags,x:startswith(x,'a'))` becomes
`tags.any(x:x.startswith('a'))`. -/
example :
    (Query.call "any" [.symbol "tags",
      .lambda ["x"] (.call "startswith" [.symbol "x", .string "a"])]).chained (fun _ => true) =
    .dot (.symbol "tags") (.call "any"
      [.lambda ["x"] (.dot (.symbol "x") (.call "startswith" [.string "a"]))]) := rfl

end Query
end TypedQuery
