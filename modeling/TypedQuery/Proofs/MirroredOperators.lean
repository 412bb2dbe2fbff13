import TypedQuery.Proofs.ElaborationSound
import TypedQuery.Proofs.Operations
import TypedQuery.Registry.Standard
/-!
The operands of an operator may change places.

`l lt r` and `r gt l` compile to the same graph, but for the places of the operands, and the other
comparisons by size go together in the same way. Every other operator stays what it is: `l sub r`
compiles just if `r sub l` does, to a graph with the same operands. So neither the type that two
numbers widen to, nor the constants that are converted for it, nor the enumeration that a text is
read as depends on the side that an operand is written on.

The operands are compiled one after the other, and a lambda in the first of them takes numbers for
its parameters that the second one cannot have. Without lambdas no step takes a number, so that the
two may be compiled in any order.
-/
namespace TypedQuery

/-- The operator for the same operands in the other order, as far as there is one. -/
def BinaryOp.mirror : BinaryOp → BinaryOp
  | .less => .greater
  | .greater => .less
  | .lessOrEqual => .greaterOrEqual
  | .greaterOrEqual => .lessOrEqual
  | op => op

namespace BinaryOp

@[simp]
theorem mirror_mirror (op : BinaryOp) : op.mirror.mirror = op := by
  cases op <;> rfl

@[simp]
theorem isLogical_mirror (op : BinaryOp) : op.mirror.isLogical = op.isLogical := by
  cases op <;> rfl

@[simp]
theorem isArithmetic_mirror (op : BinaryOp) : op.mirror.isArithmetic = op.isArithmetic := by
  cases op <;> rfl

@[simp]
theorem isEquality_mirror (op : BinaryOp) : op.mirror.isEquality = op.isEquality := by
  cases op <;> rfl

@[simp]
theorem isRelational_mirror (op : BinaryOp) : op.mirror.isRelational = op.isRelational := by
  cases op <;> rfl

end BinaryOp

/-! ## Compiled operands -/

namespace Expr

variable {h : Hierarchy} {op : BinaryOp} {l r l' r' : Expr} {t : Ty}

/-- No rule of an operator says anything of the side that an operand is written on. -/
theorem Operation.mirror (hop : Operation h op l r l' r' t) :
    Operation h op.mirror r l r' l' t := by
  cases hop with
  | logical hop hl hr => exact .logical (op.isLogical_mirror.trans hop) hr hl
  | @widened t hop ht =>
    rw [← BinaryOp.isArithmetic_mirror]
    exact .widened (op.isLogical_mirror.trans hop) (Ty.promote?_comm l.type r.type ▸ ht)
  | caseOnRight hop hd hc => exact .caseOnLeft (op.isEquality_mirror.trans hop) hd hc
  | caseOnLeft hop hd hc => exact .caseOnRight (op.isEquality_mirror.trans hop) hd hc
  | equality hop hleft hright ht hfits =>
    refine .equality (op.isEquality_mirror.trans hop) hright hleft
      (Ty.promote?_comm l.type r.type ▸ ht) ?_
    rcases hfits with heq | hl | hr
    · exact .inl heq.symm
    · exact .inr (.inr hl)
    · exact .inr (.inl hr)
  | relational hop ht heq hordered =>
    refine .relational (op.isRelational_mirror.trans hop)
      (Ty.promote?_comm l.type r.type ▸ ht) heq.symm ?_
    rwa [heq]

/-- What an operator makes of two operands, its mirror makes of them in the other order. -/
theorem combine_mirror : combine h op l r = .ok (.binary op l' r' t) ↔
    combine h op.mirror r l = .ok (.binary op.mirror r' l' t) := by
  rw [combine_eq_ok_iff, combine_eq_ok_iff]
  refine ⟨Operation.mirror, fun hop => ?_⟩
  have hback := hop.mirror
  rwa [BinaryOp.mirror_mirror] at hback

end Expr

/-! ## Queries without lambdas -/

namespace Query

mutual
/-- Whether there is a lambda anywhere in the query. -/
def hasLambda : Query → Bool
  | .lambda _ _ => true
  | .binary _ left right => left.hasLambda || right.hasLambda
  | .call _ args | .indexer _ args => anyHasLambda args
  | .array items => anyHasLambda items
  | .symbol _ | .string _ | .number _ | .guid _ | .dateTime _ => false

def anyHasLambda : List Query → Bool
  | [] => false
  | q :: qs => q.hasLambda || anyHasLambda qs
end

/-- What holds of the steps of a query, wherever it stands. -/
def Throughout (P : {α : Type} → Compiler α → Prop) (s : Setting) (q : Query) : Prop :=
  ∀ scope receiver expected, P (q.meaning s scope receiver expected)

theorem throughout_operands {P : {α : Type} → Compiler α → Prop} {s : Setting}
    {qs : List Query} (hqs : ∀ q ∈ qs, q.Throughout P s) (scope : List Param) :
    ∀ o ∈ operands s qs, ∀ expected, P (o.meaning scope none expected) := by
  rw [operands_eq_map, List.forall_mem_map]
  exact fun q hq => hqs q hq scope none

mutual
/-- A query without lambdas is put together from steps that return or fail at once. -/
theorem throughout_of_hasLambda {P : {α : Type} → Compiler α → Prop} {s : Setting}
    (hP : Compiler.Compositional P)
    (hlift : ∀ {α : Type} (x : Except CompileError α), P (liftM x : Compiler α)) :
    ∀ q : Query, q.hasLambda = false → q.Throughout P s
  | .symbol name, _ => fun _ _ _ => hlift _
  | .indexer name args, h => by
    intro scope receiver expected
    have hargs : ∀ q ∈ args, q.Throughout P s := throughout_of_anyHasLambda hP hlift args h
    rw [meaning]
    exact Setting.compositional_indexer hP hlift (throughout_operands hargs scope) name receiver
  | .binary op left right, h => by
    obtain ⟨hl, hr⟩ := Bool.or_eq_false_iff.mp h
    have hleft : left.Throughout P s := throughout_of_hasLambda hP hlift left hl
    have hright : right.Throughout P s := throughout_of_hasLambda hP hlift right hr
    intro scope receiver expected
    cases op with
    | dot =>
      by_cases hcall : ∃ name args, right = .call name args
      · obtain ⟨name, args, rfl⟩ := hcall
        have hargs : ∀ q ∈ left :: args, q.Throughout P s :=
          List.forall_mem_cons.mpr ⟨hleft, throughout_of_anyHasLambda hP hlift args hr⟩
        rw [meaning]
        cases receiver with
        | none => exact Setting.compositional_call hP hlift (throughout_operands hargs scope) name
        | some _ => exact hlift (.error _)
      · rw [meaning_path fun name args hr => hcall ⟨name, args, hr⟩]
        exact hP.bind (hleft scope receiver none) fun l => hright scope (some l) none
    | isIn =>
      rw [meaning]
      refine Setting.compositional_standalone hlift ?_ receiver
      refine hP.bind (hleft scope none none) fun value => ?_
      exact hP.bind (hright scope none _) fun _ => hlift _
    | value op =>
      rw [meaning]
      refine Setting.compositional_standalone hlift ?_ receiver
      refine hP.bind (hleft scope none none) fun l => ?_
      exact hP.bind (hright scope none none) fun _ => hlift _
  | .call name args, h => by
    intro scope receiver expected
    have hargs : ∀ q ∈ args, q.Throughout P s := throughout_of_anyHasLambda hP hlift args h
    rw [meaning]
    refine Setting.compositional_standalone hlift ?_ receiver
    exact Setting.compositional_call hP hlift (throughout_operands hargs scope) name
  | .array items, h => by
    intro scope receiver expected
    have hitems : ∀ q ∈ items, q.Throughout P s := throughout_of_anyHasLambda hP hlift items h
    rw [meaning]
    refine Setting.compositional_standalone hlift ?_ receiver
    refine hP.bind ?_ fun _ => hlift _
    exact Setting.compositional_items hP (throughout_operands hitems scope) _
  | .string _, _ | .guid _, _ | .dateTime _, _ => fun _ receiver _ =>
    Setting.compositional_standalone hlift (hP.pure _) receiver
  | .number _, _ => fun _ receiver _ =>
    Setting.compositional_standalone hlift (hlift _) receiver

theorem throughout_of_anyHasLambda {P : {α : Type} → Compiler α → Prop} {s : Setting}
    (hP : Compiler.Compositional P)
    (hlift : ∀ {α : Type} (x : Except CompileError α), P (liftM x : Compiler α)) :
    ∀ qs : List Query, anyHasLambda qs = false → ∀ q ∈ qs, q.Throughout P s
  | [], _, _, hq => absurd hq List.not_mem_nil
  | q :: qs, h, q', hq => by
    obtain ⟨hfirst, hrest⟩ := Bool.or_eq_false_iff.mp h
    rcases List.mem_cons.mp hq with hq | hq
    · exact hq ▸ throughout_of_hasLambda hP hlift q hfirst
    · exact throughout_of_anyHasLambda hP hlift qs hrest q' hq
end

theorem steady_of_hasLambda {s : Setting} {q : Query} (h : q.hasLambda = false) :
    q.Throughout Compiler.Steady s :=
  throughout_of_hasLambda Compiler.compositional_steady Compiler.steady_liftM q h

/-! ## Operators on queries -/

section Operators

variable {s : Setting} {op : BinaryOp} {l r : Query} {scope : List Param}
  {receiver : Option Expr} {expected : Option Ty} {n m : Nat} {e : Expr}

/-- Operands without lambdas are compiled from one and the same number on. -/
theorem meaning_value_eq_ok (hl : l.hasLambda = false) (hr : r.hasLambda = false) :
    (Query.binary (.value op) l r).meaning s scope receiver expected n = .ok (e, m) ↔
      receiver = none ∧ m = n ∧ ∃ l' r', l.meaning s scope none none n = .ok (l', n) ∧
        r.meaning s scope none none n = .ok (r', n) ∧
        Expr.combine s.hierarchy op l' r' = .ok e := by
  rw [meaning_operator_eq_ok]
  refine and_congr_right fun _ => ⟨?_, ?_⟩
  -- Neither operand takes a number, so the second one begins where the first one did.
  · rintro ⟨l', k, r', hleft, hright, he⟩
    obtain rfl := steady_of_hasLambda hl _ _ _ hleft
    obtain rfl := steady_of_hasLambda hr _ _ _ hright
    exact ⟨rfl, l', r', hleft, hright, he⟩
  · rintro ⟨rfl, l', r', hleft, hright, he⟩
    exact ⟨l', m, r', hleft, hright, he⟩

theorem meaning_mirror_iff (hl : l.hasLambda = false) (hr : r.hasLambda = false) {l' r' : Expr}
    {t : Ty} : (Query.binary (.value op) l r).meaning s scope receiver expected n =
        .ok (.binary op l' r' t, m) ↔
      (Query.binary (.value op.mirror) r l).meaning s scope receiver expected n =
        .ok (.binary op.mirror r' l' t, m) := by
  rw [meaning_value_eq_ok hl hr, meaning_value_eq_ok hr hl]
  constructor
  · rintro ⟨hreceiver, hm, l₁, r₁, hleft, hright, he⟩
    exact ⟨hreceiver, hm, r₁, l₁, hright, hleft, Expr.combine_mirror.mp he⟩
  · rintro ⟨hreceiver, hm, r₁, l₁, hright, hleft, he⟩
    exact ⟨hreceiver, hm, l₁, r₁, hleft, hright, Expr.combine_mirror.mpr he⟩

theorem binary_of_meaning_value (hl : l.hasLambda = false) (hr : r.hasLambda = false)
    (h : (Query.binary (.value op) l r).meaning s scope receiver expected n = .ok (e, m)) :
    ∃ l' r' t, e = .binary op l' r' t := by
  obtain ⟨-, -, l₁, r₁, -, -, he⟩ := (meaning_value_eq_ok hl hr).mp h
  obtain ⟨l', r', t, rfl, -⟩ := Expr.operation_of_combine he
  exact ⟨l', r', t, rfl⟩

end Operators

section Bodies

variable {next : Nat} {registry : Registry} {model : Model} {this : Param}
  {params outer : List Param}

theorem bodyFrom_mirror_iff {op : BinaryOp} {l r : Query} (hl : l.hasLambda = false)
    (hr : r.hasLambda = false) {l' r' : Expr} {t : Ty} :
    bodyFrom next registry model (.binary (.value op) l r) this params outer =
        .ok (.binary op l' r' t) ↔
      bodyFrom next registry model (.binary (.value op.mirror) r l) this params outer =
        .ok (.binary op.mirror r' l' t) := by
  rw [bodyFrom_eq_ok, bodyFrom_eq_ok]
  exact exists_congr fun m => meaning_mirror_iff hl hr

/-- An operator at the root of a graph was there before the numbers were made words. -/
theorem compile_binary_eq_ok {q : Query} {op : BinaryOp} {l r : Expr} {t : Ty} :
    q.compile registry model this params outer = .ok (.lambda params (.binary op l r t)) ↔
      ∃ l' r', bodyFrom (above (this :: params ++ outer)) registry model q this params outer =
          .ok (.binary op l' r' t) ∧
        l'.renumber (idOf (this :: params ++ outer)) = l ∧
        r'.renumber (idOf (this :: params ++ outer)) = r := by
  rw [compile_eq_ok]
  constructor
  · rintro ⟨body, hbody, hgraph⟩
    cases body <;> cases hgraph
    exact ⟨_, _, hbody, rfl, rfl⟩
  · rintro ⟨l', r', hbody, rfl, rfl⟩
    exact ⟨_, hbody, rfl⟩

end Bodies

/-- Operands without lambdas may change places if the operator is mirrored. At every place in a
query, `l op r` compiles to an operator on `l'` and `r'` of some type just if the mirrored operator
between `r` and `l` compiles to that on `r'` and `l'` of the same type, and it compiles to nothing
else. The same is so of whole queries, whatever the functions, the model and the scope are. -/
theorem compile_mirror (op : BinaryOp) {l r : Query} (hl : l.hasLambda = false)
    (hr : r.hasLambda = false) :
    (∀ (s : Setting) (scope : List Param) (receiver : Option Expr) (expected : Option Ty)
        (n m : Nat),
      (∀ (l' r' : Expr) (t : Ty),
        (Query.binary (.value op) l r).meaning s scope receiver expected n =
            .ok (.binary op l' r' t, m) ↔
          (Query.binary (.value op.mirror) r l).meaning s scope receiver expected n =
            .ok (.binary op.mirror r' l' t, m)) ∧
      ∀ e : Expr, (Query.binary (.value op) l r).meaning s scope receiver expected n =
          .ok (e, m) → ∃ l' r' t, e = .binary op l' r' t) ∧
    ∀ (registry : Registry) (model : Model) (this : Param) (params outer : List Param),
      (∀ (l' r' : Expr) (t : Ty),
        (Query.binary (.value op) l r).compile registry model this params outer =
            .ok (.lambda params (.binary op l' r' t)) ↔
          (Query.binary (.value op.mirror) r l).compile registry model this params outer =
            .ok (.lambda params (.binary op.mirror r' l' t))) ∧
      ∀ graph : Expr, (Query.binary (.value op) l r).compile registry model this params outer =
          .ok graph → ∃ l' r' t, graph = .lambda params (.binary op l' r' t) := by
  refine ⟨fun s scope receiver expected n m =>
    ⟨fun l' r' t => meaning_mirror_iff hl hr, fun e => binary_of_meaning_value hl hr⟩,
    fun registry model this params outer => ⟨fun l' r' t => ?_, fun graph h => ?_⟩⟩
  · rw [compile_binary_eq_ok, compile_binary_eq_ok]
    constructor
    · rintro ⟨l₁, r₁, hbody, rfl, rfl⟩
      exact ⟨r₁, l₁, (bodyFrom_mirror_iff hl hr).mp hbody, rfl, rfl⟩
    · rintro ⟨r₁, l₁, hbody, rfl, rfl⟩
      exact ⟨l₁, r₁, (bodyFrom_mirror_iff hl hr).mpr hbody, rfl, rfl⟩
  · obtain ⟨body, hbody, rfl⟩ := compile_eq_ok.mp h
    obtain ⟨m, hmeaning⟩ := bodyFrom_eq_ok.mp hbody
    obtain ⟨l', r', t, rfl⟩ := binary_of_meaning_value hl hr hmeaning
    exact ⟨_, _, t, rfl⟩

/-- A decimal property on either side of a literal, which is converted in place. -/
theorem compile_mirror_decimal :
    ∃ (model : Model) (l' r' : Expr) (t : Ty),
      (Query.symbol "Weight").hasLambda = false ∧ (Query.number "3").hasLambda = false ∧
      compile .standard model (.binary (.value .less) (.symbol "Weight") (.number "3"))
        (receiverParam (.entity "Dog")) [receiverParam (.entity "Dog")] [] =
          .ok (.lambda [receiverParam (.entity "Dog")] (.binary .less l' r' t)) ∧
      compile .standard model (.binary (.value .greater) (.number "3") (.symbol "Weight"))
        (receiverParam (.entity "Dog")) [receiverParam (.entity "Dog")] [] =
          .ok (.lambda [receiverParam (.entity "Dog")] (.binary .greater r' l' t)) := by
  let model : Model := ⟨[], [⟨"Dog", none, [("Weight", .decimal)]⟩]⟩
  have hleft : (Query.symbol "Weight").hasLambda = false := rfl
  have hright : (Query.number "3").hasLambda = false := rfl
  obtain ⟨l', r', t, h⟩ : ∃ l' r' t,
      compile .standard model (.binary (.value .less) (.symbol "Weight") (.number "3"))
        (receiverParam (.entity "Dog")) [receiverParam (.entity "Dog")] [] =
          .ok (.lambda [receiverParam (.entity "Dog")] (.binary .less l' r' t)) :=
    ⟨_, _, _, rfl⟩
  have hmirror := (compile_mirror .less hleft hright).2 .standard model (receiverParam (.entity "Dog"))
    [receiverParam (.entity "Dog")] []
  exact ⟨model, l', r', t, hleft, hright, h, (hmirror.1 l' r' t).mp h⟩

end Query
end TypedQuery
