import TypedQuery.Proofs.Compiler
/-!
What a query compiles to, as rules.

There is one rule for each way in which a construct can succeed. A rule says what the parts
compile to, where and for which expected types, and nothing about functions that were tried
before and did not fit: those leave nothing behind but used numbers, so a rule lets numbers be
skipped between its parts. Laws about compiled graphs go by induction on these rules, and
`elaborates_of_meaning` brings them to the compiler.
-/
namespace TypedQuery

/-- One part of a query and what it compiled to: the type expected of it, its graph, and the
numbers that were free before and after it. -/
structure Part where
  query : Query
  expected : Option Ty
  before : Nat
  graph : Expr
  after : Nat

/-- Parts that were compiled one after the other, from the number `n` up to `m`. -/
def Consecutive (n : Nat) : List Part → Nat → Prop
  | [], m => n ≤ m
  | u :: us, m => n ≤ u.before ∧ u.before ≤ u.after ∧ Consecutive u.after us m

theorem Consecutive.le {n m : Nat} {us : List Part} (h : Consecutive n us m) : n ≤ m := by
  induction us generalizing n with
  | nil => exact h
  | cons u us ih =>
    obtain ⟨hb, hu, hus⟩ := h
    have := ih hus
    omega

theorem Consecutive.mono {n₀ n m : Nat} {us : List Part} (h : Consecutive n us m)
    (hn : n₀ ≤ n) : Consecutive n₀ us m := by
  cases us with
  | nil => exact Nat.le_trans hn h
  | cons u us => exact ⟨Nat.le_trans hn h.1, h.2⟩

theorem Consecutive.le_before {n m : Nat} {us : List Part} (h : Consecutive n us m) :
    ∀ u ∈ us, n ≤ u.before := by
  induction us generalizing n with
  | nil => simp
  | cons u us ih =>
    obtain ⟨hb, hu, hus⟩ := h
    exact List.forall_mem_cons.mpr ⟨hb, ih (hus.mono (Nat.le_trans hb hu))⟩

/-- Arguments that fit a signature one by one, from the bindings `b` on. What an argument
binds is part of the type expected of those behind it. -/
inductive Fitted (h : Hierarchy) : List Ty → List Part → Bindings → Bindings → Prop
  | nil {b : Bindings} : Fitted h [] [] b b
  | cons {wanted : Ty} {signature : List Ty} {u : Part} {us : List Part} {b b' b'' : Bindings} :
    u.expected = some (b.resolve wanted) →
    b.infer h wanted u.graph.type = .fit b' →
    Fitted h signature us b' b'' →
    Fitted h (wanted :: signature) (u :: us) b b''

/-- The words that mean the same whatever the scope is. -/
inductive Setting.Keyword (s : Setting) : String → Expr → Prop
  | this : s.Keyword "this" (.parameter s.this)
  | true : s.Keyword "true" (.constant (.bool true))
  | false : s.Keyword "false" (.constant (.bool false))
  | null : s.Keyword "null" (.constant .null)

theorem Setting.keyword?_eq_some_iff {s : Setting} {name : String} {e : Expr} :
    s.keyword? name = some e ↔ s.Keyword name e := by
  constructor
  · intro h
    unfold keyword? at h
    split at h <;> cases h <;> constructor
  · rintro (_ | _ | _ | _) <;> rfl

namespace Query

/-- `Elaborates s q scope receiver expected n e m` says that `q` compiles to `e` there, and
that compiling it moves the next free number from `n` to `m`. -/
inductive Elaborates (s : Setting) :
    Query → List Param → Option Expr → Option Ty → Nat → Expr → Nat → Prop
  | keyword {name : String} {scope : List Param} {expected : Option Ty} {n : Nat} {e : Expr} :
    s.keyword? name = some e →
    Elaborates s (.symbol name) scope none expected n e n
  | param {name : String} {scope : List Param} {expected : Option Ty} {n : Nat} {p : Param} :
    s.keyword? name = none →
    (scope.find? fun p => p.name == name) = some p →
    Elaborates s (.symbol name) scope none expected n (.parameter p) n
  | ownProperty {name : String} {scope : List Param} {expected : Option Ty} {n : Nat} {t : Ty} :
    s.keyword? name = none →
    (scope.find? fun p => p.name == name) = none →
    s.model.property? s.this.type name = some t →
    Elaborates s (.symbol name) scope none expected n (.property (.parameter s.this) name t) n
  | property {name : String} {scope : List Param} {receiver : Expr} {expected : Option Ty}
      {n : Nat} {t : Ty} :
    s.model.property? receiver.type name = some t →
    Elaborates s (.symbol name) scope (some receiver) expected n (.property receiver name t) n
  | indexer {name : String} {key : Query} {scope : List Param} {receiver : Option Expr}
      {expected : Option Ty} {n m : Nat} {t value : Ty} {k : Expr} :
    s.model.property? (receiver.getD (.parameter s.this)).type name = some t →
    s.hierarchy.instance? .dictionary t = some [.string, value] →
    Elaborates s key scope none (some .string) n k m →
    k.type = .string →
    Elaborates s (.indexer name [key]) scope receiver expected n
      (.callOn (.property (receiver.getD (.parameter s.this)) name t)
        (.instantiate Catalogue.dictionaryGet [.string, value] []) [k]) m
  | path {left right : Query} {scope : List Param} {receiver : Option Expr}
      {expected : Option Ty} {n k m : Nat} {l e : Expr} :
    Elaborates s left scope receiver none n l k →
    Elaborates s right scope (some l) none k e m →
    Elaborates s (.binary .dot left right) scope receiver expected n e m
  | chained {left : Query} {name : String} {args : List Query} {scope : List Param}
      {expected : Option Ty} {n m : Nat} {e : Expr} :
    Elaborates s (.call name (left :: args)) scope none none n e m →
    Elaborates s (.binary .dot left (.call name args)) scope none expected n e m
  | isIn {left right : Query} {scope : List Param} {expected : Option Ty} {n k m : Nat}
      {value array : Expr} :
    Elaborates s left scope none none n value k →
    Elaborates s right scope none (some (.array value.type)) k array m →
    array.type = .array value.type →
    Elaborates s (.binary .isIn left right) scope none expected n
      (.call (.instantiate Catalogue.enumerableContains [] [value.type]) [array, value]) m
  | operator {op : BinaryOp} {left right : Query} {scope : List Param} {expected : Option Ty}
      {n k m : Nat} {l r e : Expr} :
    Elaborates s left scope none none n l k →
    Elaborates s right scope none none k r m →
    Expr.combine s.hierarchy op l r = .ok e →
    Elaborates s (.binary (.value op) left right) scope none expected n e m
  | isofThis {type : Query} {scope : List Param} {expected : Option Ty} {n : Nat}
      {name : String} {t : Ty} :
    type.typeName? = some name →
    s.model.resolveType? name = some t →
    Elaborates s (.call "isof" [type]) scope none expected n (.typeIs (.parameter s.this) t) n
  | isof {operand type : Query} {scope : List Param} {expected : Option Ty} {n m : Nat}
      {e : Expr} {name : String} {t : Ty} :
    Elaborates s operand scope none none n e m →
    type.typeName? = some name →
    s.model.resolveType? name = some t →
    Elaborates s (.call "isof" [operand, type]) scope none expected n (.typeIs e t) m
  | castThis {type : Query} {scope : List Param} {expected : Option Ty} {n : Nat}
      {name : String} {t : Ty} :
    type.typeName? = some name →
    s.model.resolveType? name = some t →
    t.castsFrom s.hierarchy s.this.type = true →
    Elaborates s (.call "cast" [type]) scope none expected n
      (.convert (.parameter s.this) t true) n
  | cast {operand type : Query} {scope : List Param} {expected : Option Ty} {n m : Nat}
      {e : Expr} {name : String} {t : Ty} :
    Elaborates s operand scope none none n e m →
    type.typeName? = some name →
    s.model.resolveType? name = some t →
    t.castsFrom s.hierarchy e.type = true →
    Elaborates s (.call "cast" [operand, type]) scope none expected n (.convert e t true) m
  | access {name : String} {args : List Query} {scope : List Param} {expected : Option Ty}
      {n m : Nat} {mapping : Mapping} {u : Part} {member : Member} :
    mapping ∈ s.registry.candidates name args.length →
    mapping.reorder? args = some [u.query] →
    n ≤ u.before → u.after ≤ m →
    u.expected = Setting.known mapping.member.template.declaring →
    Elaborates s u.query scope none u.expected u.before u.graph u.after →
    mapping.member.bindDeclaring s.hierarchy u.graph.type = .ok member →
    mapping.member.kind.isProperty = true →
    Elaborates s (.call name args) scope none expected n (.memberAccess u.graph member) m
  | callOn {name : String} {args : List Query} {scope : List Param} {expected : Option Ty}
      {n m : Nat} {mapping : Mapping} {u : Part} {us : List Part} {member : Member}
      {b : Bindings} :
    mapping ∈ s.registry.candidates name args.length →
    mapping.reorder? args = some (u.query :: us.map Part.query) →
    Consecutive n (u :: us) m →
    u.expected = Setting.known mapping.member.template.declaring →
    Elaborates s u.query scope none u.expected u.before u.graph u.after →
    (∀ v ∈ us, Elaborates s v.query scope none v.expected v.before v.graph v.after) →
    mapping.member.hasReceiver = true →
    mapping.member.bindDeclaring s.hierarchy u.graph.type = .ok member →
    Fitted s.hierarchy member.template.params us (.ofMember member) b →
    (b.instantiate member).hasOpenDeclaring = false →
    (b.instantiate member).hasOpenMethod = false →
    Elaborates s (.call name args) scope none expected n
      (.callOn u.graph (b.instantiate member) (us.map Part.graph)) m
  | call {name : String} {args : List Query} {scope : List Param} {expected : Option Ty}
      {n m : Nat} {mapping : Mapping} {us : List Part} {b : Bindings} :
    mapping ∈ s.registry.candidates name args.length →
    mapping.reorder? args = some (us.map Part.query) →
    Consecutive n us m →
    (∀ v ∈ us, Elaborates s v.query scope none v.expected v.before v.graph v.after) →
    mapping.member.hasReceiver = false →
    Fitted s.hierarchy mapping.member.template.params us (.ofMember mapping.member) b →
    (b.instantiate mapping.member).hasOpenDeclaring = false →
    (b.instantiate mapping.member).hasOpenMethod = false →
    Elaborates s (.call name args) scope none expected n
      (.call (b.instantiate mapping.member) (us.map Part.graph)) m
  | lambda {names : List String} {body : Query} {scope : List Param} {types : List Ty}
      {result : Ty} {n m : Nat} {e : Expr} :
    types.length = names.length →
    types.any Ty.hasPlaceholder = false →
    Elaborates s body (Setting.paramsFrom n names types ++ scope) none (Setting.known result)
      (n + names.length) e m →
    Elaborates s (.lambda names body) scope none (some (.function types result)) n
      (.lambda (Setting.paramsFrom n names types) e) m
  | quoted {names : List String} {body : Query} {scope : List Param} {inner : Ty} {n m : Nat}
      {e : Expr} :
    Elaborates s (.lambda names body) scope none (some inner) n e m →
    Elaborates s (.lambda names body) scope none (some (.quoted inner)) n (.quote e) m
  | array {items : List Query} {scope : List Param} {expected : Option Ty} {n m : Nat}
      {us : List Part} {e : Expr} :
    items = us.map Part.query →
    Consecutive n us m →
    (∀ v ∈ us, Elaborates s v.query scope none (expectedElement expected) v.before v.graph
      v.after) →
    Expr.arrayOf (expectedElement expected) (us.map Part.graph) = .ok e →
    Elaborates s (.array items) scope none expected n e m
  | string {value : String} {scope : List Param} {expected : Option Ty} {n : Nat} :
    Elaborates s (.string value) scope none expected n (.constant (.string value)) n
  | number {text : String} {scope : List Param} {expected : Option Ty} {n : Nat} {e : Expr} :
    numberConstant text expected = .ok e →
    Elaborates s (.number text) scope none expected n e n
  | guid {value : Guid} {scope : List Param} {expected : Option Ty} {n : Nat} :
    Elaborates s (.guid value) scope none expected n (.constant (.guid value)) n
  | dateTime {value : DateTime} {scope : List Param} {expected : Option Ty} {n : Nat} :
    Elaborates s (.dateTime value) scope none expected n (.constant (.dateTime value)) n

theorem Elaborates.le {s : Setting} {q : Query} {scope : List Param} {receiver : Option Expr}
    {expected : Option Ty} {n m : Nat} {e : Expr}
    (h : Elaborates s q scope receiver expected n e m) : n ≤ m := by
  induction h with
  | keyword | param | ownProperty | property | isofThis | castThis | string | number | guid
  | dateTime => exact Nat.le_refl _
  | indexer _ _ _ _ ih => exact ih
  | path _ _ ihl ihr | isIn _ _ _ ihl ihr | operator _ _ _ ihl ihr => exact Nat.le_trans ihl ihr
  | chained _ ih | isof _ _ _ ih | cast _ _ _ _ ih | quoted _ ih => exact ih
  | access _ _ hb ha _ _ _ _ ih => omega
  | callOn _ _ hc | call _ _ hc | array _ hc => exact hc.le
  | lambda _ _ _ ih => omega

end Query
end TypedQuery
