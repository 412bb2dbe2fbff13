import Mathlib.Data.List.Nodup
import TypedQuery.Proofs.ElaborationSound
import TypedQuery.Proofs.Operands
import TypedQuery.Proofs.Relabelling
import TypedQuery.Registry.Standard
/-!
Lambdas and their parameters.

Names are lost in a graph, where parameters are told apart by number. Two facts make that safe:
no number is bound twice, however often an argument was compiled on the way, and every use of
a parameter is the one that its name means where it stands. The second one outlives the step
from numbers to words of 32 bits. The first one does not: behind the last word comes one that may
be in use.
-/
namespace TypedQuery

/-- Parameters with numbers of their own, from `n` up to `m`. -/
def Fresh (n m : Nat) (ps : List Param) : Prop :=
  (ps.map Param.id).Nodup ∧ ∀ p ∈ ps, n ≤ p.id ∧ p.id < m

namespace Fresh

variable {n k m : Nat} {ps qs : List Param}

theorem nil : Fresh n m [] := ⟨List.nodup_nil, by simp⟩

theorem mono (h : Fresh n m ps) {n' m' : Nat} (hn : n' ≤ n) (hm : m ≤ m') : Fresh n' m' ps :=
  ⟨h.1, fun p hp => ⟨Nat.le_trans hn (h.2 p hp).1, Nat.lt_of_lt_of_le (h.2 p hp).2 hm⟩⟩

/-- What is numbered later has other numbers. -/
theorem append (hps : Fresh n k ps) (hqs : Fresh k m qs) (hn : n ≤ k) (hm : k ≤ m) :
    Fresh n m (ps ++ qs) := by
  refine ⟨?_, fun p hp => ?_⟩
  · rw [List.map_append, List.nodup_append]
    refine ⟨hps.1, hqs.1, fun a ha b hb => ?_⟩
    obtain ⟨p, hp, rfl⟩ := List.mem_map.mp ha
    obtain ⟨q, hq, rfl⟩ := List.mem_map.mp hb
    have := (hps.2 p hp).2
    have := (hqs.2 q hq).1
    omega
  · rcases List.mem_append.mp hp with hp | hp
    · exact (hps.mono (Nat.le_refl n) hm).2 p hp
    · exact (hqs.mono hn (Nat.le_refl m)).2 p hp

theorem swap (h : Fresh n m (ps ++ qs)) : Fresh n m (qs ++ ps) := by
  refine ⟨?_, fun p hp => h.2 p ?_⟩
  · exact (List.perm_append_comm.map Param.id).nodup_iff.mp h.1
  · exact List.mem_append.mpr (List.mem_append.mp hp).symm

theorem paramsFrom (next : Nat) (names : List String) (types : List Ty) :
    Fresh next (next + names.length) (Setting.paramsFrom next names types) := by
  induction names generalizing next types with
  | nil => exact nil
  | cons name names ih =>
    cases types with
    | nil => exact nil
    | cons t types =>
      have hhead : Fresh next (next + 1) [{ id := next, name := name, type := t }] :=
        ⟨by simp, by simp⟩
      have htail := ih (next + 1) types
      rw [Nat.add_right_comm, Nat.add_assoc] at htail
      exact hhead.append htail (by omega) (by simp)

end Fresh

/-! ## Parameters in a graph -/

namespace Expr

mutual
/-- The parameters bound by lambdas. -/
def binders : Expr → List Param
  | .constant _ | .parameter _ => []
  | .property e _ _ | .memberAccess e _ | .convert e _ _ | .typeIs e _ | .quote e => e.binders
  | .call _ es | .newArray _ es => bindersOf es
  | .callOn e _ es => e.binders ++ bindersOf es
  | .binary _ l r _ => l.binders ++ r.binders
  | .lambda ps e => ps ++ e.binders

def bindersOf : List Expr → List Param
  | [] => []
  | e :: es => e.binders ++ bindersOf es
end

mutual
/-- A law of every use of a parameter and of the lambdas around it, the innermost first. -/
def EachParam (law : List (List Param) → Param → Prop) (around : List (List Param)) :
    Expr → Prop
  | .constant _ => True
  | .parameter p => law around p
  | .property e _ _ | .memberAccess e _ | .convert e _ _ | .typeIs e _ | .quote e =>
    e.EachParam law around
  | .call _ es | .newArray _ es => EachParamOf law around es
  | .callOn e _ es => e.EachParam law around ∧ EachParamOf law around es
  | .binary _ l r _ => l.EachParam law around ∧ r.EachParam law around
  | .lambda ps e => e.EachParam law (ps :: around)

def EachParamOf (law : List (List Param) → Param → Prop) (around : List (List Param)) :
    List Expr → Prop
  | [] => True
  | e :: es => e.EachParam law around ∧ EachParamOf law around es
end

/-- The parameter that a name means: the first of that name in the innermost lambda that has
one. -/
def resolve? (around : List (List Param)) (name : String) : Option Param :=
  around.findSome? fun ps => ps.find? fun p => p.name == name

/-- Every use of a parameter is `this`, or what its name means there. -/
def Scoped (this : Param) (around : List (List Param)) (e : Expr) : Prop :=
  e.EachParam (fun around p => p = this ∨ resolve? around p.name = some p) around

variable {law : List (List Param) → Param → Prop} {around : List (List Param)} {e : Expr}

mutual
/-- What is known of every use of a parameter may depend on the lambdas around the graph, as
long as it does so in the same way under all lambdas of the graph. -/
theorem EachParam.reroot {law' : List (List Param) → Param → Prop}
    {outer outer' : List (List Param)}
    (h : ∀ inner p, law (inner ++ outer) p → law' (inner ++ outer') p) :
    ∀ (e : Expr) {inner : List (List Param)}, e.EachParam law (inner ++ outer) →
      e.EachParam law' (inner ++ outer')
  | .constant _, _, _ => trivial
  | .parameter p, inner, he => h inner p he
  | .property e _ _, _, he | .memberAccess e _, _, he | .convert e _ _, _, he
  | .typeIs e _, _, he | .quote e, _, he => EachParam.reroot h e he
  | .call _ es, _, he | .newArray _ es, _, he => EachParamOf.reroot h es he
  | .callOn e _ es, _, he => ⟨EachParam.reroot h e he.1, EachParamOf.reroot h es he.2⟩
  | .binary _ l r _, _, he => ⟨EachParam.reroot h l he.1, EachParam.reroot h r he.2⟩
  | .lambda ps e, inner, he => @EachParam.reroot _ _ _ h e (ps :: inner) he

theorem EachParamOf.reroot {law' : List (List Param) → Param → Prop}
    {outer outer' : List (List Param)}
    (h : ∀ inner p, law (inner ++ outer) p → law' (inner ++ outer') p) :
    ∀ (es : List Expr) {inner : List (List Param)}, EachParamOf law (inner ++ outer) es →
      EachParamOf law' (inner ++ outer') es
  | [], _, _ => trivial
  | e :: es, _, he => ⟨EachParam.reroot h e he.1, EachParamOf.reroot h es he.2⟩
end

/-! ## Other numbers -/

section Renumbering

variable (f : Nat → Nat)

mutual
theorem binders_renumber : ∀ e : Expr, (e.renumber f).binders = e.binders.map (Param.renumber f)
  | .constant _ | .parameter _ => rfl
  | .property e _ _ | .memberAccess e _ | .convert e _ _ | .typeIs e _ | .quote e =>
    binders_renumber e
  | .call _ es | .newArray _ es => bindersOf_renumber es
  | .callOn e _ es => by
    rw [renumber, binders, binders, binders_renumber e, bindersOf_renumber es, List.map_append]
  | .binary _ l r _ => by
    rw [renumber, binders, binders, binders_renumber l, binders_renumber r, List.map_append]
  | .lambda ps e => by
    rw [renumber, binders, binders, binders_renumber e, List.map_append]

theorem bindersOf_renumber : ∀ es : List Expr,
    bindersOf (renumberEach f es) = (bindersOf es).map (Param.renumber f)
  | [] => rfl
  | e :: es => by
    rw [renumberEach, bindersOf, bindersOf, binders_renumber e, bindersOf_renumber es,
      List.map_append]
end

mutual
theorem EachParam.renumber {law' : List (List Param) → Param → Prop}
    (h : ∀ around p, law around p →
      law' (around.map (List.map (Param.renumber f))) (p.renumber f)) :
    ∀ (e : Expr) {around : List (List Param)}, e.EachParam law around →
      (e.renumber f).EachParam law' (around.map (List.map (Param.renumber f)))
  | .constant _, _, _ => trivial
  | .parameter p, around, he => h around p he
  | .property e _ _, _, he | .memberAccess e _, _, he | .convert e _ _, _, he
  | .typeIs e _, _, he | .quote e, _, he => EachParam.renumber h e he
  | .call _ es, _, he | .newArray _ es, _, he => EachParamOf.renumber h es he
  | .callOn e _ es, _, he => ⟨EachParam.renumber h e he.1, EachParamOf.renumber h es he.2⟩
  | .binary _ l r _, _, he => ⟨EachParam.renumber h l he.1, EachParam.renumber h r he.2⟩
  | .lambda _ e, _, he => EachParam.renumber h e he

theorem EachParamOf.renumber {law' : List (List Param) → Param → Prop}
    (h : ∀ around p, law around p →
      law' (around.map (List.map (Param.renumber f))) (p.renumber f)) :
    ∀ (es : List Expr) {around : List (List Param)}, EachParamOf law around es →
      EachParamOf law' (around.map (List.map (Param.renumber f))) (renumberEach f es)
  | [], _, _ => trivial
  | e :: es, _, he => ⟨EachParam.renumber h e he.1, EachParamOf.renumber h es he.2⟩
end

theorem resolve?_renumber (around : List (List Param)) (name : String) :
    resolve? (around.map (List.map (Param.renumber f))) name =
      (resolve? around name).map (Param.renumber f) := by
  rw [resolve?, resolve?, List.findSome?_map, List.map_findSome?]
  exact congrArg (fun find => around.findSome? find) (funext fun ps => List.find?_map)

/-- Names mean what they did, with its other number. -/
theorem Scoped.renumber {this : Param} {around : List (List Param)} {e : Expr}
    (h : e.Scoped this around) :
    (e.renumber f).Scoped (this.renumber f) (around.map (List.map (Param.renumber f))) := by
  refine EachParam.renumber f (fun around p hp => ?_) e h
  rcases hp with rfl | hp
  · exact .inl rfl
  · refine .inr ?_
    change resolve? _ p.name = _
    rw [resolve?_renumber, hp, Option.map_some]

end Renumbering

theorem bindersOf_eq_flatMap (es : List Expr) : bindersOf es = es.flatMap binders := by
  induction es with
  | nil => rfl
  | cons e es ih => rw [bindersOf, ih, List.flatMap_cons]

/-! ## Operators and arrays -/

theorem Dressed.binders_eq {e e' : Expr} (h : Dressed e e') : e'.binders = e.binders := by
  induction h with
  | self | constant => rfl
  | convert _ ih => rw [binders, ih]

theorem binders_arrayOf {expected : Option Ty} {items : List Expr}
    (h : arrayOf expected items = .ok e) : e.binders = bindersOf items := by
  obtain ⟨_, _, _, rfl | ⟨values, rfl, rfl⟩⟩ := arrayOf_eq_ok h
  · rfl
  · rw [bindersOf_eq_flatMap, binders, eq_comm, List.flatMap_eq_nil_iff]
    exact List.forall_mem_map.mpr fun v _ => rfl

end Expr

/-! ## Numbers are bound once -/

theorem Consecutive.fresh {n m : Nat} {us : List Part} (hc : Consecutive n us m)
    (h : ∀ v ∈ us, Fresh v.before v.after v.graph.binders) :
    Fresh n m (Expr.bindersOf (us.map Part.graph)) := by
  induction us generalizing n with
  | nil => exact .nil
  | cons u us ih =>
    obtain ⟨hb, hu, hus⟩ := hc
    have hhead := (h u List.mem_cons_self).mono hb (Nat.le_refl _)
    have htail := ih hus fun v hv => h v (List.mem_cons_of_mem _ hv)
    exact hhead.append htail (Nat.le_trans hb hu) hus.le

namespace Query

variable {s : Setting} {q : Query} {scope : List Param} {receiver : Option Expr}
  {expected : Option Ty} {n m : Nat} {e : Expr}

theorem binders_of_keyword {name : String} (h : s.keyword? name = some e) : e.binders = [] := by
  cases Setting.keyword?_eq_some_iff.mp h <;> rfl

theorem binders_of_numberConstant {text : String} (h : numberConstant text expected = .ok e) :
    e.binders = [] := by
  obtain ⟨_, rfl⟩ := constant_of_numberConstant h
  rfl

/-- The lambdas in a graph bind the numbers that were used up on the way, and each of them at
most once. A receiver was compiled before and brings lambdas of its own. -/
theorem Elaborates.fresh (h : Elaborates s q scope receiver expected n e m) :
    ∀ {least : Nat}, least ≤ n → (∀ base ∈ receiver, Fresh least n base.binders) →
      Fresh least m e.binders := by
  induction h with
  | keyword hk =>
    intro least _ _
    rw [binders_of_keyword hk]
    exact .nil
  | param | ownProperty | isofThis | castThis | string | guid | dateTime =>
    exact fun _ _ => .nil
  | @property _ _ base => exact fun _ hreceiver => hreceiver base rfl
  | @indexer _ _ _ receiver _ _ _ _ _ _ _ _ hkey _ ih =>
    intro least hn hreceiver
    have hk := ih (Nat.le_refl _) (by simp)
    rw [Expr.binders, Expr.binders, Expr.bindersOf, Expr.bindersOf, List.append_nil]
    cases receiver with
    | none => exact hk.mono hn (Nat.le_refl _)
    | some base => exact (hreceiver base rfl).append hk hn hkey.le
  | path hl _ ihl ihr =>
    intro least hn hreceiver
    refine ihr (Nat.le_trans hn hl.le) fun base hbase => ?_
    exact Option.some.inj hbase ▸ ihl hn hreceiver
  | chained _ ih | isof _ _ _ ih | cast _ _ _ _ ih | quoted _ ih =>
    exact fun hn _ => ih hn (by simp)
  | isIn hl hr _ ihl ihr =>
    intro least hn _
    have hvalue := ihl hn (by simp)
    have harray := ihr (Nat.le_refl _) (by simp)
    simpa [Expr.binders, Expr.bindersOf] using
      (hvalue.append harray (Nat.le_trans hn hl.le) hr.le).swap
  | operator hl hr he ihl ihr =>
    intro least hn _
    obtain ⟨l', r', t, rfl, hl', hr'⟩ := Expr.dressed_combine he
    rw [Expr.binders, hl'.binders_eq, hr'.binders_eq]
    have hleft := ihl hn (by simp)
    have hright := ihr (Nat.le_refl _) (by simp)
    exact hleft.append hright (Nat.le_trans hn hl.le) hr.le
  | access _ _ hb ha _ hu _ _ ih =>
    intro least hn _
    exact (ih (Nat.le_refl _) (by simp)).mono (Nat.le_trans hn hb) ha
  | callOn _ _ hc _ _ _ _ _ _ _ _ ihu ihus =>
    intro least hn _
    have hparts := hc.fresh (List.forall_mem_cons.mpr
      ⟨ihu (Nat.le_refl _) (by simp), fun v hv => ihus v hv (Nat.le_refl _) (by simp)⟩)
    exact hparts.mono hn (Nat.le_refl _)
  | call _ _ hc _ _ _ _ _ ih =>
    intro least hn _
    exact (hc.fresh fun v hv => ih v hv (Nat.le_refl _) (by simp)).mono hn (Nat.le_refl _)
  | @lambda names _ _ types _ n _ _ _ _ hbody ih =>
    intro least hn _
    have hparams := Fresh.paramsFrom n names types
    exact (hparams.append (ih (Nat.le_refl _) (by simp)) (by omega) hbody.le).mono hn
      (Nat.le_refl _)
  | array _ hc _ he ih =>
    intro least hn _
    rw [Expr.binders_arrayOf he]
    exact (hc.fresh fun v hv => ih v hv (Nat.le_refl _) (by simp)).mono hn (Nat.le_refl _)
  | number he =>
    intro least _ _
    rw [binders_of_numberConstant he]
    exact .nil

/-! ## Names mean the innermost parameter -/

section Words

variable {given : List Param} {p : Param} {n k : Nat}

theorem word_of_lt (h : n < 4294967296) : word n = n := Nat.mod_eq_of_lt h

end Words

/-! ## Whole graphs -/

section Graphs

variable {registry : Registry} {model : Model} {this : Param} {params outer : List Param}
  {graph : Expr}

/-- What is bound next to a receiver is numbered from 1 on, like the words. -/
theorem idOf_receiverParam (t : Ty) : idOf [receiverParam t, receiverParam t] = word := by
  funext n
  change (if n < 1 then n else word (1 + (n - 1))) = word n
  split
  · rw [word_of_lt (by omega)]
  · rw [Nat.add_sub_cancel' (by omega)]

/-- A predicate is what the query compiles to over its receiver, but for the ids behind the last
word. -/
theorem compile_receiverParam (registry : Registry) (model : Model) (q : Query) (t : Ty) :
    q.compile registry model (receiverParam t) [receiverParam t] [] =
      (q.compilePredicate registry model t).map (Expr.renumber word) := by
  rw [compile, compilePredicate, List.append_nil, idOf_receiverParam]
  change bodyFrom 1 registry model q _ _ _ >>= _ = (bodyFrom 1 registry model q _ _ _ >>= _).map _
  cases bodyFrom 1 registry model q (receiverParam t) [receiverParam t] [] <;> rfl

end Graphs

end Query
end TypedQuery
