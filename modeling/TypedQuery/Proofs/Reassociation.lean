import Mathlib.Data.List.Forall2
import TypedQuery.Query.Text
/-!
Queries up to the grouping of member accesses.

`a.(b.c)` and `(a.b).c` are written alike. Grouping all member accesses from the left gives
every query a form that it shares with all those it differs from in nothing else.
-/
namespace TypedQuery
namespace Query

/-- Two queries are the same but for the grouping of member accesses in them. -/
inductive Reassociated : Query → Query → Prop where
  | refl (q : Query) : Reassociated q q
  | symm {q q' : Query} : Reassociated q q' → Reassociated q' q
  | trans {q q' q'' : Query} : Reassociated q q' → Reassociated q' q'' → Reassociated q q''
  | assoc (a b c : Query) : Reassociated (dot (dot a b) c) (dot a (dot b c))
  | binary (op : Operator) {l l' r r' : Query} :
      Reassociated l l' → Reassociated r r' → Reassociated (.binary op l r) (.binary op l' r')
  | lambda (params : List String) {body body' : Query} :
      Reassociated body body' → Reassociated (.lambda params body) (.lambda params body')
  | call (name : String) (front back : List Query) {q q' : Query} : Reassociated q q' →
      Reassociated (.call name (front ++ q :: back)) (.call name (front ++ q' :: back))
  | indexer (name : String) (front back : List Query) {q q' : Query} : Reassociated q q' →
      Reassociated (.indexer name (front ++ q :: back)) (.indexer name (front ++ q' :: back))
  | array (front back : List Query) {q q' : Query} : Reassociated q q' →
      Reassociated (.array (front ++ q :: back)) (.array (front ++ q' :: back))

/-! ## Grouping from the left -/

/-- Member access on `l`, whose own member accesses come first. -/
def attach (l : Query) : Query → Query
  | .binary .dot a b => dot (attach l a) b
  | r => dot l r

/-- Two operands joined by an operator, grouped from the left. -/
def joined (op : Operator) (l r : Query) : Query :=
  if op = .dot then attach l r else .binary op l r

mutual
/-- The query with all member accesses grouped from the left. -/
def leftDots : Query → Query
  | .binary op l r => joined op l.leftDots r.leftDots
  | .call name args => .call name (leftDotsEach args)
  | .indexer name args => .indexer name (leftDotsEach args)
  | .lambda params body => .lambda params body.leftDots
  | .array items => .array (leftDotsEach items)
  | .symbol name => .symbol name
  | .string value => .string value
  | .number text => .number text
  | .guid value => .guid value
  | .dateTime value => .dateTime value

def leftDotsEach : List Query → List Query
  | [] => []
  | q :: qs => q.leftDots :: leftDotsEach qs
end

theorem attach_assoc (a b : Query) : ∀ c, attach a (attach b c) = attach (attach a b) c
  | .binary .dot c d => by
    rw [attach, dot, attach, attach_assoc a b c, attach]
  | .binary .isIn _ _ | .binary (.value _) _ _ | .call .. | .indexer .. | .symbol _ | .lambda ..
  | .string _ | .number _ | .guid _ | .dateTime _ | .array _ => rfl

theorem joined_dot (a b c : Query) :
    joined .dot a (joined .dot b c) = joined .dot (joined .dot a b) c :=
  attach_assoc a b c

theorem reassociated_attach (l : Query) : ∀ r, (dot l r).Reassociated (attach l r)
  | .binary .dot a b =>
    .trans (.symm (.assoc l a b)) (.binary .dot (reassociated_attach l a) (.refl b))
  | .binary .isIn _ _ | .binary (.value _) _ _ | .call .. | .indexer .. | .symbol _ | .lambda ..
  | .string _ | .number _ | .guid _ | .dateTime _ | .array _ => .refl _

theorem reassociated_joined (op : Operator) (l r : Query) :
    (Query.binary op l r).Reassociated (joined op l r) := by
  unfold joined
  split
  · next h => exact h ▸ reassociated_attach l r
  · exact .refl _

/-- What may be replaced in one place may be replaced in all places of a list. -/
theorem Reassociated.ofEach {f : List Query → Query}
    (hone : ∀ front back {q q'}, Reassociated q q' →
      Reassociated (f (front ++ q :: back)) (f (front ++ q' :: back)))
    {qs qs' : List Query} (h : List.Forall₂ Reassociated qs qs') (front : List Query) :
    Reassociated (f (front ++ qs)) (f (front ++ qs')) := by
  induction h generalizing front with
  | nil => exact .refl _
  | @cons q q' qs qs' hq _ ih =>
    have hrest := ih (front ++ [q'])
    rw [List.append_assoc, List.append_assoc] at hrest
    exact .trans (hone front qs hq) hrest

mutual
theorem reassociated_leftDots : ∀ q : Query, q.Reassociated q.leftDots
  | .binary op l r =>
    .trans (.binary op (reassociated_leftDots l) (reassociated_leftDots r))
      (reassociated_joined op l.leftDots r.leftDots)
  | .call name args =>
    Reassociated.ofEach (.call name) (reassociated_leftDotsEach args) []
  | .indexer name args =>
    Reassociated.ofEach (.indexer name) (reassociated_leftDotsEach args) []
  | .lambda params body => .lambda params (reassociated_leftDots body)
  | .array items => Reassociated.ofEach .array (reassociated_leftDotsEach items) []
  | .symbol _ | .string _ | .number _ | .guid _ | .dateTime _ => .refl _

theorem reassociated_leftDotsEach : ∀ qs, List.Forall₂ Reassociated qs (leftDotsEach qs)
  | [] => .nil
  | q :: qs => .cons (reassociated_leftDots q) (reassociated_leftDotsEach qs)
end

theorem leftDotsEach_eq_map (qs : List Query) : leftDotsEach qs = qs.map leftDots := by
  induction qs with
  | nil => rfl
  | cons q qs ih => rw [leftDotsEach, ih, List.map_cons]

/-- Queries differ in the grouping of member accesses only if grouping these from the left makes
them the same. -/
theorem reassociated_iff {q q' : Query} : q.Reassociated q' ↔ q.leftDots = q'.leftDots := by
  constructor
  · intro h
    induction h with
    | refl => rfl
    | symm _ ih => exact ih.symm
    | trans _ _ ih ih' => exact ih.trans ih'
    | assoc a b c => exact (joined_dot _ _ _).symm
    | binary op _ _ ihl ihr => rw [leftDots, leftDots, ihl, ihr]
    | lambda params _ ih => rw [leftDots, leftDots, ih]
    | call name front back _ ih | indexer name front back _ ih | array front back _ ih =>
      simp only [leftDots, leftDotsEach_eq_map, List.map_append, List.map_cons, ih]
  · intro h
    exact .trans (reassociated_leftDots q) (h ▸ .symm (reassociated_leftDots q'))

/-! ## The text does not show the grouping -/

theorem needsParens_dot (q : Query) : needsParens .dot .right q = needsParens .dot .left q := by
  cases q <;> rfl

theorem text_dot_assoc (a b c : Query) : (dot (dot a b) c).text = (dot a (dot b c)).text := by
  have hl : needsParens .dot .left (dot a b) = false := rfl
  have hr : needsParens .dot .right (dot b c) = false := rfl
  rw [dot, text, hl, dot, text, dot, text, hr, dot, text, needsParens_dot b]
  simp only [enclosed, Bool.false_eq_true, if_false, String.append_assoc]

/-- Queries that differ in the grouping of member accesses only have the same text, also as
operands. -/
theorem Reassociated.text_eq {q q' : Query} (h : q.Reassociated q') :
    q.text = q'.text ∧
      ∀ op side, needsParens op side q = needsParens op side q' := by
  induction h with
  | refl => exact ⟨rfl, fun _ _ => rfl⟩
  | symm _ ih => exact ⟨ih.1.symm, fun op side => (ih.2 op side).symm⟩
  | trans _ _ ih ih' =>
    exact ⟨ih.1.trans ih'.1, fun op side => (ih.2 op side).trans (ih'.2 op side)⟩
  | assoc a b c => exact ⟨text_dot_assoc a b c, fun _ _ => rfl⟩
  | binary op _ _ ihl ihr =>
    refine ⟨?_, fun _ _ => rfl⟩
    rw [text, text, ihl.1, ihr.1, ihl.2, ihr.2]
  | lambda params _ ih =>
    refine ⟨?_, fun _ _ => rfl⟩
    rw [text, text, ih.1]
  | call name front back _ ih | indexer name front back _ ih | array front back _ ih =>
    refine ⟨?_, fun _ _ => rfl⟩
    simp only [text, texts_eq_map, List.map_append, List.map_cons, ih.1]

end Query
end TypedQuery
