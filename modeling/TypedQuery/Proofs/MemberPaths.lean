import TypedQuery.Proofs.ElaborationSound
/-!
Paths of members may be bracketed in any way.

`a.(b.c)` and `(a.b).c` compile alike if neither `b` nor `c` is a call: what stands before a member
is its receiver, and a receiver is handed down to the first operand of a path behind a dot. Step by
step any bracketing is turned into the one from the left in this way. The first operand of all is
not restricted, since nothing is handed to it.
-/
namespace TypedQuery
namespace Query

/-- Queries that name a member of what stands before them. -/
def isMember : Query → Bool
  | .symbol _ | .indexer .. => true
  | _ => false

/-- Operands that are joined by dots, in some order of joining them. -/
inductive Path where
  | operand (q : Query)
  | dot (left right : Path)

namespace Path

/-- The operands from left to right. -/
def operands : Path → List Query
  | .operand q => [q]
  | .dot left right => left.operands ++ right.operands

def toQuery : Path → Query
  | .operand q => q
  | .dot left right => .dot left.toQuery right.toQuery

theorem operands_ne_nil (p : Path) : p.operands ≠ [] := by
  induction p with
  | operand q => exact List.cons_ne_nil q []
  | dot left right ihl ihr => exact List.append_ne_nil_of_left_ne_nil ihl _

end Path

/-! ## What a dot is followed by -/

/-- Only a call takes what stands before a dot as an argument. -/
def NotCall (q : Query) : Prop := ∀ name args, q ≠ .call name args

theorem notCall_of_isMember {q : Query} (h : q.isMember = true) : q.NotCall := by
  rintro name args rfl
  cases h

theorem notCall_dot (left right : Query) : (dot left right).NotCall := by
  intro name args h
  cases h

theorem notCall_foldl_dot {first : Query} (h : first.NotCall) (members : List Query) :
    (members.foldl dot first).NotCall := by
  induction members generalizing first with
  | nil => exact h
  | cons q members ih => exact ih (notCall_dot first q)

theorem Path.notCall_toQuery {p : Path} (h : ∀ q ∈ p.operands, q.isMember = true) :
    p.toQuery.NotCall := by
  cases p with
  | operand q => exact notCall_of_isMember (h q List.mem_cons_self)
  | dot left right => exact notCall_dot _ _

/-! ## Changing the brackets -/

section Brackets

variable {s : Setting} {a b c first first' : Query} {members : List Query}

theorem meaning_dot (hb : b.NotCall) :
    (dot a b).meaning s = fun scope receiver _ =>
      a.meaning s scope receiver none >>= fun base => b.meaning s scope (some base) none :=
  meaning_path hb

/-- Two member accesses in a row mean the same with either of them done first. -/
theorem meaning_dot_assoc (hb : b.NotCall) (hc : c.NotCall) :
    (dot a (dot b c)).meaning s = (dot (dot a b) c).meaning s := by
  rw [meaning_dot (notCall_dot b c), meaning_dot hc, meaning_dot hc, meaning_dot hb]
  funext scope receiver expected
  exact (bind_assoc _ _ _).symm

theorem meaning_dot_congr {a' b' : Query} (ha : a.meaning s = a'.meaning s)
    (hb : b.meaning s = b'.meaning s) (hne : b.NotCall) (hne' : b'.NotCall) :
    (dot a b).meaning s = (dot a' b').meaning s := by
  rw [meaning_dot hne, meaning_dot hne', ha, hb]

theorem meaning_foldl_congr (h : first.meaning s = first'.meaning s)
    (hmembers : ∀ q ∈ members, q.isMember = true) :
    (members.foldl dot first).meaning s = (members.foldl dot first').meaning s := by
  induction members generalizing first first' with
  | nil => exact h
  | cons q members ih =>
    obtain ⟨hq, hmembers⟩ := List.forall_mem_cons.mp hmembers
    have hne : q.NotCall := notCall_of_isMember hq
    exact ih (meaning_dot_congr h rfl hne hne) hmembers

/-- A path behind a dot can be joined member by member to what stands before it. -/
theorem meaning_dot_foldl (hb : b.NotCall) (hmembers : ∀ q ∈ members, q.isMember = true) :
    (dot a (members.foldl dot b)).meaning s = (members.foldl dot (dot a b)).meaning s := by
  induction members generalizing b with
  | nil => rfl
  | cons q members ih =>
    obtain ⟨hq, hrest⟩ := List.forall_mem_cons.mp hmembers
    calc (dot a (members.foldl dot (dot b q))).meaning s
        = (members.foldl dot (dot a (dot b q))).meaning s := ih (notCall_dot b q) hrest
      _ = (members.foldl dot (dot (dot a b) q)).meaning s :=
          meaning_foldl_congr (meaning_dot_assoc hb (notCall_of_isMember hq)) hrest

/-- Every bracketing of a path means what the one from the left means. -/
theorem meaning_toQuery {p : Path} (hp : p.operands = first :: members)
    (hmembers : ∀ q ∈ members, q.isMember = true) :
    p.toQuery.meaning s = (members.foldl dot first).meaning s := by
  induction p generalizing first members with
  | operand q =>
    obtain ⟨rfl, rfl⟩ := List.cons_eq_cons.mp hp
    rfl
  | dot left right ihl ihr =>
    obtain ⟨first', front, hleft⟩ := List.exists_cons_of_ne_nil left.operands_ne_nil
    obtain ⟨q, back, hright⟩ := List.exists_cons_of_ne_nil right.operands_ne_nil
    rw [Path.operands, hleft, hright, List.cons_append] at hp
    obtain ⟨rfl, rfl⟩ := List.cons_eq_cons.mp hp
    have hfront : ∀ q ∈ front, q.isMember = true :=
      fun q hq => hmembers q (List.mem_append_left _ hq)
    have hbehind : ∀ q ∈ right.operands, q.isMember = true :=
      fun q hq => hmembers q (List.mem_append_right _ (hright ▸ hq))
    obtain ⟨hq, hback⟩ := List.forall_mem_cons.mp (hright ▸ hbehind)
    have hne : q.NotCall := notCall_of_isMember hq
    -- Both parts are bracketed from the left first; then the right one is joined member by member.
    calc (dot left.toQuery right.toQuery).meaning s
        = (dot (front.foldl dot first') (back.foldl dot q)).meaning s :=
          meaning_dot_congr (ihl hleft hfront) (ihr hright hback) (Path.notCall_toQuery hbehind)
            (notCall_foldl_dot hne back)
      _ = (back.foldl dot (dot (front.foldl dot first') q)).meaning s :=
          meaning_dot_foldl hne hback
      _ = ((front ++ q :: back).foldl dot first').meaning s := by
          rw [List.foldl_append, List.foldl_cons]

end Brackets

/-! ## Outcomes -/

/-- However members behind a first operand are bracketed, the path compiles as it does bracketed
from the left: to the same graph, with the same numbers, or to the same error. That is so at every
place in a query and for whole queries. -/
theorem compile_path {p : Path} {first : Query} {members : List Query}
    (hp : p.operands = first :: members) (hmembers : ∀ q ∈ members, q.isMember = true) :
    (∀ s : Setting, p.toQuery.meaning s = (members.foldl dot first).meaning s) ∧
      ∀ (registry : Registry) (model : Model) (this : Param) (params outer : List Param),
        p.toQuery.compile registry model this params outer =
          (members.foldl dot first).compile registry model this params outer := by
  have hmeaning : ∀ s : Setting, p.toQuery.meaning s = (members.foldl dot first).meaning s :=
    fun s => meaning_toQuery hp hmembers
  refine ⟨hmeaning, fun registry model this params outer => ?_⟩
  simp only [compile, bodyFrom, hmeaning]

/-- A call before the path, and a lookup at its end: `cast('Dog').(Owner.Phones['home'])`. -/
theorem compile_path_lookup :
    ∃ (p : Path) (model : Model) (e : Expr),
      p.operands = .call "cast" [.symbol "Dog"] ::
        [.symbol "Owner", .indexer "Phones" [.string "home"]] ∧
      (∀ q ∈ [Query.symbol "Owner", .indexer "Phones" [.string "home"]], q.isMember = true) ∧
      p.toQuery = dot (.call "cast" [.symbol "Dog"])
        (dot (.symbol "Owner") (.indexer "Phones" [.string "home"])) ∧
      p.toQuery.compile .empty model (receiverParam (.entity "Dog")) [] [] = .ok e ∧
      (dot (dot (.call "cast" [.symbol "Dog"]) (.symbol "Owner"))
        (.indexer "Phones" [.string "home"])).compile .empty model
          (receiverParam (.entity "Dog")) [] [] = .ok e := by
  let model : Model := ⟨[], [⟨"Dog", none, [("Owner", .entity "Person")]⟩,
    ⟨"Person", none, [("Phones", .dictionary .string .string)]⟩]⟩
  let p : Path := .dot (.operand (.call "cast" [.symbol "Dog"]))
    (.dot (.operand (.symbol "Owner")) (.operand (.indexer "Phones" [.string "home"])))
  have hp : p.operands = .call "cast" [.symbol "Dog"] ::
      [.symbol "Owner", .indexer "Phones" [.string "home"]] := rfl
  have hmembers : ∀ q ∈ [Query.symbol "Owner", .indexer "Phones" [.string "home"]],
      q.isMember = true := by
    simp [isMember]
  obtain ⟨e, he⟩ : ∃ e, p.toQuery.compile .empty model (receiverParam (.entity "Dog")) [] [] =
      .ok e := ⟨_, rfl⟩
  have hleft := (compile_path hp hmembers).2 .empty model (receiverParam (.entity "Dog")) [] []
  exact ⟨p, model, e, hp, hmembers, rfl, he, hleft.symm.trans he⟩

end Query
end TypedQuery
