import Mathlib.Data.List.Nodup
import TypedQuery.Proofs.ArgumentOrder
import TypedQuery.Registry.Standard
/-!
What makes calls of the standard functions readable again.

A member is written as the function registered for it, so no two functions may share a member.
Functions that share a name are tried in turn, so the arguments of one have to be tried for the
others too. For most types it makes no difference that they are expected; only `Double` and
`Decimal` are told apart by suffixes.
-/
namespace TypedQuery

/-- The types that nothing is read differently for when they are expected. -/
def Ty.isQuiet : Ty → Bool
  | .primitive p => !(Ty.primitive p).isNumeric
  | .enum _ | .entity _ | .applied .. => true
  | _ => false

/-- All types of the declaration are quiet. -/
def Mapping.isQuiet (m : Mapping) : Bool :=
  (m.member.template.declaring :: m.member.template.params).all Ty.isQuiet

/-- Two functions that share a name and a number of arguments, the first of which is tried
first. -/
def Mapping.Rivals (m m' : Mapping) : Prop :=
  m.isQuiet = true ∧ m'.isQuiet = true ∨
    m.member.kind = .staticMethod [.double] ∧ m'.member.kind = .staticMethod [.decimal]

instance (m m' : Mapping) : Decidable (m.Rivals m') :=
  inferInstanceAs (Decidable (_ ∨ _))

namespace Registry

/-- The functions are told apart when they are read after they have been written. -/
structure Unambiguous (r : Registry) : Prop where
  nodup : (r.mappings.map fun m => m.member.id).Nodup
  proper : ∀ m ∈ r.mappings, m.member.id ≠ Catalogue.dictionaryGet.id ∧
    m.member.id ≠ Catalogue.enumerableContains.id
  rivals : r.mappings.Pairwise fun m m' => m.name = m'.name → m.arity = m'.arity → m.Rivals m'

variable {r : Registry} {name : String} {arity : Nat}

theorem mem_candidates {mapping : Mapping} :
    mapping ∈ r.candidates name arity ↔
      mapping ∈ r.mappings ∧ mapping.name = name ∧ mapping.arity = arity := by
  simp [candidates]

/-- A member is written as the only function that is registered for it. -/
theorem Unambiguous.functionOf?_eq (h : r.Unambiguous) {mapping : Mapping} {member : Member}
    (hmapping : mapping ∈ r.mappings) (hid : member.id = mapping.member.id) :
    r.functionOf? member = some mapping := by
  unfold functionOf?
  cases hfind : r.mappings.reverse.find? fun m => m.member.id == member.id with
  | none =>
    have := List.find?_eq_none.mp hfind mapping (List.mem_reverse.mpr hmapping)
    simp [hid] at this
  | some found =>
    have hfound : found ∈ r.mappings := List.mem_reverse.mp (List.mem_of_find?_eq_some hfind)
    have heq : found.member.id = member.id := by simpa using List.find?_some hfind
    exact congrArg some (List.inj_on_of_nodup_map h.nodup hfound hmapping (heq.trans hid))

/-- The functions that are tried before another one are its rivals. -/
theorem Unambiguous.rivals_of_candidates (h : r.Unambiguous) {front back : List Mapping}
    {mapping : Mapping} (hc : r.candidates name arity = front ++ mapping :: back) :
    ∀ m ∈ front, m.Rivals mapping := by
  intro m hm
  have hpairs := h.rivals.filter fun m => m.name == name && m.arity == arity
  rw [← candidates, hc] at hpairs
  have hmem : ∀ m ∈ front ++ mapping :: back, m.name = name ∧ m.arity = arity :=
    fun m hm => (mem_candidates.mp (hc ▸ hm)).2
  obtain ⟨hname, harity⟩ := hmem m (List.mem_append_left _ hm)
  obtain ⟨hname', harity'⟩ := hmem mapping (List.mem_append_right _ List.mem_cons_self)
  exact (List.pairwise_append.mp hpairs).2.2 m hm mapping List.mem_cons_self
    (hname.trans hname'.symm) (harity.trans harity'.symm)

theorem unambiguous_standard : standard.Unambiguous where
  nodup := by decide
  proper := by decide
  rivals := by decide

end Registry
end TypedQuery
