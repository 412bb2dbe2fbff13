import TypedQuery.Registry.Basic
/-!
A registry that finds its functions by position.

Beside the list of functions there are two tables. One holds, under each name, the positions of
the functions with that name in the order they were registered, the other, under the identity of
each member, the position of the last function that was registered for it. A look-up goes through
a table to the list, so a registration has to keep all three in step.
-/
namespace TypedQuery

/-- Values under keys. -/
abbrev Table (α : Type) := List (String × α)

namespace Table

variable {α : Type}

/-- The table with the value under a key made from the one that was there before, if any. -/
def alter (key : String) (change : Option α → α) : Table α → Table α
  | [] => [(key, change none)]
  | (k, v) :: rest =>
    if k = key then (k, change (some v)) :: rest else (k, v) :: alter key change rest

theorem lookup_cons (k n : String) (v : α) (rest : Table α) :
    List.lookup k ((n, v) :: rest) = if k = n then some v else List.lookup k rest := by
  by_cases hk : k = n
  · subst hk
    simp
  · have hne : (k == n) = false := beq_eq_false_iff_ne.mpr hk
    rw [List.lookup_cons, hne, if_neg hk]

theorem lookup_alter (key : String) (change : Option α → α) (table : Table α) (k : String) :
    (alter key change table).lookup k =
      if k = key then some (change (table.lookup key)) else table.lookup k := by
  induction table with
  | nil => rw [alter, lookup_cons]; rfl
  | cons entry rest ih =>
    obtain ⟨n, v⟩ := entry
    by_cases hn : n = key
    · subst hn
      rw [alter, if_pos rfl, lookup_cons, lookup_cons, lookup_cons, if_pos rfl]
      by_cases hk : k = n
      · rw [if_pos hk, if_pos hk]
      · rw [if_neg hk, if_neg hk, if_neg hk]
    · have hn' : ¬key = n := fun h => hn h.symm
      rw [alter, if_neg hn, lookup_cons, lookup_cons, lookup_cons, if_neg hn', ih]
      by_cases hk : k = n
      · rw [if_pos hk, if_pos hk, if_neg (hk ▸ hn)]
      · rw [if_neg hk, if_neg hk]

end Table

structure IndexedRegistry where
  mappings : List Mapping
  /-- Names, each with positions in `mappings` in the order of registration. -/
  byName : Table (List Nat)
  /-- Identities of members, each with one position in `mappings`. -/
  byMember : Table Nat

namespace IndexedRegistry

def empty : IndexedRegistry := { mappings := [], byName := [], byMember := [] }

def size (r : IndexedRegistry) : Nat := r.mappings.length

/-- A registration goes to the end, behind those that are there. -/
def add (r : IndexedRegistry) (m : Mapping) : IndexedRegistry :=
  let position := r.size
  { byName := Table.alter m.name (fun positions => positions.getD [] ++ [position]) r.byName
    byMember := Table.alter m.member.id (fun _ => position) r.byMember
    mappings := r.mappings ++ [m] }

/-- Add a function for `member`. -/
def register (r : IndexedRegistry) (member : Member) (format : String) (style : CallStyle) :
    Except MappingError IndexedRegistry :=
  (Mapping.parse member format style).map r.add

/-- The functions of a plain registry, entered one after the other. -/
def ofRegistry (r : Registry) : IndexedRegistry := r.mappings.foldl add empty

/-- The positions of the functions with a name. -/
def positions (r : IndexedRegistry) (name : String) : List Nat := (r.byName.lookup name).getD []

/-- The functions a call may mean, in the order they are tried. -/
def candidates (r : IndexedRegistry) (name : String) (arity : Nat) : List Mapping :=
  ((r.positions name).filterMap fun i => r.mappings[i]?).filter fun m => m.arity == arity

/-- The function that a member is written as, whatever its type arguments are. -/
def functionOf? (r : IndexedRegistry) (member : Member) : Option Mapping :=
  (r.byMember.lookup member.id).bind fun i => r.mappings[i]?

end IndexedRegistry
end TypedQuery
