import TypedQuery.Ty.Basic
/-!
Placeholders inside types: which of them occur, and what is put in their places.
-/
namespace TypedQuery
namespace Ty

mutual
/-- Whether some part of the type, the type itself included, satisfies `p`. -/
def anyPart (p : Ty → Bool) : Ty → Bool
  | .array t => p (.array t) || anyPart p t
  | .applied c ts => p (.applied c ts) || anyPartOf p ts
  | .function ps r => p (.function ps r) || anyPartOf p ps || anyPart p r
  | .quoted t => p (.quoted t) || anyPart p t
  | t => p t

def anyPartOf (p : Ty → Bool) : List Ty → Bool
  | [] => false
  | t :: ts => anyPart p t || anyPartOf p ts
end

theorem anyPartOf_eq_any (p : Ty → Bool) (ts : List Ty) : anyPartOf p ts = ts.any (anyPart p) := by
  induction ts with
  | nil => rfl
  | cons t ts ih => rw [anyPartOf, ih, List.any_cons]

/-- A part of a type is the type itself, or part of what it is put together from. -/
theorem anyPart_eq (p : Ty → Bool) (t : Ty) :
    t.anyPart p = (p t || t.children.any (anyPart p)) := by
  cases t <;> simp [anyPart, children, anyPartOf_eq_any, Bool.or_assoc]

def isPlaceholder : Ty → Bool
  | .placeholder _ => true
  | _ => false

def isPlaceholderOf (origin : Origin) : Ty → Bool
  | .placeholder p => p.origin == origin
  | _ => false

/-- Some placeholder occurs. -/
def hasPlaceholder (t : Ty) : Bool := t.anyPart isPlaceholder

/-- Some placeholder of this origin occurs. -/
def hasPlaceholderOf (origin : Origin) (t : Ty) : Bool := t.anyPart (isPlaceholderOf origin)

def hasWildcard (t : Ty) : Bool := t.anyPart (· == .wildcard)

mutual
/-- Put what `lookup` has for the slot of a placeholder in its place; the others stay. -/
def substitute (lookup : Slot → Option Ty) : Ty → Ty
  | .placeholder p => (lookup p.toSlot).getD (.placeholder p)
  | .array t => .array (t.substitute lookup)
  | .applied c ts => .applied c (substituteEach lookup ts)
  | .function ps r => .function (substituteEach lookup ps) (r.substitute lookup)
  | .quoted t => .quoted (t.substitute lookup)
  | t => t

def substituteEach (lookup : Slot → Option Ty) : List Ty → List Ty
  | [] => []
  | t :: ts => t.substitute lookup :: substituteEach lookup ts
end

theorem substituteEach_eq_map (lookup : Slot → Option Ty) (ts : List Ty) :
    substituteEach lookup ts = ts.map (substitute lookup) := by
  induction ts with
  | nil => rfl
  | cons t ts ih => rw [substituteEach, ih, List.map_cons]

mutual
/-- One more than the highest index of a placeholder of this origin; zero if there is none. -/
def slotCount (origin : Origin) : Ty → Nat
  | .placeholder p => if p.origin = origin then p.index + 1 else 0
  | .array t | .quoted t => t.slotCount origin
  | .applied _ ts => slotCounts origin ts
  | .function ps r => max (slotCounts origin ps) (r.slotCount origin)
  | _ => 0

def slotCounts (origin : Origin) : List Ty → Nat
  | [] => 0
  | t :: ts => max (t.slotCount origin) (slotCounts origin ts)
end

mutual
theorem slotCount_le (origin : Origin) : ∀ t : Ty, t.slotCount origin ≤ 256
  | .placeholder p => by
    have := p.index_lt
    rw [slotCount]
    split <;> omega
  | .array t | .quoted t => slotCount_le origin t
  | .applied _ ts => slotCounts_le origin ts
  | .function ps r => Nat.max_le.mpr ⟨slotCounts_le origin ps, slotCount_le origin r⟩
  | .primitive _ | .enum _ | .entity _ | .wildcard => Nat.zero_le _

theorem slotCounts_le (origin : Origin) : ∀ ts : List Ty, slotCounts origin ts ≤ 256
  | [] => Nat.zero_le _
  | t :: ts => Nat.max_le.mpr ⟨slotCount_le origin t, slotCounts_le origin ts⟩
end

end Ty
end TypedQuery
