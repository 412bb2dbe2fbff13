import TypedQuery.Registry.Mapping
/-!
The functions that queries may call, in the order they were registered.

The order is part of the meaning: functions that share a name and a number of arguments are
tried one after the other, and of those for one member the last is written back.
-/
namespace TypedQuery

structure Registry where
  mappings : List Mapping

namespace Registry

def empty : Registry := { mappings := [] }

def add (r : Registry) (m : Mapping) : Registry := { mappings := r.mappings ++ [m] }

/-- Add a function for `member`. -/
def register (r : Registry) (member : Member) (format : String) (style : CallStyle) :
    Except MappingError Registry :=
  (Mapping.parse member format style).map r.add

/-- The functions a call may mean, in the order they are tried. -/
def candidates (r : Registry) (name : String) (arity : Nat) : List Mapping :=
  r.mappings.filter fun m => m.name == name && m.arity == arity

/-- The function that a member is written as, whatever its type arguments are. -/
def functionOf? (r : Registry) (member : Member) : Option Mapping :=
  r.mappings.reverse.find? fun m => m.member.id == member.id

end Registry
end TypedQuery
