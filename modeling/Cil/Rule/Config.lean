/-!
# Matching configurations

How far a rule looks beyond its target. The target itself and the accessors of its property always
match.
-/

namespace Cil

/-- The equivalences that a rule admits. -/
structure MatchConfig where
  /-- Members of base types with the target's name and shape match, and so do members of derived
  types that hide the target. -/
  base : Bool
  /-- The target as obtained through its declaring type matches. -/
  declaring : Bool
  /-- How many base types are looked at. -/
  depth : Nat
  deriving DecidableEq

namespace MatchConfig

/-- The depth of the ready-made configurations. -/
def defaultDepth : Nat := 64

def exact : MatchConfig := ⟨false, false, defaultDepth⟩

def baseMembers : MatchConfig := { exact with base := true }

def declaringType : MatchConfig := { exact with declaring := true }

def comprehensive : MatchConfig := ⟨true, true, defaultDepth⟩

end MatchConfig

end Cil
