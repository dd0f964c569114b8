import Cil.Member.Identity
import Cil.Resolver.Basic

/-!
# Constrained calls

A constrained call names a type on which the call is dispatched. It lands on a method of that type
or of the nearest base type that has one of the called name, where a name may also end in the
called name after a dot. Among the methods of one type, one of the called shape is preferred.
-/

namespace Cil.Method

def implementsName (m : Method) (name : String) : Bool :=
  ('.' :: name.toList).isSuffixOf m.name.toList

/-- The methods of a type that a call of `m` could land on, in order of preference by name. -/
def landings (t : TypeTable) (r : Resolver) (type : TypeDef) (m : Method) :
    Except Fault (List Method) :=
  (r.membersNamed type m.name).map fun members =>
    let listed := ((t.get? type.id).map (·.methods.toList)).getD []
    members.filterMap Member.method? ++ listed.filter (·.implementsName m.name)

/-- The first method of the called shape, or else the first. -/
def preferred (t : TypeTable) (m : Method) (candidates : List Method) : Option Method :=
  (candidates.find? (·.sameShape t m)).or candidates.head?

/-- Where a call of `m` lands in a list of types: at the first that has a candidate. A type that
does not list its members ends the search. -/
def landingAmong (t : TypeTable) (r : Resolver) (m : Method) :
    List TypeDef → Except Fault (Option Method)
  | [] => .ok none
  | type :: types =>
    match landings t r type m with
    | .error fault => .error fault
    | .ok candidates =>
      match preferred t m candidates with
      | some found => .ok (some found)
      | none => landingAmong t r m types

def constrainedTo (t : TypeTable) (r : Resolver) (m : Method) (type : TypeDef) :
    Except Fault (Option Method) :=
  landingAmong t r m (type :: t.ancestors type.id)

end Cil.Method
