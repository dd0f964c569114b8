import Cil.Fault

/-!
# Resolvers

Decoding and matching never read metadata themselves. A resolver answers for the tokens of a body
and lists the members of a type by name; any of its answers may be a fault.
-/

namespace Cil

/-- The generic arguments in scope in a body: those of the declaring type and of the method. -/
structure GenericArgs where
  ofType : List TypeDef := []
  ofMethod : List TypeDef := []

structure Resolver where
  member : Token → GenericArgs → Except Fault Member
  string : Token → Except Fault String
  signature : Token → Except Fault (List UInt8)
  membersNamed : TypeDef → String → Except Fault (List Member)

namespace Resolver

/-- The field a token stands for; a fault if it stands for anything else. -/
def field (r : Resolver) (token : Token) (args : GenericArgs) : Except Fault Field := do
  match ← r.member token args with
  | .field f => .ok f
  | other => .error (.unresolved token (.wrongKind .field other.kind))

def method (r : Resolver) (token : Token) (args : GenericArgs) : Except Fault Method := do
  match ← r.member token args with
  | .method m => .ok m
  | other => .error (.unresolved token (.wrongKind .method other.kind))

def type (r : Resolver) (token : Token) (args : GenericArgs) : Except Fault TypeDef := do
  match ← r.member token args with
  | .type t => .ok t
  | other => .error (.unresolved token (.wrongKind .type other.kind))

end Resolver

end Cil
