import Cil.Resolver.Basic

/-!
# Body contexts

The code of one method body together with what gives its operands a meaning: variables,
parameters, whether there is an instance argument, generic arguments, and a resolver for tokens.
-/

namespace Cil

structure Local where
  index : UInt16
  type : TypeId
  byRef : Bool
  pinned : Bool
  deriving DecidableEq

/-- A body and its surroundings. Without further say it is static and has no variables. -/
structure Context where
  code : List UInt8
  locals : Array Local := #[]
  params : Array Param := #[]
  isStatic : Bool := true
  generics : GenericArgs := {}
  resolver : Resolver

namespace Context

/-- The context of a method's body, with the method's parameters. -/
def ofMethod (m : Method) (code : List UInt8) (resolver : Resolver) : Context :=
  { code, params := m.params, isStatic := m.isStatic, resolver }

def member (ctx : Context) (token : Token) : Except Fault Member :=
  ctx.resolver.member token ctx.generics

def describe (ctx : Context) : String :=
  "MethodBodyContext \x7b code_len: " ++ Nat.repr ctx.code.length ++ ", locals: " ++
    Nat.repr ctx.locals.size ++ ", parameters: " ++ Nat.repr ctx.params.size ++
    ", is_static: " ++ (if ctx.isStatic then "true" else "false") ++ ", .. \x7d"

end Context

end Cil
