import Cil.Resolver.Store

/-!
# Generic parameters

A resolver on top of another that answers for tokens of generic parameters: two tables hold the
parameters of types and of methods, and a row counts from one into the arguments in scope. All
other tokens are passed on. Members are always listed.
-/

namespace Cil.Resolver

def typeParamTable : UInt8 := 0x1B

def methodParamTable : UInt8 := 0x2B

/-- The argument that a parameter token selects. Row zero selects nothing. -/
def argument (token : Token) (args : List TypeDef) : Except Fault Member :=
  let found :=
    match token.row with
    | 0 => none
    | row + 1 => args[row]?
  match found with
  | some t => .ok (.type t)
  | none => .error (.unresolved token (.noArgument args.length))

/-- Adds generic parameters to a resolver. -/
def withGenerics (r : Resolver) (t : TypeTable) : Resolver where
  member token args :=
    if token.table == typeParamTable then argument token args.ofType
    else if token.table == methodParamTable then argument token args.ofMethod
    else r.member token args
  string := r.string
  signature := r.signature
  membersNamed type name := .ok (t.membersNamed type.id name)

end Cil.Resolver
