import Cil.Body.Context
import Cil.Resolver.Generic
import Cil.Rule.Basic

/-!
# Workspaces

A workspace holds members and rules under names, a token store, and the type table they all speak
of. A type is there as long as something holds it: a name, the store, or a rule whose target it
is. What a member or a type merely mentions is not held by that. Whenever a holder may have let
go, the table is swept.
-/

namespace Cil

/-- Named members and rules, a store, and the types they speak of. -/
structure Workspace where
  types : TypeTable := {}
  members : Std.HashMap String Member := {}
  rules : Std.HashMap String Rule := {}
  store : Store := {}

/-- A request that makes no sense in a workspace. -/
inductive Refusal
  | unknownName (name : String)
  | notType (name : String)
  | notMethod (name : String)
  | notProperty (name : String)
  | unknownRule (name : String)

/-- What answers for tokens: the store, or the store with generic parameters on top. -/
inductive ResolverChoice
  | plain
  | generic
  deriving DecidableEq

namespace Workspace

/-- The types that something holds. -/
def held (w : Workspace) : List TypeId :=
  w.members.toList.filterMap (·.2.heldType?) ++
    w.rules.toList.filterMap (·.2.target.heldType?) ++ w.store.held

/-- Releases the types that nothing holds. -/
def sweep (w : Workspace) : Workspace :=
  let held := Std.HashSet.ofList w.held
  { w with types := w.types.keepOnly held.contains }

def bind (w : Workspace) (name : String) (m : Member) : Workspace :=
  { w with members := w.members.insert name m }.sweep

def forget (w : Workspace) (name : String) : Workspace :=
  { w with members := w.members.erase name }.sweep

def bindRule (w : Workspace) (name : String) (rule : Rule) : Workspace :=
  { w with rules := w.rules.insert name rule }.sweep

def withStore (w : Workspace) (store : Store) : Workspace :=
  { w with store }.sweep

def member (w : Workspace) (name : String) : Except Refusal Member :=
  match w.members[name]? with
  | some m => .ok m
  | none => .error (.unknownName name)

def type (w : Workspace) (name : String) : Except Refusal TypeDef := do
  match ← w.member name with
  | .type t => return t
  | _ => throw (.notType name)

def method (w : Workspace) (name : String) : Except Refusal Method := do
  match ← w.member name with
  | .method m => return m
  | _ => throw (.notMethod name)

def property (w : Workspace) (name : String) : Except Refusal Property := do
  match ← w.member name with
  | .property p => return p
  | _ => throw (.notProperty name)

def rule (w : Workspace) (name : String) : Except Refusal Rule :=
  match w.rules[name]? with
  | some r => .ok r
  | none => .error (.unknownRule name)

def resolver (w : Workspace) : ResolverChoice → Resolver
  | .plain => w.store.resolver w.types
  | .generic => (w.store.resolver w.types).withGenerics w.types

end Workspace

/-- A parameter as it is asked for, its type by name. -/
structure ParamRequest where
  position : UInt16
  name : String
  type : String
  optional : Bool

structure LocalRequest where
  index : UInt16
  type : String
  byRef : Bool
  pinned : Bool

/-- A body as it is asked for, types and methods by name. -/
structure BodyRequest where
  code : List UInt8
  /-- The method that parameters and static flag are taken from. -/
  method : Option String := none
  /-- Parameters in place of the method's. -/
  params : Option (Array ParamRequest) := none
  /-- A static flag in place of the method's. -/
  isStatic : Option Bool := none
  locals : Array LocalRequest := #[]
  typeArgs : List String := []
  methodArgs : List String := []
  resolver : ResolverChoice := .plain

namespace Workspace

def param (w : Workspace) (p : ParamRequest) : Except Refusal Param := do
  let type ← w.type p.type
  return { position := p.position, name := p.name, type := type.id, optional := p.optional }

def localVariable (w : Workspace) (v : LocalRequest) : Except Refusal Local := do
  let type ← w.type v.type
  return { index := v.index, type := type.id, byRef := v.byRef, pinned := v.pinned }

/-- Generic arguments by the names of their types. -/
def generics (w : Workspace) (ofType ofMethod : List String) : Except Refusal GenericArgs := do
  let ofType ← ofType.mapM w.type
  let ofMethod ← ofMethod.mapM w.type
  return { ofType, ofMethod }

/-- The context that a request starts from: the one of its method, or a plain one. -/
def plainContext (w : Workspace) (b : BodyRequest) : Except Refusal Context :=
  let resolver := w.resolver b.resolver
  match b.method with
  | some name => (w.method name).map fun m => .ofMethod m b.code resolver
  | none => .ok { code := b.code, resolver }

def context (w : Workspace) (b : BodyRequest) : Except Refusal Context := do
  let plain ← w.plainContext b
  let params ← b.params.mapM fun params => params.mapM w.param
  let locals ← b.locals.mapM w.localVariable
  let generics ← w.generics b.typeArgs b.methodArgs
  return { plain with
    locals, generics
    params := params.getD plain.params
    isStatic := b.isStatic.getD plain.isStatic }

end Workspace

end Cil
