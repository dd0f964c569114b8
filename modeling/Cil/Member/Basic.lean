import Cil.Member.Modifiers
import Cil.Token

/-!
# Members

Fields, methods, properties and types, as a token operand can name them. A member is a plain
value. It speaks of other types only by `TypeId`; whether such a type is still there is a matter
of the type table (`Cil.Types.Table`), so a member stays meaningful when a type it mentions goes
away. A `TypeDef` in hand is a type that is held.
-/

namespace Cil

/-- Tells types apart, also types that share a token. -/
structure TypeId where
  index : Nat
  deriving DecidableEq, Hashable

/-- What never changes about a type. -/
structure TypeDef where
  id : TypeId
  token : Token
  space : String
  name : String
  flags : UInt32
  deriving DecidableEq

namespace TypeDef

/-- The namespace and the name, joined by a dot; the name alone in the empty namespace. -/
def fullName (t : TypeDef) : String :=
  if t.space.isEmpty then t.name else t.space ++ "." ++ t.name

def isInterface (t : TypeDef) : Bool := t.flags &&& 0x20 != 0

/-- Types count as equal when their tokens are, also where both are there at once. -/
def same (t u : TypeDef) : Bool := t.token == u.token

end TypeDef

/-- A declared parameter. Its position does not count the instance argument. -/
structure Param where
  position : UInt16
  name : String
  type : TypeId
  optional : Bool
  deriving DecidableEq

structure Field where
  token : Token
  name : String
  declaring : TypeId
  reflected : TypeId
  modifiers : FieldModifiers
  deriving DecidableEq

/-- A method or constructor: the type that declares it and the type it was obtained through. -/
structure Method where
  token : Token
  name : String
  declaring : TypeId
  reflected : TypeId
  modifiers : MethodModifiers
  params : Array Param
  deriving DecidableEq

structure Property where
  token : Token
  name : String
  declaring : TypeId
  reflected : TypeId
  getter : Option Method
  setter : Option Method
  deriving DecidableEq

/-- What a token can stand for. -/
inductive Member
  | field (field : Field)
  | method (method : Method)
  | property (property : Property)
  | type (type : TypeDef)
  /-- Something a resolver knows of but cannot classify. -/
  | unknown (token : Token)
  deriving DecidableEq

inductive MemberKind
  | field
  | method
  | property
  | type
  | unknown
  deriving DecidableEq

def MemberKind.name : MemberKind → String
  | field => "Field"
  | method => "Method"
  | property => "Property"
  | type => "Type"
  | unknown => "Unknown"

def Field.through (f : Field) (t : TypeId) : Field := { f with reflected := t }

namespace Method

def isStatic (m : Method) : Bool := m.modifiers.isStatic

def through (m : Method) (t : TypeId) : Method := { m with reflected := t }

end Method

namespace Property

def accessors (p : Property) : List Method := p.getter.toList ++ p.setter.toList

/-- A property is static when one of its accessors is. -/
def isStatic (p : Property) : Bool := p.accessors.any Method.isStatic

/-- The property, with its accessors, as obtained through a type. -/
def through (p : Property) (t : TypeId) : Property :=
  { p with
    reflected := t
    getter := p.getter.map (·.through t)
    setter := p.setter.map (·.through t) }

end Property

namespace Member

def kind : Member → MemberKind
  | field _ => .field
  | method _ => .method
  | property _ => .property
  | type _ => .type
  | unknown _ => .unknown

def token : Member → Token
  | field f => f.token
  | method m => m.token
  | property p => p.token
  | type t => t.token
  | unknown t => t

def name : Member → String
  | field f => f.name
  | method m => m.name
  | property p => p.name
  | type t => t.name
  | unknown _ => ""

def declaring? : Member → Option TypeId
  | field f => some f.declaring
  | method m => some m.declaring
  | property p => some p.declaring
  | type _ | unknown _ => none

/-- The type the member was obtained through. Types and unclassified members have none. -/
def reflected? : Member → Option TypeId
  | field f => some f.reflected
  | method m => some m.reflected
  | property p => some p.reflected
  | type _ | unknown _ => none

def isStatic : Member → Bool
  | field f => f.modifiers.isStatic
  | method m => m.isStatic
  | property p => p.isStatic
  | type _ | unknown _ => false

/-- The member as obtained through a type. Types and unclassified members stay as they are. -/
def through (t : TypeId) : Member → Member
  | field f => field (f.through t)
  | method m => method (m.through t)
  | property p => property (p.through t)
  | type u => type u
  | unknown u => unknown u

def method? : Member → Option Method
  | method m => some m
  | _ => none

def type? : Member → Option TypeDef
  | type t => some t
  | _ => none

/-- The type that whoever holds the member holds with it. Only a type itself is held. -/
def heldType? (m : Member) : Option TypeId := m.type?.map TypeDef.id

end Member

end Cil
