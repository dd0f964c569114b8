import Cil.Types.Table

/-!
# Identity and likeness of members

Two members are the same when kind, token, declaring type and reflected type agree, each type
taken by its token and a missing one by nothing. Methods have two weaker likenesses: the same
definition, which forgets the reflected type, and the same shape, which compares parameters by
name and type. A missing parameter type is like nothing, not even itself.
-/

namespace Cil

/-- What makes a member itself. -/
structure Identity where
  kind : MemberKind
  token : Token
  declaring : Option Token
  reflected : Option Token
  deriving DecidableEq

namespace Member

def identity (t : TypeTable) (m : Member) : Identity :=
  { kind := m.kind
    token := m.token
    declaring := m.declaring?.bind t.token?
    reflected := m.reflected?.bind t.token? }

def same (t : TypeTable) (a b : Member) : Bool := a.identity t == b.identity t

def declaringDef? (t : TypeTable) (m : Member) : Option TypeDef := m.declaring?.bind t.def?

def reflectedDef? (t : TypeTable) (m : Member) : Option TypeDef := m.reflected?.bind t.def?

/-- The text that describes a member: kind, declaring type if there is one, name and token. -/
def describe (t : TypeTable) (m : Member) : String :=
  let owner :=
    match m.declaringDef? t with
    | none => ""
    | some d => d.fullName ++ "::"
  m.kind.name ++ "(" ++ owner ++ m.name ++ ", " ++ m.token.text ++ ")"

end Member

/-- Same name, and types that are there and have the same token. -/
def Param.sameShape (t : TypeTable) (p q : Param) : Bool :=
  p.name == q.name &&
    match t.token? p.type, t.token? q.type with
    | some a, some b => a == b
    | _, _ => false

namespace Method

def sameShape (t : TypeTable) (m n : Method) : Bool :=
  m.params.size == n.params.size &&
    (m.params.toList.zip n.params.toList).all fun (p, q) => p.sameShape t q

/-- Same token and declaring type, whatever type each was obtained through. -/
def sameDefinition (t : TypeTable) (m n : Method) : Bool :=
  m.token == n.token && t.token? m.declaring == t.token? n.declaring

end Method

def Property.hasAccessor (t : TypeTable) (p : Property) (m : Method) : Bool :=
  p.accessors.any fun a => a.sameDefinition t m

/-- Same kind and name and, of methods, the same shape. -/
def Member.sameSignature (t : TypeTable) (a b : Member) : Bool :=
  a.kind == b.kind && a.name == b.name &&
    match a, b with
    | .method m, .method n => m.sameShape t n
    | _, _ => true

/-- Which members of a list are new, in order: different from all before them. -/
def Member.firsts (t : TypeTable) : List Identity → List Member → List Bool
  | _, [] => []
  | seen, m :: ms => (!seen.contains (m.identity t)) :: firsts t (m.identity t :: seen) ms

end Cil
