import Cil.Resolver.Basic
import Cil.Types.Table
import Std.Data.HashMap
import Std.Data.HashSet

/-!
# The token store

A store remembers what tokens stand for. The last entry under a token wins. Types are kept a
second time under their own tokens, so that a type stays held when another member takes its place
among the members. Signatures are appended to a heap and tokens point into it.
-/

namespace Cil

structure Store where
  types : Std.HashMap Token TypeDef := {}
  members : Std.HashMap Token Member := {}
  strings : Std.HashMap Token String := {}
  signatureIndex : Std.HashMap Token Nat := {}
  signatureHeap : Array (List UInt8) := #[]
  /-- Tokens of the types whose members cannot be listed. -/
  unlisted : Std.HashSet Token := {}

namespace Store

/-- Stores a member under a token. A type is also held under its own token. -/
def addMemberAs (s : Store) (token : Token) (m : Member) : Store :=
  let types :=
    match m with
    | .type t => s.types.insert t.token t
    | _ => s.types
  { s with types, members := s.members.insert token m }

def addMember (s : Store) (m : Member) : Store := s.addMemberAs m.token m

/-- Stores a type and then each member it lists at the moment, all under their own tokens. -/
def register (s : Store) (t : TypeTable) (type : TypeDef) : Store :=
  (t.members type.id).foldl addMember (s.addMember (.type type))

def addString (s : Store) (token : Token) (value : String) : Store :=
  { s with strings := s.strings.insert token value }

def addSignature (s : Store) (token : Token) (blob : List UInt8) : Store :=
  { s with
    signatureIndex := s.signatureIndex.insert token s.signatureHeap.size
    signatureHeap := s.signatureHeap.push blob }

/-- From now on the members of a type cannot be listed. -/
def withhold (s : Store) (type : TypeDef) : Store :=
  { s with unlisted := s.unlisted.insert type.token }

/-- The number of tokens that stand for a member. -/
def size (s : Store) : Nat := s.members.size

def isEmpty (s : Store) : Bool := s.members.isEmpty

def type? (s : Store) (token : Token) : Option TypeDef := s.types[token]?

def member (s : Store) (token : Token) : Except Fault Member :=
  match s.members[token]? with
  | some m => .ok m
  | none => .error (.unresolved token .noMember)

def string (s : Store) (token : Token) : Except Fault String :=
  match s.strings[token]? with
  | some value => .ok value
  | none => .error (.unresolved token .noString)

def signature (s : Store) (token : Token) : Except Fault (List UInt8) :=
  match s.signatureIndex[token]? with
  | none => .error (.unresolved token .noSignature)
  | some index =>
    match s.signatureHeap[index]? with
    | some blob => .ok blob
    | none => .error (.unresolved token (.noSignatureAt index))

def membersNamed (s : Store) (t : TypeTable) (type : TypeDef) (name : String) :
    Except Fault (List Member) :=
  if s.unlisted.contains type.token then
    .error (.unresolved type.token (.membersUnavailable type.fullName))
  else
    .ok (t.membersNamed type.id name)

def held (s : Store) : List TypeId :=
  s.types.toList.map (·.2.id) ++ s.members.toList.filterMap (·.2.heldType?)

/-- The store as a resolver. Generic arguments make no difference to it. -/
def resolver (s : Store) (t : TypeTable) : Resolver where
  member token _ := s.member token
  string := s.string
  signature := s.signature
  membersNamed := s.membersNamed t

end Store

end Cil
