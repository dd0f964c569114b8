import Cil.Fault
import Cil.Text.Quoted

/-!
# The type table

Which types are there, what each declares, and what it derives from. A type keeps its slot for
good, so an id is never used twice; releasing a type empties the slot, and from then on every
mention of it reads as missing. Links to a base are such mentions: a chain of bases ends where a
link is missing, and in any case after `maxDepth` types.
-/

namespace Cil

/-- A type and what it declares so far, in order of declaration. -/
structure TypeEntry where
  head : TypeDef
  base : Option TypeId := none
  fields : Array Field := #[]
  methods : Array Method := #[]
  properties : Array Property := #[]

/-- The types of a program, one slot for each that ever was. -/
structure TypeTable where
  slots : Array (Option TypeEntry) := #[]

namespace TypeTable

/-- The longest chain of bases that is followed. -/
def maxDepth : Nat := 256

def get? (t : TypeTable) (id : TypeId) : Option TypeEntry := t.slots[id.index]?.join

def isLive (t : TypeTable) (id : TypeId) : Bool := (t.get? id).isSome

def def? (t : TypeTable) (id : TypeId) : Option TypeDef := (t.get? id).map TypeEntry.head

def token? (t : TypeTable) (id : TypeId) : Option Token := (t.def? id).map TypeDef.token

def add (t : TypeTable) (token : Token) (space name : String) (flags : UInt32) :
    TypeDef × TypeTable :=
  let head : TypeDef := { id := ⟨t.slots.size⟩, token, space, name, flags }
  (head, ⟨t.slots.push (some { head })⟩)

/-- Empties the slot of every type that is not to be kept. -/
def keepOnly (t : TypeTable) (keep : TypeId → Bool) : TypeTable :=
  ⟨t.slots.mapIdx fun i e => if keep ⟨i⟩ then e else none⟩

def modify (t : TypeTable) (id : TypeId) (f : TypeEntry → TypeEntry) : TypeTable :=
  ⟨t.slots.modify id.index (Option.map f)⟩

/-- The base of a type, if one is set and still there. -/
def base? (t : TypeTable) (id : TypeId) : Option TypeDef :=
  ((t.get? id).bind TypeEntry.base).bind t.def?

/-- The first `n` types on the chain of bases of a type, nearest first. -/
def basesWithin (t : TypeTable) : Nat → TypeId → List TypeDef
  | 0, _ => []
  | n + 1, id =>
    match t.base? id with
    | none => []
    | some b => b :: t.basesWithin n b.id

def ancestors (t : TypeTable) (id : TypeId) : List TypeDef := t.basesWithin maxDepth id

/-- Whether a type derives from one with the token of `other`. -/
def isSubclass (t : TypeTable) (id : TypeId) (other : Token) : Bool :=
  (t.ancestors id).any fun a => a.token == other

/-- Links a type to its base, which can be done once. A base that is the type itself, or derives
from it as far as its ancestors are followed, is refused first. -/
def setBase (t : TypeTable) (type base : TypeDef) : Except Fault TypeTable :=
  if base.token == type.token || t.isSubclass base.id type.token then
    .error (.baseCycle base type)
  else if ((t.get? type.id).bind TypeEntry.base).isSome then
    .error (.baseTaken type)
  else
    .ok (t.modify type.id fun e => { e with base := some base.id })

/-- Appends a member to the list of its kind on a type. Types and unclassified members are not
listed. -/
def attach (t : TypeTable) (id : TypeId) : Member → TypeTable
  | .field f => t.modify id fun e => { e with fields := e.fields.push f }
  | .method m => t.modify id fun e => { e with methods := e.methods.push m }
  | .property p => t.modify id fun e => { e with properties := e.properties.push p }
  | .type _ | .unknown _ => t

/-- Every member a type lists: fields, then methods, then properties. -/
def members (t : TypeTable) (id : TypeId) : List Member :=
  match t.get? id with
  | none => []
  | some e =>
    e.fields.toList.map .field ++ e.methods.toList.map .method ++
      e.properties.toList.map .property

def membersNamed (t : TypeTable) (id : TypeId) (name : String) : List Member :=
  (t.members id).filter fun m => m.name == name

def describe (t : TypeTable) (type : TypeDef) : String :=
  let base :=
    match t.base? type.id with
    | none => "None"
    | some b => "Some(" ++ Text.quoted b.fullName ++ ")"
  "TypeDesc \x7b token: " ++ type.token.describe ++ ", name: " ++ Text.quoted type.fullName ++
    ", base: " ++ base ++ ", .. \x7d"

end TypeTable

end Cil
