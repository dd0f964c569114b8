import Cil.Event
import Cil.Member.Identity
import Cil.Resolver.Basic
import Cil.Rule.Config

/-!
# Rules

A rule says which members count as its target. What it has to look up for that, its expansion, is
looked up at the first question that needs it and kept, so later changes to types and resolvers do
not reach it. The alternates in an expansion look up their own accessors in the same way, each at
its own first use, and nothing else: a match is at most two steps away from the target.

A question to a rule gives back the rule as it is afterwards, and the events on the way.
-/

namespace Cil

/-- The methods that get and set the property a member is or belongs to. -/
structure Accessors where
  getter : Option Method := none
  setter : Option Method := none
  deriving DecidableEq

namespace Accessors

def toList (a : Accessors) : List Method := a.getter.toList ++ a.setter.toList

def contains (t : TypeTable) (a : Accessors) (c : Member) : Bool :=
  match c with
  | .method _ => a.toList.any fun m => (Member.method m).same t c
  | _ => false

def ofProperty (p : Property) : Accessors := ⟨p.getter, p.setter⟩

/-- The accessors of a property, or of the first property of its declaring type that a method
belongs to. They are obtained through the same type as the method. -/
def ofMember (t : TypeTable) : Member → Accessors
  | .property p => ofProperty p
  | .method m =>
    match t.get? m.declaring with
    | none => {}
    | some declaring =>
      match declaring.properties.find? (fun p => p.hasAccessor t m) with
      | none => {}
      | some p =>
        match t.def? m.reflected with
        | some reflected =>
          if reflected.token == declaring.head.token then ofProperty p
          else ofProperty (p.through reflected.id)
        | none => ofProperty p
  | _ => {}

end Accessors

/-- A member that stands in for a target, with its accessors once they are looked up. -/
structure Alternate where
  member : Member
  accessors : Option Accessors := none
  deriving DecidableEq

namespace Alternate

/-- Whether a candidate is the alternate or one of its accessors. -/
def query (t : TypeTable) (a : Alternate) (c : Member) : Bool × Alternate :=
  if c.same t a.member then
    (true, a)
  else
    let accessors := a.accessors.getD (Accessors.ofMember t a.member)
    (accessors.contains t c, { a with accessors := some accessors })

/-- Whether a candidate is one of several alternates, asked in order up to the first that says
yes. -/
def queryAny (t : TypeTable) (c : Member) : List Alternate → Bool × List Alternate
  | [] => (false, [])
  | a :: as =>
    match a.query t c with
    | (true, a) => (true, a :: as)
    | (false, a) =>
      let (found, as) := queryAny t c as
      (found, a :: as)

end Alternate

inductive Walk
  | notRequested
  /-- Every base type listed its members. -/
  | complete
  /-- So many base types did not. -/
  | incomplete (failures : Nat)
  deriving DecidableEq

structure Expansion where
  accessors : Accessors
  declaring : Option Alternate
  bases : List Alternate
  walk : Walk
  deriving DecidableEq

/-- Which members count as the target. -/
structure Rule where
  target : Member
  config : MatchConfig
  expansion : Option Expansion := none
  deriving DecidableEq

namespace Rule

def fresh (rule : Rule) : Rule := { rule with expansion := none }

/-- The target as obtained through its declaring type, if it was obtained through another. -/
def declaringAlternate (t : TypeTable) (target : Member) : Option Alternate :=
  match target.declaringDef? t, target.reflectedDef? t with
  | some declaring, some reflected =>
    if declaring.token == reflected.token then none
    else some { member := target.through declaring.id }
  | _, _ => none

structure Gathering where
  /-- The identities that are not gathered again. -/
  seen : List Identity
  found : Array Member := #[]
  failures : Nat := 0
  events : Array Event := #[]

/-- Gathers one member, if it has the target's signature and is new. -/
def Gathering.add (t : TypeTable) (target : Member) (g : Gathering) (m : Member) : Gathering :=
  if target.sameSignature t m && !g.seen.contains (m.identity t) then
    { g with seen := m.identity t :: g.seen, found := g.found.push m }
  else g

/-- Gathers the members of one base type. A base type that does not list its members is passed
over. -/
def Gathering.visit (t : TypeTable) (r : Resolver) (target : Member) (g : Gathering)
    (ancestor : TypeDef) : Gathering :=
  match r.membersNamed ancestor target.name with
  | .ok members => members.foldl (add t target) g
  | .error fault =>
    { g with
      failures := g.failures + 1
      events := g.events.push (.ancestorSkipped ancestor (target.describe t) fault) }

def gather (t : TypeTable) (r : Resolver) (target : Member) (depth : Nat) (type : TypeId) :
    Gathering :=
  ((t.ancestors type).take depth).foldl (Gathering.visit t r target)
    { seen := [target.identity t] }

/-- Looks up what a rule needs. Static targets have accessors only. -/
def expand (t : TypeTable) (r : Resolver) (rule : Rule) : Expansion × Array Event :=
  let target := rule.target
  let accessors := Accessors.ofMember t target
  if target.isStatic then
    (⟨accessors, none, [], .notRequested⟩, #[])
  else
    let declaring := if rule.config.declaring then declaringAlternate t target else none
    match target.declaringDef? t with
    | some type =>
      if rule.config.base then
        let g := gather t r target rule.config.depth type.id
        let walk := if g.failures = 0 then .complete else .incomplete g.failures
        (⟨accessors, declaring, g.found.toList.map fun m => { member := m }, walk⟩, g.events)
      else
        (⟨accessors, declaring, [], .notRequested⟩, #[])
    | none => (⟨accessors, declaring, [], .notRequested⟩, #[])

/-- The expansion, looked up now if it was not before. -/
def force (t : TypeTable) (r : Resolver) (rule : Rule) : Expansion × Array Event :=
  match rule.expansion with
  | some e => (e, #[])
  | none => rule.expand t r

/-- Whether a candidate has the signature of a member and is declared by a type derived from the
member's. -/
def hides (t : TypeTable) (candidate hidden : Member) : Bool :=
  hidden.sameSignature t candidate &&
    match candidate.declaringDef? t, hidden.declaringDef? t with
    | some derived, some base => t.isSubclass derived.id base.token
    | _, _ => false

def hiddenBy (t : TypeTable) (target : Member) (accessors : Accessors) (c : Member) : Bool :=
  hides t c target || accessors.toList.any fun m => hides t c (.method m)

/-- The answer to a question, the rule as it is afterwards, and the events on the way. -/
structure Verdict where
  holds : Bool
  rule : Rule
  events : Array Event := #[]

def query (t : TypeTable) (r : Resolver) (rule : Rule) (c : Member) : Verdict :=
  if c.same t rule.target then
    { holds := true, rule }
  else
    let (e, events) := rule.force t r
    if e.accessors.contains t c then
      { holds := true, rule := { rule with expansion := some e }, events }
    else
      let (viaDeclaring, declaring) :=
        match e.declaring with
        | none => (false, none)
        | some a =>
          let (found, a) := a.query t c
          (found, some a)
      let e := { e with declaring }
      if viaDeclaring then
        { holds := true, rule := { rule with expansion := some e }, events }
      else
        let (viaBase, bases) := Alternate.queryAny t c e.bases
        let e := { e with bases }
        { holds := viaBase ||
            (rule.config.base && !rule.target.isStatic && hiddenBy t rule.target e.accessors c)
          rule := { rule with expansion := some e }
          events }

end Rule

end Cil
