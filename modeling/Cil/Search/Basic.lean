import Cil.Body.Context
import Cil.Body.Fetch
import Cil.Rule.Basic
import Cil.Rule.Dispatch

/-!
# Searching

A search goes over the code of a body until its outcome is known. It reads opcodes and member
tokens and passes over every other operand. Each rule is asked about each member, and about the
method that a constrained call lands on, until it is hit. A search for any rule ends at the first
hit, a search for all when no rule is left; a fault counts only if the search comes to it.
-/

namespace Cil

inductive SearchMode
  /-- One rule, and it is hit. -/
  | single
  | any
  | all
  deriving DecidableEq

/-- A rule in a search, and whether it was hit. -/
structure Quarry where
  rule : Rule
  hit : Bool := false

namespace Search

/-- What asking about a candidate leaves: the rules, how many of them are still to be hit, and
whether the outcome is known to be yes. -/
structure Tally where
  quarries : List Quarry
  remaining : Nat
  known : Bool
  events : Array Event

/-- Asks the rules that were not hit yet about a candidate, in order, until the outcome is known. -/
def record (t : TypeTable) (r : Resolver) (mode : SearchMode) (candidate : Member)
    (remaining : Nat) : List Quarry → Tally
  | [] => ⟨[], remaining, false, #[]⟩
  | q :: qs =>
    if q.hit then
      let tally := record t r mode candidate remaining qs
      { tally with quarries := q :: tally.quarries }
    else
      let verdict := q.rule.query t r candidate
      if verdict.holds then
        let q : Quarry := { rule := verdict.rule, hit := true }
        let remaining := remaining - 1
        if mode ≠ .all ∨ remaining = 0 then
          ⟨q :: qs, remaining, true, verdict.events⟩
        else
          let tally := record t r mode candidate remaining qs
          { tally with quarries := q :: tally.quarries, events := verdict.events ++ tally.events }
      else
        let q : Quarry := { q with rule := verdict.rule }
        let tally := record t r mode candidate remaining qs
        { tally with quarries := q :: tally.quarries, events := verdict.events ++ tally.events }

/-- The outcome of a search, the rules as they are afterwards, and the events on the way. -/
structure Outcome where
  answer : Except Fault Bool
  rules : List Rule
  events : Array Event

structure Pursuit where
  quarries : List Quarry
  remaining : Nat
  /-- The type that the instruction before has named for a call. -/
  constraint : Option TypeDef := none
  events : Array Event := #[]

namespace Pursuit

def start (rules : List Rule) : Pursuit :=
  { quarries := rules.map fun rule => { rule }, remaining := rules.length }

def finish (p : Pursuit) (answer : Except Fault Bool) : Outcome :=
  ⟨answer, p.quarries.map Quarry.rule, p.events⟩

def note (p : Pursuit) (event : Event) : Pursuit := { p with events := p.events.push event }

/-- A fault ends the search. -/
def orFail {α : Type} (p : Pursuit) (read : Except Fault α) : Except Outcome α :=
  read.mapError fun fault => p.finish (.error fault)

/-- Asks about a candidate. The search ends, with an event, if the outcome is known. -/
def ask (t : TypeTable) (r : Resolver) (mode : SearchMode) (candidate : Member) (found : Event)
    (p : Pursuit) : Except Outcome Pursuit :=
  let tally := record t r mode candidate p.remaining p.quarries
  let p := { p with
    quarries := tally.quarries, remaining := tally.remaining, events := p.events ++ tally.events }
  if tally.known then .error ((p.note found).finish (.ok true)) else .ok p

/-- Asks about the member of the instruction at `offset`, and then about where a call of it lands
if the instruction before has named a type. -/
def meet (t : TypeTable) (r : Resolver) (mode : SearchMode) (s : Selection) (offset : Nat)
    (m : Member) (p : Pursuit) : Except Outcome Pursuit := do
  let constraint :=
    match m with
    | .type type => if s.isConstrained then some type else none
    | _ => none
  let asked ← { p with constraint }.ask t r mode m (.referenceFound offset)
  match p.constraint, m with
  | some type, .method called =>
    match called.constrainedTo t r type with
    | .error fault => return asked.note (.constrainedSkipped called.name offset fault)
    | .ok none => return asked
    | .ok (some landing) => asked.ask t r mode (.method landing) (.constrainedFound offset)
  | _, _ => return asked

end Pursuit

def fetchMember (ctx : Context) (offset : Nat) (c : Cursor) : Except Fault (Member × Cursor) := do
  let (token, after) ← c.fetch .u32 offset
  return (← ctx.member ⟨token⟩, after)

/-- Passes over an operand. A switch says by its count how much that is. -/
def pass (kind : OperandKind) (offset : Nat) (c : Cursor) : Except Fault Cursor :=
  match kind with
  | .switch => do
    let (count, table) ← c.switchCount offset
    table.skip (count * 4) offset
  | .phi => .error (.unsupportedOperand .phi)
  | kind => do c.skip (← kind.size) offset

def visit (t : TypeTable) (ctx : Context) (mode : SearchMode) (p : Pursuit) (c : Cursor) :
    Except Outcome (Pursuit × Cursor) := do
  let (s, body) ← p.orFail (c.opcode c.pos)
  if s.opcode.operand.namesMember then
    let (m, after) ← p.orFail (fetchMember ctx c.pos body)
    return (← p.meet t ctx.resolver mode s c.pos m, after)
  else
    let after ← p.orFail (pass s.opcode.operand c.pos body)
    return ({ p with constraint := none }, after)

theorem orFail_eq_ok {α : Type} {p : Pursuit} {read : Except Fault α} {x : α}
    (h : p.orFail read = .ok x) : read = .ok x := by
  cases read with
  | error fault => cases h
  | ok y => exact congrArg Except.ok (Except.ok.inj h)

theorem length_rest_of_pass {kind : OperandKind} {offset : Nat} {c after : Cursor}
    (h : pass kind offset c = .ok after) : after.rest.length ≤ c.rest.length := by
  unfold pass at h
  split at h
  · simp only [bind, Except.bind] at h
    split at h
    · cases h
    next count hcount =>
    exact Nat.le_trans (Cursor.length_rest_of_skip h) (Cursor.length_rest_of_switchCount hcount)
  · cases h
  · simp only [bind, Except.bind] at h
    split at h
    · cases h
    · exact Cursor.length_rest_of_skip h

theorem length_rest_of_fetchMember {ctx : Context} {offset : Nat} {c after : Cursor} {m : Member}
    (h : fetchMember ctx offset c = .ok (m, after)) : after.rest.length ≤ c.rest.length := by
  simp only [fetchMember, bind, Except.bind] at h
  split at h
  · cases h
  next token htoken =>
  have shorter := Cursor.length_rest_of_fetch htoken
  split at h
  · cases h
  · cases h
    omega

theorem length_rest_of_visit {t : TypeTable} {ctx : Context} {mode : SearchMode}
    {p p' : Pursuit} {c after : Cursor} (h : visit t ctx mode p c = .ok (p', after)) :
    after.rest.length < c.rest.length := by
  simp only [visit, bind, Except.bind] at h
  split at h
  · cases h
  next head hhead =>
  have shorter := Cursor.length_rest_of_opcode (orFail_eq_ok hhead)
  split at h
  · split at h
    · cases h
    next found hfound =>
    have shorter' := length_rest_of_fetchMember (orFail_eq_ok hfound)
    split at h
    · cases h
    · cases h
      exact Nat.lt_of_le_of_lt shorter' shorter
  · split at h
    · cases h
    next after' hafter =>
    cases h
    exact Nat.lt_of_le_of_lt (length_rest_of_pass (orFail_eq_ok hafter)) shorter

def walk (t : TypeTable) (ctx : Context) (mode : SearchMode) (p : Pursuit) (c : Cursor) :
    Outcome :=
  if c.hasMore then
    match h : visit t ctx mode p c with
    | .ok (p, after) =>
      have := length_rest_of_visit h
      walk t ctx mode p after
    | .error outcome => outcome
  else
    p.finish (.ok false)
termination_by c.rest.length

/-- Searches a body. No rules at all are all hit from the start; a single search needs exactly
one. -/
def run (t : TypeTable) (ctx : Context) (mode : SearchMode) (rules : List Rule) : Outcome :=
  if mode = .single ∧ rules.length ≠ 1 then
    { answer := .error (.ruleCount rules.length), rules, events := #[] }
  else if rules.isEmpty then
    { answer := .ok (mode == .all), rules, events := #[] }
  else
    walk t ctx mode (.start rules) (.start ctx.code)

end Search

end Cil
