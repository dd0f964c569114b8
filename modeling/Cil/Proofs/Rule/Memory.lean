import Cil.Rule.Basic
import Mathlib.Tactic.SplitIfs

/-!
# What rules remember

A rule looks things up when it first needs them and keeps them. As long as types and resolver stay
the same, what it keeps is what it would look up again, so no question and no look at the expansion
changes any later answer. This holds of every rule, also of one that remembers something that has
changed since.
-/

namespace Cil

namespace Alternate

variable (t : TypeTable) (a : Alternate) (c : Member)

/-- The alternate with its accessors looked up. -/
def filled : Alternate :=
  { a with accessors := some (a.accessors.getD (Accessors.ofMember t a.member)) }

/-- What an alternate says about a candidate. -/
def admits : Bool :=
  c.same t a.member || (a.accessors.getD (Accessors.ofMember t a.member)).contains t c

theorem admits_filled : (a.filled t).admits t c = a.admits t c := rfl

theorem fst_query : (a.query t c).1 = a.admits t c := by
  by_cases h : c.same t a.member = true
  · simp [query, admits, h]
  · simp [query, admits, h]

theorem filled_snd_query : (a.query t c).2.filled t = a.filled t := by
  by_cases h : c.same t a.member = true
  · simp [query, h]
  · simp [query, h, filled]

theorem fst_queryAny (as : List Alternate) :
    (queryAny t c as).1 = as.any fun a => a.admits t c := by
  induction as with
  | nil => rfl
  | cons a as ih =>
    have hfirst := fst_query t a c
    cases hquery : a.query t c with
    | mk found after =>
      rw [hquery] at hfirst
      cases found with
      | true => simp [queryAny, hquery, ← hfirst]
      | false => simp [queryAny, hquery, ← hfirst, ih]

theorem map_filled_snd_queryAny (as : List Alternate) :
    (queryAny t c as).2.map (filled t) = as.map (filled t) := by
  induction as with
  | nil => rfl
  | cons a as ih =>
    have hfilled := filled_snd_query t a c
    cases hquery : a.query t c with
    | mk found after =>
      rw [hquery] at hfilled
      cases found with
      | true => simp [queryAny, hquery, hfilled]
      | false => simp [queryAny, hquery, hfilled, ih]

end Alternate

namespace Expansion

/-- The expansion with the accessors of every alternate looked up. -/
def filled (t : TypeTable) (e : Expansion) : Expansion :=
  { e with
    declaring := e.declaring.map (Alternate.filled t)
    bases := e.bases.map (Alternate.filled t) }

/-- What an expansion says about a candidate, leaving hiding aside. -/
def admits (t : TypeTable) (e : Expansion) (c : Member) : Bool :=
  e.accessors.contains t c || e.declaring.any (fun a => a.admits t c) ||
    e.bases.any fun a => a.admits t c

theorem admits_filled (t : TypeTable) (e : Expansion) (c : Member) :
    (e.filled t).admits t c = e.admits t c := by
  have bases : (e.filled t).bases.any (fun a => a.admits t c) = e.bases.any fun a => a.admits t c :=
    List.any_map
  have declaring : (e.filled t).declaring.any (fun a => a.admits t c) =
      e.declaring.any fun a => a.admits t c := by
    cases h : e.declaring with
    | none => simp [filled, h]
    | some a => simp [filled, h, Alternate.admits_filled]
  rw [admits, admits, bases, declaring]
  rfl

end Expansion

namespace Rule

variable (t : TypeTable) (r : Resolver) (rule : Rule) (c : Member)

/-- The rule with everything looked up that it could ever need. -/
def filled : Rule := { rule with expansion := some ((rule.force t r).1.filled t) }

/-- The rule that keeps a given expansion. -/
def keeping (e : Expansion) : Rule := { rule with expansion := some e }

/-- What a rule says about a candidate. -/
def admits : Bool :=
  c.same t rule.target || (rule.force t r).1.admits t c ||
    (rule.config.base && !rule.target.isStatic &&
      hiddenBy t rule.target (rule.force t r).1.accessors c)

theorem filled_keeping {e : Expansion} (h : e.filled t = (rule.force t r).1.filled t) :
    (rule.keeping e).filled t r = rule.filled t r := by
  simp [keeping, filled, force, h]

theorem admits_filled : (rule.filled t r).admits t r c = rule.admits t r c := by
  have h : ((rule.filled t r).force t r).1 = (rule.force t r).1.filled t := rfl
  rw [admits, admits, h, Expansion.admits_filled]
  rfl

/-- Rules that agree once everything is looked up give the same answers. -/
theorem admits_eq_of_filled_eq {rule rule' : Rule} (h : rule.filled t r = rule'.filled t r) :
    rule.admits t r c = rule'.admits t r c := by
  rw [← admits_filled t r rule, h, admits_filled]

/-- Asking the alternate of the declaring type, if there is one. -/
def askDeclaring : Option Alternate → Bool × Option Alternate
  | none => (false, none)
  | some a => ((a.query t c).1, some (a.query t c).2)

theorem fst_askDeclaring (d : Option Alternate) :
    (askDeclaring t c d).1 = d.any fun a => a.admits t c := by
  cases d with
  | none => rfl
  | some a => exact Alternate.fst_query t a c

theorem map_filled_snd_askDeclaring (d : Option Alternate) :
    (askDeclaring t c d).2.map (Alternate.filled t) = d.map (Alternate.filled t) := by
  cases d with
  | none => rfl
  | some a => exact congrArg some (Alternate.filled_snd_query t a c)

/-- How a question goes: the target itself, its accessors, the alternate of the declaring type,
those of the base types and last the hiding members. -/
theorem query_eq :
    rule.query t r c =
      (let e := (rule.force t r).1
       let events := (rule.force t r).2
       let d := askDeclaring t c e.declaring
       let b := Alternate.queryAny t c e.bases
       if c.same t rule.target then { holds := true, rule }
       else if e.accessors.contains t c then { holds := true, rule := rule.keeping e, events }
       else if d.1 then
         { holds := true, rule := rule.keeping { e with declaring := d.2 }, events }
       else
         { holds := b.1 || (rule.config.base && !rule.target.isStatic &&
             hiddenBy t rule.target e.accessors c)
           rule := rule.keeping { e with declaring := d.2, bases := b.2 }, events }) := by
  rw [query]
  cases h : (rule.force t r).1.declaring with
  | none => rfl
  | some a => rfl

theorem holds_query : (rule.query t r c).holds = rule.admits t r c := by
  have hd := fst_askDeclaring t c (rule.force t r).1.declaring
  have hb := Alternate.fst_queryAny t c (rule.force t r).1.bases
  rw [query_eq, admits, Expansion.admits, ← hd, ← hb]
  dsimp only
  split_ifs with same accessor declaring
  · simp [same]
  · simp [accessor]
  · simp [declaring]
  · simp [same, accessor, declaring]

/-- A question leaves the rule as it was, up to what it has looked up. -/
theorem filled_rule_query : (rule.query t r c).rule.filled t r = rule.filled t r := by
  have hd := map_filled_snd_askDeclaring t c (rule.force t r).1.declaring
  have hb := Alternate.map_filled_snd_queryAny t c (rule.force t r).1.bases
  rw [query_eq]
  dsimp only
  split_ifs with same accessor declaring
  · rfl
  · exact filled_keeping t r rule rfl
  · exact filled_keeping t r rule (by simp [Expansion.filled, hd])
  · exact filled_keeping t r rule (by simp [Expansion.filled, hd, hb])

/-- What can be done with a rule: asking it, and looking at its expansion. -/
inductive Use
  | ask (candidate : Member)
  | expand

/-- The rule as a use leaves it. -/
def after : Use → Rule
  | .ask c => (rule.query t r c).rule
  | .expand => rule.keeping (rule.force t r).1

theorem filled_after (use : Use) : (rule.after t r use).filled t r = rule.filled t r := by
  cases use with
  | ask c => exact filled_rule_query t r rule c
  | expand => exact filled_keeping t r rule rfl

/-- The rule as uses one after the other leave it. -/
def afterAll (uses : List Use) : Rule := uses.foldl (after t r) rule

theorem filled_afterAll (uses : List Use) :
    (rule.afterAll t r uses).filled t r = rule.filled t r := by
  induction uses generalizing rule with
  | nil => rfl
  | cons use uses ih =>
    calc (rule.afterAll t r (use :: uses)).filled t r
      _ = ((rule.after t r use).afterAll t r uses).filled t r := rfl
      _ = (rule.after t r use).filled t r := ih _
      _ = rule.filled t r := filled_after t r rule use

/-- No use of a rule changes what it says about any candidate. -/
theorem holds_query_afterAll (uses : List Use) :
    ((rule.afterAll t r uses).query t r c).holds = rule.admits t r c := by
  rw [holds_query]
  exact admits_eq_of_filled_eq t r c (filled_afterAll t r rule uses)

end Rule

end Cil
