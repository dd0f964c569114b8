import Cil.Proofs.Rule.Meaning
import Cil.Proofs.Types.Chains

/-!
# How the members of base types are collected

A rule with base matching visits so many base types of the type that declares its target. Of the
members that these list under the target's name it keeps those that are alike, leaves the target out
and takes each identity once, in order. A base type that fails to list its members is counted and
contributes nothing, and does not affect what the others contribute.
-/

namespace Cil

namespace Member

/-- Same kind and, of methods, the same shape. -/
def alike (t : TypeTable) (a b : Member) : Bool :=
  a.kind == b.kind &&
    match a, b with
    | .method m, .method n => m.sameShape t n
    | _, _ => true

theorem sameSignature_eq (t : TypeTable) (a b : Member) :
    a.sameSignature t b = (a.alike t b && b.name == a.name) := by
  have names : (a.name == b.name) = (b.name == a.name) := BEq.comm
  unfold sameSignature alike
  rw [names]
  exact Bool.and_right_comm _ _ _

end Member

/-- The first types on a chain of bases are the start of a longer walk. -/
theorem TypeTable.take_basesWithin (t : TypeTable) (m n : Nat) (id : TypeId) :
    (t.basesWithin n id).take m = t.basesWithin (min m n) id := by
  induction n generalizing m id with
  | zero => simp [basesWithin]
  | succ n ih =>
    cases m with
    | zero => simp [basesWithin]
    | succ m =>
      rw [Nat.succ_min_succ, basesWithin, basesWithin]
      cases t.base? id with
      | none => rfl
      | some b => simp [ih]

namespace Rule

variable (t : TypeTable) (r : Resolver) (target : Member)

/-- The base types that a walk from a type visits, nearest first. -/
def visited (depth : Nat) (type : TypeId) : List TypeDef :=
  t.basesWithin (min depth TypeTable.maxDepth) type

/-- Whether a type fails to list its members under the target's name. -/
def fails (type : TypeDef) : Bool := !(r.membersNamed type target.name).isOk

/-- The members that a type lists and that bear the target's name; none if it fails. -/
def namesakes (type : TypeDef) : List Member :=
  match r.membersNamed type target.name with
  | .ok members => members.filter fun m => m.name == target.name
  | .error _ => []

/-- What is collected from types: the members under the target's name that are alike but not the
target, each identity once. -/
def collected (types : List TypeDef) : List Member :=
  ((types.flatMap (namesakes r target)).filter fun m =>
    target.alike t m && !m.same t target).eraseDupsBy (Member.same t)

/-! ## What is kept -/

theorem kept_eq_eraseDupsBy (seen : List Identity) (ms : List Member) :
    kept t target seen ms =
      (ms.filter fun m => target.sameSignature t m && !seen.contains (m.identity t)).eraseDupsBy
        (Member.same t) := by
  induction ms generalizing seen with
  | nil => rfl
  | cons m ms ih =>
    rw [kept]
    by_cases new : (target.sameSignature t m && !seen.contains (m.identity t)) = true
    · rw [if_pos new, List.filter_cons, if_pos new, List.eraseDupsBy_cons, ih, List.filter_filter]
      congr 2
      apply List.filter_congr
      intro n _
      by_cases same : n.identity t = m.identity t
      · simp [Member.same, same]
      · simp [Member.same, same]
    · rw [if_neg new, List.filter_cons, if_neg new, ih]

theorem nodup_identity_kept (seen : List Identity) (ms : List Member) :
    ((kept t target seen ms).map (Member.identity t)).Nodup := by
  induction ms generalizing seen with
  | nil => exact List.nodup_nil
  | cons m ms ih =>
    rw [kept]
    split
    · rw [List.map_cons, List.nodup_cons]
      refine ⟨fun again => ?_, ih _⟩
      obtain ⟨n, hn, same⟩ := List.mem_map.1 again
      obtain ⟨-, new, -⟩ := (mem_kept_iff t target).1 hn
      exact new (same ▸ List.mem_cons_self)
    · exact ih seen

/-- Members of other names are not like the target, so only namesakes matter. -/
theorem filter_listed (p : Member → Bool) (type : TypeDef) :
    (listed r target type).filter (fun m => target.sameSignature t m && p m) =
      (namesakes r target type).filter fun m => target.alike t m && p m := by
  rw [listed, namesakes]
  cases r.membersNamed type target.name with
  | error fault => rfl
  | ok members =>
    show members.filter _ = _
    rw [List.filter_filter]
    apply List.filter_congr
    intro m _
    rw [Member.sameSignature_eq, Bool.and_right_comm]

theorem kept_baseMembers (depth : Nat) (type : TypeId) :
    kept t target [target.identity t] (baseMembers t r target depth type) =
      collected t r target (visited t depth type) := by
  have other (m : Member) :
      [target.identity t].contains (m.identity t) = m.same t target := by
    rw [List.contains_cons, List.contains_nil, Bool.or_false, Member.same]
  rw [kept_eq_eraseDupsBy, collected, baseMembers, visited, TypeTable.ancestors,
    TypeTable.take_basesWithin]
  simp only [List.filter_flatMap, other, filter_listed]

/-! ## What fails -/

namespace Gathering

theorem failures_foldl_add (g : Gathering) (ms : List Member) :
    (ms.foldl (add t target) g).failures = g.failures := by
  induction ms generalizing g with
  | nil => rfl
  | cons m ms ih =>
    rw [List.foldl_cons, ih, add]
    split
    · rfl
    · rfl

theorem failures_visit (g : Gathering) (type : TypeDef) :
    (g.visit t r target type).failures = g.failures + if fails r target type then 1 else 0 := by
  rw [visit, fails]
  cases r.membersNamed type target.name with
  | ok members => exact failures_foldl_add t target g members
  | error fault => rfl

theorem failures_foldl_visit (g : Gathering) (types : List TypeDef) :
    (types.foldl (visit t r target) g).failures = g.failures + types.countP (fails r target) := by
  induction types generalizing g with
  | nil => rfl
  | cons type types ih =>
    rw [List.foldl_cons, ih, failures_visit, List.countP_cons, Nat.add_assoc, Nat.add_comm (ite ..)]

end Gathering

theorem failures_gather (depth : Nat) (type : TypeId) :
    (gather t r target depth type).failures =
      (visited t depth type).countP (fails r target) := by
  rw [gather, Gathering.failures_foldl_visit, TypeTable.ancestors, TypeTable.take_basesWithin,
    visited]
  exact Nat.zero_add _

/-! ## The whole walk -/

variable (config : MatchConfig)

theorem expand_of_requested {d : TypeDef} (nonstatic : target.isStatic = false)
    (on : config.base = true) (declares : target.declaringDef? t = some d) :
    (({ target, config } : Rule).expand t r).1.bases =
        (collected t r target (visited t config.depth d.id)).map (fun m => { member := m }) ∧
      (({ target, config } : Rule).expand t r).1.walk =
        if (visited t config.depth d.id).countP (fails r target) = 0 then .complete
        else .incomplete ((visited t config.depth d.id).countP (fails r target)) := by
  rw [← kept_baseMembers, ← found_gather, ← failures_gather]
  simp [expand, nonstatic, on, declares]

theorem expand_of_not_requested (not : ¬ (target.isStatic = false ∧ config.base = true ∧
      ∃ d, target.declaringDef? t = some d)) :
    (({ target, config } : Rule).expand t r).1.bases = [] ∧
      (({ target, config } : Rule).expand t r).1.walk = .notRequested := by
  simp only [expand]
  split
  · exact ⟨rfl, rfl⟩
  next nonstatic =>
    split
    next d declares =>
      split
      next on => exact absurd ⟨by simpa using nonstatic, on, d, declares⟩ not
      · exact ⟨rfl, rfl⟩
    · exact ⟨rfl, rfl⟩

/-- A rule that collects takes from the base types that it visits what is alike, new and not the
target, and counts those that fail; any other rule collects nothing and visits none. -/
theorem force_collects (t : TypeTable) (r : Resolver) (target : Member) (config : MatchConfig) :
    let e := (({ target, config } : Rule).force t r).1
    (∀ d, target.isStatic = false → config.base = true → target.declaringDef? t = some d →
      e.bases.map Alternate.member = collected t r target (visited t config.depth d.id) ∧
      (e.bases.map fun a => a.member.identity t).Nodup ∧
      (∀ a ∈ e.bases, a.member.identity t ≠ target.identity t) ∧
      (e.walk = .complete ↔
        ∀ type ∈ visited t config.depth d.id, fails r target type = false) ∧
      ∀ n, e.walk = .incomplete n ↔
        0 < n ∧ n = (visited t config.depth d.id).countP (fails r target)) ∧
    (¬ (target.isStatic = false ∧ config.base = true ∧ ∃ d, target.declaringDef? t = some d) →
      e.bases = [] ∧ e.walk = .notRequested) := by
  intro e
  refine ⟨?_, expand_of_not_requested t r target config⟩
  intro d nonstatic on declares
  obtain ⟨bases, walk⟩ : e.bases = _ ∧ e.walk = _ :=
    expand_of_requested t r target config nonstatic on declares
  rw [bases, walk]
  generalize failing : (visited t config.depth d.id).countP (fails r target) = failures
  have complete : failures = 0 ↔
      ∀ type ∈ visited t config.depth d.id, fails r target type = false := by
    rw [← failing, List.countP_eq_zero]
    simp
  refine ⟨?_, ?_, ?_, ?_, ?_⟩
  · rw [List.map_map]
    exact List.map_id _
  · rw [← kept_baseMembers, List.map_map]
    exact nodup_identity_kept t target _ _
  · intro a ha
    obtain ⟨m, hm, rfl⟩ := List.mem_map.1 ha
    rw [← kept_baseMembers] at hm
    obtain ⟨-, new, -⟩ := (mem_kept_iff t target).1 hm
    exact fun same => new (List.mem_singleton.2 same)
  · rw [← complete]
    by_cases none : failures = 0
    · simp [none]
    · simp [none]
  · intro n
    by_cases none : failures = 0
    · simp only [none, if_true, reduceCtorEq, false_iff]
      omega
    · rw [if_neg none, Walk.incomplete.injEq]
      omega

namespace Layers

def top : TypeDef := ⟨⟨0⟩, ⟨0x02000001⟩, "", "Top", 0⟩
def middle : TypeDef := ⟨⟨1⟩, ⟨0x02000002⟩, "", "Middle", 0⟩
def closed : TypeDef := ⟨⟨2⟩, ⟨0x02000003⟩, "", "Closed", 0⟩
def bottom : TypeDef := ⟨⟨3⟩, ⟨0x02000004⟩, "", "Bottom", 0⟩

/-- A method `Run` of a type. -/
def run (token : Token) (type : TypeDef) (params : Array Param) : Method :=
  ⟨token, "Run", type.id, type.id, ⟨0x40⟩, params⟩

def ofBottom : Method := run ⟨0x06000001⟩ bottom #[]
def ofMiddle : Method := run ⟨0x06000002⟩ middle #[]
def ofClosed : Method := run ⟨0x06000003⟩ closed #[]
def ofTop : Method := run ⟨0x06000004⟩ top #[]
def otherShape : Method := run ⟨0x06000005⟩ top #[⟨0, "times", top.id, false⟩]

/-- Three base types, of which the farthest also lists the target and the method of the nearest. -/
def types : TypeTable :=
  ⟨#[some { head := top, methods := #[ofBottom, otherShape, ofMiddle, ofTop] },
    some { head := middle, base := some closed.id, methods := #[ofMiddle] },
    some { head := closed, base := some top.id, methods := #[ofClosed] },
    some { head := bottom, base := some middle.id, methods := #[ofBottom] }]⟩

/-- The type between the nearest and the farthest fails. -/
def resolver : Resolver where
  member token _ := .error (.unresolved token .noMember)
  string token := .error (.unresolved token .noString)
  signature token := .error (.unresolved token .noSignature)
  membersNamed type name :=
    if type = closed then .error (.unresolved type.token (.membersUnavailable type.fullName))
    else .ok (types.membersNamed type.id name)

end Layers

open Layers in
/-- The failing type hides its own member only, and what the farthest lists once more is left out. -/
theorem force_collects_layers :
    let e := (({ target := .method ofBottom, config := .baseMembers } : Rule).force types resolver).1
    (Member.method ofBottom).isStatic = false ∧ MatchConfig.baseMembers.base = true ∧
      (Member.method ofBottom).declaringDef? types = some bottom ∧
      e.bases.map Alternate.member = [.method ofMiddle, .method ofTop] ∧
      e.walk = .incomplete 1 := by
  intro e
  have nonstatic : (Member.method ofBottom).isStatic = false := by decide
  have declares : (Member.method ofBottom).declaringDef? types = some bottom := by decide
  obtain ⟨collects, -⟩ := force_collects types resolver (.method ofBottom) .baseMembers
  obtain ⟨bases, -, -, -, incomplete⟩ := collects bottom nonstatic rfl declares
  refine ⟨nonstatic, rfl, declares, ?_, ?_⟩
  · rw [bases]
    decide +kernel
  · exact (incomplete 1).2 (by decide +kernel)

end Rule

end Cil
