import Cil.Rule.Basic

/-!
# The members that base types contribute

The walk over base types keeps, of all members that the base types list under the name of the
target, those that are like the target and new: neither the target itself nor the same as one kept
before. Base types that do not list their members contribute none.
-/

namespace Cil.Rule

variable (t : TypeTable) (r : Resolver) (target : Member)

/-- The members that a type lists under the target's name, none if it fails to list them. -/
def listed (type : TypeDef) : List Member := (r.membersNamed type target.name).toOption.getD []

/-- All members that the first `depth` base types of a type list, nearest first. -/
def baseMembers (depth : Nat) (type : TypeId) : List Member :=
  ((t.ancestors type).take depth).flatMap (listed r target)

/-- The members of a list that are like the target and have none of the identities that are
`seen`, each identity once. -/
def kept : List Identity → List Member → List Member
  | _, [] => []
  | seen, m :: ms =>
    if target.sameSignature t m && !seen.contains (m.identity t) then
      m :: kept (m.identity t :: seen) ms
    else kept seen ms

namespace Gathering

/-- What is gathered, without the account of how it went. -/
def plain (g : Gathering) : Gathering := { seen := g.seen, found := g.found }

theorem plain_add (g : Gathering) (m : Member) :
    (g.add t target m).plain = g.plain.add t target m := by
  rw [add, add]
  change plain (if _ then _ else g) =
    if target.sameSignature t m && !g.seen.contains (m.identity t) then _ else g.plain
  split
  · rfl
  · rfl

/-- A base type that fails contributes nothing, and one that does not contributes what it lists. -/
theorem plain_visit (g : Gathering) (type : TypeDef) :
    (g.visit t r target type).plain = (listed r target type).foldl (add t target) g.plain := by
  cases h : r.membersNamed type target.name with
  | error fault =>
    have nothing : listed r target type = [] := by rw [listed, h]; rfl
    simp only [visit, h, nothing, plain, List.foldl_nil]
  | ok members =>
    have all : listed r target type = members := by rw [listed, h]; rfl
    simp only [visit, h, all]
    exact (List.foldl_hom plain fun g m => (plain_add t target g m).symm).symm

theorem plain_foldl_visit (g : Gathering) (types : List TypeDef) :
    (types.foldl (visit t r target) g).plain =
      (types.flatMap (listed r target)).foldl (add t target) g.plain := by
  induction types generalizing g with
  | nil => rfl
  | cons type types ih =>
    rw [List.foldl_cons, ih, plain_visit, List.flatMap_cons, List.foldl_append]

theorem found_foldl_add (g : Gathering) (ms : List Member) :
    (ms.foldl (add t target) g).found.toList = g.found.toList ++ kept t target g.seen ms := by
  induction ms generalizing g with
  | nil => simp [kept]
  | cons m ms ih =>
    rw [List.foldl_cons, ih, add, kept]
    split
    · simp
    · rfl

end Gathering

theorem found_gather (depth : Nat) (type : TypeId) :
    (gather t r target depth type).found.toList =
      kept t target [target.identity t] (baseMembers t r target depth type) := by
  have h := Gathering.plain_foldl_visit t r target { seen := [target.identity t] }
    ((t.ancestors type).take depth)
  have found := congrArg (fun g => g.found.toList) h
  rw [Gathering.found_foldl_add] at found
  exact found

/-- The members before `m` that are like the target are all different from it. -/
def NoneLike (m : Member) (before : List Member) : Prop :=
  ∀ n ∈ before, target.sameSignature t n = true → n.identity t ≠ m.identity t

theorem exists_noneLike_cons_iff {m n : Member} {ms : List Member} :
    (∃ before after, n :: ms = before ++ m :: after ∧ NoneLike t target m before) ↔
      n = m ∨ (target.sameSignature t n = true → n.identity t ≠ m.identity t) ∧
        ∃ before after, ms = before ++ m :: after ∧ NoneLike t target m before := by
  constructor
  · rintro ⟨before, after, split, unlike⟩
    cases before with
    | nil => exact .inl (List.cons.inj split).1
    | cons n' before =>
      obtain ⟨rfl, rfl⟩ := List.cons.inj split
      have unlike' := List.forall_mem_cons.1 unlike
      exact .inr ⟨unlike'.1, before, after, rfl, unlike'.2⟩
  · rintro (rfl | ⟨unlike, before, after, rfl, unlike'⟩)
    · exact ⟨[], ms, rfl, fun _ h => absurd h List.not_mem_nil⟩
    · exact ⟨n :: before, after, rfl, List.forall_mem_cons.2 ⟨unlike, unlike'⟩⟩

/-- A member is kept where it is the first of its identity among those like the target. -/
theorem mem_kept_iff {seen : List Identity} {ms : List Member} {m : Member} :
    m ∈ kept t target seen ms ↔
      target.sameSignature t m = true ∧ m.identity t ∉ seen ∧
        ∃ before after, ms = before ++ m :: after ∧ NoneLike t target m before := by
  induction ms generalizing seen with
  | nil => simp [kept]
  | cons n ms ih =>
    rw [exists_noneLike_cons_iff, kept]
    split
    next h =>
      rw [Bool.and_eq_true, Bool.not_eq_true', List.contains_eq_mem, decide_eq_false_iff_not] at h
      rw [List.mem_cons, ih, List.mem_cons]
      grind
    next h =>
      rw [Bool.and_eq_true, Bool.not_eq_true', List.contains_eq_mem, decide_eq_false_iff_not] at h
      rw [ih]
      grind

/-- Of every identity that is new, a member is kept. -/
theorem exists_mem_kept {seen : List Identity} {ms : List Member} {x : Member} (mem : x ∈ ms)
    (like : target.sameSignature t x = true) (new : x.identity t ∉ seen) :
    ∃ m ∈ kept t target seen ms, m.identity t = x.identity t := by
  induction ms generalizing seen with
  | nil => exact absurd mem List.not_mem_nil
  | cons n ms ih =>
    rw [kept]
    by_cases taken : (target.sameSignature t n && !seen.contains (n.identity t)) = true
    · rw [if_pos taken]
      by_cases same : n.identity t = x.identity t
      · exact ⟨n, List.mem_cons_self, same⟩
      · have later : x ∈ ms := by
          rcases List.mem_cons.1 mem with rfl | later
          · exact absurd rfl same
          · exact later
        have new' : x.identity t ∉ n.identity t :: seen := by
          simp [new, Ne.symm same]
        obtain ⟨m, hm, alike⟩ := ih later new'
        exact ⟨m, List.mem_cons_of_mem _ hm, alike⟩
    · rw [if_neg taken]
      rcases List.mem_cons.1 mem with rfl | later
      · exact (taken (by simp [like, new])).elim
      · exact ih later new

theorem mem_baseMembers_iff {depth : Nat} {type : TypeId} {m : Member} :
    m ∈ baseMembers t r target depth type ↔
      ∃ ancestor ∈ (t.ancestors type).take depth, ∃ members,
        r.membersNamed ancestor target.name = .ok members ∧ m ∈ members := by
  rw [baseMembers, List.mem_flatMap]
  refine exists_congr fun ancestor => and_congr_right fun _ => ?_
  rw [listed]
  cases r.membersNamed ancestor target.name with
  | error fault => simp [Except.toOption]
  | ok members => simp [Except.toOption]

/-- A base type among the first `depth` of the target's declaring type lists `m`, which is like the
target but not the target; `m` is the first such member of its identity. -/
structure Inherits (depth : Nat) (m : Member) : Prop where
  like : target.sameSignature t m = true
  other : m.identity t ≠ target.identity t
  first : ∃ d, target.declaringDef? t = some d ∧
    ∃ before after, baseMembers t r target depth d.id = before ++ m :: after ∧
      NoneLike t target m before

/-- The members that the base types of the target's declaring type contribute. -/
def inherited (depth : Nat) : List Member :=
  match target.declaringDef? t with
  | none => []
  | some d => kept t target [target.identity t] (baseMembers t r target depth d.id)

theorem mem_inherited_iff (depth : Nat) (m : Member) :
    m ∈ inherited t r target depth ↔ Inherits t r target depth m := by
  rw [inherited]
  split
  next declares =>
    refine ⟨fun mem => absurd mem List.not_mem_nil, ?_⟩
    rintro ⟨_, _, d, declares', _⟩
    exact nomatch declares.symm.trans declares'
  next d declares =>
    rw [mem_kept_iff, List.mem_singleton]
    constructor
    · rintro ⟨like, other, first⟩
      exact ⟨like, other, d, declares, first⟩
    · rintro ⟨like, other, d', declares', first⟩
      obtain rfl := Option.some.inj (declares.symm.trans declares')
      exact ⟨like, other, first⟩

end Cil.Rule
