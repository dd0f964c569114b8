import Cil.Proofs.Search.Following
import Mathlib.Data.List.Forall2
import Mathlib.Tactic.ByContra

/-!
# Searches for several rules

Searches of one body follow the same trail and differ only in how far they follow it. So a search
for any or for all of several rules answers what follows from the searches for each rule alone,
also where some of these come to the fault at the end of the trail and others stop before it. The
order of the rules and repetitions make no difference, and neither does what a search leaves the
rules with.
-/

namespace Cil

/-- The members that a search of a body comes across if nothing stops it. -/
def Context.sighted (t : TypeTable) (ctx : Context) : List Member :=
  (Trail.ofContext t ctx).sightings.filterMap Sighting.member?

namespace Search

variable (t : TypeTable) (ctx : Context)

/-- What the search for a single rule answers. -/
def single (rule : Rule) : Except Fault Bool := (run t ctx .single [rule]).answer

/-- Whether a rule is hit by something in a body. -/
def Hit (rule : Rule) : Prop :=
  ∃ c ∈ ctx.sighted t, (rule.query t ctx.resolver c).holds = true

variable {t ctx}

theorem ending_ne_true (fault : Option Fault) : ending fault ≠ .ok true := by
  cases fault <;> nofun

/-- A search says yes exactly if the body satisfies its rules. -/
theorem answer_run_eq_true_iff (mode : SearchMode) {rules : List Rule} (nonempty : rules ≠ [])
    (one : mode = .single → rules.length = 1) :
    (run t ctx mode rules).answer = .ok true ↔
      mode.Satisfied t ctx.resolver rules (ctx.sighted t) := by
  obtain ⟨yes, no⟩ := answer_run t ctx nonempty one
  refine ⟨fun answer => ?_, yes⟩
  by_contra unsatisfied
  rw [no unsatisfied] at answer
  exact ending_ne_true _ answer

/-- Any other answer is what the trail ends with. -/
theorem answer_run_eq_iff_of_ne_true (mode : SearchMode) {rules : List Rule}
    (nonempty : rules ≠ []) (one : mode = .single → rules.length = 1) {a : Except Fault Bool}
    (other : a ≠ .ok true) :
    (run t ctx mode rules).answer = a ↔
      ¬ mode.Satisfied t ctx.resolver rules (ctx.sighted t) ∧
        ending (Trail.ofContext t ctx).fault = a := by
  obtain ⟨yes, no⟩ := answer_run t ctx nonempty one
  constructor
  · rintro rfl
    have unsatisfied : ¬ mode.Satisfied t ctx.resolver rules (ctx.sighted t) :=
      fun satisfied => other (yes satisfied)
    exact ⟨unsatisfied, (no unsatisfied).symm⟩
  · rintro ⟨unsatisfied, rfl⟩
    exact no unsatisfied

theorem satisfied_single_iff {rule : Rule} :
    SearchMode.single.Satisfied t ctx.resolver [rule] (ctx.sighted t) ↔ Hit t ctx rule := by
  simp [SearchMode.Satisfied, Hit]

theorem single_eq_true_iff {rule : Rule} : single t ctx rule = .ok true ↔ Hit t ctx rule := by
  rw [← satisfied_single_iff]
  exact answer_run_eq_true_iff .single (List.cons_ne_nil _ _) fun _ => rfl

theorem single_eq_iff_of_ne_true {rule : Rule} {a : Except Fault Bool} (other : a ≠ .ok true) :
    single t ctx rule = a ↔ ¬ Hit t ctx rule ∧ ending (Trail.ofContext t ctx).fault = a := by
  rw [← satisfied_single_iff]
  exact answer_run_eq_iff_of_ne_true .single (List.cons_ne_nil _ _) (fun _ => rfl) other

theorem answer_run_all_eq_true_iff {rules : List Rule} :
    (run t ctx .all rules).answer = .ok true ↔
      ∀ rule ∈ rules, single t ctx rule = .ok true := by
  simp only [single_eq_true_iff]
  by_cases nonempty : rules = []
  · subst nonempty
    exact iff_of_true rfl (by simp)
  · exact answer_run_eq_true_iff .all nonempty nofun

theorem answer_run_any_eq_true_iff {rules : List Rule} :
    (run t ctx .any rules).answer = .ok true ↔
      ∃ rule ∈ rules, single t ctx rule = .ok true := by
  simp only [single_eq_true_iff]
  by_cases nonempty : rules = []
  · subst nonempty
    exact iff_of_false nofun (by simp)
  · exact answer_run_eq_true_iff .any nonempty nofun

/-- A search for all rules gives another answer than yes exactly if that of one of them does. -/
theorem answer_run_all_eq_iff_of_ne_true {rules : List Rule} (nonempty : rules ≠ [])
    {a : Except Fault Bool} (other : a ≠ .ok true) :
    (run t ctx .all rules).answer = a ↔ ∃ rule ∈ rules, single t ctx rule = a := by
  rw [answer_run_eq_iff_of_ne_true .all nonempty nofun other]
  constructor
  · rintro ⟨unsatisfied, ends⟩
    obtain ⟨rule, hrule, miss⟩ : ∃ rule, ∃ _ : rule ∈ rules, ¬ Hit t ctx rule :=
      not_forall₂.1 unsatisfied
    exact ⟨rule, hrule, (single_eq_iff_of_ne_true other).2 ⟨miss, ends⟩⟩
  · rintro ⟨rule, hrule, answer⟩
    obtain ⟨miss, ends⟩ := (single_eq_iff_of_ne_true other).1 answer
    exact ⟨fun satisfied => miss (satisfied rule hrule), ends⟩

/-- A search for all rules says no exactly if neither every one says yes nor one comes to a
fault. -/
theorem answer_run_all_eq_false_iff {rules : List Rule} (nonempty : rules ≠ []) :
    (run t ctx .all rules).answer = .ok false ↔
      (¬ ∀ rule ∈ rules, single t ctx rule = .ok true) ∧
        ∀ rule ∈ rules, ∀ fault, single t ctx rule ≠ .error fault := by
  rw [← answer_run_all_eq_true_iff]
  have faults (fault : Fault) : (run t ctx .all rules).answer = .error fault ↔
      ∃ rule ∈ rules, single t ctx rule = .error fault :=
    answer_run_all_eq_iff_of_ne_true nonempty nofun
  constructor
  · intro answer
    refine ⟨by rw [answer]; nofun, fun rule hrule fault single => ?_⟩
    have failed := (faults fault).2 ⟨rule, hrule, single⟩
    rw [answer] at failed
    cases failed
  · rintro ⟨unsatisfied, faultless⟩
    cases answer : (run t ctx .all rules).answer with
    | ok b => cases b with
      | true => exact absurd answer unsatisfied
      | false => rfl
    | error fault =>
      obtain ⟨rule, hrule, single⟩ := (faults fault).1 answer
      exact absurd single (faultless rule hrule fault)

/-- A search for any rule gives another answer than yes exactly if those of all of them do. -/
theorem answer_run_any_eq_iff_of_ne_true {rules : List Rule} (nonempty : rules ≠ [])
    {a : Except Fault Bool} (other : a ≠ .ok true) :
    (run t ctx .any rules).answer = a ↔ ∀ rule ∈ rules, single t ctx rule = a := by
  rw [answer_run_eq_iff_of_ne_true .any nonempty nofun other]
  constructor
  · rintro ⟨unsatisfied, ends⟩ rule hrule
    refine (single_eq_iff_of_ne_true other).2 ⟨fun hit => ?_, ends⟩
    exact unsatisfied ⟨rule, hrule, hit⟩
  · intro answers
    obtain ⟨first, hfirst⟩ := List.exists_mem_of_ne_nil rules nonempty
    refine ⟨?_, ((single_eq_iff_of_ne_true other).1 (answers first hfirst)).2⟩
    rintro ⟨rule, hrule, hit⟩
    exact ((single_eq_iff_of_ne_true other).1 (answers rule hrule)).1 hit

/-- Searches whose rules are satisfied by the same candidates give the same answer. -/
theorem answer_run_congr {mode : SearchMode} {rules rules' : List Rule} (nonempty : rules ≠ [])
    (nonempty' : rules' ≠ []) (one : mode = .single → rules.length = 1)
    (one' : mode = .single → rules'.length = 1)
    (alike : mode.Satisfied t ctx.resolver rules' (ctx.sighted t) ↔
      mode.Satisfied t ctx.resolver rules (ctx.sighted t)) :
    (run t ctx mode rules').answer = (run t ctx mode rules).answer := by
  obtain ⟨yes, no⟩ := answer_run t ctx nonempty one
  obtain ⟨yes', no'⟩ := answer_run t ctx nonempty' one'
  by_cases satisfied : mode.Satisfied t ctx.resolver rules (ctx.sighted t)
  · rw [yes satisfied, yes' (alike.2 satisfied)]
  · rw [no satisfied, no' (fun satisfied' => satisfied (alike.1 satisfied'))]

/-- Only which rules there are matters to a search for several. -/
theorem answer_run_eq_of_mem_iff (mode : SearchMode) (several : mode ≠ .single)
    {rules rules' : List Rule} (same : ∀ rule, rule ∈ rules' ↔ rule ∈ rules) :
    (run t ctx mode rules').answer = (run t ctx mode rules).answer := by
  by_cases none : rules = []
  · subst none
    obtain rfl : rules' = [] := List.eq_nil_iff_forall_not_mem.2 fun rule hrule =>
      nomatch (same rule).1 hrule
    rfl
  · have none' : rules' ≠ [] := by
      obtain ⟨rule, hrule⟩ := List.exists_mem_of_ne_nil rules none
      exact List.ne_nil_of_mem ((same rule).2 hrule)
    refine answer_run_congr none none' (absurd · several) (absurd · several) ?_
    cases mode <;> simp only [SearchMode.Satisfied, same]

/-- Rules that agree once everything is looked up are searched for with the same answer. -/
theorem single_eq_of_filled_eq {rule rule' : Rule}
    (agree : rule.filled t ctx.resolver = rule'.filled t ctx.resolver) :
    single t ctx rule' = single t ctx rule := by
  refine answer_run_congr (List.cons_ne_nil _ _) (List.cons_ne_nil _ _) (fun _ => rfl)
    (fun _ => rfl) ?_
  simp only [satisfied_single_iff, Hit, Rule.holds_query,
    Rule.admits_eq_of_filled_eq t ctx.resolver _ agree]

section Memory

variable {r : Resolver} {mode : SearchMode}

/-- Asking about a candidate leaves the rules as they were, up to what they have looked up. -/
theorem map_filled_record (c : Member) (remaining : Nat) (quarries : List Quarry) :
    (record t r mode c remaining quarries).quarries.map (·.rule.filled t r) =
      quarries.map (·.rule.filled t r) := by
  induction quarries generalizing remaining with
  | nil => rfl
  | cons q qs ih =>
    have asked : (q.asked t r c).rule.filled t r = q.rule.filled t r := by
      rw [Quarry.asked]
      split
      · rfl
      · exact Rule.filled_rule_query t r q.rule c
    rcases record_cons t r mode c remaining q qs with ⟨_, hrecord, -⟩ | ⟨_, hrecord, -⟩
    · rw [hrecord, List.map_cons, List.map_cons, asked]
    · rw [hrecord, List.map_cons, List.map_cons, asked, ih]

variable (t r mode) in
/-- Whether a search goes on or ends at a sighting, its rules are still the same. -/
theorem map_filled_see (p : Pursuit) (s : Sighting) :
    (∀ outcome, p.see t r mode s = .error outcome →
      outcome.rules.map (·.filled t r) = p.quarries.map (·.rule.filled t r)) ∧
    ∀ p', p.see t r mode s = .ok p' →
      p'.quarries.map (·.rule.filled t r) = p.quarries.map (·.rule.filled t r) := by
  cases s with
  | lost offset name fault =>
    refine ⟨fun outcome ended => ?_, fun p' seen => ?_⟩
    · cases ended
    · cases seen
      rfl
  | reference offset m | landing offset m =>
    rw [Pursuit.see, Pursuit.ask_eq]
    split
    · refine ⟨fun outcome ended => ?_, fun p' asked => ?_⟩
      · cases ended
        exact List.map_map.trans (map_filled_record _ _ _)
      · cases asked
    · refine ⟨fun outcome ended => ?_, fun p' asked => ?_⟩
      · cases ended
      · cases asked
        exact map_filled_record _ _ _

/-- So does following a trail. -/
theorem map_filled_follow (trail : Trail) (p : Pursuit) :
    (follow t r mode trail p).rules.map (·.filled t r) = p.quarries.map (·.rule.filled t r) := by
  obtain ⟨sightings, fault⟩ := trail
  induction sightings generalizing p with
  | nil => exact List.map_map
  | cons s rest ih =>
    obtain ⟨ends, goes⟩ := map_filled_see t r mode p s
    rw [follow_cons]
    split
    · next outcome ended => exact ends outcome ended
    · next p' seen => rw [ih, goes p' seen]

theorem map_filled_run (mode : SearchMode) (rules : List Rule) :
    (run t ctx mode rules).rules.map (·.filled t ctx.resolver) =
      rules.map (·.filled t ctx.resolver) := by
  rcases run_blind_or t mode rules with ⟨answer, blind⟩ | ⟨nonempty, one⟩
  · rw [blind]
  · rw [run_eq_follow t ctx nonempty one, map_filled_follow, Pursuit.start, List.map_map]
    rfl

end Memory

/-- The rules that a search leaves behind are searched for with the same answers as before. -/
theorem single_rules_run (mode : SearchMode) (rules : List Rule) :
    List.Forall₂ (fun rule left => single t ctx left = single t ctx rule) rules
      (run t ctx mode rules).rules := by
  have agree : List.Forall₂ (fun rule left =>
      rule.filled t ctx.resolver = left.filled t ctx.resolver) rules
        (run t ctx mode rules).rules := by
    rw [← List.forall₂_map_right_iff, ← List.forall₂_map_left_iff, List.forall₂_eq_eq_eq]
    exact (map_filled_run mode rules).symm
  exact agree.imp fun rule left => single_eq_of_filled_eq

/-- Searches for several rules come to what the searches for each of them alone come to: for all
rules a yes if every one says yes, a fault if one comes to it, and else a no; for any rule a yes if
one says yes and a fault if every one comes to it. Order and repetition make no difference, and the
rules that a search leaves behind still give the same answers. A search tells that every rule was
hit by a counter, and wherever it comes, this is the number of rules that were not. -/
theorem run_decomposes (t : TypeTable) (ctx : Context) (rules : List Rule) :
    ((run t ctx .all rules).answer = .ok true ↔
      ∀ rule ∈ rules, single t ctx rule = .ok true) ∧
    (rules ≠ [] →
      (∀ fault, (run t ctx .all rules).answer = .error fault ↔
        ∃ rule ∈ rules, single t ctx rule = .error fault) ∧
      ((run t ctx .all rules).answer = .ok false ↔
        (¬ ∀ rule ∈ rules, single t ctx rule = .ok true) ∧
          ∀ rule ∈ rules, ∀ fault, single t ctx rule ≠ .error fault)) ∧
    ((run t ctx .any rules).answer = .ok true ↔
      ∃ rule ∈ rules, single t ctx rule = .ok true) ∧
    (rules ≠ [] → ∀ fault, (run t ctx .any rules).answer = .error fault ↔
      ∀ rule ∈ rules, single t ctx rule = .error fault) ∧
    (∀ rules', (∀ rule, rule ∈ rules' ↔ rule ∈ rules) →
      (run t ctx .all rules').answer = (run t ctx .all rules).answer ∧
      (run t ctx .any rules').answer = (run t ctx .any rules).answer) ∧
    (∀ mode, List.Forall₂ (fun rule left => single t ctx left = single t ctx rule) rules
      (run t ctx mode rules).rules) ∧
    ∀ mode p c, Reached t ctx mode rules p c → p.remaining = unhit p.quarries := by
  refine ⟨answer_run_all_eq_true_iff, fun nonempty => ⟨fun fault => ?_, ?_⟩,
    answer_run_any_eq_true_iff, fun nonempty fault => ?_, fun rules' same => ⟨?_, ?_⟩,
    fun mode => single_rules_run mode rules, fun mode p c reached => reached.counted⟩
  · exact answer_run_all_eq_iff_of_ne_true nonempty nofun
  · exact answer_run_all_eq_false_iff nonempty
  · exact answer_run_any_eq_iff_of_ne_true nonempty nofun
  · exact answer_run_eq_of_mem_iff .all nofun same
  · exact answer_run_eq_of_mem_iff .any nofun same

namespace CutShort

/-- A method that the body calls. -/
def called : Method := ⟨⟨0x06000001⟩, "Add", ⟨0⟩, ⟨0⟩, ⟨0x10⟩, #[]⟩

/-- A method that it does not call. -/
def missing : Method := ⟨⟨0x06000002⟩, "Clear", ⟨0⟩, ⟨0⟩, ⟨0x10⟩, #[]⟩

def types : TypeTable :=
  ⟨#[some { head := ⟨⟨0⟩, ⟨0x02000001⟩, "", "Counter", 0⟩, methods := #[called, missing] }]⟩

/-- A call, and behind it a byte that is no opcode. -/
def body : Context where
  code := [0x28, 0x01, 0x00, 0x00, 0x06, 0x24]
  resolver :=
    { member := fun token _ =>
        if token = ⟨0x06000001⟩ then .ok (.method called) else .error (.unresolved token .noMember)
      string := fun token => .error (.unresolved token .noString)
      signature := fun token => .error (.unresolved token .noSignature)
      membersNamed := fun type name => .ok (types.membersNamed type.id name) }

/-- A rule that is hit before the fault. -/
def hit : Rule := { target := .method called, config := .exact }

/-- A rule that is not hit. -/
def miss : Rule := { target := .method missing, config := .exact }

end CutShort

theorem run_decomposes_cutShort :
    [CutShort.hit, CutShort.miss] ≠ [] ∧
      single CutShort.types CutShort.body CutShort.hit = .ok true ∧
      single CutShort.types CutShort.body CutShort.miss = .error (.unknownOpcode 5 0x24) ∧
      (run CutShort.types CutShort.body .any [CutShort.hit, CutShort.miss]).answer = .ok true ∧
      (run CutShort.types CutShort.body .all [CutShort.hit, CutShort.miss]).answer =
        .error (.unknownOpcode 5 0x24) ∧
      (run CutShort.types CutShort.body .all [CutShort.miss, CutShort.hit, CutShort.miss]).answer =
        .error (.unknownOpcode 5 0x24) := by
  have hit : single CutShort.types CutShort.body CutShort.hit = .ok true := by decide +kernel
  have miss :
      single CutShort.types CutShort.body CutShort.miss = .error (.unknownOpcode 5 0x24) := by
    decide +kernel
  have nonempty : [CutShort.hit, CutShort.miss] ≠ [] := List.cons_ne_nil _ _
  obtain ⟨-, all, any, -, reordered, -⟩ :=
    run_decomposes CutShort.types CutShort.body [CutShort.hit, CutShort.miss]
  have failed := ((all nonempty).1 (.unknownOpcode 5 0x24)).2 ⟨_, by simp, miss⟩
  refine ⟨nonempty, hit, miss, any.2 ⟨_, by simp, hit⟩, failed, ?_⟩
  rw [(reordered [CutShort.miss, CutShort.hit, CutShort.miss] (by simp [or_comm])).1, failed]

end Search

end Cil
