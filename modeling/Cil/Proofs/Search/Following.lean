import Cil.Proofs.Rule.Memory
import Cil.Proofs.Search.Walking

/-!
# Following a trail

A search stops as soon as its outcome is known and asks no rule that was hit, and the rules change
while they are asked. Whether all rules were hit it tells by a counter. It always counts the rules
that are still to be hit, and so none of this shows in the answer: it is yes exactly if the members
on the whole trail hit enough rules, and otherwise it is what the trail ends with.
-/

namespace Cil

open Fallible

/-- The member that a rule is asked about at a sighting, if it is asked at all. -/
def Sighting.member? : Sighting → Option Member
  | reference _ m => some m
  | landing _ m => some (.method m)
  | lost .. => none

variable (t : TypeTable) (r : Resolver)

/-- A rule that was hit already or is hit by one of the candidates. -/
def Quarry.Meets (cands : List Member) (q : Quarry) : Prop :=
  q.hit = true ∨ ∃ c ∈ cands, q.rule.admits t r c = true

namespace Quarry

variable {t r}

theorem Meets.mono {cands cands' : List Member} {q : Quarry} (more : cands ⊆ cands')
    (meets : q.Meets t r cands) : q.Meets t r cands' := by
  rcases meets with hit | ⟨c, hc, admits⟩
  · exact .inl hit
  · exact .inr ⟨c, more hc, admits⟩

variable (t r) in
/-- The rule as it is once it was asked about a candidate. One that was hit is not asked. -/
def asked (c : Member) (q : Quarry) : Quarry :=
  if q.hit then q
  else { rule := (q.rule.query t r c).rule, hit := (q.rule.query t r c).holds }

/-- Asking a rule about a candidate settles the candidate. -/
theorem meets_asked_iff {c : Member} {cands : List Member} {q : Quarry} :
    (q.asked t r c).Meets t r cands ↔ q.Meets t r (c :: cands) := by
  have same (c' : Member) : (q.rule.query t r c).rule.admits t r c' = q.rule.admits t r c' :=
    Rule.admits_eq_of_filled_eq t r c' (Rule.filled_rule_query t r q.rule c)
  cases h : q.hit with
  | true => simp [Meets, asked, h]
  | false => simp [Meets, asked, h, same, Rule.holds_query]

end Quarry

/-- Whether the candidates hit as many of the rules as a search asks for. -/
def SearchMode.Satisfied (rules : List Rule) (cands : List Member) : SearchMode → Prop
  | all => ∀ rule ∈ rules, ∃ c ∈ cands, (rule.query t r c).holds = true
  | single | any => ∃ rule ∈ rules, ∃ c ∈ cands, (rule.query t r c).holds = true

namespace Search

/-- Whether the hits so far are enough. -/
def decided (mode : SearchMode) (quarries : List Quarry) : Bool :=
  match mode with
  | .all => quarries.all Quarry.hit
  | .single | .any => quarries.any Quarry.hit

/-- Whether candidates lead a search to a yes. -/
def Goal (mode : SearchMode) (quarries : List Quarry) (cands : List Member) : Prop :=
  match mode with
  | .all => ∀ q ∈ quarries, q.Meets t r cands
  | .single | .any => ∃ q ∈ quarries, q.Meets t r cands

variable {t r}

theorem Goal.mono {mode : SearchMode} {quarries : List Quarry} {cands cands' : List Member}
    (more : cands ⊆ cands') (goal : Goal t r mode quarries cands) :
    Goal t r mode quarries cands' := by
  cases mode with
  | all => exact fun q hq => (goal q hq).mono more
  | single | any =>
    obtain ⟨q, hq, meets⟩ := goal
    exact ⟨q, hq, meets.mono more⟩

/-- The outcome is known exactly if no further candidate is needed. -/
theorem decided_iff_goal {mode : SearchMode} {quarries : List Quarry} :
    decided mode quarries = true ↔ Goal t r mode quarries [] := by
  cases mode <;> simp [decided, Goal, Quarry.Meets]

/-! ## The counter -/

/-- The number of rules that are still to be hit. -/
def unhit (quarries : List Quarry) : Nat := quarries.countP fun q => !q.hit

theorem unhit_cons (q : Quarry) (qs : List Quarry) : unhit (q :: qs) = unhit [q] + unhit qs := by
  rw [unhit, ← List.singleton_append, List.countP_append]
  rfl

theorem unhit_singleton (q : Quarry) : unhit [q] = if q.hit then 0 else 1 := by
  cases hit : q.hit <;> simp [unhit, hit]

theorem unhit_eq_zero_iff {quarries : List Quarry} :
    unhit quarries = 0 ↔ ∀ q ∈ quarries, q.hit = true := by
  simp [unhit]

/-- A rule that a candidate hits was counted before, and is not any more. -/
theorem unhit_of_asked {c : Member} {q : Quarry}
    (first : q.hit = false ∧ (q.asked t r c).hit = true) :
    unhit [q] = 1 ∧ unhit [q.asked t r c] = 0 := by
  simp [unhit_singleton, first]

/-- Any other rule counts as it did. -/
theorem unhit_asked {c : Member} {q : Quarry}
    (other : ¬ (q.hit = false ∧ (q.asked t r c).hit = true)) :
    unhit [q.asked t r c] = unhit [q] := by
  rw [unhit_singleton, unhit_singleton]
  cases hit : q.hit with
  | true => simp [Quarry.asked, hit]
  | false => simp_all

variable (t r) in
/-- What a counter comes to when a rule is asked about a candidate. -/
def countdown (c : Member) (q : Quarry) (remaining : Nat) : Nat :=
  if q.hit = false ∧ (q.asked t r c).hit = true then remaining - 1 else remaining

variable (t r) in
theorem countdown_cons (c : Member) (q : Quarry) (qs : List Quarry) (n : Nat) :
    countdown t r c q (n + unhit (q :: qs)) = n + unhit [q.asked t r c] + unhit qs := by
  have before := unhit_cons q qs
  by_cases first : q.hit = false ∧ (q.asked t r c).hit = true
  · obtain ⟨one, none⟩ := unhit_of_asked first
    rw [countdown, if_pos first]
    omega
  · rw [countdown, if_neg first, unhit_asked first]
    omega

variable (t r) in
/-- The first rule is asked. Either its hit makes the outcome known, and the others stay as they
are, or they are asked too. -/
theorem record_cons (mode : SearchMode) (c : Member) (remaining : Nat) (q : Quarry)
    (qs : List Quarry) :
    (∃ events, record t r mode c remaining (q :: qs) =
        ⟨q.asked t r c :: qs, countdown t r c q remaining, true, events⟩ ∧
      (q.hit = false ∧ (q.asked t r c).hit = true) ∧
      (mode ≠ .all ∨ countdown t r c q remaining = 0)) ∨
    ∃ events, record t r mode c remaining (q :: qs) =
        (let tally := record t r mode c (countdown t r c q remaining) qs
        { tally with
          quarries := q.asked t r c :: tally.quarries, events := events ++ tally.events }) ∧
      (q.hit = false ∧ (q.asked t r c).hit = true →
        mode = .all ∧ countdown t r c q remaining ≠ 0) := by
  rw [record]
  cases hit : q.hit with
  | true =>
    refine .inr ⟨#[], ?_, ?_⟩
    · simp [Quarry.asked, hit, countdown]
    · simp
  | false =>
    cases holds : (q.rule.query t r c).holds with
    | false =>
      refine .inr ⟨(q.rule.query t r c).events, ?_, ?_⟩
      · simp [Quarry.asked, hit, holds, countdown]
      · simp [Quarry.asked, hit, holds]
    | true =>
      by_cases enough : mode ≠ .all ∨ remaining - 1 = 0
      · refine .inl ⟨(q.rule.query t r c).events, ?_, ?_, ?_⟩
        · simp [Quarry.asked, hit, holds, countdown, enough]
        · simp [Quarry.asked, hit, holds]
        · simpa [Quarry.asked, hit, holds, countdown] using enough
      · refine .inr ⟨(q.rule.query t r c).events, ?_, ?_⟩
        · simp [Quarry.asked, hit, holds, countdown, enough]
        · simpa [Quarry.asked, hit, holds, countdown] using enough

variable (t r) in
/-- Asking about a candidate keeps the count, of these rules and of `n` others before them. The
outcome gets known by a hit, for all rules by the last one. -/
theorem counted_record (mode : SearchMode) (c : Member) (quarries : List Quarry) (n : Nat) :
    let tally := record t r mode c (n + unhit quarries) quarries
    tally.remaining = n + unhit tally.quarries ∧ tally.quarries.length = quarries.length ∧
      (tally.known = true ↔
        unhit tally.quarries < unhit quarries ∧ (mode ≠ .all ∨ tally.remaining = 0)) := by
  induction quarries generalizing n with
  | nil => simp [record]
  | cons q qs ih =>
    have left := countdown_cons t r c q qs n
    have before := unhit_cons q qs
    rcases record_cons t r mode c (n + unhit (q :: qs)) q qs with
      ⟨events, hrecord, first, enough⟩ | ⟨events, hrecord, goes⟩
    · obtain ⟨one, none⟩ := unhit_of_asked first
      have after := unhit_cons (q.asked t r c) qs
      rw [left] at hrecord enough
      rw [hrecord]
      exact ⟨by dsimp only; omega, rfl, iff_of_true rfl ⟨by dsimp only; omega, enough⟩⟩
    · rw [left] at hrecord goes
      obtain ⟨counted, length, known⟩ := ih (n + unhit [q.asked t r c])
      have after := unhit_cons (q.asked t r c)
        (record t r mode c (n + unhit [q.asked t r c] + unhit qs) qs).quarries
      rw [hrecord]
      dsimp only
      refine ⟨by omega, by rw [List.length_cons, length, List.length_cons], ?_⟩
      rw [known, after, before]
      by_cases first : q.hit = false ∧ (q.asked t r c).hit = true
      · -- The first rule was hit, but it was not the last one.
        obtain ⟨rfl, more⟩ := goes first
        obtain ⟨one, none⟩ := unhit_of_asked first
        simp only [ne_eq, not_true_eq_false, false_or]
        omega
      · rw [unhit_asked first, Nat.add_lt_add_iff_left]

variable (t r) in
/-- Asking the rules about a candidate settles the candidate, also where the asking stops at a
hit. -/
theorem goal_record_iff (mode : SearchMode) (c : Member) (cands : List Member)
    (quarries : List Quarry) (n : Nat) :
    Goal t r mode (record t r mode c (n + unhit quarries) quarries).quarries cands ↔
      Goal t r mode quarries (c :: cands) := by
  induction quarries generalizing n with
  | nil => cases mode <;> simp [record, Goal]
  | cons q qs ih =>
    have first : (q.asked t r c).Meets t r cands ↔ q.Meets t r (c :: cands) :=
      Quarry.meets_asked_iff
    have left := countdown_cons t r c q qs n
    rcases record_cons t r mode c (n + unhit (q :: qs)) q qs with
      ⟨events, hrecord, ⟨-, hit⟩, enough⟩ | ⟨events, hrecord, -⟩
    · -- Both sides hold: by the rule that was hit, or because it was the last one.
      have meets : q.Meets t r (c :: cands) := first.1 (.inl hit)
      rw [hrecord]
      cases mode with
      | all =>
        have last : unhit qs = 0 := by
          rw [left] at enough
          simp only [ne_eq, not_true_eq_false, false_or] at enough
          omega
        have others := unhit_eq_zero_iff.1 last
        simp only [Goal, List.forall_mem_cons, first, meets, true_and]
        exact iff_of_true (fun q hq => .inl (others q hq)) fun q hq => .inl (others q hq)
      | single | any => simp only [Goal, List.mem_cons, exists_eq_or_imp, first, meets, true_or]
    · rw [left] at hrecord
      have ih := ih (n + unhit [q.asked t r c])
      rw [hrecord]
      cases mode with
      | all =>
        simp only [Goal, List.forall_mem_cons] at ih ⊢
        rw [first, ih]
      | single | any =>
        simp only [Goal, List.mem_cons, exists_eq_or_imp] at ih ⊢
        rw [first, ih]

/-! ## Steps and runs -/

namespace Pursuit

variable {mode : SearchMode} {p p' : Pursuit}

/-- The counter is the number of rules that are still to be hit. -/
def Counted (p : Pursuit) : Prop := p.remaining = unhit p.quarries

variable (t r mode) in
theorem Counted.kept (counted : p.Counted) (c : Member) :
    let tally := record t r mode c p.remaining p.quarries
    tally.remaining = unhit tally.quarries ∧ tally.quarries.length = p.quarries.length ∧
      (tally.known = true ↔
        unhit tally.quarries < unhit p.quarries ∧ (mode ≠ .all ∨ unhit tally.quarries = 0)) := by
  have start : p.remaining = 0 + unhit p.quarries := counted.trans (Nat.zero_add _).symm
  obtain ⟨remaining, length, known⟩ := counted_record t r mode c p.quarries 0
  rw [← start, Nat.zero_add] at remaining
  rw [← start] at length known
  exact ⟨remaining, length, remaining ▸ known⟩

theorem Counted.see {s : Sighting} (counted : p.Counted) (seen : p.see t r mode s = .ok p') :
    p'.Counted := by
  cases s with
  | lost offset name fault =>
    cases seen
    exact counted
  | reference offset m | landing offset m =>
    rw [Pursuit.see, ask_eq] at seen
    split at seen
    · cases seen
    · cases seen
      exact (counted.kept t r mode _).1

theorem Counted.foldlM_see {sightings : List Sighting} (counted : p.Counted)
    (seen : sightings.foldlM (Pursuit.see t r mode) p = .ok p') : p'.Counted := by
  induction sightings generalizing p with
  | nil =>
    obtain rfl := pure_eq_ok_iff.1 seen
    exact counted
  | cons s sightings ih =>
    obtain ⟨q, first, others⟩ := bind_eq_ok_iff.1 seen
    exact ih (counted.see first) others

theorem Counted.visit {ctx : Context} {c after : Cursor} (counted : p.Counted)
    (visited : visit t ctx mode p c = .ok (p', after)) : p'.Counted := by
  cases read : Chunk.read c with
  | error fault =>
    rw [visit_of_fault read] at visited
    cases visited
  | ok found =>
    obtain ⟨chunk, stop⟩ := found
    obtain ⟨-, sightings, q, constraint, seen, rfl⟩ := visited_of_read read visited
    have kept : q.Counted := counted.foldlM_see seen
    exact kept

end Pursuit

theorem Pursuit.counted_start (rules : List Rule) : (start rules).Counted := by
  simp [Counted, start, unhit, List.countP_map, Function.comp_def]

/-- Wherever a search comes, the counter is right. -/
theorem Reached.counted {ctx : Context} {mode : SearchMode} {rules : List Rule} {p : Pursuit}
    {c : Cursor} (reached : Reached t ctx mode rules p c) : p.Counted := by
  induction reached with
  | start => exact Pursuit.counted_start rules
  | step _ visited ih => exact ih.visit visited

/-! ## Answers -/

theorem decided_all_iff {quarries : List Quarry} :
    decided .all quarries = true ↔ unhit quarries = 0 := by
  simp [decided, unhit_eq_zero_iff]

theorem decided_iff_unhit_lt {mode : SearchMode} (some : mode ≠ .all) {quarries : List Quarry} :
    decided mode quarries = true ↔ unhit quarries < quarries.length := by
  have fewer : unhit quarries < quarries.length ↔ ∃ q ∈ quarries, q.hit = true := by
    rw [Nat.lt_iff_le_and_ne, unhit, ne_eq, List.countP_eq_length]
    simp [List.countP_le_length]
  rw [fewer]
  cases mode with
  | all => exact absurd rfl some
  | single | any => simp [decided]

namespace Pursuit

variable {mode : SearchMode} {p p' : Pursuit}

variable (t r) in
/-- If the outcome was not known, it gets known exactly when the hits are enough. -/
theorem Counted.known_iff (counted : p.Counted) (undecided : decided mode p.quarries = false)
    (c : Member) :
    (record t r mode c p.remaining p.quarries).known = true ↔
      decided mode (record t r mode c p.remaining p.quarries).quarries = true := by
  obtain ⟨-, length, known⟩ := counted.kept t r mode c
  rw [known]
  by_cases all : mode = .all
  · subst all
    have some : unhit p.quarries ≠ 0 := by
      intro none
      rw [decided_all_iff.2 none] at undecided
      cases undecided
    rw [decided_all_iff]
    simp only [ne_eq, not_true_eq_false, false_or]
    omega
  · have none : ¬ unhit p.quarries < p.quarries.length := by
      intro some
      rw [(decided_iff_unhit_lt all).2 some] at undecided
      cases undecided
    have most : unhit p.quarries ≤ p.quarries.length := List.countP_le_length
    rw [decided_iff_unhit_lt all, length]
    simp only [ne_eq, all, not_false_eq_true, true_or, and_true]
    omega

variable (t r) in
/-- What asking about a candidate does to a search whose outcome is not known: it ends with a yes if
the hits are enough then, and else goes on. -/
theorem Counted.ask_cases (counted : p.Counted) (undecided : decided mode p.quarries = false)
    (c : Member) (found : Event) :
    (∃ outcome, p.ask t r mode c found = .error outcome ∧ outcome.answer = .ok true ∧
      Goal t r mode p.quarries [c]) ∨
    ∃ p', p.ask t r mode c found = .ok p' ∧ p'.Counted ∧ decided mode p'.quarries = false ∧
      ∀ cands, Goal t r mode p'.quarries cands ↔ Goal t r mode p.quarries (c :: cands) := by
  have goal (cands : List Member) :
      Goal t r mode (record t r mode c p.remaining p.quarries).quarries cands ↔
        Goal t r mode p.quarries (c :: cands) := by
    have settled := goal_record_iff t r mode c cands p.quarries 0
    rwa [Nat.zero_add, ← counted] at settled
  have known := counted.known_iff t r undecided c
  rw [ask_eq]
  split
  · next enough =>
    exact .inl ⟨_, rfl, rfl, (goal []).1 (decided_iff_goal.1 (known.1 enough))⟩
  · next unknown =>
    refine .inr ⟨_, rfl, (counted.kept t r mode c).1, ?_, goal⟩
    rw [known, Bool.not_eq_true] at unknown
    exact unknown

variable (t r mode) in
theorem see_of_member? {s : Sighting} {m : Member} (hm : s.member? = some m) (p : Pursuit) :
    ∃ found, p.see t r mode s = p.ask t r mode m found := by
  cases s with
  | lost => cases hm
  | reference offset m' | landing offset m' =>
    cases hm
    exact ⟨_, rfl⟩

end Pursuit

theorem follow_cons (mode : SearchMode) (s : Sighting) (rest : List Sighting)
    (fault : Option Fault) (p : Pursuit) :
    follow t r mode ⟨s :: rest, fault⟩ p =
      match p.see t r mode s with
      | .error outcome => outcome
      | .ok p => follow t r mode ⟨rest, fault⟩ p := by
  rw [follow, List.foldlM_cons]
  cases p.see t r mode s <;> rfl

/-- A search whose outcome is not known yet says yes exactly if the members on the trail lead it
there, and else what the trail ends with. -/
theorem answer_follow {mode : SearchMode} {trail : Trail} {p : Pursuit} (counted : p.Counted)
    (undecided : decided mode p.quarries = false) :
    (Goal t r mode p.quarries (trail.sightings.filterMap Sighting.member?) →
      (follow t r mode trail p).answer = .ok true) ∧
    (¬ Goal t r mode p.quarries (trail.sightings.filterMap Sighting.member?) →
      (follow t r mode trail p).answer = ending trail.fault) := by
  obtain ⟨sightings, fault⟩ := trail
  induction sightings generalizing p with
  | nil =>
    refine ⟨fun goal => ?_, fun _ => rfl⟩
    rw [List.filterMap_nil, ← decided_iff_goal, undecided] at goal
    exact nomatch goal
  | cons s rest ih =>
    rw [follow_cons]
    cases hm : s.member? with
    | none =>
      rw [List.filterMap_cons_none hm]
      cases s with
      | lost offset name fault' =>
        have noted : (p.note (.constrainedSkipped name offset fault')).Counted := counted
        exact ih noted undecided
      | _ => cases hm
    | some m =>
      rw [List.filterMap_cons_some hm]
      obtain ⟨found, asks⟩ := Pursuit.see_of_member? t r mode hm p
      rw [asks]
      rcases counted.ask_cases t r undecided m found with
        ⟨outcome, ended, yes, goal⟩ | ⟨p', asked, counted', undecided', goal⟩
      · rw [ended]
        have all : Goal t r mode p.quarries (m :: rest.filterMap Sighting.member?) :=
          goal.mono (List.cons_subset_cons m (List.nil_subset _))
        exact ⟨fun _ => yes, fun not => absurd all not⟩
      · rw [asked, ← goal]
        exact ih counted' undecided'

/-- The rules at the start of a search, none of them hit. -/
theorem goal_start_iff {mode : SearchMode} {rules : List Rule} {cands : List Member} :
    Goal t r mode (Pursuit.start rules).quarries cands ↔ mode.Satisfied t r rules cands := by
  have meets (rule : Rule) : Quarry.Meets t r cands { rule } ↔
      ∃ c ∈ cands, (rule.query t r c).holds = true := by
    simp [Quarry.Meets, Rule.holds_query]
  cases mode with
  | all => simp only [Goal, Pursuit.start, SearchMode.Satisfied, List.forall_mem_map, meets]
  | single | any =>
    constructor
    · rintro ⟨q, hq, met⟩
      obtain ⟨rule, hrule, rfl⟩ := List.mem_map.1 hq
      exact ⟨rule, hrule, (meets rule).1 met⟩
    · rintro ⟨rule, hrule, hit⟩
      exact ⟨_, List.mem_map_of_mem hrule, (meets rule).2 hit⟩

theorem undecided_start {mode : SearchMode} {rules : List Rule} (nonempty : rules ≠ []) :
    decided mode (Pursuit.start rules).quarries = false := by
  cases mode with
  | all =>
    obtain ⟨rule, rest, rfl⟩ := List.exists_cons_of_ne_nil nonempty
    rfl
  | single | any => simp [decided, Pursuit.start]

variable (t) in
/-- A search says yes exactly if what is on the trail satisfies its rules, and else what the trail
ends with. -/
theorem answer_run (ctx : Context) {mode : SearchMode} {rules : List Rule} (nonempty : rules ≠ [])
    (one : mode = .single → rules.length = 1) :
    (mode.Satisfied t ctx.resolver rules
        ((Trail.ofContext t ctx).sightings.filterMap Sighting.member?) →
      (run t ctx mode rules).answer = .ok true) ∧
    (¬ mode.Satisfied t ctx.resolver rules
        ((Trail.ofContext t ctx).sightings.filterMap Sighting.member?) →
      (run t ctx mode rules).answer = ending (Trail.ofContext t ctx).fault) := by
  rw [run_eq_follow t ctx nonempty one, ← goal_start_iff]
  exact answer_follow (Pursuit.counted_start rules) (undecided_start nonempty)

end Search

end Cil
