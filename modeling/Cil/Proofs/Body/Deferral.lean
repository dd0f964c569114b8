import Cil.Proofs.Body.Jumps
import Mathlib.Data.List.Sort

/-!
# Instructions that wait

Of a body that was read front to back, exactly the switches and the branches that do not go back are
left without landings. They are the ones listed as waiting, in order and each once. So whoever goes
through the list finds an instruction to settle at every index, and the length of the list can be
told from the decoded body.
-/

namespace Cil

open Fallible

namespace Instruction

def isSwitch (x : Instruction) : Bool :=
  match x.operand with
  | .switch _ => true
  | _ => false

/-- A branch that goes ahead or to itself. -/
def branchesAhead (x : Instruction) : Bool :=
  match x.operand with
  | .branch j => decide (x.offset ≤ j.target)
  | _ => false

/-- The instructions that are settled in the end. -/
def defers (x : Instruction) : Bool := x.isSwitch || x.branchesAhead

theorem countP_defers (xs : List Instruction) :
    xs.countP defers = xs.countP isSwitch + xs.countP branchesAhead := by
  induction xs with
  | nil => rfl
  | cons x xs ih =>
    have either : x.isSwitch = true → x.branchesAhead = false := by
      cases operand : x.operand <;> simp [isSwitch, branchesAhead, operand]
    rw [List.countP_cons, List.countP_cons, List.countP_cons, ih, defers]
    cases switch : x.isSwitch with
    | true =>
      rw [either switch]
      simp only [Bool.true_or, if_true, Bool.false_eq_true, if_false]
      omega
    | false =>
      simp only [Bool.false_or, Bool.false_eq_true, if_false]
      omega

end Instruction

/-- Settling an instruction leaves it what it is. -/
theorem Instruction.defers_of_settle {xs : Array Instruction} {x x' : Instruction}
    (settled : x.settle xs = .ok x') :
    x'.isSwitch = x.isSwitch ∧ x'.branchesAhead = x.branchesAhead := by
  cases jumps : x.operand.isJump with
  | false =>
    rw [settle_plain jumps] at settled
    cases settled
    exact ⟨rfl, rfl⟩
  | true =>
    rcases Operand.isJump_eq_true_iff.1 jumps with ⟨j, hj⟩ | ⟨js, hjs⟩
    · obtain ⟨j', hj', rfl⟩ := (settle_branch hj).1 settled
      have target := (Jump.landed_of_settle hj').1
      simp [isSwitch, branchesAhead, hj, target]
    · obtain ⟨js', -, rfl⟩ := (settle_switch hjs).1 settled
      simp [isSwitch, branchesAhead, hjs]

/-! ## After the first pass -/

/-- What is no jump does not wait. -/
theorem Operand.waits_of_not_isJump {o : Operand} (noJump : o.isJump = false) :
    o.waits = false ∧ o.jumps = [] := by
  cases o <;> simp_all [isJump, waits, jumps]

theorem Instruction.defers_of_not_isJump {x : Instruction} (noJump : x.operand.isJump = false) :
    x.defers = false := by
  cases operand : x.operand <;>
    simp_all [Operand.isJump, defers, isSwitch, branchesAhead]

/-- How an instruction leaves the first pass: without jumps, with a branch back that has landed, or
with jumps none of which has. -/
inductive Instruction.Drafted (x : Instruction) : Prop
  | plain (noJump : x.operand.isJump = false)
  | back {j : Jump} {i : Nat} (branch : x.operand = .branch j) (landed : j.landing = some i)
      (back : j.target < x.offset)
  | ahead {j : Jump} (branch : x.operand = .branch j) (unsettled : j.landing = none)
      (ahead : x.offset ≤ j.target)
  | table {js : List Jump} (switch : x.operand = .switch js)
      (unsettled : ∀ j ∈ js, j.landing = none)

theorem Chunk.drafted_of_operand {ctx : Context} {c : Chunk} {before : Array Instruction}
    {o : Operand} (read : c.operand ctx before = .ok o) (index count : Nat) :
    (c.instruction index count o).Drafted := by
  cases jumps : c.opcode.operand.isJump with
  | false =>
    have denotes := (operand_eq_ok_iff jumps before []).1 read
    exact .plain (denotes.isJump.trans jumps)
  | true =>
    rcases branch_or_switch jumps with ⟨raw, -, branches, -⟩ | ⟨-, switches, -⟩
    · rw [branches] at read
      obtain ⟨j, hj, ⟨back, j', settled, rfl⟩ | ⟨ahead, rfl⟩⟩ := branch_eq_ok_iff.1 read
      · obtain ⟨target, i, landed⟩ := Jump.landed_of_settle settled
        exact .back rfl landed (target ▸ back)
      · exact .ahead rfl (jump_eq_ok_iff.1 hj).2 ahead
    · rw [switches] at read
      obtain ⟨js, rfl, aims⟩ := aims_of_switch read
      have unsettled := aims.flip.imp fun _ _ h => And.intro h.2 h.1
      exact .table rfl ((List.forall₂_and_left js c.rawOffsets).1 unsettled).1

namespace Instruction.Drafted

variable {x : Instruction}

theorem waits_eq_defers (drafted : x.Drafted) : x.operand.waits = x.defers := by
  cases drafted with
  | plain noJump =>
    rw [(Operand.waits_of_not_isJump noJump).1, defers_of_not_isJump noJump]
  | back branch landed back =>
    have behind : ¬ x.offset ≤ _ := Nat.not_le.2 back
    simp [branch, Operand.waits, defers, isSwitch, branchesAhead, landed, behind]
  | ahead branch unsettled ahead =>
    simp [branch, Operand.waits, defers, isSwitch, branchesAhead, unsettled, ahead]
  | table switch unsettled => simp [switch, Operand.waits, defers, isSwitch]

/-- What waits has no landing at all. -/
theorem landing_of_waits (drafted : x.Drafted) (waits : x.operand.waits = true) :
    ∀ j ∈ x.operand.jumps, j.landing = none := by
  cases drafted with
  | plain noJump => simp [(Operand.waits_of_not_isJump noJump).2]
  | back branch landed back => simp [branch, Operand.waits, landed] at waits
  | ahead branch unsettled ahead => simpa [branch, Operand.jumps] using unsettled
  | table switch unsettled => simpa [switch, Operand.jumps] using unsettled

/-- And what has a jump without landing waits, as does a switch without jumps. -/
theorem waits_iff (drafted : x.Drafted) :
    x.operand.waits = true ↔ x.operand = .switch [] ∨ ∃ j ∈ x.operand.jumps, j.landing = none := by
  cases drafted with
  | plain noJump =>
    obtain ⟨ready, none⟩ := Operand.waits_of_not_isJump noJump
    have other : x.operand ≠ .switch [] := by
      intro switch
      rw [switch] at noJump
      cases noJump
    simp [ready, none, other]
  | back branch landed back => simp [branch, Operand.waits, Operand.jumps, landed]
  | ahead branch unsettled ahead => simp [branch, Operand.waits, Operand.jumps, unsettled]
  | @table js switch unsettled =>
    cases js with
    | nil => simp [switch, Operand.waits]
    | cons j js => simp [switch, Operand.waits, Operand.jumps, unsettled j List.mem_cons_self]

end Instruction.Drafted

namespace Draft

variable {ctx : Context} {cs : List Chunk} {d : Draft}

theorem Follows.drafted (follows : Follows ctx cs d) {i : Nat} {x : Instruction}
    (hx : d.instructions[i]? = some x) : x.Drafted := by
  obtain ⟨c, o, -, read, rfl⟩ := follows.chunk hx
  exact Chunk.drafted_of_operand read i cs.length

/-- The list of those that wait. -/
theorem Follows.pending_eq (follows : Follows ctx cs d) :
    d.pending.toList = d.instructions.toList.findIdxs Instruction.defers := by
  refine List.Pairwise.eq_of_mem_iff follows.increasing List.pairwise_findIdxs fun i => ?_
  rw [follows.pending i, List.mem_findIdxs_iff_exists_getElem_pos]
  constructor
  · rintro ⟨x, hx, waits⟩
    rw [(follows.drafted hx).waits_eq_defers] at waits
    obtain ⟨hi, rfl⟩ := Array.getElem?_eq_some_iff.1 hx
    exact ⟨hi, waits⟩
  · rintro ⟨hi, defers⟩
    have hx : d.instructions[i]? = some d.instructions[i] := Array.getElem?_eq_getElem hi
    exact ⟨_, hx, (follows.drafted hx).waits_eq_defers.trans defers⟩

/-- An instruction that waits is still as it was drafted when its turn comes. -/
theorem Follows.getElem?_in_turn (follows : Follows ctx cs d) {before after : List Nat} {i : Nat}
    {xs : Array Instruction} (turn : d.pending.toList = before ++ i :: after)
    (settled : settleEach d.instructions before = some (.ok xs)) :
    ∃ x, xs[i]? = some x ∧ d.instructions[i]? = some x ∧ x.operand.waits = true := by
  have waiting : i ∈ d.pending.toList := by
    rw [turn]
    exact List.mem_append_right _ List.mem_cons_self
  have increasing := follows.increasing
  rw [turn, List.pairwise_append] at increasing
  obtain ⟨sorted, -, earlier⟩ := increasing
  have inRange : ∀ k ∈ before, k < d.instructions.size := by
    intro k hk
    apply follows.pending_lt
    rw [turn]
    exact List.mem_append_left _ hk
  have notYet : i ∉ before := fun h => Nat.lt_irrefl i (earlier i h i List.mem_cons_self)
  rw [settleEach_eq rfl inRange, Option.some.injEq] at settled
  obtain ⟨x, hx, waits⟩ := (follows.pending i).1 waiting
  obtain ⟨-, same, -⟩ := (foldlM_settleAt_eq_ok_iff (sorted.imp Nat.ne_of_lt) inRange).1 settled
  exact ⟨x, (same i notYet).trans hx, hx, waits⟩

/-- What settling leaves as it is can be counted in the decoded body. -/
theorem Follows.countP_eq (follows : Follows ctx cs d)
    (ordered : Instruction.Ordered d.instructions) {l : Listing} (settled : d.settle = .ok l)
    (p : Instruction → Bool) (kept : ∀ x x', x.settle d.instructions = .ok x' → p x' = p x) :
    l.instructions.toList.countP p = d.instructions.toList.countP p := by
  obtain ⟨size, each⟩ := (follows.settle_eq_ok_iff ordered).1 settled
  have size : l.instructions.size = d.instructions.size := size
  have same : l.instructions.toList.map p = d.instructions.toList.map p := by
    apply List.ext_getElem?
    intro i
    rw [List.getElem?_map, List.getElem?_map, Array.getElem?_toList, Array.getElem?_toList]
    cases hx : d.instructions[i]? with
    | none =>
      have beyond := Array.getElem?_eq_none_iff.1 hx
      rw [Array.getElem?_eq_none_iff.2 (by omega)]
    | some x =>
      obtain ⟨x', settled, hx'⟩ := each i x hx
      have hx' : l.instructions[i]? = some x' := hx'
      rw [hx', Option.map_some, Option.map_some, kept x x' settled]
  calc
    l.instructions.toList.countP p
    _ = (l.instructions.toList.map p).countP id := by rw [List.countP_map, Function.id_comp]
    _ = (d.instructions.toList.map p).countP id := by rw [same]
    _ = d.instructions.toList.countP p := by rw [List.countP_map, Function.id_comp]

theorem Follows.size_pending (follows : Follows ctx cs d)
    (ordered : Instruction.Ordered d.instructions) {l : Listing} (settled : d.settle = .ok l) :
    d.pending.size = l.instructions.toList.countP Instruction.isSwitch +
      l.instructions.toList.countP Instruction.branchesAhead := by
  have switches := follows.countP_eq ordered settled Instruction.isSwitch
    fun _ _ h => (Instruction.defers_of_settle h).1
  have branches := follows.countP_eq ordered settled Instruction.branchesAhead
    fun _ _ h => (Instruction.defers_of_settle h).2
  calc
    d.pending.size
    _ = (d.instructions.toList.findIdxs Instruction.defers).length := by
      rw [← follows.pending_eq, Array.length_toList]
    _ = d.instructions.toList.countP Instruction.defers := List.length_findIdxs
    _ = _ := by rw [Instruction.countP_defers, switches, branches]

end Draft

namespace Context

theorem decodeReported_eq_ok_iff {ctx : Context} {l : Listing} {event : Event} :
    ctx.decodeReported = .ok (l, event) ↔
      ∃ d, ctx.draft = .ok d ∧ d.settle = .ok l ∧
        event = .decoded l.size ctx.code.length d.pending.size := by
  simp only [decodeReported_eq, bind_eq_ok_iff, map_eq_ok_iff, Prod.mk.injEq]
  constructor
  · rintro ⟨d, hd, l', hl', rfl, rfl⟩
    exact ⟨d, hd, hl', rfl⟩
  · rintro ⟨d, hd, hl, rfl⟩
    exact ⟨d, hd, l, hl, rfl, rfl⟩

/-- Behind the first pass exactly the switches, empty ones too, and the branches that do not go back
are listed as waiting, by their indices in order. None of their jumps has landed, and every other
jump has. The second pass, which goes through the list and has no outcome where it finds nothing,
has one: it finds a branch or a switch at every index, still as the first pass has left it. The report on a decoded body counts its switches and such
branches. -/
theorem draft_lists_pending (ctx : Context) (d : Draft) (drafted : ctx.draft = .ok d) :
    d.pending.toList = d.instructions.toList.findIdxs Instruction.defers ∧
    d.pending.toList.Pairwise (· < ·) ∧
    (∀ i x, d.instructions[i]? = some x →
      (i ∈ d.pending.toList ↔
        x.operand = .switch [] ∨ ∃ j ∈ x.operand.jumps, j.landing = none) ∧
      (i ∈ d.pending.toList → ∀ j ∈ x.operand.jumps, j.landing = none)) ∧
    ((∃ outcome, Draft.settleEach d.instructions d.pending.toList = some outcome ∧
        d.settle? = some (outcome.map Listing.mk)) ∧
      ∀ before i after xs, d.pending.toList = before ++ i :: after →
        Draft.settleEach d.instructions before = some (.ok xs) →
        ∃ x, xs[i]? = some x ∧ d.instructions[i]? = some x ∧
          ((∃ j, x.operand = .branch j) ∨ ∃ js, x.operand = .switch js)) ∧
    ∀ l event, ctx.decodeReported = .ok (l, event) →
      event = .decoded l.size ctx.code.length
        (l.instructions.toList.countP Instruction.isSwitch +
          l.instructions.toList.countP Instruction.branchesAhead) := by
  obtain ⟨cs, tiles, folded⟩ := draft_eq_ok_iff.1 drafted
  have follows := Draft.follows_of_foldlM folded
  refine ⟨follows.pending_eq, follows.increasing, ?_, ⟨?_, ?_⟩, ?_⟩
  · intro i x hx
    have waits : i ∈ d.pending.toList ↔ x.operand.waits = true := by
      rw [follows.pending i, hx]
      simp
    have left := follows.drafted hx
    exact ⟨waits.trans left.waits_iff, fun h => left.landing_of_waits (waits.1 h)⟩
  · have inRange : ∀ i ∈ d.pending.toList, i < d.instructions.size := fun i hi =>
      follows.pending_lt hi
    exact ⟨_, Draft.settleEach_eq rfl inRange, settle?_of_draft drafted⟩
  · intro before i after xs turn settled
    obtain ⟨x, hx, hx', waits⟩ := follows.getElem?_in_turn turn settled
    refine ⟨x, hx, hx', Operand.isJump_eq_true_iff.1 ?_⟩
    cases jumps : x.operand.isJump with
    | true => rfl
    | false =>
      rw [(Operand.waits_of_not_isJump jumps).1] at waits
      cases waits
  · intro l event reported
    obtain ⟨d', drafted', settled, rfl⟩ := decodeReported_eq_ok_iff.1 reported
    obtain rfl : d = d' := Except.ok.inj (drafted.symm.trans drafted')
    rw [follows.size_pending (follows.ordered tiles) settled]

/-- A branch to itself, one to the next instruction and a switch wait, and a branch back does not. -/
theorem draft_lists_pending_turning :
    ∃ d, turning.draft = .ok d ∧ d.pending.toList = [2, 3, 4] ∧
      d.instructions.toList.findIdxs Instruction.defers = [2, 3, 4] := by
  have listed : (turning.draft.map fun d => d.pending.toList) = .ok [2, 3, 4] := by decide +kernel
  obtain ⟨d, drafted, pending⟩ := map_eq_ok_iff.1 listed
  obtain ⟨indices, -⟩ := draft_lists_pending turning d drafted
  exact ⟨d, drafted, pending.symm, indices.symm.trans pending.symm⟩

end Context

end Cil
