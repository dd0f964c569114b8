import Cil.Proofs.Body.Acceptance
import Cil.Proofs.Body.Faults

/-!
# Chunks that make no sense

How the first step of decoding fails on a complete chunk: its slot is out of range, its token does
not stand for what the opcode requires, or one of its jumps leads before the body, or back to a place
where no earlier chunk starts. Jumps ahead are not looked at yet, nor those of a table that stay in
the body.
-/

namespace Cil

open Fallible

/-- The kind of member that an operand has to name. A token that may name any has none. -/
def OperandKind.wanted? : OperandKind → Option MemberKind
  | field => some .field
  | method => some .method
  | type => some .type
  | _ => Option.none

namespace Context

/-- The fault of a slot that is out of range, in the instruction at an offset. -/
def slotFault (ctx : Context) (offset slot : Nat) : SlotFamily → Fault
  | .argument => .argumentSlot slot offset ctx.params.size
  | .local => .localSlot slot offset ctx.locals.size

/-- The fault of a token that does not stand for what its opcode requires. -/
inductive Unresolved (ctx : Context) (c : Chunk) : Fault → Prop
  | string {fault : Fault} (kind : c.opcode.operand = .string)
      (failed : ctx.resolver.string c.token = .error fault) : Unresolved ctx c fault
  | signature {fault : Fault} (kind : c.opcode.operand = .signature)
      (failed : ctx.resolver.signature c.token = .error fault) : Unresolved ctx c fault
  | member {fault : Fault} (names : c.opcode.operand.namesMember = true)
      (failed : ctx.member c.token = .error fault) : Unresolved ctx c fault
  | wrongKind {wanted : MemberKind} {m : Member} (required : c.opcode.operand.wanted? = some wanted)
      (found : ctx.member c.token = .ok m) (other : m.kind ≠ wanted) :
      Unresolved ctx c (.unresolved c.token (.wrongKind wanted m.kind))

end Context

namespace Chunk

/-- Where a jump of a chunk leads, which may be before the body. -/
def destination (c : Chunk) (raw : Int32) : Int := c.stop + raw.toInt

/-- The fault of a jump that leads to no instruction. -/
def targetFault (c : Chunk) (raw : Int32) : Fault :=
  .badTarget c.offset c.opcode.mnemonic (c.destination raw)

/-- The fault of a chunk that makes no sense behind chunks that start at `earlier`. -/
inductive Misread (ctx : Context) (earlier : List Nat) (c : Chunk) : Fault → Prop
  | slot {family : SlotFamily} {n : Nat} (encoded : c.slot? = some (family, n))
      (beyond : ¬ ctx.HasSlot family n) : Misread ctx earlier c (ctx.slotFault c.offset n family)
  | token {fault : Fault} (unresolved : ctx.Unresolved c fault) : Misread ctx earlier c fault
  /-- The first jump that leads before the body. -/
  | below {before after : List Int32} {raw : Int32} (entries : c.rawOffsets = before ++ raw :: after)
      (inside : ∀ r ∈ before, 0 ≤ c.destination r) (below : c.destination raw < 0) :
      Misread ctx earlier c (c.targetFault raw)
  /-- A branch back to where no chunk starts. -/
  | back {raw : Int32} (branches : c.opcode.operand ≠ .switch) (entry : c.rawOffsets = [raw])
      (inside : 0 ≤ c.destination raw) (back : c.destination raw < c.offset)
      (missing : ∀ s ∈ earlier, (s : Int) ≠ c.destination raw) :
      Misread ctx earlier c (c.targetFault raw)

end Chunk

/-! ## Slots -/

theorem Context.slot_eq_error_iff {ctx : Context} {family : SlotFamily} {n offset : Nat}
    {fault : Fault} :
    ctx.slot family n offset = .error fault ↔
      ¬ ctx.HasSlot family n ∧ fault = ctx.slotFault offset n family := by
  have named : ∀ fault', ctx.slot family n offset = .error fault' →
      fault' = ctx.slotFault offset n family := by
    intro fault' failed
    cases family with
    | «local» =>
      simp only [slot] at failed
      split at failed <;> cases failed
      rfl
    | argument =>
      simp only [slot] at failed
      split at failed
      · cases failed
      · split at failed <;> cases failed
        rfl
  rw [← exists_selects_iff]
  constructor
  · intro failed
    refine ⟨?_, named fault failed⟩
    rintro ⟨o, selects⟩
    rw [slot_eq_ok_iff.2 selects] at failed
    cases failed
  · rintro ⟨none, rfl⟩
    cases h : ctx.slot family n offset with
    | ok o => exact absurd ⟨o, slot_eq_ok_iff.1 h⟩ none
    | error fault' => rw [named fault' h]

theorem Chunk.operand_of_slot? {ctx : Context} {before : Array Instruction} {c : Chunk}
    {family : SlotFamily} {n : Nat} (encoded : c.slot? = some (family, n)) :
    c.operand ctx before = ctx.slot family n c.offset := by
  cases hkind : c.opcode.operand <;> simp only [slot?, hkind] at encoded
  case none =>
    have implied : c.opcode.selection.implicitSlot? = some (family, n) := encoded
    simp only [operand, hkind, Context.shortForm, implied]
  case slot8 | slot16 =>
    cases encoded
    simp only [operand, hkind]
  all_goals cases encoded

/-! ## Tokens -/

namespace Resolver

/-- The fault of a token that has to name a member of one kind: it names none, or one of another. -/
def Misses (r : Resolver) (token : Token) (args : GenericArgs) (wanted : MemberKind)
    (fault : Fault) : Prop :=
  r.member token args = .error fault ∨
    ∃ m, r.member token args = .ok m ∧ m.kind ≠ wanted ∧
      fault = .unresolved token (.wrongKind wanted m.kind)

variable {r : Resolver} {token : Token} {args : GenericArgs} {fault : Fault}

theorem bind_member_eq_error_iff {α : Type} {wanted : MemberKind}
    {select : Member → Except Fault α}
    (selects : ∀ m fault, select m = .error fault ↔
      m.kind ≠ wanted ∧ fault = .unresolved token (.wrongKind wanted m.kind)) :
    r.member token args >>= select = .error fault ↔ r.Misses token args wanted fault := by
  simp only [bind_eq_error_iff, selects, Misses]

theorem field_eq_error_iff :
    r.field token args = .error fault ↔ r.Misses token args .field fault := by
  apply bind_member_eq_error_iff
  intro m fault
  cases m <;> simp [Member.kind, eq_comm]

theorem method_eq_error_iff :
    r.method token args = .error fault ↔ r.Misses token args .method fault := by
  apply bind_member_eq_error_iff
  intro m fault
  cases m <;> simp [Member.kind, eq_comm]

theorem type_eq_error_iff :
    r.type token args = .error fault ↔ r.Misses token args .type fault := by
  apply bind_member_eq_error_iff
  intro m fault
  cases m <;> simp [Member.kind, eq_comm]

end Resolver

/-! ## Jumps -/

/-- A jump cannot be settled if no instruction starts where it leads. -/
theorem Jump.settle_eq_error_iff {xs : Array Instruction} (ordered : Instruction.Ordered xs)
    {offset : Nat} {mnemonic : String} {j : Jump} {fault : Fault} :
    j.settle xs offset mnemonic = .error fault ↔
      j.target ∉ Instruction.starts xs ∧ fault = .badTarget offset mnemonic j.target := by
  rw [settle]
  cases hfound : Instruction.indexAt? xs j.target with
  | some i =>
    have hstart := (Instruction.indexAt?_eq_some_iff ordered).1 hfound
    simp [List.mem_of_getElem? hstart]
  | none =>
    have missing : j.target ∉ Instruction.starts xs := by
      intro hmem
      obtain ⟨i, hi⟩ := List.getElem?_of_mem hmem
      rw [(Instruction.indexAt?_eq_some_iff ordered).2 hi] at hfound
      cases hfound
    simp [missing, eq_comm]

namespace Chunk

variable {ctx : Context} {before : Array Instruction} {c : Chunk} {raw : Int32} {fault : Fault}

theorem jump_eq_error_iff :
    c.jump raw = .error fault ↔ c.destination raw < 0 ∧ fault = c.targetFault raw := by
  simp only [jump, Jump.aim, destination, targetFault]
  by_cases below : (c.stop : Int) + raw.toInt < 0
  · simp [below, eq_comm]
  · simp [below]

/-- A jump is settled unless nothing starts where it leads. -/
theorem Aims.settle_eq_error_iff {xs : Array Instruction} {j : Jump} (aims : c.Aims raw j)
    (ordered : Instruction.Ordered xs) :
    j.settle xs c.offset c.opcode.mnemonic = .error fault ↔
      (∀ s ∈ Instruction.starts xs, (s : Int) ≠ c.destination raw) ∧ fault = c.targetFault raw := by
  have hdestination : c.destination raw = j.target := aims.relative.symm
  rw [Jump.settle_eq_error_iff ordered, targetFault, hdestination]
  refine and_congr_left fun _ => ?_
  constructor
  · intro missing s hs same
    have hsame : s = j.target := by omega
    exact missing (hsame ▸ hs)
  · intro missing hmem
    exact missing _ hmem rfl

theorem exists_jump_iff : (∃ j, c.jump raw = .ok j) ↔ 0 ≤ c.destination raw := by
  constructor
  · rintro ⟨j, hj⟩
    have relative := (jump_eq_ok_iff.1 hj).1.relative
    rw [destination]
    omega
  · intro inside
    cases hj : c.jump raw with
    | ok j => exact ⟨j, rfl⟩
    | error fault =>
      have below := (jump_eq_error_iff.1 hj).1
      omega

theorem branch_of_back {j : Jump} (hj : c.jump raw = .ok j) (back : j.target < c.offset) :
    c.branch before raw = (j.settle before c.offset c.opcode.mnemonic).map .branch := by
  rw [branch, hj]
  simp only [bind, Except.bind, if_pos back]
  cases j.settle before c.offset c.opcode.mnemonic <;> rfl

theorem branch_of_ahead {j : Jump} (hj : c.jump raw = .ok j) (ahead : ¬ j.target < c.offset) :
    c.branch before raw = .ok (.branch j) := by
  rw [branch, hj]
  simp only [bind, Except.bind, if_neg ahead, pure, Except.pure]

/-- A branch fails at once if it leads before the body, or back to where nothing starts. -/
theorem branch_eq_error_iff (ordered : Instruction.Ordered before) :
    c.branch before raw = .error fault ↔
      (c.destination raw < 0 ∨
        (0 ≤ c.destination raw ∧ c.destination raw < c.offset ∧
          ∀ s ∈ Instruction.starts before, (s : Int) ≠ c.destination raw)) ∧
      fault = c.targetFault raw := by
  cases hjump : c.jump raw with
  | error fault' =>
    obtain ⟨below, rfl⟩ := jump_eq_error_iff.1 hjump
    simp [branch, hjump, bind, Except.bind, below, eq_comm]
  | ok j =>
    have aims := (jump_eq_ok_iff.1 hjump).1
    have relative : (j.target : Int) = c.destination raw := aims.relative
    have inside : 0 ≤ c.destination raw := by omega
    by_cases back : j.target < c.offset
    · have back' : c.destination raw < c.offset := by omega
      rw [branch_of_back hjump back, map_eq_error_iff, aims.settle_eq_error_iff ordered]
      simp [inside, back', Int.not_lt_of_ge inside]
    · have ahead : ¬ c.destination raw < c.offset := by omega
      rw [branch_of_ahead hjump back]
      simp [ahead, Int.not_lt_of_ge inside]

theorem isJump_of_rawOffsets (entries : c.rawOffsets ≠ []) :
    c.opcode.operand.isJump = true := by
  cases hkind : c.opcode.operand
  case branch8 | branch32 | switch => rfl
  all_goals simp [rawOffsets, hkind] at entries

/-- A table is read up to the first entry that leads before the body. -/
theorem table_eq_error_iff :
    (c.rawOffsets.mapM c.jump).map Operand.switch = .error fault ↔
      ∃ front raw back, c.rawOffsets = front ++ raw :: back ∧
        (∀ r ∈ front, 0 ≤ c.destination r) ∧ c.destination raw < 0 ∧
        fault = c.targetFault raw := by
  simp only [map_eq_error_iff, mapM_eq_error_iff, exists_jump_iff, jump_eq_error_iff]

/-! ## All together -/

theorem Misread.operand (misread : c.Misread ctx (Instruction.starts before) fault)
    (ordered : Instruction.Ordered before) : c.operand ctx before = .error fault := by
  cases misread with
  | slot encoded beyond =>
    rw [operand_of_slot? encoded]
    exact Context.slot_eq_error_iff.2 ⟨beyond, rfl⟩
  | token unresolved =>
    cases unresolved with
    | string kind failed =>
      simp only [Chunk.operand, kind]
      exact map_eq_error_iff.2 failed
    | signature kind failed =>
      simp only [Chunk.operand, kind]
      exact map_eq_error_iff.2 failed
    | member names failed =>
      cases hkind : c.opcode.operand <;> rw [hkind] at names <;>
        simp only [Chunk.operand, hkind, map_eq_error_iff]
      case field => exact Resolver.field_eq_error_iff.2 (.inl failed)
      case method => exact Resolver.method_eq_error_iff.2 (.inl failed)
      case type => exact Resolver.type_eq_error_iff.2 (.inl failed)
      case anyMember => exact failed
      all_goals cases names
    | @wrongKind wanted m required found other =>
      cases hkind : c.opcode.operand <;> rw [hkind] at required <;>
        simp only [Chunk.operand, hkind, map_eq_error_iff]
      case field =>
        cases required
        exact Resolver.field_eq_error_iff.2 (.inr ⟨m, found, other, rfl⟩)
      case method =>
        cases required
        exact Resolver.method_eq_error_iff.2 (.inr ⟨m, found, other, rfl⟩)
      case type =>
        cases required
        exact Resolver.type_eq_error_iff.2 (.inr ⟨m, found, other, rfl⟩)
      all_goals cases required
  | @below front back raw entries inside below =>
    have hjump := isJump_of_rawOffsets (c := c) (by rw [entries]; simp)
    rcases branch_or_switch hjump with ⟨raw', hraw, hread, -⟩ | ⟨-, hread, -⟩
    · obtain rfl : raw = raw' := by
        have hmem : raw ∈ c.rawOffsets := by rw [entries]; simp
        rw [hraw] at hmem
        exact List.mem_singleton.1 hmem
      rw [hread]
      exact (branch_eq_error_iff ordered).2 ⟨.inl below, rfl⟩
    · rw [hread]
      exact table_eq_error_iff.2 ⟨front, raw, back, entries, inside, below, rfl⟩
  | @back raw branches entry inside back missing =>
    have hjump := isJump_of_rawOffsets (c := c) (by rw [entry]; simp)
    rcases branch_or_switch hjump with ⟨raw', hraw, hread, -⟩ | ⟨hkind, -, -⟩
    · obtain rfl : raw = raw' := by
        rw [entry] at hraw
        exact List.singleton_inj.1 hraw
      rw [hread]
      exact (branch_eq_error_iff ordered).2 ⟨.inr ⟨inside, back, missing⟩, rfl⟩
    · exact absurd hkind branches

theorem misread_of_branch (branches : c.opcode.operand ≠ .switch) (entry : c.rawOffsets = [raw])
    (ordered : Instruction.Ordered before) (failed : c.branch before raw = .error fault) :
    c.Misread ctx (Instruction.starts before) fault := by
  obtain ⟨below | ⟨inside, back, missing⟩, rfl⟩ := (branch_eq_error_iff ordered).1 failed
  · have entries : c.rawOffsets = [] ++ raw :: [] := entry
    exact .below entries (by simp) below
  · exact .back branches entry inside back missing

theorem misread_of_wanted {wanted : MemberKind} {earlier : List Nat}
    (required : c.opcode.operand.wanted? = some wanted)
    (misses : ctx.resolver.Misses c.token ctx.generics wanted fault) :
    c.Misread ctx earlier fault := by
  rcases misses with failed | ⟨m, found, other, rfl⟩
  · have names : c.opcode.operand.namesMember = true := by
      cases hkind : c.opcode.operand <;> rw [hkind] at required <;> first | rfl | cases required
    exact .token (.member names failed)
  · exact .token (.wrongKind required found other)

theorem misread_of_operand (complete : c.Complete) (ordered : Instruction.Ordered before)
    (failed : c.operand ctx before = .error fault) :
    c.Misread ctx (Instruction.starts before) fault := by
  cases hkind : c.opcode.operand <;> simp only [operand, hkind] at failed
  case phi => exact absurd hkind complete.operand_ne_phi
  case branch8 | branch32 =>
    refine misread_of_branch (by rw [hkind]; decide) ?_ ordered failed
    simp only [rawOffsets, hkind]
  case switch =>
    have hraws : c.rawOffsets = tableWords (c.payload.drop 4) := by simp only [rawOffsets, hkind]
    rw [← hraws] at failed
    obtain ⟨front, raw, back, entries, inside, below, rfl⟩ := table_eq_error_iff.1 failed
    exact .below entries inside below
  case none =>
    unfold Context.shortForm at failed
    split at failed
    · next family slot hslot =>
      obtain ⟨beyond, rfl⟩ := Context.slot_eq_error_iff.1 failed
      refine .slot ?_ beyond
      rw [slot?, hkind]
      exact hslot
    · cases failed
  case slot8 | slot16 =>
    obtain ⟨beyond, rfl⟩ := Context.slot_eq_error_iff.1 failed
    refine .slot ?_ beyond
    rw [slot?, hkind]
  case string => exact .token (.string hkind (map_eq_error_iff.1 failed))
  case signature => exact .token (.signature hkind (map_eq_error_iff.1 failed))
  case field =>
    refine misread_of_wanted (by rw [hkind]; rfl) ?_
    exact Resolver.field_eq_error_iff.1 (map_eq_error_iff.1 failed)
  case method =>
    refine misread_of_wanted (by rw [hkind]; rfl) ?_
    exact Resolver.method_eq_error_iff.1 (map_eq_error_iff.1 failed)
  case type =>
    refine misread_of_wanted (by rw [hkind]; rfl) ?_
    exact Resolver.type_eq_error_iff.1 (map_eq_error_iff.1 failed)
  case anyMember => exact .token (.member (by rw [hkind]; rfl) (map_eq_error_iff.1 failed))
  all_goals cases failed

/-- The first step of decoding fails on a chunk exactly if the chunk makes no sense. -/
theorem operand_eq_error_iff (complete : c.Complete) (ordered : Instruction.Ordered before) :
    c.operand ctx before = .error fault ↔ c.Misread ctx (Instruction.starts before) fault :=
  ⟨misread_of_operand complete ordered, fun misread => misread.operand ordered⟩

/-- A chunk that makes no sense is not a fault of the encoding. -/
theorem Misread.not_ofEncoding {earlier : List Nat} (misread : c.Misread ctx earlier fault)
    (fails : ctx.resolver.FailsByToken) : fault.ofEncoding = false := by
  cases misread with
  | @slot family => cases family <;> rfl
  | below | back => rfl
  | token unresolved =>
    apply Fault.not_ofEncoding_of_ofToken
    cases unresolved with
    | string _ failed => exact fails.string _ _ failed
    | signature _ failed => exact fails.signature _ _ failed
    | member _ failed => exact fails.member _ _ _ failed
    | wrongKind => rfl

end Chunk

end Cil
