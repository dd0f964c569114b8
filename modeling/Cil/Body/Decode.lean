import Cil.Body.Fetch
import Cil.Body.Instruction
import Cil.Event

/-!
# Decoding

Instructions are read front to back. A branch backwards is settled at once against the instructions
before it; branches forwards, branches to themselves and switches wait, and are settled in order
once every instruction is known. So a fault met on the way wins over a target that turns out to be
missing in the end.
-/

namespace Cil

namespace Context

/-- The variable that a slot of the instruction at `offset` selects. In an instance method the
argument slots start with the instance. -/
def slot (ctx : Context) (family : SlotFamily) (slot offset : Nat) : Except Fault Operand :=
  match family with
  | .argument =>
    if !ctx.isStatic && slot == 0 then
      .ok .this
    else
      let position := if ctx.isStatic then slot else slot - 1
      match ctx.params[position]? with
      | some p => .ok (.param position p)
      | none => .error (.argumentSlot slot offset ctx.params.size)
  | .local =>
    match ctx.locals[slot]? with
    | some v => .ok (.local slot v)
    | none => .error (.localSlot slot offset ctx.locals.size)

/-- The operand of an opcode that no bytes follow. -/
def shortForm (ctx : Context) (s : Selection) (offset : Nat) : Except Fault Operand :=
  match s.implicitSlot? with
  | some (family, slot) => ctx.slot family slot offset
  | none => .ok .none

end Context

namespace Jump

/-- The jump by a raw offset, counted from `base`. It must not lead to a place before the body. -/
def aim (op : Opcode) (offset base : Nat) (raw : Int32) : Except Fault Jump :=
  let target : Int := base + raw.toInt
  if target < 0 then
    .error (.badTarget offset op.mnemonic target)
  else
    .ok { raw, target := target.toNat, landing := none }

/-- Finds the instruction a jump leads to, on behalf of the instruction at `offset`. -/
def settle (xs : Array Instruction) (offset : Nat) (mnemonic : String) (j : Jump) :
    Except Fault Jump :=
  match Instruction.indexAt? xs j.target with
  | some i => .ok { j with landing := some i }
  | none => .error (.badTarget offset mnemonic j.target)

end Jump

def Instruction.settle (xs : Array Instruction) (x : Instruction) : Except Fault Instruction :=
  match x.operand with
  | .branch jump => do
    let jump ← jump.settle xs x.offset x.opcode.mnemonic
    return { x with operand := .branch jump }
  | .switch jumps => do
    let jumps ← jumps.mapM (·.settle xs x.offset x.opcode.mnemonic)
    return { x with operand := .switch jumps }
  | _ => return x

/-- The instructions so far, and the indices of those that wait. -/
structure Draft where
  instructions : Array Instruction := #[]
  pending : Array Nat := #[]

/-- An operand that was read, the indices that wait with it, and the place behind it. -/
structure Intake where
  operand : Operand
  pending : Array Nat
  after : Cursor

namespace Draft

def literal (d : Draft) (offset : Nat) (c : Cursor) (type : ScalarType)
    (meaning : type.Value → Except Fault Operand) : Except Fault Intake := do
  let (value, after) ← c.fetch type offset
  return ⟨← meaning value, d.pending, after⟩

/-- A branch from the next instruction, which ends at `after`. -/
def branch (d : Draft) (op : Opcode) (offset : Nat) (after : Cursor) (raw : Int32) :
    Except Fault Intake := do
  let jump ← Jump.aim op offset after.pos raw
  if jump.target < offset then
    return ⟨.branch (← jump.settle d.instructions offset op.mnemonic), d.pending, after⟩
  else
    return ⟨.branch jump, d.pending.push d.instructions.size, after⟩

def switch (d : Draft) (op : Opcode) (offset : Nat) (c : Cursor) : Except Fault Intake := do
  let (count, table) ← c.switchCount offset
  let (raws, after) ← table.entries offset count
  let jumps ← raws.mapM (Jump.aim op offset after.pos)
  return ⟨.switch jumps, d.pending.push d.instructions.size, after⟩

def operand (ctx : Context) (d : Draft) (s : Selection) (offset : Nat) (c : Cursor) :
    Except Fault Intake :=
  match s.opcode.operand with
  | .none => (ctx.shortForm s offset).map fun o => ⟨o, d.pending, c⟩
  | .int8 =>
    if s.loadsSignedByte then d.literal offset c .i8 fun v => .ok (.sbyte v.toInt32)
    else d.literal offset c .u8 fun v => .ok (.byte v)
  | .slot8 => d.literal offset c .u8 fun v => ctx.slot s.slotFamily8 v.toNat offset
  | .slot16 => d.literal offset c .u16 fun v => ctx.slot s.slotFamily16 v.toNat offset
  | .int32 => d.literal offset c .i32 fun v => .ok (.int32 v)
  | .int64 => d.literal offset c .i64 fun v => .ok (.int64 v)
  | .float32 => d.literal offset c .f32 fun v => .ok (.float32 v)
  | .float64 => d.literal offset c .f64 fun v => .ok (.float64 v)
  | .string => d.literal offset c .u32 fun v => (ctx.resolver.string ⟨v⟩).map .string
  | .field => d.literal offset c .u32 fun v => (ctx.resolver.field ⟨v⟩ ctx.generics).map .field
  | .method => d.literal offset c .u32 fun v => (ctx.resolver.method ⟨v⟩ ctx.generics).map .method
  | .type => d.literal offset c .u32 fun v => (ctx.resolver.type ⟨v⟩ ctx.generics).map .type
  | .anyMember => d.literal offset c .u32 fun v => (ctx.member ⟨v⟩).map (.ofMember ⟨v⟩)
  | .signature => d.literal offset c .u32 fun v => (ctx.resolver.signature ⟨v⟩).map .signature
  | .branch8 => do
    let (raw, after) ← c.fetch .i8 offset
    d.branch s.opcode offset after raw.toInt32
  | .branch32 => do
    let (raw, after) ← c.fetch .i32 offset
    d.branch s.opcode offset after raw
  | .switch => d.switch s.opcode offset c
  | .phi => .error (.unsupportedOperand .phi)

/-- The last instruction is followed by one more. -/
def link (xs : Array Instruction) : Array Instruction :=
  if h : 0 < xs.size then
    xs.set (xs.size - 1) { xs[xs.size - 1] with next := some xs.size }
  else
    xs

/-- Reads the next instruction and puts it behind the others. -/
def next (ctx : Context) (d : Draft) (c : Cursor) : Except Fault (Draft × Cursor) := do
  let index := d.instructions.size
  let (selection, body) ← c.opcode c.pos
  let intake ← d.operand ctx selection c.pos body
  let x : Instruction :=
    { index
      offset := c.pos
      opcode := selection.opcode
      size := intake.after.pos - c.pos
      previous := if index = 0 then none else some (index - 1)
      next := none
      operand := intake.operand }
  return (⟨(link d.instructions).push x, intake.pending⟩, intake.after)

end Draft

/-! ## What a step leaves -/

/-- The read of an operand goes forward, and lets at most the next instruction wait. -/
structure Intake.Extends (d : Draft) (c : Cursor) (intake : Intake) : Prop where
  shorter : intake.after.rest.length ≤ c.rest.length
  pending : intake.pending = d.pending ∨ intake.pending = d.pending.push d.instructions.size

namespace Draft

variable {ctx : Context} {d : Draft} {c after : Cursor} {offset : Nat} {intake : Intake}

theorem extends_of_literal {type : ScalarType} {meaning : type.Value → Except Fault Operand}
    (h : d.literal offset c type meaning = .ok intake) : intake.Extends d c := by
  simp only [literal, bind, Except.bind] at h
  split at h
  · cases h
  next value hvalue =>
  have shorter := Cursor.length_rest_of_fetch hvalue
  split at h
  · cases h
  · cases h
    exact ⟨by dsimp only; omega, .inl rfl⟩

theorem extends_of_branch {op : Opcode} {raw : Int32}
    (h : d.branch op offset after raw = .ok intake)
    (shorter : after.rest.length ≤ c.rest.length) : intake.Extends d c := by
  simp only [branch, bind, Except.bind] at h
  split at h
  · cases h
  split at h
  · split at h
    · cases h
    · cases h
      exact ⟨shorter, .inl rfl⟩
  · cases h
    exact ⟨shorter, .inr rfl⟩

theorem extends_of_switch {op : Opcode} (h : d.switch op offset c = .ok intake) :
    intake.Extends d c := by
  simp only [switch, bind, Except.bind] at h
  split at h
  · cases h
  next count hcount =>
  split at h
  · cases h
  next raws hraws =>
  split at h
  · cases h
  cases h
  exact ⟨Nat.le_trans (Cursor.length_rest_of_entries hraws)
    (Cursor.length_rest_of_switchCount hcount), .inr rfl⟩

theorem extends_of_operand {s : Selection} (h : d.operand ctx s offset c = .ok intake) :
    intake.Extends d c := by
  unfold operand at h
  split at h
  case h_1 =>
    unfold Except.map at h
    split at h
    · cases h
    · cases h
      exact ⟨Nat.le_refl _, .inl rfl⟩
  case h_2 =>
    split at h
    · exact extends_of_literal h
    · exact extends_of_literal h
  case h_15 | h_16 =>
    simp only [bind, Except.bind] at h
    split at h
    · cases h
    next value hvalue =>
    have shorter := Cursor.length_rest_of_fetch hvalue
    exact extends_of_branch h (by omega)
  case h_17 => exact extends_of_switch h
  case h_18 => cases h
  all_goals exact extends_of_literal h

theorem size_link (xs : Array Instruction) : (link xs).size = xs.size := by
  unfold link
  split
  · rw [Array.size_set]
  · rfl

/-- Whatever waits is there. -/
def InRange (d : Draft) : Prop := ∀ i ∈ d.pending, i < d.instructions.size

theorem next_spec {d' : Draft} (h : d.next ctx c = .ok (d', after)) :
    after.rest.length < c.rest.length ∧ (d.InRange → d'.InRange) := by
  simp only [next, bind, Except.bind] at h
  split at h
  · cases h
  next head hhead =>
  split at h
  · cases h
  next intake hintake =>
  cases h
  have shorter := Cursor.length_rest_of_opcode hhead
  have moved := extends_of_operand hintake
  refine ⟨Nat.lt_of_le_of_lt moved.shorter shorter, fun inRange i hi => ?_⟩
  rw [Array.size_push, size_link]
  rcases moved.pending with same | pushed
  · rw [same] at hi
    exact Nat.lt_succ_of_lt (inRange i hi)
  · rw [pushed] at hi
    rcases Array.mem_push.1 hi with hi | rfl
    · exact Nat.lt_succ_of_lt (inRange i hi)
    · exact Nat.lt_succ_self _

/-! ## The two passes -/

def run (ctx : Context) (d : Draft) (c : Cursor) : Except Fault Draft :=
  if c.hasMore then
    match h : d.next ctx c with
    | .ok (d, after) =>
      have := (next_spec h).1
      run ctx d after
    | .error fault => .error fault
  else
    .ok d
termination_by c.rest.length

theorem inRange_of_run {d' : Draft} (inRange : d.InRange) (h : run ctx d c = .ok d') :
    d'.InRange := by
  fun_induction run ctx d c with
  | case1 d c _ d' after hnext _ ih => exact ih ((next_spec hnext).2 inRange) h
  | case2 => cases h
  | case3 =>
    cases h
    exact inRange

/-- Settles the instructions at some indices, one after the other. Where there is no instruction at
an index, there is no outcome. -/
def settleEach (xs : Array Instruction) : List Nat → Option (Except Fault (Array Instruction))
  | [] => some (.ok xs)
  | i :: is =>
    if h : i < xs.size then
      match xs[i].settle xs with
      | .error fault => some (.error fault)
      | .ok x => settleEach (xs.set i x) is
    else
      none

theorem isSome_settleEach {xs : Array Instruction} {is : List Nat}
    (inRange : ∀ i ∈ is, i < xs.size) : (settleEach xs is).isSome := by
  induction is generalizing xs with
  | nil => rfl
  | cons i is ih =>
    rw [settleEach, dif_pos (inRange i List.mem_cons_self)]
    split
    · rfl
    · refine ih fun k hk => ?_
      rw [Array.size_set]
      exact inRange k (List.mem_cons_of_mem _ hk)

def settle? (d : Draft) : Option (Except Fault Listing) :=
  (settleEach d.instructions d.pending.toList).map (Except.map Listing.mk)

end Draft

namespace Context

/-- The front-to-back part of decoding. -/
def draft (ctx : Context) : Except Fault Draft := Draft.run ctx {} (.start ctx.code)

def decodeReported? (ctx : Context) : Option (Except Fault (Listing × Event)) :=
  match ctx.draft with
  | .error fault => some (.error fault)
  | .ok draft =>
    draft.settle?.map (Except.map fun listing =>
      (listing, .decoded listing.size ctx.code.length draft.pending.size))

theorem inRange_of_draft {ctx : Context} {d : Draft} (h : ctx.draft = .ok d) : d.InRange :=
  Draft.inRange_of_run (fun _ hi => absurd hi (by simp)) h

/-- Decoding has an outcome, whatever the body. -/
theorem isSome_decodeReported? (ctx : Context) : ctx.decodeReported?.isSome := by
  unfold decodeReported?
  split
  · rfl
  · next d hd =>
    rw [Option.isSome_map, Draft.settle?, Option.isSome_map]
    exact Draft.isSome_settleEach fun i hi => inRange_of_draft hd i (Array.mem_toList_iff.1 hi)

/-- Decodes a body and reports on it. -/
def decodeReported (ctx : Context) : Except Fault (Listing × Event) :=
  ctx.decodeReported?.get ctx.isSome_decodeReported?

def decode (ctx : Context) : Except Fault Listing := ctx.decodeReported.map Prod.fst

/-- Decodes bodies one by one; a fault in one does not touch the others. -/
def decodeAll (bodies : List Context) : List (Except Fault Listing) := bodies.map decode

end Context

end Cil
