import Cil.Proofs.Body.Ordered
import Cil.Proofs.Body.Tiling
import Cil.Proofs.Fallible

/-!
# What operands denote

The meaning of a chunk's operand, as a relation: it depends on the context, on the chunk, and, for
jumps, on where the chunks of the body start. Decoding gives an operand its meaning in two steps,
the second of which knows the whole body. The two together reach exactly what is denoted, also for
a jump that the first step settles among the instructions before it.
-/

namespace Cil

open Fallible

namespace Context

/-- Other code in the same surroundings. -/
def withCode (ctx : Context) (code : List UInt8) : Context := { ctx with code }

/-- How many argument slots lie before those of the declared parameters. -/
def instanceSlots (ctx : Context) : Nat := if ctx.isStatic then 0 else 1

/-- The variable behind a slot. -/
inductive Selects (ctx : Context) : SlotFamily → Nat → Operand → Prop
  | this (bound : ctx.isStatic = false) : Selects ctx .argument 0 .this
  | param {position : Nat} {p : Param} (declared : ctx.params[position]? = some p) :
      Selects ctx .argument (position + ctx.instanceSlots) (.param position p)
  | var {slot : Nat} {v : Local} (declared : ctx.locals[slot]? = some v) :
      Selects ctx .local slot (.local slot v)

/-- Whether a slot is in range. -/
def HasSlot (ctx : Context) : SlotFamily → Nat → Prop
  | .argument, slot => slot < ctx.params.size + ctx.instanceSlots
  | .local, slot => slot < ctx.locals.size

theorem slot_eq_ok_iff {ctx : Context} {family : SlotFamily} {n offset : Nat} {o : Operand} :
    ctx.slot family n offset = .ok o ↔ ctx.Selects family n o := by
  cases family with
  | «local» =>
    simp only [slot]
    constructor
    · intro h
      split at h
      · next v hv =>
        cases h
        exact .var hv
      · cases h
    · rintro ⟨⟩
      next v hv => simp [hv]
  | argument =>
    simp only [slot]
    constructor
    · intro h
      split at h
      · next hthis =>
        cases h
        obtain ⟨hstatic, rfl⟩ : ctx.isStatic = false ∧ n = 0 := by simpa using hthis
        exact .this hstatic
      · next hthis =>
        split at h
        · next p hp =>
          cases h
          have hn : n = (if ctx.isStatic then n else n - 1) + ctx.instanceSlots := by
            cases hstatic : ctx.isStatic with
            | true => simp [instanceSlots, hstatic]
            | false =>
              have : n ≠ 0 := by simpa [hstatic] using hthis
              simp only [instanceSlots, hstatic, Bool.false_eq_true, if_false]
              omega
          rw [hn]
          simpa [← hn] using Selects.param hp
        · cases h
    · intro h
      cases h with
      | this bound => simp [bound]
      | param declared => cases hstatic : ctx.isStatic <;> simp [instanceSlots, hstatic, declared]

theorem exists_selects_iff {ctx : Context} {family : SlotFamily} {n : Nat} :
    (∃ o, ctx.Selects family n o) ↔ ctx.HasSlot family n := by
  constructor
  · rintro ⟨o, h⟩
    cases h with
    | this bound => simp [HasSlot, instanceSlots, bound]
    | param declared =>
      obtain ⟨hlt, -⟩ := Array.getElem?_eq_some_iff.1 declared
      exact Nat.add_lt_add_right hlt _
    | var declared =>
      obtain ⟨hlt, -⟩ := Array.getElem?_eq_some_iff.1 declared
      exact hlt
  · intro h
    cases family with
    | «local» => exact ⟨_, .var (Array.getElem?_eq_getElem h)⟩
    | argument =>
      by_cases hn : n < ctx.instanceSlots
      · cases hstatic : ctx.isStatic with
        | true => simp [instanceSlots, hstatic] at hn
        | false =>
          obtain rfl : n = 0 := by simpa [instanceSlots, hstatic] using hn
          exact ⟨.this, .this hstatic⟩
      · obtain ⟨position, rfl⟩ : ∃ position, n = position + ctx.instanceSlots :=
          ⟨n - ctx.instanceSlots, by omega⟩
        have hlt : position < ctx.params.size := Nat.lt_of_add_lt_add_right h
        exact ⟨_, .param (Array.getElem?_eq_getElem hlt)⟩

end Context

namespace Chunk

/-- A jump by a raw offset, counted from the end of the chunk. -/
structure Aims (c : Chunk) (raw : Int32) (j : Jump) : Prop where
  encoded : j.raw = raw
  relative : (j.target : Int) = c.stop + raw.toInt

/-- A jump by a raw offset to the start that its landing counts. -/
structure Lands (starts : List Nat) (c : Chunk) (raw : Int32) (j : Jump) : Prop
    extends c.Aims raw j where
  start : ∃ i, j.landing = some i ∧ starts[i]? = some j.target

/-- The raw offsets of the jumps that a chunk encodes, in table order. -/
def rawOffsets (c : Chunk) : List Int32 :=
  let n := LittleEndian.value c.payload
  match c.opcode.operand with
  | .branch8 => [(Int8.ofNat n).toInt32]
  | .branch32 => [Int32.ofNat n]
  | .switch => tableWords (c.payload.drop 4)
  | _ => []

/-- What the operand of a chunk denotes in a body whose chunks start at `starts`. -/
def Denotes (ctx : Context) (starts : List Nat) (c : Chunk) (o : Operand) : Prop :=
  let n := LittleEndian.value c.payload
  match c.opcode.operand with
  | .none =>
    match c.opcode.implicitSlot? with
    | some (family, slot) => ctx.Selects family slot o
    | none => o = .none
  | .int8 =>
    o = if c.opcode.loadsSignedByte then .sbyte (Int8.ofNat n).toInt32
      else .byte (UInt8.ofNat n)
  | .slot8 | .slot16 => ctx.Selects c.opcode.slotFamily n o
  | .int32 => o = .int32 (Int32.ofNat n)
  | .int64 => o = .int64 (Int64.ofNat n)
  | .float32 => o = .float32 (UInt32.ofNat n)
  | .float64 => o = .float64 (UInt64.ofNat n)
  | .string => ∃ s, ctx.resolver.string c.token = .ok s ∧ o = .string s
  | .field => ∃ f, ctx.member c.token = .ok (.field f) ∧ o = .field f
  | .method => ∃ m, ctx.member c.token = .ok (.method m) ∧ o = .method m
  | .type => ∃ t, ctx.member c.token = .ok (.type t) ∧ o = .type t
  | .anyMember =>
    (∃ f, ctx.member c.token = .ok (.field f) ∧ o = .field f) ∨
    (∃ m, ctx.member c.token = .ok (.method m) ∧ o = .method m) ∨
    (∃ t, ctx.member c.token = .ok (.type t) ∧ o = .type t) ∨
    (∃ p, ctx.member c.token = .ok (.property p) ∧ o = .unresolved c.token) ∨
    (∃ u, ctx.member c.token = .ok (.unknown u) ∧ o = .unresolved c.token)
  | .signature => ∃ blob, ctx.resolver.signature c.token = .ok blob ∧ o = .signature blob
  | .branch8 => ∃ j, c.Lands starts (Int8.ofNat n).toInt32 j ∧ o = .branch j
  | .branch32 => ∃ j, c.Lands starts (Int32.ofNat n) j ∧ o = .branch j
  | .switch =>
    ∃ js, List.Forall₂ (c.Lands starts) (tableWords (c.payload.drop 4)) js ∧ o = .switch js
  | .phi => False

end Chunk

/-- The kinds of operands that name other instructions. -/
def OperandKind.isJump : OperandKind → Bool
  | branch8 | branch32 | switch => true
  | _ => false

/-- The operands that name other instructions. -/
def Operand.isJump : Operand → Bool
  | branch _ | switch _ => true
  | _ => false

theorem Context.Selects.isJump {ctx : Context} {family : SlotFamily} {n : Nat} {o : Operand}
    (selects : ctx.Selects family n o) : o.isJump = false := by
  cases selects <;> rfl

theorem Resolver.field_eq_ok_iff {r : Resolver} {token : Token} {args : GenericArgs} {f : Field} :
    r.field token args = .ok f ↔ r.member token args = .ok (.field f) := by
  cases h : r.member token args with
  | error fault => simp [field, h, bind, Except.bind]
  | ok m => cases m <;> simp [field, h, bind, Except.bind]

theorem Resolver.method_eq_ok_iff {r : Resolver} {token : Token} {args : GenericArgs}
    {m : Method} : r.method token args = .ok m ↔ r.member token args = .ok (.method m) := by
  cases h : r.member token args with
  | error fault => simp [method, h, bind, Except.bind]
  | ok m => cases m <;> simp [method, h, bind, Except.bind]

theorem Resolver.type_eq_ok_iff {r : Resolver} {token : Token} {args : GenericArgs}
    {t : TypeDef} : r.type token args = .ok t ↔ r.member token args = .ok (.type t) := by
  cases h : r.member token args with
  | error fault => simp [type, h, bind, Except.bind]
  | ok m => cases m <;> simp [type, h, bind, Except.bind]

namespace Chunk

/-- Without jumps, the first step of decoding is all there is to do. -/
theorem operand_eq_ok_iff {ctx : Context} {c : Chunk} {o : Operand}
    (plain : c.opcode.operand.isJump = false) (before : Array Instruction) (starts : List Nat) :
    c.operand ctx before = .ok o ↔ c.Denotes ctx starts o := by
  cases hkind : c.opcode.operand <;> simp only [hkind, OperandKind.isJump] at plain
  all_goals simp only [operand, Denotes, hkind]
  case none =>
    rw [Context.shortForm]
    cases hslot : c.opcode.implicitSlot? with
    | none => simp [show c.opcode.selection.implicitSlot? = none from hslot, eq_comm]
    | some slot =>
      rw [show c.opcode.selection.implicitSlot? = some slot from hslot]
      exact Context.slot_eq_ok_iff
  case slot8 | slot16 => exact Context.slot_eq_ok_iff
  case field => simp [map_eq_ok_iff, Resolver.field_eq_ok_iff, Context.member]
  case method => simp [map_eq_ok_iff, Resolver.method_eq_ok_iff, Context.member]
  case type => simp [map_eq_ok_iff, Resolver.type_eq_ok_iff, Context.member]
  case string | signature => exact map_eq_ok_iff
  case anyMember =>
    cases hmember : ctx.member c.token with
    | error fault => simp [Except.map]
    | ok m => cases m <;> simp [Except.map, Operand.ofMember, eq_comm]
  case branch8 | branch32 | switch => cases plain
  case phi => simp
  all_goals exact ⟨fun h => (Except.ok.inj h).symm, fun h => congrArg Except.ok h.symm⟩

/-- Without jumps, a chunk denotes the same in any code and wherever chunks start. -/
theorem Denotes.of_plain {ctx : Context} {c : Chunk} {o : Operand} {code : List UInt8}
    {starts : List Nat} (denotes : c.Denotes (ctx.withCode code) starts o)
    (plain : c.opcode.operand.isJump = false) (code' : List UInt8) (starts' : List Nat) :
    c.Denotes (ctx.withCode code') starts' o := by
  have read : c.operand (ctx.withCode code) #[] = .ok o :=
    (operand_eq_ok_iff plain #[] starts).2 denotes
  have read' : c.operand (ctx.withCode code') #[] = .ok o := read
  exact (operand_eq_ok_iff plain #[] starts').1 read'

theorem jump_eq_ok_iff {c : Chunk} {raw : Int32} {j : Jump} :
    c.jump raw = .ok j ↔ c.Aims raw j ∧ j.landing = none := by
  simp only [jump, Jump.aim]
  constructor
  · intro h
    split at h
    · cases h
    · next hneg =>
      cases h
      exact ⟨⟨rfl, Int.toNat_of_nonneg (by omega)⟩, rfl⟩
  · rintro ⟨⟨hraw, htarget⟩, hlanding⟩
    obtain ⟨raw', target, landing⟩ := j
    simp only at hraw htarget hlanding
    subst hraw hlanding
    rw [if_neg (by omega), ← htarget, Int.toNat_natCast]

/-- Settling a jump finds where it lands, whether it was settled before or not. -/
theorem settle_eq_ok_iff {xs : Array Instruction} (ordered : Instruction.Ordered xs) {c : Chunk}
    {raw : Int32} {j j' : Jump} (aims : c.Aims raw j) (offset : Nat) (mnemonic : String) :
    j.settle xs offset mnemonic = .ok j' ↔ c.Lands (Instruction.starts xs) raw j' := by
  rw [Jump.settle]
  constructor
  · intro h
    split at h
    · next i hi =>
      cases h
      exact ⟨⟨aims.encoded, aims.relative⟩, i, rfl, (Instruction.indexAt?_eq_some_iff ordered).1 hi⟩
    · cases h
  · rintro ⟨⟨hraw, htarget⟩, i, hlanding, hstart⟩
    have hsame : j'.target = j.target := by
      have := aims.relative
      omega
    rw [hsame] at hstart
    rw [(Instruction.indexAt?_eq_some_iff ordered).2 hstart]
    obtain ⟨raw', target, landing⟩ := j'
    simp only at hraw hsame hlanding
    rw [hraw, hsame, hlanding, ← aims.encoded]

theorem branch_eq_ok_iff {before : Array Instruction} {c : Chunk} {raw : Int32} {o : Operand} :
    c.branch before raw = .ok o ↔
      ∃ j, c.jump raw = .ok j ∧
        ((j.target < c.offset ∧
            ∃ j', j.settle before c.offset c.opcode.mnemonic = .ok j' ∧ o = .branch j') ∨
          (c.offset ≤ j.target ∧ o = .branch j)) := by
  rw [branch, bind_eq_ok_iff]
  constructor
  · rintro ⟨j, hj, h⟩
    refine ⟨j, hj, ?_⟩
    split at h
    · next back =>
      obtain ⟨j', hj', ho⟩ := bind_eq_ok_iff.1 h
      exact Or.inl ⟨back, j', hj', pure_eq_ok_iff.1 ho⟩
    · next ahead => exact Or.inr ⟨Nat.le_of_not_lt ahead, pure_eq_ok_iff.1 h⟩
  · rintro ⟨j, hj, ⟨back, j', hj', ho⟩ | ⟨ahead, ho⟩⟩
    · refine ⟨j, hj, ?_⟩
      rw [if_pos back, bind_eq_ok_iff]
      exact ⟨j', hj', pure_eq_ok_iff.2 ho⟩
    · refine ⟨j, hj, ?_⟩
      rw [if_neg (Nat.not_lt_of_le ahead)]
      exact pure_eq_ok_iff.2 ho

theorem Lands.mono {starts later : List Nat} {c : Chunk} {raw : Int32} {j : Jump}
    (lands : c.Lands starts raw j) (longer : starts <+: later) : c.Lands later raw j := by
  obtain ⟨i, hi, hstart⟩ := lands.start
  obtain ⟨more, rfl⟩ := longer
  obtain ⟨hlt, -⟩ := List.getElem?_eq_some_iff.1 hstart
  exact ⟨lands.toAims, i, hi, by rw [List.getElem?_append_left hlt, hstart]⟩

theorem Lands.jump_eq_ok {starts : List Nat} {c : Chunk} {raw : Int32} {j : Jump}
    (lands : c.Lands starts raw j) : c.jump raw = .ok { j with landing := none } :=
  jump_eq_ok_iff.2 ⟨⟨lands.encoded, lands.relative⟩, rfl⟩

end Chunk

theorem Jump.landed_of_settle {xs : Array Instruction} {offset : Nat} {mnemonic : String}
    {j j' : Jump} (settled : j.settle xs offset mnemonic = .ok j') :
    j'.target = j.target ∧ ∃ i, j'.landing = some i := by
  rw [settle] at settled
  split at settled
  · cases settled
    exact ⟨rfl, _, rfl⟩
  · cases settled

theorem Jump.settle_congr {xs ys : Array Instruction}
    (same : Instruction.starts xs = Instruction.starts ys) (offset : Nat) (mnemonic : String)
    (j : Jump) : j.settle xs offset mnemonic = j.settle ys offset mnemonic := by
  rw [settle, settle, Instruction.indexAt?_congr same]

namespace Instruction

variable {xs : Array Instruction} {x x' : Instruction}

/-- Settling looks at nothing but where instructions start. -/
theorem settle_congr {ys : Array Instruction} (same : starts xs = starts ys) (x : Instruction) :
    x.settle xs = x.settle ys := by
  simp only [settle, Jump.settle_congr same]

theorem settle_branch {j : Jump} (hx : x.operand = .branch j) :
    x.settle xs = .ok x' ↔
      ∃ j', j.settle xs x.offset x.opcode.mnemonic = .ok j' ∧
        x' = { x with operand := .branch j' } := by
  simp only [settle, hx, bind_eq_ok_iff, pure_eq_ok_iff]

theorem settle_switch {js : List Jump} (hx : x.operand = .switch js) :
    x.settle xs = .ok x' ↔
      ∃ js', List.Forall₂ (fun j j' => j.settle xs x.offset x.opcode.mnemonic = .ok j') js js' ∧
        x' = { x with operand := .switch js' } := by
  simp only [settle, hx, bind_eq_ok_iff, pure_eq_ok_iff, mapM_eq_ok_iff]

theorem settle_plain (plain : x.operand.isJump = false) : x.settle xs = .ok x := by
  cases hx : x.operand with
  | branch j => simp [hx, Operand.isJump] at plain
  | switch js => simp [hx, Operand.isJump] at plain
  | _ => simp [settle, hx, pure, Except.pure]

theorem offset_of_settle (settled : x.settle xs = .ok x') : x'.offset = x.offset := by
  cases hx : x.operand with
  | branch j =>
    obtain ⟨j', -, rfl⟩ := (settle_branch hx).1 settled
    rfl
  | switch js =>
    obtain ⟨js', -, rfl⟩ := (settle_switch hx).1 settled
    rfl
  | _ =>
    rw [settle_plain (by rw [hx]; rfl)] at settled
    cases settled
    rfl

end Instruction

namespace Chunk

open Instruction (Ordered starts)

variable {ctx : Context} {c : Chunk} {o : Operand} {before all : Array Instruction}

theorem operand_congr {before' : Array Instruction} (same : starts before = starts before')
    (ctx : Context) (c : Chunk) : c.operand ctx before = c.operand ctx before' := by
  simp only [operand, branch, Jump.settle_congr same]

/-- A branch that lands can be read among instructions that cover what starts before it. -/
theorem exists_branch_of_lands {offsets : List Nat} {raw : Int32} {j : Jump}
    (lands : c.Lands offsets raw j) (ordered : Ordered before)
    (covered : ∀ s ∈ offsets, s < c.offset → s ∈ starts before) :
    ∃ o, c.branch before raw = .ok o := by
  by_cases back : j.target < c.offset
  · obtain ⟨i, -, hstart⟩ := lands.start
    obtain ⟨i', hi', hstart'⟩ :=
      List.getElem_of_mem (covered j.target (List.mem_of_getElem? hstart) back)
    have earlier : c.Lands (starts before) raw { j with landing := some i' } :=
      ⟨⟨lands.encoded, lands.relative⟩, i', rfl, List.getElem?_eq_some_iff.2 ⟨hi', hstart'⟩⟩
    have aims : c.Aims raw { j with landing := none } := ⟨lands.encoded, lands.relative⟩
    have settled := (settle_eq_ok_iff ordered aims c.offset c.opcode.mnemonic).2 earlier
    exact ⟨_, branch_eq_ok_iff.2 ⟨_, lands.jump_eq_ok, Or.inl ⟨back, _, settled, rfl⟩⟩⟩
  · exact ⟨_, branch_eq_ok_iff.2 ⟨_, lands.jump_eq_ok, Or.inr ⟨Nat.le_of_not_lt back, rfl⟩⟩⟩

/-- A chunk that encodes jumps is a branch or a switch. -/
theorem branch_or_switch (jumps : c.opcode.operand.isJump = true) :
    (∃ raw, c.rawOffsets = [raw] ∧
      (∀ ctx before, c.operand ctx before = c.branch before raw) ∧
      ∀ ctx offsets o, c.Denotes ctx offsets o ↔ ∃ j, c.Lands offsets raw j ∧ o = .branch j) ∨
    (c.opcode.operand = .switch ∧
      (∀ ctx before, c.operand ctx before = (c.rawOffsets.mapM c.jump).map .switch) ∧
      ∀ ctx offsets o, c.Denotes ctx offsets o ↔
        ∃ js, List.Forall₂ (c.Lands offsets) c.rawOffsets js ∧ o = .switch js) := by
  cases hkind : c.opcode.operand
  case branch8 | branch32 => left; simp [rawOffsets, operand, Denotes, hkind]
  case switch => right; simp [rawOffsets, operand, Denotes, hkind]
  all_goals simp [hkind, OperandKind.isJump] at jumps

/-- An operand names instructions exactly if its kind does. -/
theorem Denotes.isJump {offsets : List Nat} (denotes : c.Denotes ctx offsets o) :
    o.isJump = c.opcode.operand.isJump := by
  cases hjump : c.opcode.operand.isJump with
  | true =>
    rcases branch_or_switch hjump with ⟨raw, -, -, hdenotes⟩ | ⟨-, -, hdenotes⟩
    · obtain ⟨j, -, rfl⟩ := (hdenotes ctx offsets o).1 denotes
      rfl
    · obtain ⟨js, -, rfl⟩ := (hdenotes ctx offsets o).1 denotes
      rfl
  | false =>
    cases hkind : c.opcode.operand
    case branch8 | branch32 | switch => simp [hkind, OperandKind.isJump] at hjump
    all_goals simp only [Denotes, hkind] at denotes
    case none =>
      split at denotes
      · exact denotes.isJump
      · exact denotes ▸ rfl
    case slot8 | slot16 => exact denotes.isJump
    case int8 =>
      rw [denotes]
      split <;> rfl
    case string | field | method | type | signature =>
      obtain ⟨_, _, rfl⟩ := denotes
      rfl
    case anyMember =>
      rcases denotes with ⟨_, _, rfl⟩ | ⟨_, _, rfl⟩ | ⟨_, _, rfl⟩ | ⟨_, _, rfl⟩ | ⟨_, _, rfl⟩ <;>
        rfl
    all_goals exact denotes ▸ rfl

theorem Denotes.branch {offsets : List Nat} {j : Jump}
    (denotes : c.Denotes ctx offsets (.branch j)) :
    ∃ raw, c.rawOffsets = [raw] ∧ c.Lands offsets raw j := by
  rcases branch_or_switch denotes.isJump.symm with ⟨raw, hraw, -, hdenotes⟩ | ⟨-, -, hdenotes⟩
  · obtain ⟨j', lands, ho⟩ := (hdenotes ctx offsets _).1 denotes
    cases ho
    exact ⟨raw, hraw, lands⟩
  · obtain ⟨js, -, ho⟩ := (hdenotes ctx offsets _).1 denotes
    cases ho

theorem Denotes.switch {offsets : List Nat} {js : List Jump}
    (denotes : c.Denotes ctx offsets (.switch js)) :
    c.opcode.operand = .switch ∧ List.Forall₂ (c.Lands offsets) c.rawOffsets js := by
  rcases branch_or_switch denotes.isJump.symm with ⟨raw, -, -, hdenotes⟩ | ⟨hkind, -, hdenotes⟩
  · obtain ⟨j, -, ho⟩ := (hdenotes ctx offsets _).1 denotes
    cases ho
  · obtain ⟨js', lands, ho⟩ := (hdenotes ctx offsets _).1 denotes
    cases ho
    exact ⟨hkind, lands⟩

/-- What is denoted passes the first step of decoding. -/
theorem exists_operand_of_denotes {offsets : List Nat} (denotes : c.Denotes ctx offsets o)
    (ordered : Ordered before) (covered : ∀ s ∈ offsets, s < c.offset → s ∈ starts before) :
    ∃ o', c.operand ctx before = .ok o' := by
  cases hjump : c.opcode.operand.isJump with
  | false => exact ⟨o, (operand_eq_ok_iff hjump before offsets).2 denotes⟩
  | true =>
    rcases branch_or_switch hjump with ⟨raw, -, hread, hdenotes⟩ | ⟨-, hread, hdenotes⟩
    · obtain ⟨j, lands, -⟩ := (hdenotes ctx offsets o).1 denotes
      rw [hread]
      exact exists_branch_of_lands lands ordered covered
    · obtain ⟨js, lands, -⟩ := (hdenotes ctx offsets o).1 denotes
      have jumps : List.Forall₂ (fun raw j => c.jump raw = .ok j) c.rawOffsets
          (js.map fun j => { j with landing := none }) :=
        List.forall₂_map_right_iff.2 (lands.imp fun _ _ => Lands.jump_eq_ok)
      rw [hread]
      exact ⟨_, map_eq_ok_iff.2 ⟨_, mapM_eq_ok_iff.2 jumps, rfl⟩⟩

/-- A branch that was read aims where it is to land, and has landed there if it does not wait. -/
theorem aims_of_branch {raw : Int32} (ordered : Ordered before)
    (read : c.branch before raw = .ok o) :
    ∃ j, o = .branch j ∧ c.Aims raw j ∧
      (j.landing = none ∧ c.offset ≤ j.target ∨
        j.target < c.offset ∧ c.Lands (starts before) raw j) := by
  obtain ⟨j, hj, ⟨back, j', hsettle, rfl⟩ | ⟨ahead, rfl⟩⟩ := branch_eq_ok_iff.1 read
  · have aims := (jump_eq_ok_iff.1 hj).1
    have lands := (settle_eq_ok_iff ordered aims _ _).1 hsettle
    have hsame : j'.target = j.target := by
      have h := aims.relative
      have h' := lands.relative
      omega
    exact ⟨j', rfl, lands.toAims, Or.inr ⟨hsame ▸ back, lands⟩⟩
  · obtain ⟨aims, unsettled⟩ := jump_eq_ok_iff.1 hj
    exact ⟨j, rfl, aims, Or.inl ⟨unsettled, ahead⟩⟩

theorem aims_of_switch (read : (c.rawOffsets.mapM c.jump).map .switch = .ok o) :
    ∃ js, o = .switch js ∧
      List.Forall₂ (fun raw j => c.Aims raw j ∧ j.landing = none) c.rawOffsets js := by
  obtain ⟨js, hjs, rfl⟩ := map_eq_ok_iff.1 read
  exact ⟨js, rfl, (mapM_eq_ok_iff.1 hjs).imp fun _ _ => jump_eq_ok_iff.1⟩

/-- Settling the jumps of a table finds where each of them lands. -/
theorem settle_table_iff (ordered : Ordered all) {raws : List Int32} {js js' : List Jump}
    (aims : List.Forall₂ (fun raw j => c.Aims raw j ∧ j.landing = none) raws js) (offset : Nat)
    (mnemonic : String) :
    List.Forall₂ (fun j j' => j.settle all offset mnemonic = .ok j') js js' ↔
      List.Forall₂ (c.Lands (starts all)) raws js' := by
  induction aims generalizing js' with
  | nil => simp
  | cons first _ ih =>
    cases js' with
    | nil => simp
    | cons j' js' =>
      rw [List.forall₂_cons, List.forall₂_cons, ih, settle_eq_ok_iff ordered first.1]

/-- The second step of decoding, among all instructions, reaches exactly what is denoted. -/
theorem settle_eq_ok_iff_denotes {x x' : Instruction} (read : c.operand ctx before = .ok x.operand)
    (longer : starts before <+: starts all) (ordered : Ordered all) :
    x.settle all = .ok x' ↔
      ∃ o, x' = { x with operand := o } ∧ c.Denotes ctx (starts all) o := by
  have ordered' : Ordered before := List.Pairwise.sublist longer.sublist ordered
  cases hjump : c.opcode.operand.isJump with
  | false =>
    have plain := ((operand_eq_ok_iff hjump before (starts all)).1 read).isJump.trans hjump
    rw [Instruction.settle_plain plain]
    constructor
    · intro h
      cases h
      exact ⟨x.operand, rfl, (operand_eq_ok_iff hjump before (starts all)).1 read⟩
    · rintro ⟨o, rfl, denotes⟩
      have read' := (operand_eq_ok_iff hjump before (starts all)).2 denotes
      rw [read] at read'
      cases read'
      rfl
  | true =>
    rcases branch_or_switch hjump with ⟨raw, -, hread, hdenotes⟩ | ⟨-, hread, hdenotes⟩
    · rw [hread] at read
      obtain ⟨j, hj, aims, -⟩ := aims_of_branch ordered' read
      rw [Instruction.settle_branch hj]
      constructor
      · rintro ⟨j', settled, rfl⟩
        have lands := (settle_eq_ok_iff ordered aims _ _).1 settled
        exact ⟨_, rfl, (hdenotes _ _ _).2 ⟨j', lands, rfl⟩⟩
      · rintro ⟨o, rfl, denotes⟩
        obtain ⟨j', lands, rfl⟩ := (hdenotes _ _ _).1 denotes
        exact ⟨j', (settle_eq_ok_iff ordered aims _ _).2 lands, rfl⟩
    · rw [hread] at read
      obtain ⟨js, hjs, aims⟩ := aims_of_switch read
      rw [Instruction.settle_switch hjs]
      constructor
      · rintro ⟨js', settled, rfl⟩
        have lands := (settle_table_iff ordered aims _ _).1 settled
        exact ⟨_, rfl, (hdenotes _ _ _).2 ⟨js', lands, rfl⟩⟩
      · rintro ⟨o, rfl, denotes⟩
        obtain ⟨js', lands, rfl⟩ := (hdenotes _ _ _).1 denotes
        exact ⟨js', (settle_table_iff ordered aims _ _).2 lands, rfl⟩

/-- An operand that does not wait is denoted already. -/
theorem denotes_of_not_waits (read : c.operand ctx before = .ok o)
    (longer : starts before <+: starts all) (ordered : Ordered all) (ready : o.waits = false) :
    c.Denotes ctx (starts all) o := by
  have ordered' : Ordered before := List.Pairwise.sublist longer.sublist ordered
  cases hjump : c.opcode.operand.isJump with
  | false => exact (operand_eq_ok_iff hjump before (starts all)).1 read
  | true =>
    rcases branch_or_switch hjump with ⟨raw, -, hread, hdenotes⟩ | ⟨-, hread, -⟩
    · rw [hread] at read
      obtain ⟨j, rfl, -, ⟨unsettled, -⟩ | ⟨-, lands⟩⟩ := aims_of_branch ordered' read
      · simp [Operand.waits, unsettled] at ready
      · exact (hdenotes _ _ _).2 ⟨j, lands.mono longer, rfl⟩
    · rw [hread] at read
      obtain ⟨js, rfl, -⟩ := aims_of_switch read
      simp [Operand.waits] at ready

theorem waits_of_operand (read : c.operand ctx before = .ok o)
    (plain : c.opcode.operand.isJump = false) : o.waits = false := by
  have isJump := ((operand_eq_ok_iff plain before []).1 read).isJump.trans plain
  cases o <;> first | rfl | cases isJump

end Chunk

end Cil
