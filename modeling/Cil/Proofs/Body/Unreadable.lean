import Cil.Proofs.Body.Faults

/-!
# Bytes that cannot be read

Where code goes on but no chunk can be read, the bytes there say why: they select no opcode, or the
code ends inside the opcode, the operand or the table. The fault names the place where the
instruction starts, and how many bytes are there of those that were to be read.
-/

namespace Cil

open Fallible

/-- Only the reserved kind has no size. -/
theorem OperandKind.exists_size? {kind : OperandKind} (sized : kind ≠ .phi) :
    ∃ n, kind.size? = some n := by
  cases kind
  case phi => exact absurd rfl sized
  all_goals exact ⟨_, rfl⟩

namespace Chunk

/-- Bytes at an offset that start no chunk, and the fault of reading them. -/
inductive Unreadable (offset : Nat) : List UInt8 → Fault → Prop
  /-- The second byte of an extended opcode is missing. -/
  | lead : Unreadable offset [extendedLead] (.truncated offset 1 0)
  | single {first : UInt8} {rest : List UInt8} (short : first ≠ extendedLead)
      (undefined : Opcode.lookup? .single first = none) :
      Unreadable offset (first :: rest) (.unknownOpcode offset first.toNat)
  | extended {second : UInt8} {rest : List UInt8}
      (undefined : Opcode.lookup? .extended second = none) :
      Unreadable offset (extendedLead :: second :: rest)
        (.unknownOpcode offset (0xFE00 + second.toNat))
  /-- The code ends before the fixed part of the operand does. -/
  | operand {op : Opcode} {rest : List UInt8} {n : Nat}
      (defined : Opcode.lookup? op.page op.byte = some op) (size : op.operand.size? = some n)
      (short : rest.length < n) :
      Unreadable offset (op.bytes ++ rest) (.truncated offset n rest.length)
  /-- The code ends before the table of a switch does. -/
  | table {op : Opcode} {count rest : List UInt8}
      (defined : Opcode.lookup? op.page op.byte = some op) (kind : op.operand = .switch)
      (width : count.length = 4) (short : rest.length < 4 * LittleEndian.value count) :
      Unreadable offset (op.bytes ++ (count ++ rest))
        (.truncated offset (4 * LittleEndian.value count) rest.length)

variable {offset n : Nat} {c : Cursor} {fault : Fault}

/-- An operand that cannot be read ends behind the code, in its fixed part or in its table. -/
theorem readPayload_eq_error_iff {kind : OperandKind} (size : kind.size? = some n) :
    readPayload offset kind c = .error fault ↔
      (c.rest.length < n ∧ fault = .truncated offset n c.rest.length) ∨
      ∃ count rest, kind = .switch ∧ count.length = n ∧ c.rest = count ++ rest ∧
        rest.length < 4 * LittleEndian.value count ∧
        fault = .truncated offset (4 * LittleEndian.value count) rest.length := by
  rw [readPayload_eq size, bind_eq_error_iff, readOperandBytes_eq_error_iff]
  refine or_congr_right ?_
  constructor
  · rintro ⟨⟨count, after⟩, hread, failed⟩
    obtain ⟨width, hrest, -⟩ := readOperandBytes_eq_ok_iff.1 hread
    split at failed
    · next hkind =>
      obtain ⟨short, rfl⟩ := readOperandBytes_eq_error_iff.1 (map_eq_error_iff.1 failed)
      exact ⟨count, after.rest, hkind, width, hrest, short, rfl⟩
    · cases failed
  · rintro ⟨count, rest, hkind, width, hrest, short, rfl⟩
    refine ⟨(count, ⟨c.pos + n, rest⟩), readOperandBytes_eq_ok_iff.2 ⟨width, hrest, rfl⟩, ?_⟩
    rw [if_pos hkind, map_eq_error_iff]
    exact readOperandBytes_eq_error_iff.2 ⟨short, rfl⟩

/-- An opcode that cannot be read lacks its second byte, or is not defined. -/
theorem opcode_eq_error_iff {code : List UInt8} (more : code ≠ []) :
    Cursor.opcode offset ⟨offset, code⟩ = .error fault ↔
      (code = [extendedLead] ∧ fault = .truncated offset 1 0) ∨
      (∃ first rest, code = first :: rest ∧ first ≠ extendedLead ∧
        Opcode.lookup? .single first = none ∧ fault = .unknownOpcode offset first.toNat) ∨
      ∃ second rest, code = extendedLead :: second :: rest ∧
        Opcode.lookup? .extended second = none ∧
        fault = .unknownOpcode offset (0xFE00 + second.toNat) := by
  have byte (pos : Nat) (b : UInt8) (rest : List UInt8) :
      Cursor.fetch .u8 offset ⟨pos, b :: rest⟩ = .ok (b, ⟨pos + 1, rest⟩) :=
    Cursor.fetch_byte_eq_ok_iff.2 ⟨rfl, rfl⟩
  have noByte (pos : Nat) : Cursor.fetch .u8 offset ⟨pos, []⟩ = .error (.truncated offset 1 0) := rfl
  cases code with
  | nil => exact absurd rfl more
  | cons first rest =>
    rw [Cursor.opcode, byte]
    by_cases hlead : first = extendedLead
    · subst hlead
      cases rest with
      | nil => simp [noByte, eq_comm]
      | cons second rest =>
        cases hfound : Opcode.lookup? .extended second with
        | none => simp [byte, hfound, eq_comm]
        | some op => simp [byte, hfound]
    · cases hfound : Opcode.lookup? .single first with
      | none => simp [hlead, hfound, eq_comm]
      | some op => simp [hlead, hfound]

/-- The bytes that start no chunk are those at which a read fails. -/
theorem read_eq_error_iff {code : List UInt8} (more : code ≠ []) :
    read ⟨offset, code⟩ = .error fault ↔ Unreadable offset code fault := by
  constructor
  · intro failed
    rw [read] at failed
    split at failed
    · next hopcode =>
      cases failed
      rcases (opcode_eq_error_iff more).1 hopcode with
        ⟨rfl, rfl⟩ | ⟨first, rest, rfl, short, undefined, rfl⟩ | ⟨second, rest, rfl, undefined, rfl⟩
      · exact .lead
      · exact .single short undefined
      · exact .extended undefined
    · next s after hopcode =>
      obtain ⟨defined, -, hcode, -⟩ := Cursor.opcode_eq_ok_iff.1 hopcode
      obtain ⟨n, size⟩ := OperandKind.exists_size? (Opcode.operand_ne_phi_of_lookup? defined)
      dsimp only at hcode
      split at failed
      · next hpayload =>
        cases failed
        rw [hcode]
        rcases (readPayload_eq_error_iff size).1 hpayload with
          ⟨short, rfl⟩ | ⟨count, rest, kind, width, hrest, short, rfl⟩
        · exact .operand defined size short
        · rw [kind] at size
          cases size
          rw [hrest]
          exact .table defined kind width short
      · cases failed
  · intro unreadable
    cases unreadable with
    | lead =>
      have hopcode : Cursor.opcode offset ⟨offset, [extendedLead]⟩ = .error (.truncated offset 1 0) :=
        (opcode_eq_error_iff more).2 (.inl ⟨rfl, rfl⟩)
      simp only [read, hopcode]
    | @single first rest short undefined =>
      have hopcode : Cursor.opcode offset ⟨offset, first :: rest⟩ =
          .error (.unknownOpcode offset first.toNat) :=
        (opcode_eq_error_iff more).2 (.inr (.inl ⟨first, rest, rfl, short, undefined, rfl⟩))
      simp only [read, hopcode]
    | @extended second rest undefined =>
      have hopcode : Cursor.opcode offset ⟨offset, extendedLead :: second :: rest⟩ =
          .error (.unknownOpcode offset (0xFE00 + second.toNat)) :=
        (opcode_eq_error_iff more).2 (.inr (.inr ⟨second, rest, rfl, undefined, rfl⟩))
      simp only [read, hopcode]
    | @operand op rest n defined size short =>
      have hopcode : Cursor.opcode offset ⟨offset, op.bytes ++ rest⟩ =
          .ok (op.selection, ⟨offset + op.size, rest⟩) :=
        Cursor.opcode_eq_ok_iff.2 ⟨defined, rfl, rfl, rfl⟩
      have hpayload : readPayload offset op.operand ⟨offset + op.size, rest⟩ =
          .error (.truncated offset n rest.length) :=
        (readPayload_eq_error_iff size).2 (.inl ⟨short, rfl⟩)
      simp only [read, hopcode, Opcode.selection, hpayload]
    | @table op count rest defined kind width short =>
      have hopcode : Cursor.opcode offset ⟨offset, op.bytes ++ (count ++ rest)⟩ =
          .ok (op.selection, ⟨offset + op.size, count ++ rest⟩) :=
        Cursor.opcode_eq_ok_iff.2 ⟨defined, rfl, rfl, rfl⟩
      have size : op.operand.size? = some 4 := by
        rw [kind]
        rfl
      have hpayload : readPayload offset op.operand ⟨offset + op.size, count ++ rest⟩ =
          .error (.truncated offset (4 * LittleEndian.value count) rest.length) :=
        (readPayload_eq_error_iff size).2 (.inr ⟨count, rest, kind, width, rfl, short, rfl⟩)
      simp only [read, hopcode, Opcode.selection, hpayload]

theorem Unreadable.ne_nil {code : List UInt8} (unreadable : Unreadable offset code fault) :
    code ≠ [] := by
  have opcode (op : Opcode) (rest : List UInt8) : op.bytes ++ rest ≠ [] := by
    have hpos := op.size_pos
    intro h
    have hempty : op.bytes = [] := (List.append_eq_nil_iff.1 h).1
    rw [← op.length_bytes, hempty, List.length_nil] at hpos
    omega
  cases unreadable with
  | lead | single | extended => exact List.cons_ne_nil _ _
  | operand | table => exact opcode _ _

/-- Fewer bytes are there than were to be read, and none of them belongs to the opcode. -/
theorem Unreadable.available_lt {code : List UInt8} {start needed available : Nat}
    (unreadable : Unreadable offset code (.truncated start needed available)) :
    start = offset ∧ available < needed ∧ available < code.length := by
  generalize hfault : Fault.truncated start needed available = fault at unreadable
  cases unreadable with
  | lead =>
    cases hfault
    exact ⟨rfl, by decide, by decide⟩
  | single | extended => cases hfault
  | @operand op rest n _ _ short =>
    cases hfault
    have hpos := op.size_pos
    have hlength := op.length_bytes
    rw [List.length_append]
    omega
  | @table op count rest _ _ _ short =>
    cases hfault
    have hpos := op.size_pos
    have hlength := op.length_bytes
    rw [List.length_append, List.length_append]
    omega

/-- A chunk that cannot be read is a fault of the encoding. -/
theorem Unreadable.ofEncoding {code : List UInt8} (unreadable : Unreadable offset code fault) :
    fault.ofEncoding = true := by
  cases unreadable <;> rfl

end Chunk

theorem Cut.ofEncoding_of_ofCode {code : List UInt8} {fault : Fault}
    (ended : (ofCode code).fault = some fault) : fault.ofEncoding = true := by
  obtain ⟨_, _, -, -, ends⟩ := ofCode_front code
  rw [ended] at ends
  cases ends with
  | fault more unread => exact ((Chunk.read_eq_error_iff more).1 unread).ofEncoding

end Cil
