import Cil.Proofs.Body.Denotation
import Cil.Proofs.Bytes.Encoding

/-!
# Decoding from chunk to chunk

Decoding reads an operand value by value, each on as many bytes as its type takes, and a table entry
by entry. The table of operand sizes has no part in it. Still each step takes exactly one chunk, or
fails as the cut does, and adds what the chunk denotes. So a draft comes about chunk by chunk.
-/

namespace Cil

open Fallible

namespace Cursor

theorem hasMore_of_shorter {c after : Cursor} (shorter : after.rest.length < c.rest.length) :
    c.hasMore = true := by
  cases rest : c.rest with
  | nil => simp [rest] at shorter
  | cons b bs => simp [hasMore, rest]

theorem fetch_eq (type : ScalarType) (offset : Nat) (c : Cursor) :
    c.fetch type offset = (Chunk.readOperandBytes offset type.size c).map fun read =>
      (type.ofBits (LittleEndian.value read.1), read.2) := by
  rw [fetch, Chunk.readOperandBytes]
  cases c.take? type.size <;> rfl

/-- A value of the width that the table gives for a kind is an operand of that kind. -/
theorem fetch_eq_readPayload {type : ScalarType} {kind : OperandKind} (plain : kind ≠ .switch)
    (width : kind.size? = some type.size) (offset : Nat) (c : Cursor) :
    c.fetch type offset = (Chunk.readPayload offset kind c).map fun read =>
      (type.ofBits (LittleEndian.value read.1), read.2) := by
  rw [fetch_eq, Chunk.readPayload_of_plain plain width]

theorem switchCount_eq (offset : Nat) (c : Cursor) :
    c.switchCount offset = Chunk.readOperandBytes offset 4 c >>= fun read =>
      (Chunk.readOperandBytes offset (4 * LittleEndian.value read.1) read.2).map fun _ =>
        (LittleEndian.value read.1, read.2) := by
  rw [switchCount, fetch_eq]
  cases read : Chunk.readOperandBytes offset 4 c with
  | error fault => simp [ScalarType.size, read, Except.map, bind, Except.bind]
  | ok found =>
    obtain ⟨count, table⟩ := found
    obtain ⟨width, -, -⟩ := Chunk.readOperandBytes_eq_ok_iff.1 read
    have fits : LittleEndian.value count < 4294967296 := by
      simpa [width] using LittleEndian.value_lt count
    have number : (UInt32.ofNat (LittleEndian.value count)).toNat = LittleEndian.value count :=
      UInt32.toNat_ofNat_of_lt' fits
    simp only [ScalarType.size, read, Except.map, bind, Except.bind, ScalarType.ofBits, number]
    split
    · next short =>
      rw [Chunk.readOperandBytes_eq_error_iff.2 ⟨short, rfl⟩]
      rfl
    · next enough =>
      cases whole : Chunk.readOperandBytes offset (4 * LittleEndian.value count) table with
      | ok _ => rfl
      | error fault => exact absurd (Chunk.readOperandBytes_eq_error_iff.1 whole).1 enough

/-- The entries of a table are the words of its bytes. -/
theorem entries_eq_ok {offset count : Nat} {c after : Cursor} {table : List UInt8}
    (read : Chunk.readOperandBytes offset (4 * count) c = .ok (table, after)) :
    c.entries offset count = .ok (Chunk.tableWords table, after) := by
  induction count generalizing c table with
  | zero =>
    obtain ⟨length, rest, pos⟩ := Chunk.readOperandBytes_eq_ok_iff.1 read
    obtain rfl : table = [] := List.length_eq_zero_iff.1 length
    obtain rfl : c = after := by
      cases c
      cases after
      simp_all
    rfl
  | succ count ih =>
    obtain ⟨length, rest, pos⟩ := Chunk.readOperandBytes_eq_ok_iff.1 read
    obtain ⟨b₀, b₁, b₂, b₃, table, rfl⟩ :
        ∃ b₀ b₁ b₂ b₃ rest, table = b₀ :: b₁ :: b₂ :: b₃ :: rest := by
      match table, length with
      | b₀ :: b₁ :: b₂ :: b₃ :: rest, _ => exact ⟨b₀, b₁, b₂, b₃, rest, rfl⟩
    have first : c.fetch .i32 offset =
        .ok (Int32.ofNat (LittleEndian.value [b₀, b₁, b₂, b₃]), ⟨c.pos + 4, table ++ after.rest⟩) :=
      fetch_eq_ok_iff.2 ⟨[b₀, b₁, b₂, b₃], rfl, rest, rfl, rfl⟩
    have others : entries offset count ⟨c.pos + 4, table ++ after.rest⟩ =
        .ok (Chunk.tableWords table, after) := by
      apply ih
      refine Chunk.readOperandBytes_eq_ok_iff.2 ⟨?_, rfl, ?_⟩
      · simp only [List.length_cons] at length
        omega
      · simp only [pos]
        omega
    rw [entries, first]
    simp only [others, Chunk.tableWords]

end Cursor

namespace Chunk

variable {c after : Cursor} {chunk : Chunk} {fault : Fault}

/-- A chunk is read as its opcode and then its payload. -/
theorem parts_of_read (read : Chunk.read c = .ok (chunk, after)) :
    ∃ body : Cursor, c.opcode c.pos = .ok (chunk.opcode.selection, body) ∧
      body.pos = chunk.offset + chunk.opcode.size ∧
      readPayload c.pos chunk.opcode.operand body = .ok (chunk.payload, after) := by
  rw [Chunk.read] at read
  split at read
  · cases read
  next s body opcode =>
  obtain ⟨-, selected, -, pos⟩ := Cursor.opcode_eq_ok_iff.1 opcode
  split at read
  · cases read
  next payload last hpayload =>
  cases read
  exact ⟨body, selected ▸ opcode, pos, hpayload⟩

/-- If no chunk can be read, that is because of its opcode or of its payload. -/
theorem parts_of_fault (unread : Chunk.read c = .error fault) :
    c.opcode c.pos = .error fault ∨
      ∃ (op : Opcode) (body : Cursor), c.opcode c.pos = .ok (op.selection, body) ∧
        body.pos = c.pos + op.size ∧ readPayload c.pos op.operand body = .error fault := by
  rw [Chunk.read] at unread
  split at unread
  · next opcode =>
    cases unread
    exact .inl opcode
  next s body opcode =>
  obtain ⟨-, selected, -, pos⟩ := Cursor.opcode_eq_ok_iff.1 opcode
  split at unread
  · next payload =>
    cases unread
    exact .inr ⟨s.opcode, body, selected ▸ opcode, pos, payload⟩
  · cases unread

end Chunk

namespace Draft

variable {ctx : Context} {d : Draft} {c after : Cursor} {offset : Nat} {op : Opcode}

/-- An operand of the next instruction, as a draft takes it. -/
def takes (d : Draft) (after : Cursor) (o : Operand) : Intake := ⟨o, d.pendingWith o, after⟩

/-- What the meaning of a payload makes of the read of an operand. -/
def denoted (ctx : Context) (d : Draft) (op : Opcode) (offset : Nat)
    (read : List UInt8 × Cursor) : Except Fault Intake :=
  (Chunk.operand ctx d.instructions ⟨offset, op, read.1⟩).map (d.takes read.2)

theorem literal_eq {type : ScalarType} {meaning : type.Value → Except Fault Operand}
    (plain : op.operand.isJump = false) (width : op.operand.size? = some type.size)
    (same : ∀ payload : List UInt8, payload.length = type.size →
      meaning (type.ofBits (LittleEndian.value payload)) =
        Chunk.operand ctx d.instructions ⟨offset, op, payload⟩) :
    d.literal offset c type meaning =
      Chunk.readPayload offset op.operand c >>= d.denoted ctx op offset := by
  have unswitched : op.operand ≠ .switch := by
    intro kind
    rw [kind] at plain
    cases plain
  rw [literal, Cursor.fetch_eq_readPayload unswitched width]
  cases read : Chunk.readPayload offset op.operand c with
  | error fault => rfl
  | ok found =>
    obtain ⟨payload, after⟩ := found
    obtain ⟨framed, -, -⟩ := Chunk.readPayload_eq_ok_iff.1 read
    have length : payload.length = type.size :=
      Option.some.inj ((framed.size? unswitched).symm.trans width)
    simp only [Except.map, bind, Except.bind, same payload length, denoted]
    cases operand : Chunk.operand ctx d.instructions ⟨offset, op, payload⟩ with
    | error fault => rfl
    | ok o =>
      have ready : o.waits = false := Chunk.waits_of_operand operand plain
      simp [takes, pendingWith, ready, pure, Except.pure]

/-- A branch waits unless it goes back. -/
theorem branch_eq {chunk : Chunk} (stop : after.pos = chunk.stop) (raw : Int32) :
    d.branch chunk.opcode chunk.offset after raw =
      (chunk.branch d.instructions raw).map (d.takes after) := by
  rw [branch, Chunk.branch, Chunk.jump, stop]
  cases aimed : Jump.aim chunk.opcode chunk.offset chunk.stop raw with
  | error fault => rfl
  | ok j =>
    simp only [bind, Except.bind]
    split
    · cases settled : j.settle d.instructions chunk.offset chunk.opcode.mnemonic with
      | error fault => rfl
      | ok j' =>
        obtain ⟨-, i, landed⟩ := Jump.landed_of_settle settled
        simp [takes, pendingWith, Operand.waits, landed, pure, Except.pure, Except.map]
    · have unsettled : j.landing = none := (Chunk.jump_eq_ok_iff.1 aimed).2
      simp [takes, pendingWith, Operand.waits, unsettled, pure, Except.pure, Except.map]

theorem branch_operand_eq (type : ScalarType) (plain : op.operand ≠ .switch)
    (width : op.operand.size? = some type.size)
    (raw : type.Value → Int32) (start : c.pos = offset + op.size)
    (same : ∀ payload : List UInt8, Chunk.operand ctx d.instructions ⟨offset, op, payload⟩ =
      Chunk.branch d.instructions ⟨offset, op, payload⟩
        (raw (type.ofBits (LittleEndian.value payload)))) :
    (do
      let (value, after) ← c.fetch type offset
      d.branch op offset after (raw value)) =
      Chunk.readPayload offset op.operand c >>= d.denoted ctx op offset := by
  rw [Cursor.fetch_eq_readPayload plain width]
  cases read : Chunk.readPayload offset op.operand c with
  | error fault => rfl
  | ok found =>
    obtain ⟨payload, after⟩ := found
    obtain ⟨-, -, pos⟩ := Chunk.readPayload_eq_ok_iff.1 read
    have stop : after.pos = Chunk.stop ⟨offset, op, payload⟩ := by
      simp only [pos, start, Chunk.stop, Chunk.size, Nat.add_assoc]
    simp only [Except.map, bind, Except.bind, denoted, same]
    exact branch_eq stop _

/-- A switch waits, also one with an empty table. -/
theorem switch_eq (kind : op.operand = .switch) (start : c.pos = offset + op.size) :
    d.switch op offset c = Chunk.readPayload offset op.operand c >>= d.denoted ctx op offset := by
  have size : op.operand.size? = some 4 := by rw [kind]; rfl
  rw [switch, Cursor.switchCount_eq, Chunk.readPayload_eq size]
  simp only [if_pos kind]
  cases fixed : Chunk.readOperandBytes offset 4 c with
  | error fault => rfl
  | ok found =>
    obtain ⟨count, table⟩ := found
    simp only [bind, Except.bind]
    cases whole : Chunk.readOperandBytes offset (4 * LittleEndian.value count) table with
    | error fault => rfl
    | ok found =>
      obtain ⟨entries, after⟩ := found
      obtain ⟨width, -, pos⟩ := Chunk.readOperandBytes_eq_ok_iff.1 fixed
      obtain ⟨length, -, pos'⟩ := Chunk.readOperandBytes_eq_ok_iff.1 whole
      have stop : after.pos = Chunk.stop ⟨offset, op, count ++ entries⟩ := by
        simp only [pos', pos, start, Chunk.stop, Chunk.size, List.length_append, width, length,
          Nat.add_assoc]
      have words : (count ++ entries).drop 4 = entries := by rw [← width, List.drop_left]
      simp only [Except.map, Cursor.entries_eq_ok whole, stop, denoted, Chunk.operand, kind, words]
      have aims : Jump.aim op offset (Chunk.stop ⟨offset, op, count ++ entries⟩) =
          Chunk.jump ⟨offset, op, count ++ entries⟩ := rfl
      rw [aims]
      cases (Chunk.tableWords entries).mapM (Chunk.jump ⟨offset, op, count ++ entries⟩) with
      | error fault => rfl
      | ok js => rfl

/-- Where nothing follows the opcode, nothing waits. -/
theorem shortForm_eq (kind : op.operand = .none) :
    (ctx.shortForm op.selection offset).map (fun o => ⟨o, d.pending, c⟩) =
      Chunk.readPayload offset op.operand c >>= d.denoted ctx op offset := by
  have nothing : Chunk.readPayload offset op.operand c = .ok ([], c) :=
    Chunk.readPayload_eq_ok_iff.2 ⟨.fixed (by rw [kind]; decide) (by rw [kind]; rfl), rfl, rfl⟩
  have meaning : Chunk.operand ctx d.instructions ⟨offset, op, []⟩ =
      ctx.shortForm op.selection offset := by
    simp only [Chunk.operand, kind]
  simp only [nothing, bind, Except.bind, denoted, meaning]
  cases operand : ctx.shortForm op.selection offset with
  | error fault => rfl
  | ok o =>
    have ready := Chunk.waits_of_operand (meaning.trans operand) (by rw [kind]; rfl)
    simp [Except.map, takes, pendingWith, ready]

/-- Reading an operand by its types comes to the same as taking the bytes that the table of sizes
tells, and giving them their meaning. -/
theorem operand_eq (start : c.pos = offset + op.size) :
    d.operand ctx op.selection offset c =
      Chunk.readPayload offset op.operand c >>= d.denoted ctx op offset := by
  cases kind : op.operand <;> simp only [operand, Opcode.selection, kind]
  all_goals rw [← kind]
  case none => exact shortForm_eq kind
  case int8 =>
    change (if op.loadsSignedByte = true then _ else _) = _
    split
    · next signed =>
      exact literal_eq (by rw [kind]; rfl) (by rw [kind]; rfl) fun payload _ => by
        simp [Chunk.operand, kind, signed, ScalarType.ofBits]
    · next unsigned =>
      exact literal_eq (by rw [kind]; rfl) (by rw [kind]; rfl) fun payload _ => by
        simp [Chunk.operand, kind, unsigned, ScalarType.ofBits]
  case slot8 =>
    refine literal_eq (by rw [kind]; rfl) (by rw [kind]; rfl) fun payload length => ?_
    have fits : LittleEndian.value payload < 256 := by
      simpa [length, ScalarType.size] using LittleEndian.value_lt payload
    have number : (UInt8.ofNat (LittleEndian.value payload)).toNat = LittleEndian.value payload :=
      UInt8.toNat_ofNat_of_lt' fits
    simp [Chunk.operand, kind, Opcode.slotFamily, Opcode.selection, ScalarType.ofBits, number]
  case slot16 =>
    refine literal_eq (by rw [kind]; rfl) (by rw [kind]; rfl) fun payload length => ?_
    have fits : LittleEndian.value payload < 65536 := by
      simpa [length, ScalarType.size] using LittleEndian.value_lt payload
    have number : (UInt16.ofNat (LittleEndian.value payload)).toNat = LittleEndian.value payload :=
      UInt16.toNat_ofNat_of_lt' fits
    simp [Chunk.operand, kind, Opcode.slotFamily, Opcode.selection, ScalarType.ofBits, number]
  case branch8 =>
    exact branch_operand_eq .i8 (by rw [kind]; decide) (by rw [kind]; rfl) Int8.toInt32 start
      fun payload => by simp [Chunk.operand, kind, ScalarType.ofBits]
  case branch32 =>
    exact branch_operand_eq .i32 (by rw [kind]; decide) (by rw [kind]; rfl) id start
      fun payload => by simp [Chunk.operand, kind, ScalarType.ofBits]
  case switch => exact switch_eq kind start
  case phi => simp [Chunk.readPayload, OperandKind.size, OperandKind.size?, kind, bind, Except.bind]
  all_goals
    exact literal_eq (by rw [kind]; rfl) (by rw [kind]; rfl) fun payload _ => by
      simp [Chunk.operand, kind, ScalarType.ofBits, Chunk.token]

/-! ## Steps and runs -/

variable {chunk : Chunk} {fault : Fault}

/-- Where there is a chunk, the next instruction is read from it. -/
theorem next_of_read (read : Chunk.read c = .ok (chunk, after)) :
    d.next ctx c = (d.add ctx chunk).map (·, after) := by
  obtain ⟨-, start, -, stop⟩ := Chunk.read_eq_ok_iff.1 read
  obtain ⟨body, opcode, pos, payload⟩ := Chunk.parts_of_read read
  have size : after.pos - c.pos = chunk.size := by
    rw [stop, Chunk.stop, start, Nat.add_sub_cancel_left]
  have last : ¬ d.instructions.size + 1 < d.instructions.size + 1 := Nat.lt_irrefl _
  rw [next, opcode]
  simp only [bind, Except.bind]
  rw [← start] at payload ⊢
  rw [operand_eq pos, payload]
  simp only [bind, Except.bind, denoted, add]
  cases Chunk.operand ctx d.instructions chunk with
  | error fault => rfl
  | ok o =>
    simp only [Except.map, takes, pure, Except.pure, Chunk.instruction, size, if_neg last, start]
    rfl

/-- Where no chunk can be read, reading the next instruction fails in the same way. -/
theorem next_of_fault (unread : Chunk.read c = .error fault) : d.next ctx c = .error fault := by
  rw [next]
  rcases Chunk.parts_of_fault unread with opcode | ⟨op, body, opcode, pos, payload⟩
  · rw [opcode]
    rfl
  · rw [opcode]
    simp only [bind, Except.bind]
    rw [operand_eq pos, payload]
    rfl

theorem run_end (ctx : Context) (d : Draft) (pos : Nat) : run ctx d ⟨pos, []⟩ = .ok d := by
  rw [run]
  rfl

theorem run_of_read (read : Chunk.read c = .ok (chunk, after)) :
    run ctx d c = d.add ctx chunk >>= fun d => run ctx d after := by
  have more := Cursor.hasMore_of_shorter (Chunk.length_rest_of_read read)
  rw [run, if_pos more]
  have step : d.next ctx c = (d.add ctx chunk).map (·, after) := next_of_read read
  cases added : d.add ctx chunk with
  | error fault =>
    rw [added] at step
    split
    · next h => simp [step, Except.map] at h
    · next h =>
      rw [step] at h
      cases h
      rfl
  | ok d' =>
    rw [added] at step
    split
    · next h =>
      rw [step] at h
      cases h
      rfl
    · next h => simp [step, Except.map] at h

theorem run_of_fault (more : c.rest ≠ []) (unread : Chunk.read c = .error fault) :
    run ctx d c = .error fault := by
  rw [run, if_pos (by simpa [Cursor.hasMore] using more)]
  have step : d.next ctx c = .error fault := next_of_fault unread
  split
  · next h => simp [step] at h
  · next h =>
    rw [step] at h
    cases h
    rfl

/-- A run goes through a tiling to what follows it. -/
theorem run_append (ctx : Context) {start : Nat} {front : List UInt8} {cs : List Chunk}
    (tiles : Tiles start front cs) (d : Draft) (rest : List UInt8) :
    run ctx d ⟨start, front ++ rest⟩ =
      cs.foldlM (add ctx) d >>= fun d => run ctx d ⟨start + front.length, rest⟩ := by
  induction tiles generalizing d with
  | nil start => simp [pure_bind]
  | @cons c code cs complete _ ih =>
    have read : Chunk.read ⟨c.offset, c.bytes ++ code ++ rest⟩ = .ok (c, ⟨c.stop, code ++ rest⟩) :=
      Chunk.read_eq_ok_iff.2 ⟨complete, rfl, List.append_assoc .., rfl⟩
    rw [run_of_read read, List.foldlM_cons, bind_assoc]
    refine bind_congr fun d' => ?_
    rw [ih, c.offset_add_length]

theorem run_of_ends {stop? : Option Fault} (ends : Cut.Ends c stop?) :
    run ctx d c = stop?.elim (.ok d) .error := by
  cases ends with
  | code pos => exact run_end ctx d pos
  | fault more unread => exact run_of_fault more unread

end Draft

/-- A draft comes about chunk by chunk, and fails where the code cannot be cut. -/
theorem Context.draft_eq (ctx : Context) :
    ctx.draft = (Cut.ofCode ctx.code).chunks.toList.foldlM (Draft.add ctx) {} >>= fun d =>
      (Cut.ofCode ctx.code).fault.elim (.ok d) .error := by
  obtain ⟨front, rest, code, tiles, ends⟩ := Cut.ofCode_front ctx.code
  have through := Draft.run_append ctx tiles {} rest
  rw [← code, Nat.zero_add] at through
  rw [draft, Cursor.start, through]
  exact bind_congr fun d => Draft.run_of_ends ends

end Cil
