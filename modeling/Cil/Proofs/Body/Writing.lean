import Cil.Proofs.Body.Partition
import Cil.Proofs.Bytes.Encoding

/-!
# Writing a listing back

A listing without tokens can be written back: opcode by opcode, and every operand as the values that
stand for it in code. That gives the code it was decoded from. So nothing is lost when literals are
widened, when slots become variables and when offsets become targets. A token is left out, since a
listing holds what it stands for, not its number.
-/

namespace Cil

/-- The bytes of an opcode, from its number. -/
def Opcode.written (op : Opcode) : List UInt8 :=
  if op.raw < 0x100 then [op.raw.toUInt8] else [(op.raw / 0x100).toUInt8, op.raw.toUInt8]

namespace OperandKind

/-- Whether an operand of the kind is a token. -/
def isToken : OperandKind → Bool
  | string | field | method | type | anyMember | signature => true
  | _ => false

/-- A slot as an operand. No operand is left for it where the opcode names the slot. -/
def slotScalars (slot : Nat) : OperandKind → List Scalar
  | slot8 => [.ofNat slot .u8]
  | slot16 => [.ofNat slot .u16]
  | _ => []

end OperandKind

/-- The values that stand for an operand of a kind in the code of a static or instance method. -/
def Operand.scalars (isStatic : Bool) (kind : OperandKind) : Operand → List Scalar
  | byte value => [.u8 value]
  | sbyte value => [.i8 value.toInt8]
  | int32 value => [.i32 value]
  | int64 value => [.i64 value]
  | float32 bits => [.f32 bits]
  | float64 bits => [.f64 bits]
  | .local slot _ => kind.slotScalars slot
  | param position _ => kind.slotScalars (if isStatic then position else position + 1)
  | this => kind.slotScalars 0
  | branch jump => if kind = .branch8 then [.i8 jump.raw.toInt8] else [.i32 jump.raw]
  | switch jumps => .u32 (UInt32.ofNat jumps.length) :: jumps.map fun j => .i32 j.raw
  | none | string _ | field _ | method _ | type _ | signature _ | unresolved _ => []

/-- The bytes of an instruction, from what was decoded. -/
def Instruction.written (isStatic : Bool) (x : Instruction) : List UInt8 :=
  x.opcode.written ++ (x.operand.scalars isStatic x.opcode.operand).flatMap Scalar.bytes

/-- The bytes of a listing, from what was decoded. -/
def Listing.written (isStatic : Bool) (l : Listing) : List UInt8 :=
  l.instructions.toList.flatMap (Instruction.written isStatic)

/-- The number of an opcode of the tables is made of the bytes that select it. -/
theorem Opcode.written_eq_bytes {page : Page} {byte : UInt8} {op : Opcode}
    (defined : lookup? page byte = some op) : op.written = op.bytes := by
  have table : ∀ row ∈ (rows page).toList, row.written = row.bytes := by
    cases page <;> decide +kernel
  exact table op (mem_rows_of_lookup? defined)

/-- Of all opcodes with a literal of one byte, only `ldc.i4.s` takes it as signed. -/
theorem Opcode.mnemonic_eq_iff {page : Page} {byte : UInt8} {op : Opcode}
    (defined : lookup? page byte = some op) :
    op.mnemonic = "ldc.i4.s" ↔ op.operand = .int8 ∧ op.loadsSignedByte = true := by
  have table : ∀ row ∈ (rows page).toList,
      row.mnemonic = "ldc.i4.s" ↔ row.operand = .int8 ∧ row.loadsSignedByte = true := by
    cases page <;> decide +kernel
  exact table op (mem_rows_of_lookup? defined)

theorem Tiles.flatMap_bytes {start : Nat} {code : List UInt8} {cs : List Chunk}
    (tiles : Tiles start code cs) : cs.flatMap Chunk.bytes = code := by
  induction tiles with
  | nil => rfl
  | cons _ _ ih => rw [List.flatMap_cons, ih]

/-- A variable is written as the slot that selects it. -/
theorem Context.Selects.scalars {ctx : Context} {family : SlotFamily} {n : Nat} {o : Operand}
    (selects : ctx.Selects family n o) (kind : OperandKind) :
    o.scalars ctx.isStatic kind = kind.slotScalars n := by
  cases selects with
  | this bound => rfl
  | param declared =>
    cases hstatic : ctx.isStatic <;> simp [Operand.scalars, Context.instanceSlots, hstatic]
  | var declared => rfl

/-- An operand that is one value of a primitive type is written as it stands. -/
theorem OperandKind.Frames.flatMap_bytes {kind : OperandKind} {payload : List UInt8}
    (framed : kind.Frames payload) (plain : kind ≠ .switch) (type : ScalarType)
    (size : kind.size? = some type.size) :
    [Scalar.ofNat (LittleEndian.value payload) type].flatMap Scalar.bytes = payload := by
  have width : payload.length = type.size :=
    Option.some.inj ((framed.size? plain).symm.trans size)
  rw [List.flatMap_singleton, Scalar.bytes_ofNat_value width]

namespace Chunk

variable {ctx : Context} {starts : List Nat} {c : Chunk} {o : Operand}

/-- The words of a table are written as they stand. -/
theorem flatMap_bytes_tableWords (table : List UInt8) (n : Nat) (length : table.length = 4 * n) :
    ((tableWords table).map Scalar.i32).flatMap Scalar.bytes = table := by
  induction n generalizing table with
  | zero =>
    obtain rfl := List.length_eq_zero_iff.1 length
    rfl
  | succ n ih =>
    match table, length with
    | a :: b :: c :: d :: rest, length =>
      have hrest : rest.length = 4 * n := by
        simp only [List.length_cons] at length
        omega
      have word : (Scalar.ofNat (LittleEndian.value [a, b, c, d]) .i32).bytes = [a, b, c, d] :=
        Scalar.bytes_ofNat_value rfl
      rw [tableWords, List.map_cons, List.flatMap_cons, ih rest hrest]
      exact congrArg (· ++ rest) word

/-- A switch is written as its count and its table. -/
theorem flatMap_bytes_switch {js : List Jump} {count table : List UInt8}
    (width : count.length = 4) (length : table.length = 4 * LittleEndian.value count)
    (lands : List.Forall₂ (c.Lands starts) (tableWords table) js) (kind : OperandKind)
    (isStatic : Bool) :
    ((Operand.switch js).scalars isStatic kind).flatMap Scalar.bytes = count ++ table := by
  have hraws : js.map Jump.raw = tableWords table := (lands_of_table lands).1
  have hlength : js.length = LittleEndian.value count := by
    rw [← lands.length_eq, length_tableWords table _ length]
  have hcount : (Scalar.ofNat (LittleEndian.value count) .u32).bytes = count :=
    Scalar.bytes_ofNat_value width
  have htable := flatMap_bytes_tableWords table _ length
  rw [← hraws, List.map_map] at htable
  rw [Operand.scalars, hlength, List.flatMap_cons]
  exact congrArg₂ (· ++ ·) hcount htable

/-- Without a token, what a chunk denotes is written as the operand of the chunk. -/
theorem flatMap_bytes_scalars (complete : c.Complete) (denotes : c.Denotes ctx starts o)
    (tokenless : c.opcode.operand.isToken = false) :
    (o.scalars ctx.isStatic c.opcode.operand).flatMap Scalar.bytes = c.payload := by
  have framed := complete.framed
  cases hkind : c.opcode.operand <;> rw [hkind] at framed tokenless <;>
    simp only [Denotes, hkind] at denotes
  case string | field | method | type | anyMember | signature => cases tokenless
  case none =>
    have hempty : c.payload = [] :=
      List.length_eq_zero_iff.1 (Option.some.inj (framed.size? (by decide))).symm
    rw [hempty]
    split at denotes
    · rw [denotes.scalars]
      rfl
    · rw [denotes]
      rfl
  case slot8 =>
    rw [denotes.scalars]
    exact framed.flatMap_bytes (by decide) .u8 rfl
  case slot16 =>
    rw [denotes.scalars]
    exact framed.flatMap_bytes (by decide) .u16 rfl
  case int8 =>
    rw [denotes]
    split
    · rw [Operand.scalars, Int8.toInt8_toInt32]
      exact framed.flatMap_bytes (by decide) .i8 rfl
    · exact framed.flatMap_bytes (by decide) .u8 rfl
  case int32 =>
    rw [denotes]
    exact framed.flatMap_bytes (by decide) .i32 rfl
  case int64 =>
    rw [denotes]
    exact framed.flatMap_bytes (by decide) .i64 rfl
  case float32 =>
    rw [denotes]
    exact framed.flatMap_bytes (by decide) .f32 rfl
  case float64 =>
    rw [denotes]
    exact framed.flatMap_bytes (by decide) .f64 rfl
  case branch8 =>
    obtain ⟨j, lands, rfl⟩ := denotes
    have narrowed : j.raw.toInt8 = Int8.ofNat (LittleEndian.value c.payload) := by
      rw [lands.encoded, Int8.toInt8_toInt32]
    rw [Operand.scalars, if_pos rfl, narrowed]
    exact framed.flatMap_bytes (by decide) .i8 rfl
  case branch32 =>
    obtain ⟨j, lands, rfl⟩ := denotes
    rw [Operand.scalars, if_neg (by decide), lands.encoded]
    exact framed.flatMap_bytes (by decide) .i32 rfl
  case switch =>
    obtain ⟨js, lands, rfl⟩ := denotes
    generalize c.payload = payload at framed lands
    cases framed with
    | fixed plain _ => exact absurd rfl plain
    | @table count table width length =>
      rw [← width, List.drop_left] at lands
      exact flatMap_bytes_switch width length lands .switch ctx.isStatic

theorem written_instruction (complete : c.Complete) (denotes : c.Denotes ctx starts o)
    (tokenless : c.opcode.operand.isToken = false) (index count : Nat) :
    (c.instruction index count o).written ctx.isStatic = c.bytes := by
  have operand := flatMap_bytes_scalars complete denotes tokenless
  have opcode : c.opcode.written = c.opcode.bytes := Opcode.written_eq_bytes complete.defined
  rw [Instruction.written, Chunk.bytes, ← opcode, ← operand]
  rfl

end Chunk

/-! ## Signed literals -/

namespace Chunk

variable {ctx : Context} {starts : List Nat} {c : Chunk} {v : Int32}

theorem Denotes.sbyte_iff : c.Denotes ctx starts (.sbyte v) ↔
    (c.opcode.operand = .int8 ∧ c.opcode.loadsSignedByte = true) ∧
      v = (Int8.ofNat (LittleEndian.value c.payload)).toInt32 := by
  have unselected (family : SlotFamily) (n : Nat) : ¬ ctx.Selects family n (.sbyte v) := by
    rintro ⟨⟩
  cases kind : c.opcode.operand <;> simp only [Denotes, kind]
  case none => cases c.opcode.implicitSlot? <;> simp [unselected]
  case slot8 | slot16 => simp [unselected]
  case int8 => cases c.opcode.loadsSignedByte <;> simp
  all_goals simp

/-- A signed literal is the byte behind the opcode, widened with its sign. -/
theorem toInt_of_sbyte {code : List UInt8} {cs : List Chunk} (tiles : Tiles 0 code cs)
    (hc : c ∈ cs) (denotes : c.Denotes ctx starts (.sbyte v)) :
    ∃ b, code[c.offset + 1]? = some b ∧ v.toInt = Int.bmod b.toNat 256 := by
  obtain ⟨⟨kind, signed⟩, rfl⟩ := Denotes.sbyte_iff.1 denotes
  have framed := (tiles.complete_of_mem hc).framed
  rw [kind] at framed
  obtain ⟨b, payload⟩ := List.length_eq_one_iff.1 (Option.some.inj (framed.size? (by decide))).symm
  obtain ⟨after, behind⟩ := tiles.drop_payload_of_mem hc
  have single : c.opcode.size = 1 := by
    have unextended : c.opcode.isExtended = false := by
      simpa [Opcode.selection] using (Bool.and_eq_true_iff.1 signed).1
    simp only [Opcode.isExtended, decide_eq_false_iff_not] at unextended
    rw [Opcode.size, if_neg unextended]
  refine ⟨b, ?_, ?_⟩
  · rw [single, payload] at behind
    have first := congrArg (·[0]?) behind
    simpa using first
  · have number : LittleEndian.value [b] = b.toNat := by simp [LittleEndian.value]
    rw [Int8.toInt_toInt32, payload, number]
    exact Int8.toInt_ofNat'

end Chunk

/-- A listing without tokens is written as the chunks that it reads. -/
theorem Listing.Reads.written {ctx : Context} {cs : List Chunk} {l : Listing}
    (reads : l.Reads ctx cs) (tiles : Tiles 0 ctx.code cs)
    (tokenless : ∀ x ∈ l.instructions, x.opcode.operand.isToken = false) :
    l.written ctx.isStatic = ctx.code := by
  have each : l.instructions.toList.map (Instruction.written ctx.isStatic) =
      cs.map Chunk.bytes := by
    apply List.ext_getElem?
    intro i
    rw [List.getElem?_map, List.getElem?_map, Array.getElem?_toList]
    by_cases hi : i < cs.length
    · have hc : cs[i]? = some cs[i] := List.getElem?_eq_getElem hi
      obtain ⟨o, hx, denotes⟩ := reads.instruction i _ hc
      have hx' : l.instructions[i]? = some (cs[i].instruction i cs.length o) := hx
      have complete := tiles.complete_of_mem (List.getElem_mem hi)
      have plain := tokenless _ (Array.mem_of_getElem? hx')
      rw [hx', hc, Option.map_some, Option.map_some]
      exact congrArg some (Chunk.written_instruction complete denotes plain i _)
    · have hsize : l.instructions.size = cs.length := reads.size
      rw [Array.getElem?_eq_none_iff.2 (by omega), List.getElem?_eq_none_iff.2 (by omega)]
      rfl
  rw [Listing.written, List.flatMap_def, each, ← List.flatMap_def]
  exact tiles.flatMap_bytes

namespace Context

/-- Exactly `ldc.i4.s` has a signed literal, and its value is that of the byte behind the opcode. -/
theorem sbyte_of_decode {ctx : Context} {l : Listing} (decoded : ctx.decode = .ok l)
    {x : Instruction} (hx : x ∈ l.instructions) :
    (x.opcode.mnemonic = "ldc.i4.s" ↔ ∃ v, x.operand = .sbyte v) ∧
      ∀ v, x.operand = .sbyte v →
        ∃ b, ctx.code[x.offset + 1]? = some b ∧ v.toInt = Int.bmod b.toNat 256 := by
  obtain ⟨cs, tiles, reads⟩ := decode_eq_ok_iff.1 decoded
  obtain ⟨i, hi⟩ := Array.getElem?_of_mem hx
  obtain ⟨c, o, hc, rfl, denotes⟩ := reads.chunk hi
  have hmem := List.mem_of_getElem? hc
  have mnemonic : c.opcode.mnemonic = "ldc.i4.s" ↔ _ :=
    Opcode.mnemonic_eq_iff (tiles.complete_of_mem hmem).defined
  refine ⟨mnemonic.trans ⟨?_, ?_⟩, ?_⟩
  · rintro ⟨kind, signed⟩
    simp only [Chunk.Denotes, kind, signed, if_true] at denotes
    exact ⟨_, denotes⟩
  · rintro ⟨v, rfl⟩
    exact (Chunk.Denotes.sbyte_iff.1 denotes).1
  · rintro v rfl
    exact Chunk.toInt_of_sbyte tiles hmem denotes

/-- Decoding loses nothing but tokens. A listing without tokens, written back, is the code, so no
other code in the same surroundings is decoded to the same listing. A literal of `ldc.i4.s`, and no
other, is the value of a signed byte. -/
theorem decode_written_back (ctx : Context) (l : Listing) (decoded : ctx.decode = .ok l)
    (tokenless : ∀ x ∈ l.instructions, x.opcode.operand.isToken = false) :
    l.written ctx.isStatic = ctx.code ∧
      (∀ code, (ctx.withCode code).decode = .ok l → code = ctx.code) ∧
      ∀ x ∈ l.instructions,
        (x.opcode.mnemonic = "ldc.i4.s" ↔ ∃ v, x.operand = .sbyte v) ∧
        ∀ v, x.operand = .sbyte v →
          ∃ b, ctx.code[x.offset + 1]? = some b ∧ v.toInt = Int.bmod b.toNat 256 := by
  have back : ∀ code, (ctx.withCode code).decode = .ok l → l.written ctx.isStatic = code := by
    intro code decoded
    obtain ⟨cs, tiles, reads⟩ := decode_eq_ok_iff.1 decoded
    exact reads.written tiles tokenless
  have here : l.written ctx.isStatic = ctx.code := back ctx.code decoded
  refine ⟨here, ?_, fun x => sbyte_of_decode decoded⟩
  intro code decoded'
  exact (back code decoded').symm.trans here

/-- A body of an instance method with slots of every form, a literal that is widened, a NaN with a
payload, and jumps both ways. -/
def assorted : Context where
  code := [0x02, 0x0E, 0x01, 0x06, 0x1F, 0xFE, 0x22, 0x01, 0x00, 0xA0, 0x7F, 0xFE, 0x09, 0x01, 0x00,
    0x45, 0x02, 0x00, 0x00, 0x00, 0xE4, 0xFF, 0xFF, 0xFF, 0x00, 0x00, 0x00, 0x00, 0x2B, 0xF1, 0x2A]
  locals := #[⟨0, ⟨0⟩, false, false⟩]
  params := #[⟨0, "value", ⟨0⟩, false⟩]
  isStatic := false
  resolver := turning.resolver

theorem decode_written_back_assorted :
    ∃ l, assorted.decode = .ok l ∧ (∀ x ∈ l.instructions, x.opcode.operand.isToken = false) ∧
      l.size = 9 ∧ l.written false = assorted.code ∧
      ∃ x v, l.get? 3 = some x ∧ x.operand = .sbyte v ∧ v.toInt = Int.bmod 0xFE 256 := by
  have decoded : assorted.decode = .ok (assorted.decode.toOption.getD ⟨#[]⟩) := by decide +kernel
  have tokenless : ∀ x ∈ (assorted.decode.toOption.getD ⟨#[]⟩).instructions,
      x.opcode.operand.isToken = false := by decide +kernel
  have hsize : (assorted.decode.toOption.getD ⟨#[]⟩).size = 9 := by decide +kernel
  have literal : ∃ x ∈ (assorted.decode.toOption.getD ⟨#[]⟩).instructions,
      (assorted.decode.toOption.getD ⟨#[]⟩).get? 3 = some x ∧ x.operand = .sbyte (-2) ∧
        assorted.code[x.offset + 1]? = some 0xFE := by decide +kernel
  obtain ⟨back, -, signed⟩ := decode_written_back assorted _ decoded tokenless
  obtain ⟨x, hx, at3, operand, byte⟩ := literal
  obtain ⟨b, hb, value⟩ := (signed x hx).2 _ operand
  obtain rfl : b = 0xFE := Option.some.inj (hb.symm.trans byte)
  exact ⟨_, decoded, tokenless, hsize, back, x, -2, at3, operand, value⟩

end Context

end Cil
