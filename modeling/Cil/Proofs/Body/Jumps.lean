import Cil.Proofs.Body.Drafting

/-!
# Where jumps lead

In a decoded listing every jump knows the instruction at its target, whichever way it goes. The
offsets of a branch or a switch are those that stand in the code, in table order, and an
instruction has jumps exactly if its opcode branches.
-/

namespace Cil

/-- The number that `n` bytes of a body stand for, from an offset on. -/
def Context.numberAt (ctx : Context) (offset n : Nat) : Nat :=
  LittleEndian.value ((ctx.code.drop offset).take n)

/-- The raw offsets that stand in the code at a branch or a switch: behind the opcode one number,
or a count and that many. -/
def Context.encodedOffsets (ctx : Context) (x : Instruction) : List Int32 :=
  let operand := x.offset + x.opcode.size
  match x.opcode.operand with
  | .branch8 => [(Int8.ofNat (ctx.numberAt operand 1)).toInt32]
  | .branch32 => [Int32.ofNat (ctx.numberAt operand 4)]
  | .switch =>
    (List.range (ctx.numberAt operand 4)).map fun k =>
      Int32.ofNat (ctx.numberAt (operand + 4 + 4 * k) 4)
  | _ => []

/-- A jump of an instruction that leads to the start of an instruction of the listing, and knows
its index. -/
structure Listing.Resolves (l : Listing) (x : Instruction) (j : Jump) : Prop where
  relative : (j.target : Int) = x.stop + j.raw.toInt
  landing : ∃ t y, j.landing = some t ∧ l.get? t = some y ∧ y.offset = j.target

namespace Opcode

/-- An opcode branches exactly if its operand names instructions. -/
theorem isBranch_flow_of_lookup? {page : Page} {byte : UInt8} {op : Opcode}
    (defined : lookup? page byte = some op) : op.flow.isBranch = op.operand.isJump := by
  have table : ∀ row ∈ (rows page).toList, row.flow.isBranch = row.operand.isJump := by
    cases page <;> decide +kernel
  exact table op (mem_rows_of_lookup? defined)

end Opcode

namespace Chunk

/-- The words of a table, by their places. -/
theorem tableWords_eq_map_range (table : List UInt8) (n : Nat) (length : table.length = 4 * n) :
    tableWords table = (List.range n).map fun k =>
      Int32.ofNat (LittleEndian.value ((table.drop (4 * k)).take 4)) := by
  induction n generalizing table with
  | zero =>
    obtain rfl := List.length_eq_zero_iff.1 length
    rfl
  | succ n ih =>
    match table, length with
    | a :: b :: c :: d :: rest, length =>
      have hrest : rest.length = 4 * n := by
        simp only [List.length_cons] at length
        omega
      rw [tableWords, ih rest hrest, List.range_succ_eq_map, List.map_cons, List.map_map]
      rfl

theorem length_tableWords (table : List UInt8) (n : Nat) (length : table.length = 4 * n) :
    (tableWords table).length = n := by
  rw [tableWords_eq_map_range table n length, List.length_map, List.length_range]

/-- The jumps of a table, with the entries that they land by. -/
theorem lands_of_table {starts : List Nat} {c : Chunk} {raws : List Int32} {js : List Jump}
    (lands : List.Forall₂ (c.Lands starts) raws js) :
    js.map Jump.raw = raws ∧ ∀ j ∈ js, ∃ raw, c.Lands starts raw j := by
  induction lands with
  | nil => simp
  | @cons raw j raws js first _ ih =>
    refine ⟨by rw [List.map_cons, first.encoded, ih.1], ?_⟩
    intro k hk
    rcases List.mem_cons.1 hk with rfl | hk
    · exact ⟨raw, first⟩
    · exact ih.2 k hk

/-- The raw offsets of a chunk are those that stand in the code. -/
theorem rawOffsets_eq_encodedOffsets {ctx : Context} {cs : List Chunk} {c : Chunk}
    (tiles : Tiles 0 ctx.code cs) (hc : c ∈ cs) (index count : Nat) (o : Operand) :
    c.rawOffsets = ctx.encodedOffsets (c.instruction index count o) := by
  obtain ⟨after, hafter⟩ := tiles.drop_payload_of_mem hc
  have framed := (tiles.complete_of_mem hc).framed
  simp only [rawOffsets, Context.encodedOffsets, Context.numberAt, instruction, Nat.add_assoc]
  cases hkind : c.opcode.operand
  case branch8 | branch32 =>
    rw [hkind] at framed
    have hlength := Option.some.inj (framed.size? (by decide))
    simp only [hafter]
    rw [hlength, List.take_left]
  case switch =>
    rw [hkind] at framed
    generalize c.payload = payload at framed hafter
    cases framed with
    | fixed plain _ => exact absurd rfl plain
    | @table count table width length =>
      have hdrop (k : Nat) : ctx.code.drop (c.offset + (c.opcode.size + (4 + 4 * k))) =
          (table ++ after).drop (4 * k) := by
        rw [← Nat.add_assoc, ← List.drop_drop, hafter, List.append_assoc, ← width,
          List.drop_length_add_append]
      simp only [hafter, hdrop]
      rw [← width, List.drop_left, List.append_assoc, List.take_left,
        tableWords_eq_map_range table _ length]
      apply List.map_congr_left
      intro k hk
      have hk : 4 * k + 4 ≤ table.length := by
        have := List.mem_range.1 hk
        omega
      rw [width, List.drop_append_of_le_length (by omega),
        List.take_append_of_le_length (by rw [List.length_drop]; omega)]
  all_goals rfl

end Chunk

namespace Listing

/-- A jump that lands among the starts of chunks is resolved in the listing that reads them. -/
theorem Reads.resolves {ctx : Context} {cs : List Chunk} {l : Listing} (reads : l.Reads ctx cs)
    {c : Chunk} {raw : Int32} {j : Jump} (lands : c.Lands (cs.map Chunk.offset) raw j)
    (index count : Nat) (o : Operand) : l.Resolves (c.instruction index count o) j := by
  refine ⟨lands.encoded ▸ lands.relative, ?_⟩
  obtain ⟨t, hlanding, hstart⟩ := lands.start
  rw [List.getElem?_map] at hstart
  obtain ⟨d, hd, hoffset⟩ := Option.map_eq_some_iff.1 hstart
  obtain ⟨o', hy, -⟩ := reads.instruction t d hd
  exact ⟨t, _, hlanding, hy, hoffset⟩

end Listing

theorem Operand.isJump_eq_true_iff {o : Operand} :
    o.isJump = true ↔ (∃ j, o = .branch j) ∨ ∃ js, o = .switch js := by
  cases o <;> simp [isJump]

namespace Context

/-- Every jump of a decoded body is resolved to the instruction at its target. The jumps of an
instruction are those that stand in the code, entry by entry, and exactly the instructions that
branch have any. -/
theorem decode_resolves_jumps (ctx : Context) (l : Listing) (decoded : ctx.decode = .ok l)
    (x : Instruction) (hx : x ∈ l.instructions) :
    (∀ j, x.operand = .branch j → ctx.encodedOffsets x = [j.raw] ∧ l.Resolves x j) ∧
      (∀ js, x.operand = .switch js →
        js.length = ctx.numberAt (x.offset + x.opcode.size) 4 ∧
          js.map Jump.raw = ctx.encodedOffsets x ∧ ∀ j ∈ js, l.Resolves x j) ∧
      (x.isBranch = true ↔ (∃ j, x.operand = .branch j) ∨ ∃ js, x.operand = .switch js) := by
  obtain ⟨cs, tiles, reads⟩ := decode_eq_ok_iff.1 decoded
  obtain ⟨i, hi⟩ := Array.getElem?_of_mem hx
  obtain ⟨c, o, hc, rfl, denotes⟩ := reads.chunk hi
  have hmem := List.mem_of_getElem? hc
  have encoded := Chunk.rawOffsets_eq_encodedOffsets tiles hmem i cs.length o
  refine ⟨?_, ?_, ?_⟩
  · rintro j rfl
    obtain ⟨raw, hraw, lands⟩ := denotes.branch
    rw [← encoded, hraw, lands.encoded]
    exact ⟨rfl, reads.resolves lands i _ _⟩
  · rintro js rfl
    obtain ⟨hkind, lands⟩ := denotes.switch
    obtain ⟨hraws, each⟩ := Chunk.lands_of_table lands
    refine ⟨?_, hraws.trans encoded, ?_⟩
    · rw [← lands.length_eq, encoded]
      simp [encodedOffsets, Chunk.instruction, hkind]
    · intro j hj
      obtain ⟨raw, hland⟩ := each j hj
      exact reads.resolves hland i _ _
  · rw [← Operand.isJump_eq_true_iff]
    have defined := (tiles.complete_of_mem hmem).defined
    have hflow : (c.instruction i cs.length o).isBranch = c.opcode.operand.isJump :=
      Opcode.isBranch_flow_of_lookup? defined
    rw [hflow, ← denotes.isJump]
    rfl

/-- A body whose branches go back, to themselves and ahead, and whose switch does all three. -/
def turning : Context where
  code := [0x00, 0x2B, 0xFD, 0x2B, 0xFE, 0x2B, 0x00, 0x45, 0x03, 0x00, 0x00, 0x00, 0xE8, 0xFF,
    0xFF, 0xFF, 0xEF, 0xFF, 0xFF, 0xFF, 0x00, 0x00, 0x00, 0x00, 0x2A]
  resolver :=
    { member := fun token _ => .error (.unresolved token .noMember)
      string := fun token => .error (.unresolved token .noString)
      signature := fun token => .error (.unresolved token .noSignature)
      membersNamed := fun _ _ => .ok [] }

theorem decode_resolves_jumps_turning :
    ∃ l x, turning.decode = .ok l ∧ x ∈ l.instructions ∧
      x.operand = .switch [⟨-24, 0, some 0⟩, ⟨-17, 7, some 4⟩, ⟨0, 24, some 5⟩] ∧
      turning.encodedOffsets x = [-24, -17, 0] ∧ x.isBranch = true ∧
      l.Resolves x ⟨-24, 0, some 0⟩ ∧ l.Resolves x ⟨-17, 7, some 4⟩ ∧
      l.Resolves x ⟨0, 24, some 5⟩ := by
  have decoded : turning.decode = .ok (turning.decode.toOption.getD ⟨#[]⟩) := by decide +kernel
  have present : ∃ x ∈ (turning.decode.toOption.getD ⟨#[]⟩).instructions,
      x.operand = .switch [⟨-24, 0, some 0⟩, ⟨-17, 7, some 4⟩, ⟨0, 24, some 5⟩] := by
    decide +kernel
  obtain ⟨x, hx, hswitch⟩ := present
  obtain ⟨-, switches, branches⟩ := decode_resolves_jumps turning _ decoded x hx
  obtain ⟨-, encoded, resolved⟩ := switches _ hswitch
  refine ⟨_, x, decoded, hx, hswitch, encoded.symm, branches.2 (Or.inr ⟨_, hswitch⟩), ?_, ?_, ?_⟩
  · exact resolved _ (by simp)
  · exact resolved _ (by simp)
  · exact resolved _ (by simp)

end Context

end Cil
