import Cil.Proofs.Body.Jumps

/-!
# Listings divide the code

The instructions of a decoded listing stand one behind the other from the first byte of the code to
its last. Each is as long as its opcode and its operand are, each has the opcode that the bytes at
its offset select, and each leads to the ones before and behind it.
-/

namespace Cil

/-- The opcode that the first bytes of some code select. -/
def Opcode.selected? : List UInt8 → Option Opcode
  | [] => none
  | first :: rest =>
    if first = extendedLead then rest.head?.bind (lookup? .extended) else lookup? .single first

/-- The number of entries in the table of a switch. -/
def Operand.tableLength : Operand → Nat
  | switch jumps => jumps.length
  | _ => 0

namespace Listing

/-- A listing that divides code into instructions without a gap, linked in both directions. -/
structure Partitions (l : Listing) (code : List UInt8) : Prop where
  index : ∀ i x, l.get? i = some x → x.index = i
  empty : l.isEmpty = true ↔ code = []
  first : ∀ x, l.first? = some x → x.offset = 0
  adjacent : ∀ i x y, l.get? i = some x → l.get? (i + 1) = some y → x.offset + x.size = y.offset
  last : ∀ x, l.last? = some x → x.offset + x.size = code.length
  increasing : ∀ i j x y, i < j → l.get? i = some x → l.get? j = some y → x.offset < y.offset
  /-- The fixed part of an operand is as long as its kind says, and an entry of a table takes four
  bytes. -/
  sized : ∀ x ∈ l.instructions, 1 ≤ x.size ∧ ∃ n, x.opcode.operand.size = .ok n ∧
    x.size = x.opcode.size + n + 4 * x.operand.tableLength
  selected : ∀ x ∈ l.instructions, Opcode.selected? (code.drop x.offset) = some x.opcode
  previous : ∀ i x, l.get? i = some x → x.previous = if i = 0 then none else some (i - 1)
  next : ∀ i x, l.get? i = some x → x.next = if i + 1 < l.size then some (i + 1) else none

end Listing

/-- The bytes of an opcode select it, whatever follows. -/
theorem Opcode.selected?_bytes {op : Opcode} (defined : lookup? op.page op.byte = some op)
    (rest : List UInt8) : selected? (op.bytes ++ rest) = some op := by
  cases hpage : op.page with
  | extended =>
    rw [hpage] at defined
    simp [bytes, hpage, selected?, defined]
  | single =>
    rw [hpage] at defined
    have hlead : op.byte ≠ extendedLead := by
      intro h
      rw [h, lookup?_extendedLead] at defined
      cases defined
    simp [bytes, hpage, selected?, hlead, defined]

namespace Chunk

variable {ctx : Context} {starts : List Nat} {c : Chunk} {o : Operand}

/-- Only a switch has a table. -/
theorem Denotes.tableLength_of_ne_switch (denotes : c.Denotes ctx starts o)
    (plain : c.opcode.operand ≠ .switch) : o.tableLength = 0 := by
  cases o with
  | switch js => exact absurd denotes.switch.1 plain
  | _ => rfl

/-- The table of a switch has as many entries as its count says. -/
theorem tableLength_of_frames {count table : List UInt8}
    (length : table.length = 4 * LittleEndian.value count) (width : count.length = 4)
    (payload : c.payload = count ++ table) (kind : c.opcode.operand = .switch)
    (denotes : c.Denotes ctx starts o) : o.tableLength = LittleEndian.value count := by
  simp only [Denotes, kind, payload] at denotes
  obtain ⟨js, lands, rfl⟩ := denotes
  have htable : (count ++ table).drop 4 = table := by rw [← width, List.drop_left]
  have hjs := lands.length_eq
  rw [htable, length_tableWords table _ length] at hjs
  exact hjs.symm

/-- The bytes of an operand: the fixed part of its kind, and its table. -/
theorem length_payload (complete : c.Complete) (denotes : c.Denotes ctx starts o) :
    ∃ n, c.opcode.operand.size = .ok n ∧ c.payload.length = n + 4 * o.tableLength := by
  have framed := complete.framed
  generalize hkind : c.opcode.operand = kind at framed
  generalize hpayload : c.payload = payload at framed
  cases framed with
  | fixed plain size =>
    have hnone := denotes.tableLength_of_ne_switch (hkind ▸ plain)
    refine ⟨payload.length, ?_, by omega⟩
    rw [OperandKind.size, size]
  | @table count table width length =>
    have hcount := tableLength_of_frames length width hpayload hkind denotes
    refine ⟨4, rfl, ?_⟩
    rw [List.length_append, width, length, hcount]

end Chunk

namespace Listing

variable {i : Nat}

theorem exists_get? (l : Listing) (hi : i < l.size) : ∃ x, l.get? i = some x :=
  ⟨_, Array.getElem?_eq_getElem hi⟩

theorem get?_eq_none (l : Listing) (hi : l.size ≤ i) : l.get? i = none :=
  Array.getElem?_eq_none_iff.2 hi

theorem last?_eq (l : Listing) : l.last? = l.get? (l.size - 1) := Array.back?_eq_getElem?

end Listing

namespace Listing.Reads

variable {ctx : Context} {cs : List Chunk} {l : Listing} {x y : Instruction} {i j : Nat}

theorem index_eq (reads : l.Reads ctx cs) (hx : l.get? i = some x) : x.index = i := by
  obtain ⟨c, o, -, rfl, -⟩ := reads.chunk hx
  rfl

theorem previous_eq (reads : l.Reads ctx cs) (hx : l.get? i = some x) :
    x.previous = if i = 0 then none else some (i - 1) := by
  obtain ⟨c, o, -, rfl, -⟩ := reads.chunk hx
  rfl

theorem next_eq (reads : l.Reads ctx cs) (hx : l.get? i = some x) :
    x.next = if i + 1 < l.size then some (i + 1) else none := by
  obtain ⟨c, o, -, rfl, -⟩ := reads.chunk hx
  rw [reads.size]
  rfl

/-- The links of an instruction lead to its neighbours. -/
theorem next?_eq (reads : l.Reads ctx cs) (hx : l.get? i = some x) :
    l.next? x = l.get? (i + 1) := by
  rw [next?, reads.next_eq hx]
  split
  · rfl
  · next last => exact (l.get?_eq_none (Nat.le_of_not_lt last)).symm

theorem previous?_of_first (reads : l.Reads ctx cs) (hx : l.get? 0 = some x) :
    l.previous? x = none := by
  rw [previous?, reads.previous_eq hx]
  rfl

theorem previous?_of_succ (reads : l.Reads ctx cs) (hx : l.get? (i + 1) = some x) :
    l.previous? x = l.get? i := by
  rw [previous?, reads.previous_eq hx]
  rfl

theorem isEmpty_iff (reads : l.Reads ctx cs) : l.isEmpty = true ↔ cs = [] := by
  have hsize := reads.size
  rw [← List.length_eq_zero_iff, ← hsize]
  exact Array.isEmpty_iff_size_eq_zero

theorem offset_of_first? (reads : l.Reads ctx cs) (tiles : Tiles 0 ctx.code cs)
    (hx : l.first? = some x) : x.offset = 0 := by
  obtain ⟨c, o, hc, rfl, -⟩ := reads.chunk hx
  cases cs with
  | nil => cases hc
  | cons d cs =>
    cases hc
    exact tiles.offset_of_cons

theorem offset_of_next (reads : l.Reads ctx cs) (tiles : Tiles 0 ctx.code cs)
    (hx : l.get? i = some x) (hy : l.get? (i + 1) = some y) : x.offset + x.size = y.offset := by
  obtain ⟨c, o, hc, rfl, -⟩ := reads.chunk hx
  obtain ⟨d, o', hd, rfl, -⟩ := reads.chunk hy
  exact (tiles.offset_of_next hc hd).symm

theorem stop_of_last? (reads : l.Reads ctx cs) (tiles : Tiles 0 ctx.code cs)
    (hx : l.last? = some x) : x.offset + x.size = ctx.code.length := by
  rw [last?_eq] at hx
  obtain ⟨c, o, hc, rfl, -⟩ := reads.chunk hx
  have hlast : cs.getLast? = some c := by
    rw [List.getLast?_eq_getElem?, ← reads.size]
    exact hc
  have hstop := tiles.stop_of_getLast? hlast
  rw [Nat.zero_add] at hstop
  exact hstop

theorem offset_lt (reads : l.Reads ctx cs) (tiles : Tiles 0 ctx.code cs) (hij : i < j)
    (hx : l.get? i = some x) (hy : l.get? j = some y) : x.offset < y.offset := by
  obtain ⟨c, o, hc, rfl, -⟩ := reads.chunk hx
  obtain ⟨d, o', hd, rfl, -⟩ := reads.chunk hy
  obtain ⟨hi, rfl⟩ := List.getElem?_eq_some_iff.1 hc
  obtain ⟨hj, rfl⟩ := List.getElem?_eq_some_iff.1 hd
  exact List.pairwise_iff_getElem.1 tiles.pairwise_offset i j hi hj hij

/-- An instruction is as long as its opcode, the fixed part of its operand and its table. -/
theorem size_eq (reads : l.Reads ctx cs) (tiles : Tiles 0 ctx.code cs)
    (hx : x ∈ l.instructions) :
    1 ≤ x.size ∧ ∃ n, x.opcode.operand.size = .ok n ∧
      x.size = x.opcode.size + n + 4 * x.operand.tableLength := by
  obtain ⟨i, hi⟩ := Array.getElem?_of_mem hx
  obtain ⟨c, o, hc, rfl, denotes⟩ := reads.chunk hi
  have complete := tiles.complete_of_mem (List.mem_of_getElem? hc)
  obtain ⟨n, hn, hlength⟩ := Chunk.length_payload complete denotes
  refine ⟨c.size_pos, n, hn, ?_⟩
  have hsize : c.size = c.opcode.size + c.payload.length := rfl
  rw [hlength, ← Nat.add_assoc] at hsize
  exact hsize

/-- The bytes at the offset of an instruction select its opcode. -/
theorem selected? (reads : l.Reads ctx cs) (tiles : Tiles 0 ctx.code cs)
    (hx : x ∈ l.instructions) : Opcode.selected? (ctx.code.drop x.offset) = some x.opcode := by
  obtain ⟨i, hi⟩ := Array.getElem?_of_mem hx
  obtain ⟨c, o, hc, rfl, -⟩ := reads.chunk hi
  have hmem := List.mem_of_getElem? hc
  obtain ⟨after, hafter⟩ := tiles.drop_of_mem hmem
  have hdrop : ctx.code.drop c.offset = c.opcode.bytes ++ (c.payload ++ after) := by
    rw [← List.append_assoc]
    exact hafter
  have selects := Opcode.selected?_bytes (tiles.complete_of_mem hmem).defined (c.payload ++ after)
  rw [← hdrop] at selects
  exact selects

end Listing.Reads

namespace Context

/-- A decoded listing divides the code into instructions without a gap. -/
theorem decode_partitions_code (ctx : Context) (l : Listing) (decoded : ctx.decode = .ok l) :
    l.Partitions ctx.code := by
  obtain ⟨cs, tiles, reads⟩ := decode_eq_ok_iff.1 decoded
  exact {
    index := fun i x => reads.index_eq
    empty := reads.isEmpty_iff.trans tiles.eq_nil_iff
    first := fun x => reads.offset_of_first? tiles
    adjacent := fun i x y => reads.offset_of_next tiles
    last := fun x => reads.stop_of_last? tiles
    increasing := fun i j x y => reads.offset_lt tiles
    sized := fun x => reads.size_eq tiles
    selected := fun x => reads.selected? tiles
    previous := fun i x => reads.previous_eq
    next := fun i x => reads.next_eq }

theorem decode_partitions_code_turning :
    ∃ l, turning.decode = .ok l ∧ l.size = 6 ∧ l.Partitions turning.code := by
  have decoded : turning.decode = .ok (turning.decode.toOption.getD ⟨#[]⟩) := by decide +kernel
  have hsize : (turning.decode.toOption.getD ⟨#[]⟩).size = 6 := by decide +kernel
  exact ⟨_, decoded, hsize, decode_partitions_code turning _ decoded⟩

end Context

end Cil
