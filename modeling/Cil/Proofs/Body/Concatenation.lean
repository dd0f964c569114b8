import Cil.Proofs.Body.Partition

/-!
# Bodies one behind the other

The meaning of a body does not depend on where it stands: behind other code that decodes, it decodes
to the same instructions, moved. Offsets and targets move by the bytes before them, indices by the
instructions before them, and all else stays. The only new links lead from the last instruction of
the first body to the first of the second, and back.
-/

namespace Cil

/-! ## Moving -/

/-- A jump whose body is moved behind `bytes` bytes and `count` instructions. -/
def Jump.moved (bytes count : Nat) (j : Jump) : Jump :=
  { j with target := j.target + bytes, landing := j.landing.map (· + count) }

/-- An operand in a body that is moved. Only jumps speak of places. -/
def Operand.moved (bytes count : Nat) : Operand → Operand
  | branch jump => branch (jump.moved bytes count)
  | switch jumps => switch (jumps.map (Jump.moved bytes count))
  | o => o

/-- An instruction of a body that is moved. -/
def Instruction.moved (bytes count : Nat) (x : Instruction) : Instruction :=
  { x with
    index := x.index + count
    offset := x.offset + bytes
    previous := x.previous.map (· + count)
    next := x.next.map (· + count)
    operand := x.operand.moved bytes count }

namespace Listing

/-- The instruction at index `i` of the first of two listings. The last one leads on to the second
listing. -/
def linkOn (l m : Listing) (i : Nat) (x : Instruction) : Instruction :=
  { x with next := if i + 1 = l.size ∧ m.size ≠ 0 then some l.size else x.next }

/-- The instruction at index `i` of the second of two listings. The first one leads back to the
first listing. -/
def linkBack (l : Listing) (i : Nat) (y : Instruction) : Instruction :=
  { y with previous := if i = 0 ∧ l.size ≠ 0 then some (l.size - 1) else y.previous }

/-- A listing and behind it another one, moved behind the `bytes` bytes of the first. -/
def append (l : Listing) (bytes : Nat) (m : Listing) : Listing :=
  ⟨l.instructions.mapIdx (l.linkOn m) ++
    m.instructions.mapIdx fun i y => l.linkBack i (y.moved bytes l.size)⟩

end Listing

/-- A chunk of code that is moved. -/
def Chunk.moved (bytes : Nat) (c : Chunk) : Chunk := { c with offset := c.offset + bytes }

theorem Chunk.stop_moved (bytes : Nat) (c : Chunk) : (c.moved bytes).stop = c.stop + bytes :=
  Nat.add_right_comm c.offset bytes c.size

/-- A tiling moves with its code. -/
theorem Tiles.moved {start : Nat} {code : List UInt8} {cs : List Chunk}
    (tiles : Tiles start code cs) (bytes : Nat) :
    Tiles (start + bytes) code (cs.map (Chunk.moved bytes)) := by
  induction tiles with
  | nil start => exact .nil _
  | @cons c code cs complete _ ih =>
    have whole : (c.moved bytes).Complete := ⟨complete.defined, complete.framed⟩
    rw [← Chunk.stop_moved] at ih
    exact .cons whole ih

theorem Operand.moved_of_plain {o : Operand} (plain : o.isJump = false) (bytes count : Nat) :
    o.moved bytes count = o := by
  cases o with
  | branch => cases plain
  | switch => cases plain
  | _ => rfl

/-! ## Meaning -/

namespace Chunk

variable {ctx : Context} {c : Chunk} {o : Operand} {starts : List Nat} {code : List UInt8}

/-- A jump lands on the same start when its body is moved behind others. -/
theorem Lands.moved {raw : Int32} {j : Jump} (lands : c.Lands starts raw j) (bytes : Nat)
    (before : List Nat) :
    (c.moved bytes).Lands (before ++ starts.map (· + bytes)) raw
      (j.moved bytes before.length) := by
  obtain ⟨i, hi, hstart⟩ := lands.start
  refine ⟨⟨lands.encoded, ?_⟩, i + before.length, ?_, ?_⟩
  · have hrelative := lands.relative
    rw [stop_moved]
    simp only [Jump.moved]
    omega
  · simp [Jump.moved, hi]
  · rw [List.getElem?_append_right (by omega), Nat.add_sub_cancel, List.getElem?_map, hstart]
    rfl

/-- More chunks behind do not change what is denoted. -/
theorem Denotes.mono {later : List Nat} (denotes : c.Denotes (ctx.withCode code) starts o)
    (longer : starts <+: later) (code' : List UInt8) :
    c.Denotes (ctx.withCode code') later o := by
  cases hjump : c.opcode.operand.isJump with
  | false => exact denotes.of_plain hjump code' later
  | true =>
    rcases branch_or_switch hjump with ⟨raw, -, -, hdenotes⟩ | ⟨-, -, hdenotes⟩
    · obtain ⟨j, lands, rfl⟩ := (hdenotes _ _ _).1 denotes
      exact (hdenotes _ _ _).2 ⟨j, lands.mono longer, rfl⟩
    · obtain ⟨js, lands, rfl⟩ := (hdenotes _ _ _).1 denotes
      exact (hdenotes _ _ _).2 ⟨js, lands.imp fun _ _ land => land.mono longer, rfl⟩

/-- Behind other chunks, a chunk denotes the same, moved. -/
theorem Denotes.moved (denotes : c.Denotes (ctx.withCode code) starts o) (bytes : Nat)
    (before : List Nat) (code' : List UInt8) :
    (c.moved bytes).Denotes (ctx.withCode code') (before ++ starts.map (· + bytes))
      (o.moved bytes before.length) := by
  have hkind' : (c.moved bytes).opcode.operand = c.opcode.operand := rfl
  cases hkind : c.opcode.operand <;> rw [hkind] at hkind'
  case branch8 | branch32 =>
    simp only [Denotes, hkind] at denotes
    obtain ⟨j, lands, rfl⟩ := denotes
    simp only [Denotes, hkind']
    exact ⟨_, lands.moved bytes before, rfl⟩
  case switch =>
    simp only [Denotes, hkind] at denotes
    obtain ⟨js, lands, rfl⟩ := denotes
    simp only [Denotes, hkind']
    refine ⟨_, List.forall₂_map_right_iff.2 ?_, rfl⟩
    exact lands.imp fun _ _ land => land.moved bytes before
  case phi => simp only [Denotes, hkind] at denotes
  all_goals
    have plain : c.opcode.operand.isJump = false := by rw [hkind]; rfl
    rw [Operand.moved_of_plain (denotes.isJump.trans plain)]
    have here := denotes.of_plain plain code' (before ++ starts.map (· + bytes))
    simp only [Denotes, hkind] at here
    simp only [Denotes, hkind']
    exact here

end Chunk

/-! ## Listings -/

namespace Listing

variable {ctx : Context} {a b : List UInt8} {cs ds : List Chunk} {l m : Listing}

theorem size_append (l m : Listing) (bytes : Nat) : (l.append bytes m).size = l.size + m.size := by
  simp [size, append]

theorem get?_append_left (l m : Listing) (bytes : Nat) {i : Nat} (hi : i < l.size) :
    (l.append bytes m).get? i = (l.get? i).map (l.linkOn m i) := by
  have within : i < (l.instructions.mapIdx (l.linkOn m)).size := by simpa [size] using hi
  rw [get?, append, Array.getElem?_append_left within, Array.getElem?_mapIdx]
  rfl

theorem get?_append_right (l m : Listing) (bytes i : Nat) :
    (l.append bytes m).get? (i + l.size) =
      (m.get? i).map fun y => l.linkBack i (y.moved bytes l.size) := by
  have behind : (l.instructions.mapIdx (l.linkOn m)).size ≤ i + l.size := by
    simp [size]
  rw [get?, append, Array.getElem?_append_right behind, Array.getElem?_mapIdx]
  simp [get?, size]

/-- In front of others, an instruction of a chunk is one of more instructions. -/
theorem linkOn_instruction {c : Chunk} {o : Operand} {i : Nat} (hi : i < l.size) :
    l.linkOn m i (c.instruction i l.size o) = c.instruction i (l.size + m.size) o := by
  have next : (if i + 1 = l.size ∧ m.size ≠ 0 then some l.size
      else if i + 1 < l.size then some (i + 1) else none) =
      if i + 1 < l.size + m.size then some (i + 1) else none := by
    by_cases last : i + 1 = l.size
    · by_cases alone : m.size = 0 <;> simp [last, alone, Nat.pos_iff_ne_zero]
    · rw [if_neg (by omega), if_pos (by omega), if_pos (by omega)]
  simp only [linkOn, Chunk.instruction, next]

/-- Behind others, it is the moved instruction of the moved chunk. -/
theorem linkBack_instruction (l : Listing) {c : Chunk} {o : Operand} {i count : Nat} (bytes : Nat) :
    l.linkBack i ((c.instruction i count o).moved bytes l.size) =
      (c.moved bytes).instruction (i + l.size) (l.size + count) (o.moved bytes l.size) := by
  have next : (if i + 1 < count then some (i + 1) else none).map (· + l.size) =
      if i + l.size + 1 < l.size + count then some (i + l.size + 1) else none := by
    by_cases behind : i + 1 < count
    · rw [if_pos behind, if_pos (by omega), Option.map_some, Nat.add_right_comm]
    · rw [if_neg behind, if_neg (by omega), Option.map_none]
  have previous : (if i = 0 ∧ l.size ≠ 0 then some (l.size - 1)
      else (if i = 0 then none else some (i - 1)).map (· + l.size)) =
      if i + l.size = 0 then none else some (i + l.size - 1) := by
    by_cases first : i = 0
    · by_cases alone : l.size = 0 <;> simp [first, alone]
    · have shifted : i - 1 + l.size = i + l.size - 1 := by omega
      rw [if_neg (by omega), if_neg first, if_neg (by omega), Option.map_some, shifted]
  simp only [linkBack, Instruction.moved, Chunk.instruction, next, previous]
  rfl

/-- Two listings one behind the other read the chunks of both. -/
theorem Reads.append (first : l.Reads (ctx.withCode a) cs) (second : m.Reads (ctx.withCode b) ds)
    (bytes : Nat) (code : List UInt8) :
    (l.append bytes m).Reads (ctx.withCode code) (cs ++ ds.map (Chunk.moved bytes)) := by
  have hl := first.size
  have hm := second.size
  have hstarts : (cs ++ ds.map (Chunk.moved bytes)).map Chunk.offset =
      cs.map Chunk.offset ++ (ds.map Chunk.offset).map (· + bytes) := by
    simp [Chunk.moved]
  refine ⟨?_, ?_⟩
  · rw [size_append, List.length_append, List.length_map, hl, hm]
  · intro i c hc
    rw [hstarts]
    by_cases hi : i < cs.length
    · rw [List.getElem?_append_left hi] at hc
      obtain ⟨o, hx, denotes⟩ := first.instruction i c hc
      refine ⟨o, ?_, denotes.mono (List.prefix_append _ _) code⟩
      rw [get?_append_left l m bytes (by omega), hx, Option.map_some, ← hl,
        linkOn_instruction (by omega), List.length_append, List.length_map, ← hl, ← hm]
    · obtain ⟨k, rfl⟩ : ∃ k, i = k + l.size := ⟨i - l.size, by omega⟩
      rw [List.getElem?_append_right (by omega), hl, Nat.add_sub_cancel, List.getElem?_map] at hc
      obtain ⟨d, hd, rfl⟩ := Option.map_eq_some_iff.1 hc
      obtain ⟨o, hx, denotes⟩ := second.instruction k d hd
      have moved := denotes.moved bytes (cs.map Chunk.offset) code
      rw [List.length_map, ← hl] at moved
      refine ⟨_, ?_, moved⟩
      rw [get?_append_right, hx, Option.map_some, linkBack_instruction, List.length_append,
        List.length_map, ← hl]

/-! ## Links -/

variable {x y : Instruction} {i : Nat}

/-- An instruction of the first listing gets a link if it has none and another listing follows. -/
theorem Reads.linkOn_eq (reads : l.Reads ctx cs) (hx : l.get? i = some x) (m : Listing) :
    l.linkOn m i x =
      { x with next := x.next.or (if m.size = 0 then none else some l.size) } := by
  have inside : i < l.size := (Array.getElem?_eq_some_iff.1 hx).1
  have next := reads.next_eq hx
  rw [linkOn]
  by_cases last : i + 1 = l.size
  · rw [if_neg (by omega)] at next
    by_cases alone : m.size = 0 <;> simp [last, alone, next]
  · rw [if_pos (by omega)] at next
    simp [last, next]

/-- An instruction of the second listing gets a link back if it has none and a listing stands
before. -/
theorem Reads.linkBack_eq (reads : m.Reads ctx ds) (hy : m.get? i = some y) (l : Listing)
    (bytes : Nat) :
    l.linkBack i (y.moved bytes l.size) =
      { y.moved bytes l.size with
        previous := (y.previous.map (· + l.size)).or
          (if l.size = 0 then none else some (l.size - 1)) } := by
  have previous := reads.previous_eq hy
  rw [linkBack]
  by_cases first : i = 0
  · rw [if_pos first] at previous
    by_cases alone : l.size = 0 <;> simp [first, alone, previous, Instruction.moved]
  · rw [if_neg first] at previous
    simp [first, previous, Instruction.moved]

end Listing

namespace Context

/-- Two bodies that decode also decode one behind the other: to the instructions of the first and,
behind them, those of the second, moved. Nothing else about an instruction changes but a link that
it did not have: the last of the first body leads on to the first of the second, which leads
back. -/
theorem decode_append (ctx : Context) (a b : List UInt8) (l m : Listing)
    (first : (ctx.withCode a).decode = .ok l) (second : (ctx.withCode b).decode = .ok m) :
    (ctx.withCode (a ++ b)).decode = .ok (l.append a.length m) ∧
      (l.append a.length m).size = l.size + m.size ∧
      (∀ i x, l.get? i = some x →
        (l.append a.length m).get? i =
          some { x with next := x.next.or (if m.size = 0 then none else some l.size) }) ∧
      ∀ i y, m.get? i = some y →
        (l.append a.length m).get? (i + l.size) =
          some { y.moved a.length l.size with
            previous := (y.previous.map (· + l.size)).or
              (if l.size = 0 then none else some (l.size - 1)) } := by
  obtain ⟨cs, tilesA, readsA⟩ := decode_eq_ok_iff.1 first
  obtain ⟨ds, tilesB, readsB⟩ := decode_eq_ok_iff.1 second
  refine ⟨?_, l.size_append m a.length, ?_, ?_⟩
  · have tiles := Tiles.append_iff.2 ⟨a, b, rfl, tilesA, tilesB.moved a.length⟩
    exact decode_eq_ok_iff.2 ⟨_, tiles, readsA.append readsB a.length (a ++ b)⟩
  · intro i x hx
    have inside : i < l.size := (Array.getElem?_eq_some_iff.1 hx).1
    rw [Listing.get?_append_left l m a.length inside, hx, Option.map_some, readsA.linkOn_eq hx m]
  · intro i y hy
    rw [Listing.get?_append_right, hy, Option.map_some, readsB.linkBack_eq hy l a.length]

theorem decode_append_turning :
    ∃ l x, turning.decode = .ok l ∧ l.get? 5 = some x ∧ x.next = none ∧
      (turning.withCode (turning.code ++ turning.code)).decode = .ok (l.append 25 l) ∧
      (l.append 25 l).get? 5 = some { x with next := some 6 } := by
  have decoded : turning.decode = .ok (turning.decode.toOption.getD ⟨#[]⟩) := by decide +kernel
  have present : ∃ x ∈ (turning.decode.toOption.getD ⟨#[]⟩).instructions,
      (turning.decode.toOption.getD ⟨#[]⟩).get? 5 = some x ∧ x.next = none := by decide +kernel
  have size : (turning.decode.toOption.getD ⟨#[]⟩).size = 6 := by decide +kernel
  obtain ⟨x, -, hx, last⟩ := present
  obtain ⟨joined, -, before, -⟩ :=
    decode_append turning turning.code turning.code _ _ decoded decoded
  have linked := before 5 x hx
  rw [last, size] at linked
  exact ⟨_, x, decoded, hx, last, joined, linked⟩

end Context

end Cil
