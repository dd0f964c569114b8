import Cil.Proofs.Body.Chunk

/-!
# Tilings

Code is tiled by chunks that stand one behind the other from its first byte to its last. A read
takes exactly the bytes of a complete chunk, whatever follows them, so cutting code finds its
tiling if there is one, and there is never more than one.
-/

namespace Cil

/-- The operands of a kind, as bytes. The count of a switch says how long its table is, and the
reserved kind has no operands. -/
inductive OperandKind.Frames : OperandKind → List UInt8 → Prop
  | fixed {kind : OperandKind} {payload : List UInt8} (plain : kind ≠ .switch)
      (size : kind.size? = some payload.length) : Frames kind payload
  | table {count table : List UInt8} (width : count.length = 4)
      (length : table.length = 4 * LittleEndian.value count) : Frames .switch (count ++ table)

/-- Any operand but a table is as long as its kind says. -/
theorem OperandKind.Frames.size? {kind : OperandKind} {payload : List UInt8}
    (framed : kind.Frames payload) (plain : kind ≠ .switch) :
    kind.size? = some payload.length := by
  cases framed with
  | fixed _ size => exact size
  | table => exact absurd rfl plain

namespace Opcode

theorem length_bytes (op : Opcode) : op.bytes.length = op.size := by
  by_cases h : op.code < 0 <;> simp [bytes, page, isExtended, size, h]

theorem size_pos (op : Opcode) : 0 < op.size := by
  rw [size]
  split <;> decide

/-- The code of every slot of a page, reserved or not, says where the slot stands. -/
theorem rows_in_place (page : Page) :
    ∀ slot ∈ (rows page).toList.zipIdx,
      slot.1.page = page ∧ slot.1.byte = UInt8.ofNat slot.2 := by
  cases page <;> decide +kernel

theorem place_of_slot? {page : Page} {byte : UInt8} {op : Opcode}
    (h : slot? page byte = some op) : op.page = page ∧ op.byte = byte := by
  rw [slot?, ← Array.getElem?_toList] at h
  obtain ⟨hpage, hbyte⟩ :=
    rows_in_place page (op, byte.toNat) (List.mk_mem_zipIdx_iff_getElem?.2 h)
  exact ⟨hpage, hbyte.trans UInt8.ofNat_toNat⟩

theorem place_of_lookup? {page : Page} {byte : UInt8} {op : Opcode}
    (h : lookup? page byte = some op) : op.page = page ∧ op.byte = byte :=
  place_of_slot? (Option.filter_eq_some_iff.1 h).1

theorem defined_of_lookup? {page : Page} {byte : UInt8} {op : Opcode}
    (h : lookup? page byte = some op) : lookup? op.page op.byte = some op := by
  obtain ⟨rfl, rfl⟩ := place_of_lookup? h
  exact h

/-- What is decided for a whole page holds of the opcodes found there. -/
theorem mem_rows_of_lookup? {page : Page} {byte : UInt8} {op : Opcode}
    (h : lookup? page byte = some op) : op ∈ (rows page).toList :=
  Array.mem_toList_iff.2 (Array.mem_of_getElem? (Option.filter_eq_some_iff.1 h).1)

/-- The lead of the extended page is no opcode of the single page. -/
theorem lookup?_extendedLead : lookup? .single extendedLead = none := by decide +kernel

theorem bytes_of_single {op : Opcode} (h : op.page = .single) :
    op.bytes = [op.byte] ∧ op.size = 1 := by
  refine ⟨by simp [bytes, h], ?_⟩
  rw [← length_bytes, bytes, h]
  rfl

theorem bytes_of_extended {op : Opcode} (h : op.page = .extended) :
    op.bytes = [extendedLead, op.byte] ∧ op.size = 2 := by
  refine ⟨by simp [bytes, h], ?_⟩
  rw [← length_bytes, bytes, h]
  rfl

end Opcode

theorem Cursor.take?_eq_some_iff {n : Nat} {c after : Cursor} {taken : List UInt8} :
    c.take? n = some (taken, after) ↔
      taken.length = n ∧ c.rest = taken ++ after.rest ∧ after.pos = c.pos + n := by
  constructor
  · intro h
    rw [take?] at h
    split at h
    · next hlength =>
      cases h
      exact ⟨hlength, (List.take_append_drop n c.rest).symm, rfl⟩
    · cases h
  · rintro ⟨hlength, hrest, hpos⟩
    obtain ⟨pos, rest⟩ := after
    simp only at hrest hpos
    subst hpos
    simp [take?, hrest, ← hlength]

namespace Cursor

variable {offset : Nat} {c after : Cursor}

theorem fetch_eq_ok_iff {type : ScalarType} {value : type.Value} :
    c.fetch type offset = .ok (value, after) ↔
      ∃ taken : List UInt8, taken.length = type.size ∧ c.rest = taken ++ after.rest ∧
        after.pos = c.pos + type.size ∧ value = type.ofBits (LittleEndian.value taken) := by
  rw [fetch]
  constructor
  · intro h
    split at h
    · next taken last htaken =>
      cases h
      obtain ⟨hlength, hrest, hpos⟩ := take?_eq_some_iff.1 htaken
      exact ⟨taken, hlength, hrest, hpos, rfl⟩
    · cases h
  · rintro ⟨taken, hlength, hrest, hpos, rfl⟩
    rw [take?_eq_some_iff.2 ⟨hlength, hrest, hpos⟩]

theorem fetch_byte_eq_ok_iff {byte : UInt8} :
    c.fetch .u8 offset = .ok (byte, after) ↔ c.rest = byte :: after.rest ∧ after.pos = c.pos + 1 := by
  rw [fetch_eq_ok_iff]
  constructor
  · rintro ⟨taken, hlength, hrest, hpos, rfl⟩
    obtain ⟨b, rfl⟩ := List.length_eq_one_iff.1 hlength
    exact ⟨by simp [hrest, ScalarType.ofBits, LittleEndian.value], hpos⟩
  · rintro ⟨hrest, hpos⟩
    exact ⟨[byte], rfl, hrest, hpos, by simp [ScalarType.ofBits, LittleEndian.value]⟩

/-- An opcode is read where its bytes stand. -/
theorem opcode_eq_ok_iff {s : Selection} :
    c.opcode offset = .ok (s, after) ↔
      Opcode.lookup? s.opcode.page s.opcode.byte = some s.opcode ∧ s = s.opcode.selection ∧
        c.rest = s.opcode.bytes ++ after.rest ∧ after.pos = c.pos + s.opcode.size := by
  constructor
  · intro h
    rw [opcode] at h
    split at h
    · cases h
    next first mid hfirst =>
    obtain ⟨hrest, hpos⟩ := fetch_byte_eq_ok_iff.1 hfirst
    split at h
    · next hlead =>
      subst hlead
      split at h
      · cases h
      next second last hsecond =>
      obtain ⟨hrest', hpos'⟩ := fetch_byte_eq_ok_iff.1 hsecond
      split at h
      · next op hop =>
        cases h
        obtain ⟨hpage, rfl⟩ := Opcode.place_of_lookup? hop
        obtain ⟨hbytes, hsize⟩ := Opcode.bytes_of_extended hpage
        refine ⟨Opcode.defined_of_lookup? hop, rfl, ?_, ?_⟩
        · rw [hrest, hrest', hbytes]
          rfl
        · simp only [hpos', hpos, hsize, Nat.add_assoc]
      · cases h
    · split at h
      · next op hop =>
        cases h
        obtain ⟨hpage, rfl⟩ := Opcode.place_of_lookup? hop
        obtain ⟨hbytes, hsize⟩ := Opcode.bytes_of_single hpage
        refine ⟨Opcode.defined_of_lookup? hop, rfl, ?_, ?_⟩
        · rw [hrest, hbytes]
          rfl
        · simp only [hpos, hsize]
      · cases h
  · obtain ⟨op, byte⟩ := s
    rintro ⟨hdefined, hselected, hrest, hpos⟩
    obtain rfl : byte = op.byte := congrArg Selection.byte hselected
    dsimp only at hdefined hrest hpos
    rw [opcode]
    cases hpage : op.page with
    | single =>
      rw [hpage] at hdefined
      obtain ⟨hbytes, hsize⟩ := Opcode.bytes_of_single hpage
      have hlead : op.byte ≠ extendedLead := by
        intro heq
        rw [heq, Opcode.lookup?_extendedLead] at hdefined
        cases hdefined
      have hfirst : c.fetch .u8 offset = .ok (op.byte, after) :=
        fetch_byte_eq_ok_iff.2 ⟨by rw [hrest, hbytes]; rfl, by rw [hpos, hsize]⟩
      simp [hfirst, hlead, hdefined]
    | extended =>
      rw [hpage] at hdefined
      obtain ⟨hbytes, hsize⟩ := Opcode.bytes_of_extended hpage
      have hfirst : c.fetch .u8 offset =
          .ok (extendedLead, ⟨c.pos + 1, op.byte :: after.rest⟩) :=
        fetch_byte_eq_ok_iff.2 ⟨by rw [hrest, hbytes]; rfl, rfl⟩
      have hsecond : fetch .u8 offset ⟨c.pos + 1, op.byte :: after.rest⟩ = .ok (op.byte, after) :=
        fetch_byte_eq_ok_iff.2 ⟨rfl, by rw [hpos, hsize]⟩
      simp [hfirst, hsecond, hdefined]

end Cursor

namespace Chunk

/-- A chunk of a defined opcode, with an operand of its kind. -/
structure Complete (c : Chunk) : Prop where
  defined : Opcode.lookup? c.opcode.page c.opcode.byte = some c.opcode
  framed : c.opcode.operand.Frames c.payload

theorem length_bytes (c : Chunk) : c.bytes.length = c.size := by
  simp [bytes, size, Opcode.length_bytes]

/-- What follows a chunk is counted from where the chunk stops. -/
theorem offset_add_length (c : Chunk) (code : List UInt8) :
    c.offset + (c.bytes ++ code).length = c.stop + code.length := by
  rw [List.length_append, length_bytes, stop, Nat.add_assoc]

theorem size_pos (c : Chunk) : 0 < c.size := Nat.add_pos_left c.opcode.size_pos _

theorem offset_lt_stop (c : Chunk) : c.offset < c.stop := by
  have hpos := c.size_pos
  rw [stop]
  omega

theorem readOperandBytes_eq_ok_iff {offset n : Nat} {c after : Cursor} {taken : List UInt8} :
    readOperandBytes offset n c = .ok (taken, after) ↔
      taken.length = n ∧ c.rest = taken ++ after.rest ∧ after.pos = c.pos + n := by
  rw [← Cursor.take?_eq_some_iff, readOperandBytes]
  split
  · next read hread => simp [hread]
  · next hread => simp [hread]

theorem readOperandBytes_eq_error_iff {offset n : Nat} {c : Cursor} {fault : Fault} :
    readOperandBytes offset n c = .error fault ↔
      c.rest.length < n ∧ fault = .truncated offset n c.rest.length := by
  rw [readOperandBytes, Cursor.take?, List.length_take]
  by_cases enough : n ≤ c.rest.length
  · rw [if_pos (Nat.min_eq_left enough)]
    simp [Nat.not_lt_of_le enough]
  · rw [if_neg (by omega)]
    simp [Cursor.remaining, Nat.lt_of_not_le enough, eq_comm]

/-- The fixed part of an operand is read first, and then the table that it counts. -/
theorem readPayload_eq {offset n : Nat} {c : Cursor} {kind : OperandKind}
    (size : kind.size? = some n) :
    readPayload offset kind c = readOperandBytes offset n c >>= fun read =>
      if kind = .switch then
        (readOperandBytes offset (4 * LittleEndian.value read.1) read.2).map fun table =>
          (read.1 ++ table.1, table.2)
      else .ok read := by
  rw [readPayload, OperandKind.size, size]
  dsimp only
  cases readOperandBytes offset n c with
  | error fault => rfl
  | ok read =>
    obtain ⟨fixed, after⟩ := read
    by_cases hkind : kind = .switch
    · simp only [bind, Except.bind, if_pos hkind]
      cases readOperandBytes offset (4 * LittleEndian.value fixed) after <;> rfl
    · simp only [bind, Except.bind, if_neg hkind]

theorem readPayload_of_plain {kind : OperandKind} (plain : kind ≠ .switch) {n : Nat}
    (size : kind.size? = some n) (offset : Nat) (c : Cursor) :
    readPayload offset kind c = readOperandBytes offset n c := by
  rw [readPayload_eq size]
  simp only [if_neg plain]
  cases readOperandBytes offset n c <;> rfl

theorem readPayload_eq_ok_iff {offset : Nat} {kind : OperandKind} {c after : Cursor}
    {payload : List UInt8} :
    readPayload offset kind c = .ok (payload, after) ↔
      kind.Frames payload ∧ c.rest = payload ++ after.rest ∧
        after.pos = c.pos + payload.length := by
  constructor
  · intro h
    rw [readPayload, OperandKind.size] at h
    cases hsize : kind.size? with
    | none => simp [hsize] at h
    | some n =>
      simp only [hsize] at h
      split at h
      · cases h
      next fixed mid hfixed =>
      obtain ⟨hwidth, hrest, hpos⟩ := readOperandBytes_eq_ok_iff.1 hfixed
      split at h
      · next hkind =>
        subst hkind
        split at h
        · cases h
        next table last htable =>
        cases h
        obtain ⟨hlength, hrest', hpos'⟩ := readOperandBytes_eq_ok_iff.1 htable
        cases hsize
        refine ⟨.table hwidth hlength, ?_, ?_⟩
        · rw [hrest, hrest', List.append_assoc]
        · rw [hpos', hpos, List.length_append, hwidth, hlength, Nat.add_assoc]
      · next hkind =>
        cases h
        exact ⟨.fixed hkind (by rw [hsize, hwidth]), hrest, by rw [hpos, hwidth]⟩
  · rintro ⟨hframes, hrest, hpos⟩
    rw [readPayload, OperandKind.size]
    cases hframes with
    | fixed plain size =>
      have hread : readOperandBytes offset payload.length c = .ok (payload, after) :=
        readOperandBytes_eq_ok_iff.2 ⟨rfl, hrest, hpos⟩
      simp [size, hread, plain]
    | @table count table width length =>
      have hcount : readOperandBytes offset 4 c =
          .ok (count, ⟨c.pos + 4, table ++ after.rest⟩) :=
        readOperandBytes_eq_ok_iff.2 ⟨width, by rw [hrest, List.append_assoc], rfl⟩
      have htable : readOperandBytes offset (4 * LittleEndian.value count)
          ⟨c.pos + 4, table ++ after.rest⟩ = .ok (table, after) := by
        refine readOperandBytes_eq_ok_iff.2 ⟨length, rfl, ?_⟩
        rw [hpos, List.length_append, width, length, Nat.add_assoc]
      simp [OperandKind.size?, hcount, htable]

/-- A read takes exactly the bytes of a complete chunk. -/
theorem read_eq_ok_iff {c after : Cursor} {chunk : Chunk} :
    read c = .ok (chunk, after) ↔
      chunk.Complete ∧ chunk.offset = c.pos ∧ c.rest = chunk.bytes ++ after.rest ∧
        after.pos = chunk.stop := by
  constructor
  · intro h
    rw [read] at h
    split at h
    · cases h
    next opcode mid hopcode =>
    split at h
    · cases h
    next payload last hpayload =>
    cases h
    obtain ⟨hdefined, -, hrest, hpos⟩ := Cursor.opcode_eq_ok_iff.1 hopcode
    obtain ⟨hframed, hrest', hpos'⟩ := readPayload_eq_ok_iff.1 hpayload
    refine ⟨⟨hdefined, hframed⟩, rfl, ?_, ?_⟩
    · rw [hrest, hrest', bytes, List.append_assoc]
    · simp only [hpos', hpos, stop, size, Nat.add_assoc]
  · rintro ⟨⟨hdefined, hframed⟩, hoffset, hrest, hpos⟩
    have hopcode : c.opcode c.pos =
        .ok (chunk.opcode.selection, ⟨c.pos + chunk.opcode.size, chunk.payload ++ after.rest⟩) :=
      Cursor.opcode_eq_ok_iff.2 ⟨hdefined, rfl, by rw [hrest, bytes, List.append_assoc]; rfl, rfl⟩
    have hpayload : readPayload c.pos chunk.opcode.operand
        ⟨c.pos + chunk.opcode.size, chunk.payload ++ after.rest⟩ = .ok (chunk.payload, after) := by
      refine readPayload_eq_ok_iff.2 ⟨hframed, rfl, ?_⟩
      rw [hpos, stop, size, hoffset, Nat.add_assoc]
    simp only [read, hopcode, Opcode.selection, hpayload]
    rw [← hoffset]

end Chunk

/-- Chunks that stand one behind the other, the first at `start`, and make up the code. -/
inductive Tiles : Nat → List UInt8 → List Chunk → Prop
  | nil (start : Nat) : Tiles start [] []
  | cons {c : Chunk} {code : List UInt8} {cs : List Chunk} (complete : c.Complete)
      (rest : Tiles c.stop code cs) : Tiles c.offset (c.bytes ++ code) (c :: cs)

namespace Cut

theorem go_end (chunks : Array Chunk) (pos : Nat) : go chunks ⟨pos, []⟩ = ⟨chunks, none⟩ := by
  rw [go]
  simp [Cursor.hasMore]

theorem go_chunk {chunks : Array Chunk} {c after : Cursor} {chunk : Chunk}
    (h : Chunk.read c = .ok (chunk, after)) : go chunks c = go (chunks.push chunk) after := by
  have hmore : c.hasMore = true := by
    have := Chunk.length_rest_of_read h
    cases hrest : c.rest with
    | nil => simp [hrest] at this
    | cons b bs => simp [Cursor.hasMore, hrest]
  rw [go, if_pos hmore]
  split
  · next found last hfound =>
    rw [h] at hfound
    cases hfound
    rfl
  · next fault hfault =>
    rw [h] at hfault
    cases hfault

theorem go_fault {chunks : Array Chunk} {c : Cursor} {fault : Fault} (hmore : c.rest ≠ [])
    (h : Chunk.read c = .error fault) : go chunks c = ⟨chunks, some fault⟩ := by
  rw [go, if_pos (by simpa [Cursor.hasMore] using hmore)]
  split
  · next found last hfound =>
    rw [h] at hfound
    cases hfound
  · next fault' hfault =>
    rw [h] at hfault
    cases hfault
    rfl

/-- A cut goes through a tiling to what follows it. -/
theorem go_append {start : Nat} {front : List UInt8} {cs : List Chunk}
    (tiles : Tiles start front cs) (chunks : Array Chunk) (rest : List UInt8) :
    go chunks ⟨start, front ++ rest⟩ =
      go (chunks ++ cs.toArray) ⟨start + front.length, rest⟩ := by
  induction tiles generalizing chunks with
  | nil start => simp
  | @cons c code cs complete _ ih =>
    have hread : Chunk.read ⟨c.offset, c.bytes ++ code ++ rest⟩ = .ok (c, ⟨c.stop, code ++ rest⟩) :=
      Chunk.read_eq_ok_iff.2 ⟨complete, rfl, List.append_assoc .., rfl⟩
    rw [go_chunk hread, ih, c.offset_add_length]
    simp

/-- A tiling of what follows the cursor is what the cut finds there. -/
theorem go_of_tiles {start : Nat} {code : List UInt8} {cs : List Chunk}
    (tiles : Tiles start code cs) (chunks : Array Chunk) :
    go chunks ⟨start, code⟩ = ⟨chunks ++ cs.toArray, none⟩ := by
  have through := go_append tiles chunks []
  rw [List.append_nil, go_end] at through
  exact through

/-- What a cut ends with at a cursor: nothing where the code ends, and else the fault of the read
there. -/
inductive Ends : Cursor → Option Fault → Prop
  | code (pos : Nat) : Ends ⟨pos, []⟩ none
  | fault {c : Cursor} {fault : Fault} (more : c.rest ≠ []) (unread : Chunk.read c = .error fault) :
      Ends c (some fault)

/-- A cut has found a tiling of the code up to where it ends. -/
theorem exists_front (chunks : Array Chunk) (c : Cursor) :
    ∃ (cs : List Chunk) (front rest : List UInt8),
      (go chunks c).chunks = chunks ++ cs.toArray ∧ c.rest = front ++ rest ∧
        Tiles c.pos front cs ∧ Ends ⟨c.pos + front.length, rest⟩ (go chunks c).fault := by
  induction hlength : c.rest.length using Nat.strongRecOn generalizing chunks c with
  | ind n ih =>
    obtain ⟨pos, code⟩ := c
    by_cases hcode : code = []
    · subst hcode
      exact ⟨[], [], [], by simp [go_end], rfl, .nil pos, by simpa [go_end] using Ends.code pos⟩
    · cases hread : Chunk.read ⟨pos, code⟩ with
      | error fault =>
        rw [go_fault hcode hread]
        exact ⟨[], [], code, by simp, rfl, .nil pos, .fault hcode hread⟩
      | ok found =>
        obtain ⟨chunk, after⟩ := found
        have hless := Chunk.length_rest_of_read hread
        rw [go_chunk hread]
        obtain ⟨cs, front, rest, hchunks, hafter, tiles, ends⟩ :=
          ih _ (hlength ▸ hless) (chunks.push chunk) after rfl
        obtain ⟨complete, hoffset, hrest, hpos⟩ := Chunk.read_eq_ok_iff.1 hread
        simp only at hoffset hrest
        refine ⟨chunk :: cs, chunk.bytes ++ front, rest, by simp [hchunks], ?_, ?_, ?_⟩
        · rw [hrest, hafter, List.append_assoc]
        · rw [← hoffset]
          exact .cons complete (hpos ▸ tiles)
        · rw [← hoffset, chunk.offset_add_length, ← hpos]
          exact ends

/-- The chunks of some code tile it up to where they end. -/
theorem ofCode_front (code : List UInt8) :
    ∃ front rest, code = front ++ rest ∧ Tiles 0 front (ofCode code).chunks.toList ∧
      Ends ⟨front.length, rest⟩ (ofCode code).fault := by
  obtain ⟨cs, front, rest, hchunks, hcode, tiles, ends⟩ := exists_front #[] (.start code)
  have hcs : (ofCode code).chunks.toList = cs := by
    simpa [ofCode] using congrArg Array.toList hchunks
  have hpos : (Cursor.start code).pos + front.length = front.length := Nat.zero_add _
  rw [hpos] at ends
  refine ⟨front, rest, hcode, ?_, ends⟩
  rw [hcs]
  exact tiles

/-- A cut that comes to the end has found a tiling. -/
theorem ofCode_eq_iff {code : List UInt8} {cs : List Chunk} :
    ofCode code = ⟨cs.toArray, none⟩ ↔ Tiles 0 code cs := by
  constructor
  · intro h
    obtain ⟨front, rest, hcode, tiles, ends⟩ := ofCode_front code
    rw [h] at tiles ends
    cases ends
    rw [hcode, List.append_nil]
    exact tiles
  · intro tiles
    rw [ofCode, Cursor.start, go_of_tiles tiles]
    simp

end Cut

namespace Tiles

variable {start : Nat} {code : List UInt8} {cs : List Chunk}

/-- No code has two tilings from the same place. -/
theorem unique {cs' : List Chunk} (tiles : Tiles start code cs) (tiles' : Tiles start code cs') :
    cs = cs' := by
  have h := Cut.go_of_tiles tiles #[]
  rw [Cut.go_of_tiles tiles' #[]] at h
  simpa using (congrArg Cut.chunks h).symm

theorem complete_of_mem (tiles : Tiles start code cs) {c : Chunk} (hc : c ∈ cs) : c.Complete := by
  induction tiles with
  | nil => cases hc
  | cons complete _ ih =>
    rcases List.mem_cons.1 hc with rfl | hc
    · exact complete
    · exact ih hc

theorem start_le_of_mem (tiles : Tiles start code cs) {c : Chunk} (hc : c ∈ cs) :
    start ≤ c.offset := by
  induction tiles with
  | nil => cases hc
  | @cons first _ _ _ _ ih =>
    rcases List.mem_cons.1 hc with rfl | hc
    · exact Nat.le_refl _
    · exact Nat.le_trans (Nat.le_of_lt first.offset_lt_stop) (ih hc)

/-- Chunks of a tiling start one after the other. -/
theorem pairwise_offset (tiles : Tiles start code cs) :
    cs.Pairwise fun c d => c.offset < d.offset := by
  induction tiles with
  | nil => exact .nil
  | @cons first _ _ _ rest ih =>
    refine .cons (fun d hd => ?_) ih
    exact Nat.lt_of_lt_of_le first.offset_lt_stop (rest.start_le_of_mem hd)

/-- The bytes of a chunk stand in the code where the chunk starts. -/
theorem drop_of_mem (tiles : Tiles start code cs) {c : Chunk} (hc : c ∈ cs) :
    ∃ after, code.drop (c.offset - start) = c.bytes ++ after := by
  induction tiles with
  | nil => cases hc
  | @cons first code _ _ rest ih =>
    rcases List.mem_cons.1 hc with rfl | hc
    · exact ⟨code, by simp⟩
    · obtain ⟨after, hafter⟩ := ih hc
      have hstop := rest.start_le_of_mem hc
      have hsplit : c.offset - first.offset = first.bytes.length + (c.offset - first.stop) := by
        rw [Chunk.length_bytes]
        rw [Chunk.stop] at hstop ⊢
        omega
      exact ⟨after, by rw [hsplit, List.drop_length_add_append, hafter]⟩

/-- The operand of a chunk stands in the code behind its opcode. -/
theorem drop_payload_of_mem (tiles : Tiles 0 code cs) {c : Chunk} (hc : c ∈ cs) :
    ∃ after, code.drop (c.offset + c.opcode.size) = c.payload ++ after := by
  obtain ⟨after, hafter⟩ := tiles.drop_of_mem hc
  refine ⟨after, ?_⟩
  rw [← List.drop_drop, ← Nat.sub_zero c.offset, hafter, Chunk.bytes, List.append_assoc,
    ← Opcode.length_bytes, List.drop_left]

theorem offset_of_cons {c : Chunk} (tiles : Tiles start code (c :: cs)) : c.offset = start := by
  cases tiles
  rfl

theorem eq_nil_iff (tiles : Tiles start code cs) : cs = [] ↔ code = [] := by
  cases tiles with
  | nil => simp
  | @cons c code cs =>
    have hpos := c.size_pos
    have hlength := c.length_bytes
    constructor
    · intro h
      cases h
    · intro h
      have hempty : c.bytes = [] := (List.append_eq_nil_iff.1 h).1
      rw [hempty, List.length_nil] at hlength
      omega

/-- A chunk of a tiling starts where the one before it ends. -/
theorem offset_of_next (tiles : Tiles start code cs) {i : Nat} {c d : Chunk}
    (hc : cs[i]? = some c) (hd : cs[i + 1]? = some d) : d.offset = c.stop := by
  induction tiles generalizing i with
  | nil => cases hc
  | @cons _ _ cs _ rest ih =>
    cases i with
    | succ i => exact ih hc hd
    | zero =>
      cases hc
      cases cs with
      | nil => cases hd
      | cons =>
        cases hd
        exact rest.offset_of_cons

/-- The last chunk of a tiling ends with the code. -/
theorem stop_of_getLast? (tiles : Tiles start code cs) {c : Chunk} (hc : cs.getLast? = some c) :
    c.stop = start + code.length := by
  induction tiles with
  | nil => cases hc
  | @cons first code cs _ rest ih =>
    have hlength : (first.bytes ++ code).length = first.size + code.length := by
      rw [List.length_append, Chunk.length_bytes]
    cases cs with
    | nil =>
      obtain rfl : first = c := by simpa using hc
      have hcode : code = [] := rest.eq_nil_iff.1 rfl
      rw [hlength, hcode, Chunk.stop, List.length_nil, Nat.add_zero]
    | cons =>
      rw [List.getLast?_cons_cons] at hc
      have hstop := ih hc
      have hfirst : first.stop = first.offset + first.size := rfl
      omega

/-- A tiling is divided together with its code. -/
theorem append_iff {ds : List Chunk} :
    Tiles start code (cs ++ ds) ↔
      ∃ front rest, code = front ++ rest ∧ Tiles start front cs ∧
        Tiles (start + front.length) rest ds := by
  induction cs generalizing start code with
  | nil =>
    constructor
    · intro tiles
      exact ⟨[], code, rfl, .nil start, tiles⟩
    · rintro ⟨front, rest, rfl, none, tiles⟩
      cases none
      exact tiles
  | cons c cs ih =>
    constructor
    · rintro ⟨⟩
      next code complete tiles =>
      obtain ⟨front, rest, rfl, first, second⟩ := ih.1 tiles
      refine ⟨c.bytes ++ front, rest, by rw [List.append_assoc], .cons complete first, ?_⟩
      rw [c.offset_add_length]
      exact second
    · rintro ⟨front, rest, rfl, ⟨⟩, second⟩
      next front complete first =>
      rw [List.append_assoc]
      rw [c.offset_add_length] at second
      exact .cons complete (ih.2 ⟨front, rest, rfl, first, second⟩)

end Tiles

end Cil
