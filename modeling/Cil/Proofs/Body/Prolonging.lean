import Cil.Proofs.Body.FirstFault

/-!
# Code that goes on

Which faults of a body more code can repair. Chunks that could be read stay as they are, whatever
follows them, and so does what the walk front to back says about them. Only two kinds of faults
speak of the end of the code: an instruction that does not fit before it, and a jump that waited for
it. All others are final.
-/

namespace Cil

namespace Fault

/-- Whether the code ends inside an instruction. -/
def wantsBytes : Fault → Bool
  | truncated .. => true
  | _ => false

/-- Whether a jump that waits for the end of the code leads to no instruction. Entries of a table
wait if they stay in the body, and branches if they do not go back. -/
def wantsTarget : Fault → Bool
  | badTarget offset mnemonic target =>
    decide (0 ≤ target) && (decide (offset ≤ target) || mnemonic == "switch")
  | _ => false

end Fault

/-- The opcode with a table is known by its mnemonic. -/
theorem Opcode.mnemonic_eq_switch_iff {page : Page} {byte : UInt8} {op : Opcode}
    (defined : lookup? page byte = some op) : op.mnemonic = "switch" ↔ op.operand = .switch := by
  have table : ∀ row ∈ (rows page).toList, row.mnemonic = "switch" ↔ row.operand = .switch := by
    cases page <;> decide +kernel
  exact table op (mem_rows_of_lookup? defined)

/-! ## Bytes that cannot be read -/

namespace Chunk

variable {offset : Nat} {code : List UInt8} {fault : Fault}

/-- Bytes that select no opcode do so whatever follows. -/
theorem Unreadable.append (unreadable : Unreadable offset code fault)
    (fits : fault.wantsBytes = false) (more : List UInt8) :
    Unreadable offset (code ++ more) fault := by
  cases unreadable with
  | single short undefined => exact .single short undefined
  | extended undefined => exact .extended undefined
  | lead | operand | table => cases fits

/-- Where bytes are missing, more bytes are counted in until there are enough. -/
theorem Unreadable.append_short {start needed available : Nat}
    (unreadable : Unreadable offset code (.truncated start needed available)) {more : List UInt8}
    (short : available + more.length < needed) :
    Unreadable offset (code ++ more) (.truncated start needed (available + more.length)) := by
  generalize hfault : Fault.truncated start needed available = fault at unreadable
  cases unreadable with
  | lead =>
    cases hfault
    obtain rfl : more = [] := List.length_eq_zero_iff.1 (by omega)
    exact .lead
  | single | extended => cases hfault
  | operand defined size _ =>
    cases hfault
    rw [← List.length_append] at short ⊢
    rw [List.append_assoc]
    exact .operand defined size short
  | table defined kind width _ =>
    cases hfault
    rw [← List.length_append] at short ⊢
    rw [List.append_assoc, List.append_assoc]
    exact .table defined kind width short

end Chunk

namespace Cut

variable {front : List UInt8} {cs : List Chunk}

/-- The cut of code that chunks tile in front: these chunks, and behind them what the rest of the
code gives. -/
theorem chunks_ofCode_append (tiles : Tiles 0 front cs) (rest : List UInt8) :
    ∃ ds front' rest', (ofCode (front ++ rest)).chunks.toList = cs ++ ds ∧ rest = front' ++ rest' ∧
      Tiles front.length front' ds := by
  obtain ⟨ds, front', rest', hchunks, hrest, behind, -⟩ :=
    exists_front cs.toArray ⟨front.length, rest⟩
  refine ⟨ds, front', rest', ?_, hrest, behind⟩
  rw [ofCode, Cursor.start, go_append tiles, Nat.zero_add, Array.empty_append, hchunks]
  simp

/-- The chunks of some code stay its first chunks when it goes on. -/
theorem chunks_isPrefix_append (code more : List UInt8) :
    (ofCode code).chunks.toList <+: (ofCode (code ++ more)).chunks.toList := by
  obtain ⟨front, rest, hcode, tiles, -⟩ := ofCode_front code
  obtain ⟨ds, _, _, hchunks, -⟩ := chunks_ofCode_append tiles (rest ++ more)
  rw [← List.append_assoc, ← hcode] at hchunks
  exact ⟨ds, hchunks.symm⟩

/-- Where code cannot be cut for another reason than its end, more code changes nothing. -/
theorem ofCode_append_of_fault {code : List UInt8} {fault : Fault}
    (ended : (ofCode code).fault = some fault) (fits : fault.wantsBytes = false)
    (more : List UInt8) : ofCode (code ++ more) = ofCode code := by
  obtain ⟨front, rest, hcode, tiles, ends⟩ := ofCode_front code
  generalize hcut : ofCode code = cut at ended tiles ends
  obtain ⟨chunks, _⟩ := cut
  obtain rfl := ended
  cases ends with
  | fault nonempty unread =>
    have unreadable := ((Chunk.read_eq_error_iff nonempty).1 unread).append fits more
    have unread' := (Chunk.read_eq_error_iff unreadable.ne_nil).2 unreadable
    rw [ofCode, Cursor.start, hcode, List.append_assoc, go_append tiles, Nat.zero_add,
      go_fault unreadable.ne_nil unread', Array.empty_append, Array.toArray_toList]

end Cut

/-! ## The walk -/

section Code

variable {ctx : Context} {code : List UInt8} {fault : Fault}

/-- What makes no sense in one body makes none in another of the same surroundings. -/
theorem Chunk.Misread.withCode {earlier : List Nat} {c : Chunk}
    (misread : c.Misread (ctx.withCode code) earlier fault) (code' : List UInt8) :
    c.Misread (ctx.withCode code') earlier fault := by
  cases misread with
  | slot encoded beyond => exact .slot encoded beyond
  | below entries inside below => exact .below entries inside below
  | back branches entry inside back missing => exact .back branches entry inside back missing
  | token unresolved =>
    refine .token ?_
    cases unresolved with
    | string kind failed => exact .string kind failed
    | signature kind failed => exact .signature kind failed
    | member names failed => exact .member names failed
    | wrongKind required found other => exact .wrongKind required found other

theorem Context.Passes.withCode {cs : List Chunk} (passes : (ctx.withCode code).Passes cs)
    (code' : List UInt8) : (ctx.withCode code').Passes cs := by
  intro before c after split fault misread
  exact passes before c after split fault (misread.withCode code)

/-- What follows the front of a body goes on with the code. -/
theorem Context.code_append {front rest : List UInt8}
    (split : (ctx.withCode code).code = front ++ rest) (more : List UInt8) :
    (ctx.withCode (code ++ more)).code = front ++ (rest ++ more) := by
  rw [← List.append_assoc, ← split]
  rfl

/-- The first fault of the walk stays the first, unless bytes were missing. -/
theorem Context.FirstFault.append (first : (ctx.withCode code).FirstFault fault)
    (fits : fault.wantsBytes = false) (more : List UInt8) :
    (ctx.withCode (code ++ more)).FirstFault fault := by
  cases first with
  | unreadable split tiles passes unreadable =>
    exact .unreadable (code_append split more) tiles (passes.withCode _)
      (unreadable.append fits more)
  | misread split tiles passes misread =>
    exact .misread (code_append split more) tiles (passes.withCode _) (misread.withCode _)

end Code

/-! ## What waits -/

/-- Among chunks that make sense, a jump that leads to no chunk is one that waits. -/
theorem Chunk.FirstStray.wantsTarget {ctx : Context} {start : Nat} {code : List UInt8}
    {cs : List Chunk} {fault : Fault} (tiles : Tiles start code cs) (passes : ctx.Passes cs)
    (first : FirstStray cs fault) : fault.wantsTarget = true := by
  obtain @⟨c, front, back, raw, mem, -, entries, landed, strays⟩ := first
  obtain ⟨before, after, split⟩ := List.append_of_mem mem
  have sense := passes before c after split
  -- the entries before it lead to chunks, so it would be the first that leads before the body
  have inside : 0 ≤ c.destination raw := by
    by_contra below
    refine sense _ (.below entries ?_ (Int.not_le.1 below))
    intro r hr
    obtain ⟨d, -, lands⟩ : ∃ d, ∃ _ : d ∈ cs, (d.offset : Int) = c.destination r := by
      simpa [Strays] using landed r hr
    omega
  by_cases table : c.opcode.operand = .switch
  · have name := (Opcode.mnemonic_eq_switch_iff (tiles.complete_of_mem mem).defined).2 table
    simp [targetFault, Fault.wantsTarget, inside, name]
  · have hjump := isJump_of_rawOffsets (c := c) (by simp [entries])
    obtain ⟨raw', hraw, -, -⟩ := (branch_or_switch hjump).resolve_right fun h => table h.1
    have entry : c.rawOffsets = [raw] := by
      have hmem : raw ∈ c.rawOffsets := by simp [entries]
      rw [hraw, List.mem_singleton] at hmem
      rw [hraw, hmem]
    have missing : ∀ s ∈ before.map Chunk.offset, (s : Int) ≠ c.destination raw := by
      intro s hs
      obtain ⟨d, hd, rfl⟩ := List.mem_map.1 hs
      exact strays d (by simp [split, hd])
    have ahead : (c.offset : Int) ≤ c.destination raw := by
      by_contra back
      exact sense _ (.back table entry inside (Int.not_le.1 back) missing)
    simp [targetFault, Fault.wantsTarget, inside, ahead]

namespace Context

/-- A fault that does not speak of the end of the code stays, whatever code follows. Where bytes are
missing, the fault stays until there are enough, and counts those that have come. -/
theorem decode_fault_persists (ctx : Context) (code more : List UInt8) :
    (∀ fault, (ctx.withCode code).decode = .error fault → fault.wantsBytes = false →
      fault.wantsTarget = false → (ctx.withCode (code ++ more)).decode = .error fault) ∧
    (ctx.resolver.FailsByToken → ∀ offset needed available,
      (ctx.withCode code).decode = .error (.truncated offset needed available) →
      more.length < needed - available →
      (ctx.withCode (code ++ more)).decode =
        .error (.truncated offset needed (available + more.length))) := by
  refine ⟨?_, ?_⟩
  · intro fault failed fits settled
    rcases decode_eq_error_iff.1 failed with walk | ⟨d, hdraft, waiting⟩
    · exact decode_eq_error_iff.2 (.inl ((FirstFault.of_draft walk).append fits more).draft)
    · obtain ⟨cs, tiles, drafted⟩ := draft_eq_ok_iff.1 hdraft
      have first := (Draft.follows_of_foldlM drafted).firstStray tiles waiting
      have passes := (Draft.exists_draft_iff_passes tiles).1 ⟨d, drafted⟩
      rw [first.wantsTarget tiles passes] at settled
      cases settled
  · intro fails offset needed available failed few
    obtain ⟨front, rest, cs, split, rfl, tiles, passes, unreadable⟩ :=
      unreadable_of_truncated (show (ctx.withCode code).resolver.FailsByToken from fails) failed
    have short : available + more.length < needed := by omega
    have first : (ctx.withCode (code ++ more)).FirstFault _ :=
      .unreadable (code_append split more) tiles (passes.withCode _) (unreadable.append_short short)
    exact decode_eq_error_iff.2 (.inl first.draft)

/-- A branch back into the instruction before it, and a branch out of the code. -/
def backAndStray : Context :=
  turning.withCode [0x20, 0x00, 0x00, 0x00, 0x00, 0x2B, 0xFB, 0x2B, 0x7F]

theorem decode_fault_persists_back :
    turning.resolver.FailsByToken ∧
    (backAndStray.decode = .error (.badTarget 5 "br.s" 2) ∧
      (backAndStray.withCode (backAndStray.code ++ [0x2A])).decode =
        .error (.badTarget 5 "br.s" 2)) ∧
    strayAndShort.decode = .error (.truncated 2 8 1) ∧
      (strayAndShort.withCode (strayAndShort.code ++ [0x00, 0x00])).decode =
        .error (.truncated 2 8 3) := by
  have back : backAndStray.decode = .error (.badTarget 5 "br.s" 2) := by decide +kernel
  have short : strayAndShort.decode = .error (.truncated 2 8 1) := by decide +kernel
  obtain ⟨final, -⟩ := decode_fault_persists backAndStray backAndStray.code [0x2A]
  obtain ⟨-, wanting⟩ := decode_fault_persists strayAndShort strayAndShort.code [0x00, 0x00]
  exact ⟨failsByToken_turning, ⟨back, final _ back rfl (by decide)⟩, short,
    wanting failsByToken_turning 2 8 1 short (by decide)⟩

end Context

end Cil
