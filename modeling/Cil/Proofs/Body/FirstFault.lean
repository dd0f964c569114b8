import Cil.Proofs.Body.Jumps
import Cil.Proofs.Body.Misreading
import Cil.Proofs.Body.Unreadable
import Mathlib.Data.List.Nodup

/-!
# The fault of a body

Which fault decoding reports when there is more than one. The walk front to back comes first: the
first chunk that cannot be read or makes no sense ends it, whatever jumps before it still wait. Only
if the walk comes to the end are the jumps looked up that waited, and the fault is that of the first
of them that leads to no chunk, in the order of the code and then of the table.
-/

namespace Cil

open Fallible

namespace Context

/-- Chunks that each make sense behind those before them. -/
def Passes (ctx : Context) (cs : List Chunk) : Prop :=
  ∀ before c after, cs = before ++ c :: after →
    ∀ fault, ¬ c.Misread ctx (before.map Chunk.offset) fault

/-- The fault that the walk front to back meets first. -/
inductive FirstFault (ctx : Context) : Fault → Prop
  | unreadable {front rest : List UInt8} {cs : List Chunk} {fault : Fault}
      (code : ctx.code = front ++ rest) (tiles : Tiles 0 front cs) (passes : ctx.Passes cs)
      (unreadable : Chunk.Unreadable front.length rest fault) : FirstFault ctx fault
  | misread {front rest : List UInt8} {cs : List Chunk} {c : Chunk} {fault : Fault}
      (code : ctx.code = front ++ rest) (tiles : Tiles 0 front (cs ++ [c])) (passes : ctx.Passes cs)
      (misread : c.Misread ctx (cs.map Chunk.offset) fault) : FirstFault ctx fault

end Context

namespace Chunk

/-- A jump of a chunk to a place where none of the chunks starts. -/
def Strays (cs : List Chunk) (c : Chunk) (raw : Int32) : Prop :=
  ∀ d ∈ cs, (d.offset : Int) ≠ c.destination raw

/-- The fault of the first jump that leads to no chunk: no jump of a chunk before strays, and no
entry before it in the table. -/
inductive FirstStray (cs : List Chunk) : Fault → Prop
  | intro {c : Chunk} {front back : List Int32} {raw : Int32} (mem : c ∈ cs)
      (earlier : ∀ d ∈ cs, d.offset < c.offset → ∀ r ∈ d.rawOffsets, ¬ d.Strays cs r)
      (entries : c.rawOffsets = front ++ raw :: back) (landed : ∀ r ∈ front, ¬ c.Strays cs r)
      (strays : c.Strays cs raw) : FirstStray cs (c.targetFault raw)

end Chunk

/-! ## The walk -/

namespace Draft

variable {ctx : Context} {start : Nat} {code : List UInt8} {cs : List Chunk} {fault : Fault}

/-- One more chunk fails exactly if it makes no sense behind the others. -/
theorem add_eq_error_iff_misread {before after : List Chunk} {c : Chunk} {d : Draft}
    (tiles : Tiles start code (before ++ c :: after))
    (drafted : before.foldlM (add ctx) {} = .ok d) :
    add ctx d c = .error fault ↔ c.Misread ctx (before.map Chunk.offset) fault := by
  obtain ⟨front, rest, -, first, -⟩ := Tiles.append_iff.1 tiles
  have complete := tiles.complete_of_mem (List.mem_append_right before List.mem_cons_self)
  have follows := follows_of_foldlM drafted
  have ordered := follows.ordered first
  rw [add_eq_error_iff, Chunk.operand_eq_error_iff complete ordered, follows.starts]

/-- Chunks are drafted up to the first that makes no sense. -/
theorem foldlM_add_eq_error_iff (tiles : Tiles start code cs) :
    cs.foldlM (add ctx) {} = .error fault ↔
      ∃ before c after, cs = before ++ c :: after ∧ (∃ d, before.foldlM (add ctx) {} = .ok d) ∧
        c.Misread ctx (before.map Chunk.offset) fault := by
  rw [foldlM_eq_error_iff]
  constructor
  · rintro ⟨before, c, after, d, rfl, drafted, failed⟩
    exact ⟨before, c, after, rfl, ⟨d, drafted⟩, (add_eq_error_iff_misread tiles drafted).1 failed⟩
  · rintro ⟨before, c, after, rfl, ⟨d, drafted⟩, misread⟩
    exact ⟨before, c, after, d, rfl, drafted, (add_eq_error_iff_misread tiles drafted).2 misread⟩

/-- Chunks can be drafted exactly if they all make sense. -/
theorem exists_draft_iff_passes (tiles : Tiles start code cs) :
    (∃ d, cs.foldlM (add ctx) {} = .ok d) ↔ ctx.Passes cs := by
  constructor
  · rintro ⟨d, drafted⟩ before c after rfl fault misread
    rw [List.foldlM_append, bind_eq_ok_iff] at drafted
    obtain ⟨d', earlier, rest⟩ := drafted
    have failed := (add_eq_error_iff_misread tiles earlier).2 misread
    rw [List.foldlM_cons, failed] at rest
    cases rest
  · intro passes
    cases drafted : cs.foldlM (add ctx) {} with
    | ok d => exact ⟨d, rfl⟩
    | error fault =>
      obtain ⟨before, c, after, hcs, -, misread⟩ := (foldlM_add_eq_error_iff tiles).1 drafted
      exact absurd misread (passes before c after hcs fault)

end Draft

namespace Context

variable {ctx : Context} {fault : Fault}

/-- The walk front to back ends with the fault that it meets first. -/
theorem FirstFault.of_draft (failed : ctx.draft = .error fault) : ctx.FirstFault fault := by
  obtain ⟨front, rest, hcode, tiles, ends⟩ := Cut.ofCode_front ctx.code
  rcases draft_eq_error_iff.1 failed with failed | ⟨d, drafted, ended⟩
  · obtain ⟨before, c, after, hcs, drafted, misread⟩ :=
      (Draft.foldlM_add_eq_error_iff tiles).1 failed
    have hcs' : (Cut.ofCode ctx.code).chunks.toList = (before ++ [c]) ++ after := by simp [hcs]
    rw [hcs'] at tiles
    obtain ⟨front, more, rfl, upTo, -⟩ := Tiles.append_iff.1 tiles
    obtain ⟨_, _, -, first, -⟩ := Tiles.append_iff.1 upTo
    have passes := (Draft.exists_draft_iff_passes first).1 drafted
    rw [List.append_assoc] at hcode
    exact .misread hcode upTo passes misread
  · rw [ended] at ends
    cases ends with
    | fault more unread =>
      have passes := (Draft.exists_draft_iff_passes tiles).1 ⟨d, drafted⟩
      exact .unreadable hcode tiles passes ((Chunk.read_eq_error_iff more).1 unread)

theorem FirstFault.draft (first : ctx.FirstFault fault) : ctx.draft = .error fault := by
  cases first with
  | @unreadable front rest cs _ hcode tiles passes unreadable =>
    have more := unreadable.ne_nil
    have unread := (Chunk.read_eq_error_iff more).2 unreadable
    have cut : Cut.ofCode ctx.code = ⟨cs.toArray, some fault⟩ := by
      rw [Cut.ofCode, Cursor.start, hcode, Cut.go_append tiles, Nat.zero_add,
        Cut.go_fault more unread, Array.empty_append]
    obtain ⟨d, drafted⟩ := (Draft.exists_draft_iff_passes tiles).2 passes
    rw [draft_eq_error_iff, cut]
    exact .inr ⟨d, drafted, rfl⟩
  | @misread front rest cs c _ hcode tiles passes misread =>
    -- the cut goes on behind the chunk, but its fault is met before
    obtain ⟨more, front', _, hchunks, -, moreTiles, -⟩ :=
      Cut.exists_front (cs ++ [c]).toArray ⟨front.length, rest⟩
    have hcs : (Cut.ofCode ctx.code).chunks.toList = cs ++ c :: more := by
      rw [Cut.ofCode, Cursor.start, hcode, Cut.go_append tiles, Nat.zero_add, Array.empty_append,
        hchunks]
      simp
    have all : Tiles 0 (front ++ front') (cs ++ c :: more) := by
      rw [List.append_cons, Tiles.append_iff]
      exact ⟨front, front', rfl, tiles, by rw [Nat.zero_add]; exact moreTiles⟩
    obtain ⟨_, _, -, first, -⟩ := Tiles.append_iff.1 tiles
    have drafted := (Draft.exists_draft_iff_passes first).2 passes
    rw [draft_eq_error_iff, hcs]
    exact .inl ((Draft.foldlM_add_eq_error_iff all).2 ⟨cs, c, more, rfl, drafted, misread⟩)

end Context

/-! ## What waits -/

namespace Draft

variable {ctx : Context} {cs : List Chunk} {d : Draft} {fault : Fault}

/-- Settling what waits ends at the first instruction that cannot be settled. -/
theorem Follows.settle_eq_error (follows : Follows ctx cs d)
    (ordered : Instruction.Ordered d.instructions) (failed : d.settle = .error fault) :
    ∃ (i : Nat) (x : Instruction), d.instructions[i]? = some x ∧
      x.settle d.instructions = .error fault ∧
      ∀ (k : Nat) (y : Instruction), k < i → d.instructions[k]? = some y →
        ∃ y', y.settle d.instructions = .ok y' := by
  rw [settle, map_eq_error_iff, foldlM_eq_error_iff] at failed
  obtain ⟨front, i, back, xs, hpending, settled, failed⟩ := failed
  have increasing := follows.increasing
  rw [hpending, List.pairwise_append] at increasing
  obtain ⟨frontIncreasing, backIncreasing, frontBefore⟩ := increasing
  have inRange : ∀ k ∈ front, k < d.instructions.size := by
    intro k hk
    exact follows.pending_lt (hpending ▸ List.mem_append_left _ hk)
  have fresh : i ∉ front := by
    intro hi
    exact Nat.lt_irrefl i (frontBefore i hi i List.mem_cons_self)
  obtain ⟨-, same, changed⟩ :=
    (foldlM_settleAt_eq_ok_iff (frontIncreasing.imp Nat.ne_of_lt) inRange).1 settled
  have hi : i < d.instructions.size :=
    follows.pending_lt (hpending ▸ List.mem_append_right _ List.mem_cons_self)
  have hx : d.instructions[i]? = some d.instructions[i] := Array.getElem?_eq_getElem hi
  refine ⟨i, d.instructions[i], hx, ?_, ?_⟩
  · rw [settleAt, same i fresh, hx] at failed
    exact bind_pure_eq_error_iff.1 failed
  · intro k y hk hy
    by_cases hwaits : k ∈ d.pending.toList
    · rw [hpending] at hwaits
      rcases List.mem_append.1 hwaits with hfront | hback
      · obtain ⟨y', hy', -⟩ := changed k hfront y hy
        exact ⟨y', hy'⟩
      · -- what stands from the failing index on in the list of those that wait is not before it
        rcases List.mem_cons.1 hback with rfl | hback
        · exact absurd hk (Nat.lt_irrefl k)
        · have hlt := (List.pairwise_cons.1 backIncreasing).1 k hback
          omega
    · exact ⟨y, follows.settle_of_not_pending ordered hy hwaits⟩

end Draft

namespace Chunk

open Instruction (Ordered starts)

variable {ctx : Context} {cs : List Chunk} {c : Chunk} {before all : Array Instruction}
  {fault : Fault}

/-- A jump among the instructions of chunks is settled unless it strays. -/
theorem Aims.settle_eq_error_iff_strays {raw : Int32} {j : Jump} (aims : c.Aims raw j)
    (ordered : Ordered all) (hstarts : starts all = cs.map Chunk.offset) :
    j.settle all c.offset c.opcode.mnemonic = .error fault ↔
      c.Strays cs raw ∧ fault = c.targetFault raw := by
  rw [aims.settle_eq_error_iff ordered, hstarts, List.forall_mem_map, Strays]

theorem Aims.not_strays {raw : Int32} {j j' : Jump} (aims : c.Aims raw j) (ordered : Ordered all)
    (hstarts : starts all = cs.map Chunk.offset)
    (settled : j.settle all c.offset c.opcode.mnemonic = .ok j') : ¬ c.Strays cs raw := by
  intro strays
  rw [(aims.settle_eq_error_iff_strays ordered hstarts).2 ⟨strays, rfl⟩] at settled
  cases settled

/-- A table is settled up to its first entry that strays. -/
theorem settle_table_eq_error (ordered : Ordered all) (hstarts : starts all = cs.map Chunk.offset)
    {raws : List Int32} {js : List Jump}
    (aims : List.Forall₂ (fun raw j => c.Aims raw j ∧ j.landing = none) raws js)
    (failed : js.mapM (·.settle all c.offset c.opcode.mnemonic) = .error fault) :
    ∃ front raw back, raws = front ++ raw :: back ∧ (∀ r ∈ front, ¬ c.Strays cs r) ∧
      c.Strays cs raw ∧ fault = c.targetFault raw := by
  induction aims with
  | nil => exact absurd failed pure_ne_error
  | @cons raw j raws js first _ ih =>
    rw [List.mapM_cons] at failed
    rcases bind_eq_error_iff.1 failed with failed | ⟨j', settled, failed⟩
    · obtain ⟨strays, rfl⟩ := (first.1.settle_eq_error_iff_strays ordered hstarts).1 failed
      exact ⟨[], raw, raws, rfl, by simp, strays, rfl⟩
    · have failed := bind_pure_eq_error_iff.1 failed
      obtain ⟨front, raw', back, rfl, landed, strays, rfl⟩ := ih failed
      refine ⟨raw :: front, raw', back, rfl, ?_, strays, rfl⟩
      exact List.forall_mem_cons.2 ⟨first.1.not_strays ordered hstarts settled, landed⟩

/-- An instruction cannot be settled because of the first jump of its chunk that strays. -/
theorem settle_eq_error {index count : Nat} {o : Operand} (read : c.operand ctx before = .ok o)
    (longer : starts before <+: starts all) (ordered : Ordered all)
    (hstarts : starts all = cs.map Chunk.offset)
    (failed : (c.instruction index count o).settle all = .error fault) :
    ∃ front raw back, c.rawOffsets = front ++ raw :: back ∧ (∀ r ∈ front, ¬ c.Strays cs r) ∧
      c.Strays cs raw ∧ fault = c.targetFault raw := by
  have ordered' : Ordered before := List.Pairwise.sublist longer.sublist ordered
  cases hjump : c.opcode.operand.isJump with
  | false =>
    have plain := ((operand_eq_ok_iff hjump before (starts all)).1 read).isJump.trans hjump
    rw [Instruction.settle_plain plain] at failed
    cases failed
  | true =>
    rcases branch_or_switch hjump with ⟨raw, hraws, hread, -⟩ | ⟨-, hread, -⟩
    · rw [hread] at read
      obtain ⟨j, rfl, aims, -⟩ := aims_of_branch ordered' read
      have failed := bind_pure_eq_error_iff.1 failed
      obtain ⟨strays, rfl⟩ := (aims.settle_eq_error_iff_strays ordered hstarts).1 failed
      exact ⟨[], raw, [], hraws, by simp, strays, rfl⟩
    · rw [hread] at read
      obtain ⟨js, rfl, aims⟩ := aims_of_switch read
      exact settle_table_eq_error ordered hstarts aims (bind_pure_eq_error_iff.1 failed)

/-- An instruction that can be settled has no jump that strays. -/
theorem not_strays_of_settle {index count : Nat} {o : Operand} {x : Instruction} (complete : c.Complete)
    (read : c.operand ctx before = .ok o) (longer : starts before <+: starts all)
    (ordered : Ordered all) (hstarts : starts all = cs.map Chunk.offset)
    (settled : (c.instruction index count o).settle all = .ok x) :
    ∀ raw ∈ c.rawOffsets, ¬ c.Strays cs raw := by
  obtain ⟨o', -, denotes⟩ := (settle_eq_ok_iff_denotes read longer ordered).1 settled
  rw [hstarts] at denotes
  obtain ⟨-, -, lands⟩ := (exists_denotes_iff complete).1 ⟨o', denotes⟩
  intro raw hraw strays
  obtain ⟨s, hs, hdestination⟩ := lands raw hraw
  obtain ⟨d, hd, rfl⟩ := List.mem_map.1 hs
  exact strays d hd hdestination

/-- Only one fault is that of the first jump that strays. -/
theorem FirstStray.unique {start : Nat} {code : List UInt8} {fault' : Fault}
    (tiles : Tiles start code cs) (first : FirstStray cs fault) (second : FirstStray cs fault') :
    fault = fault' := by
  classical
  obtain @⟨c, front, back, raw, mem, earlier, entries, landed, strays⟩ := first
  obtain @⟨c', front', back', raw', mem', earlier', entries', landed', strays'⟩ := second
  have notBefore : ¬ c.offset < c'.offset := fun before =>
    earlier' c mem before raw (by simp [entries]) strays
  have notBehind : ¬ c'.offset < c.offset := fun before =>
    earlier c' mem' before raw' (by simp [entries']) strays'
  have distinct : (cs.map Chunk.offset).Nodup :=
    List.pairwise_map.2 (tiles.pairwise_offset.imp Nat.ne_of_lt)
  obtain rfl : c = c' := List.inj_on_of_nodup_map distinct mem mem' (by omega)
  -- in one table, both are the first entry that strays
  have found : c.rawOffsets.find? (c.Strays cs ·) = some raw := by
    rw [List.find?_eq_some_iff_append]
    exact ⟨by simpa using strays, front, back, entries, by simpa using landed⟩
  have found' : c.rawOffsets.find? (c.Strays cs ·) = some raw' := by
    rw [List.find?_eq_some_iff_append]
    exact ⟨by simpa using strays', front', back', entries', by simpa using landed'⟩
  rw [found] at found'
  rw [Option.some.inj found']

end Chunk

namespace Draft

variable {ctx : Context} {start : Nat} {code : List UInt8} {cs : List Chunk} {d : Draft}
  {fault : Fault}

/-- The jumps of an instruction that can be settled lead to chunks. -/
theorem Follows.not_strays_of_settle (follows : Follows ctx cs d) (tiles : Tiles start code cs)
    {i : Nat} {c : Chunk} {x x' : Instruction} (hc : cs[i]? = some c)
    (hx : d.instructions[i]? = some x) (settled : x.settle d.instructions = .ok x') :
    ∀ raw ∈ c.rawOffsets, ¬ c.Strays cs raw := by
  obtain ⟨o, read, hx'⟩ := follows.read i c hc
  obtain rfl := Option.some.inj (hx.symm.trans hx')
  exact Chunk.not_strays_of_settle (tiles.complete_of_mem (List.mem_of_getElem? hc)) read
    (Instruction.starts_extract_prefix d.instructions i) (follows.ordered tiles) follows.starts
    settled

/-- If what waits cannot be settled, that is because of the first jump that strays. -/
theorem Follows.firstStray (follows : Follows ctx cs d) (tiles : Tiles start code cs)
    (failed : d.settle = .error fault) : Chunk.FirstStray cs fault := by
  have ordered := follows.ordered tiles
  obtain ⟨i, x, hx, failed, before⟩ := follows.settle_eq_error ordered failed
  obtain ⟨c, o, hc, read, rfl⟩ := follows.chunk hx
  have longer := Instruction.starts_extract_prefix d.instructions i
  obtain ⟨front, raw, back, entries, landed, strays, rfl⟩ :=
    Chunk.settle_eq_error read longer ordered follows.starts failed
  refine .intro (List.mem_of_getElem? hc) ?_ entries landed strays
  -- the instructions at lower offsets are those before, and they could be settled
  intro e he hlt
  obtain ⟨k, hk⟩ := List.getElem?_of_mem he
  obtain ⟨o', -, hy⟩ := follows.read k e hk
  have hki : k < i := by
    by_contra hle
    have hge := ordered.offset_le (Nat.le_of_not_lt hle) hx hy
    exact Nat.not_lt_of_le hge hlt
  obtain ⟨y', settled⟩ := before k _ hki hy
  exact follows.not_strays_of_settle tiles hk hy settled

/-- What waits can be settled exactly if no jump strays. -/
theorem Follows.exists_settle_iff (follows : Follows ctx cs d) (tiles : Tiles start code cs) :
    (∃ l, d.settle = .ok l) ↔ ∀ c ∈ cs, ∀ raw ∈ c.rawOffsets, ¬ c.Strays cs raw := by
  constructor
  · rintro ⟨l, settled⟩ c hc
    obtain ⟨-, each⟩ := (follows.settle_eq_ok_iff (follows.ordered tiles)).1 settled
    obtain ⟨i, hi⟩ := List.getElem?_of_mem hc
    obtain ⟨o, -, hx⟩ := follows.read i c hi
    obtain ⟨x', settled, -⟩ := each i _ hx
    exact follows.not_strays_of_settle tiles hi hx settled
  · intro landed
    cases settled : d.settle with
    | ok l => exact ⟨l, rfl⟩
    | error fault =>
      obtain ⟨mem, -, entries, -, strays⟩ := follows.firstStray tiles settled
      exact absurd strays (landed _ mem _ (by simp [entries]))

/-- Settling what waits ends with the first jump that strays. -/
theorem Follows.settle_eq_error_iff (follows : Follows ctx cs d) (tiles : Tiles start code cs) :
    d.settle = .error fault ↔ Chunk.FirstStray cs fault := by
  refine ⟨follows.firstStray tiles, fun first => ?_⟩
  cases settled : d.settle with
  | error fault' => rw [(follows.firstStray tiles settled).unique tiles first]
  | ok l =>
    have landed := (follows.exists_settle_iff tiles).1 ⟨l, settled⟩
    obtain ⟨mem, -, entries, -, strays⟩ := first
    exact absurd strays (landed _ mem _ (by simp [entries]))

end Draft

namespace Context

/-- Where decoding ends with a fault of the encoding, the code cannot be cut further, and the chunks
before make sense. -/
theorem cut_of_decode_ofEncoding {ctx : Context} (fails : ctx.resolver.FailsByToken)
    {fault : Fault} (failed : ctx.decode = .error fault) (encoding : fault.ofEncoding = true) :
    (Cut.ofCode ctx.code).fault = some fault ∧
      ∃ d, (Cut.ofCode ctx.code).chunks.toList.foldlM (Draft.add ctx) {} = .ok d := by
  rcases decode_eq_error_iff.1 failed with failed | ⟨d, hdraft, failed⟩
  · rcases draft_eq_error_iff.1 failed with failed | ⟨d, drafted, ended⟩
    · obtain ⟨_, _, -, tiles, -⟩ := Cut.ofCode_front ctx.code
      obtain ⟨_, c, _, -, -, misread⟩ := (Draft.foldlM_add_eq_error_iff tiles).1 failed
      rw [misread.not_ofEncoding fails] at encoding
      cases encoding
    · exact ⟨ended, d, drafted⟩
  · obtain ⟨cs, tiles, drafted⟩ := draft_eq_ok_iff.1 hdraft
    cases (Draft.follows_of_foldlM drafted).firstStray tiles failed
    cases encoding

/-- Where decoding ends for want of bytes, what is left behind whole chunks cannot be read. -/
theorem unreadable_of_truncated {ctx : Context} (fails : ctx.resolver.FailsByToken)
    {offset needed available : Nat}
    (failed : ctx.decode = .error (.truncated offset needed available)) :
    ∃ front rest cs, ctx.code = front ++ rest ∧ front.length = offset ∧ Tiles 0 front cs ∧
      ctx.Passes cs ∧ Chunk.Unreadable offset rest (.truncated offset needed available) := by
  obtain ⟨ended, drafted⟩ := cut_of_decode_ofEncoding fails failed rfl
  obtain ⟨front, rest, hcode, tiles, ends⟩ := Cut.ofCode_front ctx.code
  have passes := (Draft.exists_draft_iff_passes tiles).1 drafted
  rw [ended] at ends
  cases ends with
  | fault more unread =>
    have unreadable := (Chunk.read_eq_error_iff more).1 unread
    obtain ⟨rfl, -⟩ := unreadable.available_lt
    exact ⟨front, rest, _, hcode, rfl, tiles, passes, unreadable⟩

/-- Behind a whole walk, decoding only settles what waits. -/
theorem decode_of_draft {ctx : Context} {d : Draft} (drafted : ctx.draft = .ok d) :
    ctx.decode = d.settle := by
  cases settled : d.settle with
  | ok l => exact decode_eq_ok_iff_draft.2 ⟨d, drafted, settled⟩
  | error fault => exact decode_eq_error_iff.2 (.inr ⟨d, drafted, settled⟩)

/-- A body that does not decode is refused for the right fault. If the walk front to back meets one,
it is the first that it meets, whatever jumps before it stray. Otherwise chunks tile the code, and
the body decodes exactly if none of their jumps strays; if some do, the fault is that of the first.
Where bytes are missing, there are fewer than needed, behind chunks that make sense. -/
theorem decode_reports_first_fault (ctx : Context) (fails : ctx.resolver.FailsByToken) :
    (∀ fault, ctx.FirstFault fault → ctx.decode = .error fault) ∧
    ((∀ fault, ¬ ctx.FirstFault fault) →
      ∃ cs, Tiles 0 ctx.code cs ∧
        (∀ fault, ctx.decode = .error fault ↔ Chunk.FirstStray cs fault) ∧
        ((∃ l, ctx.decode = .ok l) ↔ ∀ c ∈ cs, ∀ raw ∈ c.rawOffsets, ¬ c.Strays cs raw)) ∧
    ∀ offset needed available, ctx.decode = .error (.truncated offset needed available) →
      available < needed ∧
      ∃ front rest cs, ctx.code = front ++ rest ∧ front.length = offset ∧ Tiles 0 front cs ∧
        ctx.Passes cs ∧ Chunk.Unreadable offset rest (.truncated offset needed available) := by
  refine ⟨?_, ?_, ?_⟩
  · intro fault first
    exact decode_eq_error_iff.2 (.inl first.draft)
  · intro none
    cases hdraft : ctx.draft with
    | error fault => exact absurd (FirstFault.of_draft hdraft) (none fault)
    | ok d =>
      obtain ⟨cs, tiles, drafted⟩ := draft_eq_ok_iff.1 hdraft
      have follows := Draft.follows_of_foldlM drafted
      rw [decode_of_draft hdraft]
      exact ⟨cs, tiles, fun _ => follows.settle_eq_error_iff tiles, follows.exists_settle_iff tiles⟩
  · intro offset needed available failed
    obtain ⟨front, rest, cs, hcode, hoffset, tiles, passes, unreadable⟩ :=
      unreadable_of_truncated fails failed
    have short := unreadable.available_lt.2.1
    exact ⟨short, front, rest, cs, hcode, hoffset, tiles, passes, unreadable⟩

theorem failsByToken_turning : turning.resolver.FailsByToken where
  member _ _ _ failed := by cases failed; rfl
  string _ _ failed := by cases failed; rfl
  signature _ _ failed := by cases failed; rfl

/-- A branch out of the code, and a reserved opcode behind it. -/
def strayAndReserved : Context := turning.withCode [0x2B, 0x7F, 0x24]

/-- A switch with one entry that lands and two that stray, and behind it a branch that strays. -/
def strayEntries : Context :=
  turning.withCode [0x45, 0x03, 0x00, 0x00, 0x00, 0x00, 0x00, 0x00, 0x00, 0x01, 0x00, 0x00, 0x00,
    0x09, 0x00, 0x00, 0x00, 0x2B, 0x7F]

/-- A branch out of the code, and behind it a table of two entries that ends in the first. -/
def strayAndShort : Context := turning.withCode [0x2B, 0x7F, 0x45, 0x02, 0x00, 0x00, 0x00, 0x09]

theorem decode_reports_first_fault_stray :
    turning.resolver.FailsByToken ∧
    (strayAndReserved.FirstFault (.unknownOpcode 2 0x24) ∧
      strayAndReserved.decode = .error (.unknownOpcode 2 0x24)) ∧
    ((∀ fault, ¬ strayEntries.FirstFault fault) ∧
      ∃ cs, Tiles 0 strayEntries.code cs ∧ Chunk.FirstStray cs (.badTarget 0 "switch" 18)) ∧
    strayAndShort.decode = .error (.truncated 2 8 1) ∧
      ∃ front rest cs, strayAndShort.code = front ++ rest ∧ front.length = 2 ∧ Tiles 0 front cs ∧
        strayAndShort.Passes cs ∧ Chunk.Unreadable 2 rest (.truncated 2 8 1) := by
  refine ⟨failsByToken_turning, ?_, ?_, ?_⟩
  · have walked : strayAndReserved.draft.map (fun _ => ()) = .error (.unknownOpcode 2 0x24) := by
      decide +kernel
    have first := FirstFault.of_draft (map_eq_error_iff.1 walked)
    exact ⟨first, (decode_reports_first_fault strayAndReserved failsByToken_turning).1 _ first⟩
  · have walked : strayEntries.draft.isOk = true := by decide +kernel
    have none : ∀ fault, ¬ strayEntries.FirstFault fault := by
      intro fault first
      rw [first.draft] at walked
      cases walked
    have failed : strayEntries.decode = .error (.badTarget 0 "switch" 18) := by decide +kernel
    obtain ⟨-, settles, -⟩ := decode_reports_first_fault strayEntries failsByToken_turning
    obtain ⟨cs, tiles, reported, -⟩ := settles none
    exact ⟨none, cs, tiles, (reported _).1 failed⟩
  · have failed : strayAndShort.decode = .error (.truncated 2 8 1) := by decide +kernel
    obtain ⟨-, -, short⟩ := decode_reports_first_fault strayAndShort failsByToken_turning
    exact ⟨failed, (short 2 8 1 failed).2⟩

end Context

end Cil
