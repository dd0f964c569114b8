import Cil.Proofs.Body.Walking
import Mathlib.Data.List.Induction

/-!
# Drafts and listings

What holds of a draft after each chunk, and of a listing once everything that waited is settled.
Together: decoding gives exactly the listings that read a tiling of the code, one instruction for
each chunk, with the operand that the chunk denotes.
-/

namespace Cil

open Fallible

/-- One more instruction behind the others, and the last of them is linked to it. -/
theorem Chunk.instruction_succ (c : Chunk) {i n : Nat} (inside : i < n) (o : Operand) :
    c.instruction i (n + 1) o =
      if i + 1 = n then { c.instruction i n o with next := some n } else c.instruction i n o := by
  split
  · next last => simp [instruction, last]
  · next inner =>
    have behind : i + 1 < n := by omega
    simp [instruction, behind, inside]

namespace Draft

theorem getElem?_link (xs : Array Instruction) (i : Nat) :
    (link xs)[i]? = xs[i]?.map fun x =>
      if i + 1 = xs.size then { x with next := some xs.size } else x := by
  rw [link]
  split
  · next pos =>
    rw [Array.getElem?_set]
    by_cases last : xs.size - 1 = i
    · subst last
      have hx : xs[xs.size - 1]? = some xs[xs.size - 1] := Array.getElem?_eq_getElem (by omega)
      simp [hx, Nat.sub_add_cancel pos]
    · have inner : i + 1 ≠ xs.size := by omega
      simp [last, inner]
  · next empty =>
    have beyond : xs[i]? = none := Array.getElem?_eq_none_iff.2 (by omega)
    simp [beyond]

/-- A link changes nothing else about an instruction. -/
theorem map_link {α : Type} {f : Instruction → α}
    (unlinked : ∀ (x : Instruction) next, f { x with next } = f x) (xs : Array Instruction)
    (i : Nat) : (link xs)[i]?.map f = xs[i]?.map f := by
  rw [getElem?_link, Option.map_map]
  congr 1
  funext x
  dsimp only [Function.comp]
  split
  · exact unlinked x _
  · rfl

theorem starts_link (xs : Array Instruction) :
    Instruction.starts (link xs) = Instruction.starts xs := by
  apply List.ext_getElem?
  intro i
  rw [Instruction.getElem?_starts, Instruction.getElem?_starts]
  exact map_link (fun _ _ => rfl) xs i

/-- What is added behind the first instructions does not move them. -/
theorem starts_extract_push_link {xs : Array Instruction} {i : Nat} (within : i ≤ xs.size)
    (x : Instruction) :
    Instruction.starts (((link xs).push x).extract 0 i) = Instruction.starts (xs.extract 0 i) := by
  have length : i ≤ (Instruction.starts xs).length := by simpa [Instruction.starts] using within
  rw [Instruction.starts_extract, Instruction.starts_extract, Instruction.starts_push, starts_link,
    List.take_append_of_le_length length]

/-- The state of a draft behind some chunks: their instructions, each read among those before it and
linked with its neighbours, and the indices of the ones that wait. -/
structure Follows (ctx : Context) (cs : List Chunk) (d : Draft) : Prop where
  size : d.instructions.size = cs.length
  read : ∀ (i : Nat) (c : Chunk), cs[i]? = some c →
    ∃ o, c.operand ctx (d.instructions.extract 0 i) = .ok o ∧
      d.instructions[i]? = some (c.instruction i cs.length o)
  pending : ∀ i : Nat, i ∈ d.pending.toList ↔
    ∃ x, d.instructions[i]? = some x ∧ x.operand.waits = true
  increasing : d.pending.toList.Pairwise (· < ·)

theorem add_eq_ok_iff {ctx : Context} {d d' : Draft} {c : Chunk} :
    add ctx d c = .ok d' ↔
      ∃ o, c.operand ctx d.instructions = .ok o ∧
        d' = ⟨(link d.instructions).push
            (c.instruction d.instructions.size (d.instructions.size + 1) o), d.pendingWith o⟩ := by
  simp only [add, bind_eq_ok_iff, pure_eq_ok_iff]

theorem Follows.pending_lt {ctx : Context} {cs : List Chunk} {d : Draft}
    (follows : Follows ctx cs d) {i : Nat} (hi : i ∈ d.pending.toList) :
    i < d.instructions.size := by
  obtain ⟨x, hx, -⟩ := (follows.pending i).1 hi
  exact (Array.getElem?_eq_some_iff.1 hx).1

theorem follows_nil (ctx : Context) : Follows ctx [] {} where
  size := rfl
  read := by simp
  pending := by simp
  increasing := by simp

/-- One more chunk. -/
theorem Follows.step {ctx : Context} {cs : List Chunk} {d d' : Draft} {c : Chunk}
    (follows : Follows ctx cs d) (added : add ctx d c = .ok d') :
    Follows ctx (cs ++ [c]) d' := by
  obtain ⟨o, ho, rfl⟩ := add_eq_ok_iff.1 added
  have hsize := follows.size
  have hlink : (link d.instructions).size = d.instructions.size := size_link _
  refine ⟨by simp [hsize, hlink], ?_, ?_, ?_⟩
  · intro i e he
    rw [List.length_append, List.length_singleton]
    by_cases hi : i < cs.length
    · rw [List.getElem?_append_left hi] at he
      obtain ⟨o', ho', hx⟩ := follows.read i e he
      refine ⟨o', ?_, ?_⟩
      · rw [← ho']
        exact Chunk.operand_congr (starts_extract_push_link (by omega) _) ctx e
      · rw [Array.getElem?_push, if_neg (by omega), getElem?_link, hx, Option.map_some,
          Chunk.instruction_succ e hi, hsize]
    · have hlast : i = cs.length ∧ e = c := by
        rw [List.getElem?_append_right (by omega), List.getElem?_singleton] at he
        split at he
        · next h => exact ⟨by omega, (Option.some.inj he).symm⟩
        · cases he
      obtain ⟨rfl, rfl⟩ := hlast
      refine ⟨o, ?_, ?_⟩
      · rw [← ho, Chunk.operand_congr (starts_extract_push_link (by omega) _), ← hsize,
          Array.extract_size]
      · rw [← hsize, Array.getElem?_push, if_pos hlink.symm]
  · intro i
    rw [Array.getElem?_push, hlink]
    by_cases hi : i = d.instructions.size
    · subst hi
      have fresh : d.instructions.size ∉ d.pending.toList := fun h =>
        Nat.lt_irrefl _ (follows.pending_lt h)
      cases hwaits : o.waits <;> simp [pendingWith, hwaits, fresh, Chunk.instruction]
    · have pending : i ∈ (d.pendingWith o).toList ↔ i ∈ d.pending.toList := by
        rw [pendingWith]
        split <;> simp [hi]
      rw [pending, follows.pending i, if_neg hi, ← Option.map_eq_some_iff, ← Option.map_eq_some_iff]
      exact Iff.of_eq (congrArg (· = some true) (map_link (fun _ _ => rfl) _ i).symm)
  · dsimp only [pendingWith]
    split
    · rw [Array.toList_push]
      refine List.pairwise_append.2 ⟨follows.increasing, by simp, ?_⟩
      intro i hi j hj
      rw [List.mem_singleton.1 hj]
      exact follows.pending_lt hi
    · exact follows.increasing

/-- All chunks, one after the other. -/
theorem follows_of_foldlM {ctx : Context} {cs : List Chunk} {d : Draft}
    (drafted : cs.foldlM (add ctx) {} = .ok d) : Follows ctx cs d := by
  induction cs using List.reverseRecOn generalizing d with
  | nil =>
    obtain rfl := pure_eq_ok_iff.1 drafted
    exact follows_nil ctx
  | append_singleton cs c ih =>
    rw [List.foldlM_append, bind_eq_ok_iff] at drafted
    obtain ⟨before, hbefore, hlast⟩ := drafted
    have added : add ctx before c = .ok d := by simpa using hlast
    exact (ih hbefore).step added

/-- Every instruction of a draft was read from a chunk. -/
theorem Follows.chunk {ctx : Context} {cs : List Chunk} {d : Draft}
    (follows : Follows ctx cs d) {i : Nat} {x : Instruction} (hx : d.instructions[i]? = some x) :
    ∃ c o, cs[i]? = some c ∧ c.operand ctx (d.instructions.extract 0 i) = .ok o ∧
      x = c.instruction i cs.length o := by
  obtain ⟨hlt, -⟩ := Array.getElem?_eq_some_iff.1 hx
  have hi : i < cs.length := follows.size ▸ hlt
  have hc : cs[i]? = some cs[i] := List.getElem?_eq_getElem hi
  obtain ⟨o, read, hx'⟩ := follows.read i _ hc
  exact ⟨_, o, hc, read, Option.some.inj (hx.symm.trans hx')⟩

theorem Follows.starts {ctx : Context} {cs : List Chunk} {d : Draft}
    (follows : Follows ctx cs d) :
    Instruction.starts d.instructions = cs.map Chunk.offset := by
  apply List.ext_getElem?
  intro i
  rw [Instruction.getElem?_starts, List.getElem?_map]
  cases hc : cs[i]? with
  | none =>
    have hsize := follows.size
    have hlength := List.getElem?_eq_none_iff.1 hc
    rw [Array.getElem?_eq_none_iff.2 (by omega)]
    rfl
  | some c =>
    obtain ⟨o, -, hx⟩ := follows.read i c hc
    rw [hx]
    rfl

/-- Instructions drafted from chunks of a tiling are in byte order. -/
theorem Follows.ordered {ctx : Context} {start : Nat} {code : List UInt8} {cs : List Chunk}
    {d : Draft} (follows : Follows ctx cs d) (tiles : Tiles start code cs) :
    Instruction.Ordered d.instructions := by
  rw [Instruction.Ordered, follows.starts]
  exact List.pairwise_map.2 tiles.pairwise_offset

/-- Settles the instruction at one index, among the instructions `all`. -/
def settleAt (all xs : Array Instruction) (i : Nat) : Except Fault (Array Instruction) :=
  match xs[i]? with
  | none => return xs
  | some x => do
    let x ← x.settle all
    return xs.setIfInBounds i x

/-- Settles what waits, in order, among the instructions as they were drafted. -/
def settle (d : Draft) : Except Fault Listing :=
  (d.pending.toList.foldlM (settleAt d.instructions) d.instructions).map Listing.mk

/-- Settling changes nothing about where instructions start, so it does not matter that those that
wait are settled among instructions some of which are settled already. -/
theorem settleEach_eq {all xs : Array Instruction} {is : List Nat}
    (same : Instruction.starts xs = Instruction.starts all) (inRange : ∀ i ∈ is, i < xs.size) :
    settleEach xs is = some (is.foldlM (settleAt all) xs) := by
  induction is generalizing xs with
  | nil => rfl
  | cons i is ih =>
    have hi : i < xs.size := inRange i List.mem_cons_self
    have hx : xs[i]? = some xs[i] := Array.getElem?_eq_getElem hi
    rw [settleEach, dif_pos hi, List.foldlM_cons, settleAt, hx]
    simp only [Instruction.settle_congr same]
    cases settled : xs[i].settle all with
    | error fault => rfl
    | ok x =>
      have kept : Instruction.starts (xs.set i x) = Instruction.starts xs := by
        apply List.ext_getElem?
        intro k
        rw [Instruction.getElem?_starts, Instruction.getElem?_starts, Array.getElem?_set]
        split
        · next at_i =>
          subst at_i
          simp [hx, Instruction.offset_of_settle settled]
        · rfl
      simp only [bind, Except.bind, pure, Except.pure, Array.setIfInBounds, dif_pos hi]
      apply ih
      · exact kept.trans same
      · intro k hk
        rw [Array.size_set]
        exact inRange k (List.mem_cons_of_mem _ hk)

theorem settle?_eq {d : Draft} (inRange : d.InRange) : d.settle? = some d.settle := by
  rw [settle?, settleEach_eq rfl fun i hi => inRange i (Array.mem_toList_iff.1 hi)]
  rfl

theorem settleAt_eq_ok_iff {all xs ys : Array Instruction} {i : Nat} {x : Instruction}
    (hx : xs[i]? = some x) :
    settleAt all xs i = .ok ys ↔ ∃ x', x.settle all = .ok x' ∧ ys = xs.setIfInBounds i x' := by
  simp only [settleAt, hx, bind_eq_ok_iff, pure_eq_ok_iff]

/-- Settling along a list of indices changes what stands there, and nothing else. -/
theorem foldlM_settleAt_eq_ok_iff {all : Array Instruction} {is : List Nat} (nodup : is.Nodup)
    {xs ys : Array Instruction} (inRange : ∀ i ∈ is, i < xs.size) :
    is.foldlM (settleAt all) xs = .ok ys ↔
      ys.size = xs.size ∧ (∀ i, i ∉ is → ys[i]? = xs[i]?) ∧
        ∀ i ∈ is, ∀ x, xs[i]? = some x → ∃ x', x.settle all = .ok x' ∧ ys[i]? = some x' := by
  induction is generalizing xs with
  | nil =>
    rw [List.foldlM_nil, pure_eq_ok_iff]
    constructor
    · rintro rfl
      simp
    · rintro ⟨-, same, -⟩
      exact Array.ext_getElem? fun i => same i List.not_mem_nil
  | cons p is ih =>
    obtain ⟨hp, nodup⟩ := List.nodup_cons.1 nodup
    have hin : p < xs.size := inRange p List.mem_cons_self
    have hx : xs[p]? = some xs[p] := Array.getElem?_eq_getElem hin
    have inRange' (x' : Instruction) : ∀ i ∈ is, i < (xs.setIfInBounds p x').size := by
      intro i hi
      rw [Array.size_setIfInBounds]
      exact inRange i (List.mem_cons_of_mem _ hi)
    rw [List.foldlM_cons, bind_eq_ok_iff]
    constructor
    · rintro ⟨zs, hzs, htail⟩
      obtain ⟨x', settled, rfl⟩ := (settleAt_eq_ok_iff hx).1 hzs
      obtain ⟨hsize, same, changed⟩ := (ih nodup (inRange' x')).1 htail
      refine ⟨by simpa using hsize, ?_, ?_⟩
      · intro i hi
        have hne : p ≠ i := (List.ne_of_not_mem_cons hi).symm
        rw [same i (List.not_mem_of_not_mem_cons hi), Array.getElem?_setIfInBounds_ne hne]
      · intro i hi x hxi
        rcases List.mem_cons.1 hi with rfl | hi
        · obtain rfl : xs[i] = x := Option.some.inj (hx.symm.trans hxi)
          exact ⟨x', settled, by rw [same i hp, Array.getElem?_setIfInBounds_self_of_lt hin]⟩
        · have hne : p ≠ i := fun h => hp (h ▸ hi)
          exact changed i hi x (by rw [Array.getElem?_setIfInBounds_ne hne, hxi])
    · rintro ⟨hsize, same, changed⟩
      obtain ⟨x', settled, hy⟩ := changed p List.mem_cons_self _ hx
      refine ⟨_, (settleAt_eq_ok_iff hx).2 ⟨x', settled, rfl⟩, ?_⟩
      refine (ih nodup (inRange' x')).2 ⟨by simpa using hsize, ?_, ?_⟩
      · intro i hi
        by_cases hip : i = p
        · rw [hip, hy, Array.getElem?_setIfInBounds_self_of_lt hin]
        · rw [Array.getElem?_setIfInBounds_ne (Ne.symm hip)]
          exact same i (List.not_mem_cons_of_ne_of_not_mem hip hi)
      · intro i hi x hxi
        have hne : p ≠ i := fun h => hp (h ▸ hi)
        rw [Array.getElem?_setIfInBounds_ne hne] at hxi
        exact changed i (List.mem_cons_of_mem _ hi) x hxi

/-- Whatever does not wait is settled already. -/
theorem Follows.settle_of_not_pending {ctx : Context} {cs : List Chunk} {d : Draft}
    (follows : Follows ctx cs d) (ordered : Instruction.Ordered d.instructions) {i : Nat}
    {x : Instruction} (hx : d.instructions[i]? = some x) (hi : i ∉ d.pending.toList) :
    x.settle d.instructions = .ok x := by
  obtain ⟨c, o, -, read, rfl⟩ := follows.chunk hx
  have longer := Instruction.starts_extract_prefix d.instructions i
  have ready : o.waits = false := by
    cases h : o.waits with
    | false => rfl
    | true => exact absurd ((follows.pending i).2 ⟨_, hx, h⟩) hi
  refine (Chunk.settle_eq_ok_iff_denotes read longer ordered).2 ⟨o, rfl, ?_⟩
  exact Chunk.denotes_of_not_waits read longer ordered ready

/-- Settling what waits comes to the same as settling everything. -/
theorem Follows.settle_eq_ok_iff {ctx : Context} {cs : List Chunk} {d : Draft} {l : Listing}
    (follows : Follows ctx cs d) (ordered : Instruction.Ordered d.instructions) :
    d.settle = .ok l ↔
      l.size = d.instructions.size ∧ ∀ i x, d.instructions[i]? = some x →
        ∃ x', x.settle d.instructions = .ok x' ∧ l.get? i = some x' := by
  have nodup : d.pending.toList.Nodup := follows.increasing.imp Nat.ne_of_lt
  rw [settle, map_eq_ok_iff]
  constructor
  · rintro ⟨ys, settled, rfl⟩
    obtain ⟨hsize, same, changed⟩ :=
      (foldlM_settleAt_eq_ok_iff nodup fun i => follows.pending_lt).1 settled
    refine ⟨hsize, fun i x hx => ?_⟩
    by_cases hi : i ∈ d.pending.toList
    · exact changed i hi x hx
    · exact ⟨x, follows.settle_of_not_pending ordered hx hi, (same i hi).trans hx⟩
  · rintro ⟨hsize, settled⟩
    refine ⟨l.instructions, ?_, rfl⟩
    refine (foldlM_settleAt_eq_ok_iff nodup fun i => follows.pending_lt).2 ⟨hsize, ?_, ?_⟩
    · intro i hi
      cases hx : d.instructions[i]? with
      | none =>
        have hlt := Array.getElem?_eq_none_iff.1 hx
        exact Array.getElem?_eq_none_iff.2 (Nat.le_trans (Nat.le_of_eq hsize) hlt)
      | some x =>
        obtain ⟨x', hx', hl⟩ := settled i x hx
        rw [follows.settle_of_not_pending ordered hx hi] at hx'
        cases hx'
        exact hl
    · intro i _ x hx
      exact settled i x hx

/-- Chunks that all denote something can be drafted, whatever chunks follow them. -/
theorem exists_draft {ctx : Context} {start : Nat} {code : List UInt8}
    {cs before after : List Chunk} (tiles : Tiles start code cs) (hcs : cs = before ++ after)
    (denote : ∀ c ∈ before, ∃ o, c.Denotes ctx (cs.map Chunk.offset) o) :
    ∃ d, before.foldlM (add ctx) {} = .ok d := by
  -- by induction on the chunks read so far; those that follow only give jumps a place to land
  induction before using List.reverseRecOn generalizing after with
  | nil => exact ⟨{}, rfl⟩
  | append_singleton before c ih =>
    obtain ⟨earlier, last⟩ := List.forall_mem_append.1 denote
    obtain ⟨o, denotes⟩ := last c List.mem_cons_self
    rw [List.append_assoc] at hcs
    obtain ⟨d, drafted⟩ := ih hcs earlier
    have follows := follows_of_foldlM drafted
    have sorted := tiles.pairwise_offset
    rw [hcs, List.pairwise_append] at sorted
    have ordered : Instruction.Ordered d.instructions := by
      rw [Instruction.Ordered, follows.starts]
      exact List.pairwise_map.2 sorted.1
    have covered : ∀ s ∈ cs.map Chunk.offset, s < c.offset →
        s ∈ Instruction.starts d.instructions := by
      intro s hs hlt
      obtain ⟨e, he, rfl⟩ := List.mem_map.1 hs
      rw [hcs] at he
      rw [follows.starts]
      rcases List.mem_append.1 he with he | he
      · exact List.mem_map_of_mem he
      · rcases List.mem_cons.1 he with rfl | he
        · omega
        · have := (List.pairwise_cons.1 sorted.2.1).1 e he
          omega
    obtain ⟨o', read⟩ := Chunk.exists_operand_of_denotes denotes ordered covered
    obtain ⟨d', added⟩ : ∃ d', add ctx d c = .ok d' := ⟨_, add_eq_ok_iff.2 ⟨o', read, rfl⟩⟩
    refine ⟨d', ?_⟩
    rw [List.foldlM_append, bind_eq_ok_iff]
    exact ⟨d, drafted, by simpa using added⟩

end Draft

/-- A listing that reads chunks: one instruction for each, in order, with the operand that the
chunk denotes among them. -/
structure Listing.Reads (ctx : Context) (cs : List Chunk) (l : Listing) : Prop where
  size : l.size = cs.length
  instruction : ∀ (i : Nat) (c : Chunk), cs[i]? = some c →
    ∃ o, l.get? i = some (c.instruction i cs.length o) ∧ c.Denotes ctx (cs.map Chunk.offset) o

/-- Every instruction of a listing reads a chunk. -/
theorem Listing.Reads.chunk {ctx : Context} {cs : List Chunk} {l : Listing}
    (reads : l.Reads ctx cs) {i : Nat} {x : Instruction} (hx : l.get? i = some x) :
    ∃ c o, cs[i]? = some c ∧ x = c.instruction i cs.length o ∧
      c.Denotes ctx (cs.map Chunk.offset) o := by
  obtain ⟨hlt, -⟩ := Array.getElem?_eq_some_iff.1 hx
  have hi : i < cs.length := reads.size ▸ hlt
  have hc : cs[i]? = some cs[i] := List.getElem?_eq_getElem hi
  obtain ⟨o, hx', denotes⟩ := reads.instruction i _ hc
  exact ⟨_, o, hc, Option.some.inj (hx.symm.trans hx'), denotes⟩

namespace Context

theorem draft_eq_ok_iff {ctx : Context} {d : Draft} :
    ctx.draft = .ok d ↔
      ∃ cs, Tiles 0 ctx.code cs ∧ cs.foldlM (Draft.add ctx) {} = .ok d := by
  rw [draft_eq, bind_eq_ok_iff]
  constructor
  · rintro ⟨d', drafted, h⟩
    cases fault : (Cut.ofCode ctx.code).fault with
    | some fault' => simp [fault] at h
    | none =>
      obtain rfl : d' = d := by simpa [fault] using h
      refine ⟨_, Cut.ofCode_eq_iff.1 ?_, drafted⟩
      rw [Array.toArray_toList, ← fault]
  · rintro ⟨cs, tiles, drafted⟩
    rw [Cut.ofCode_eq_iff.2 tiles]
    exact ⟨d, drafted, rfl⟩

/-- The second pass always has an outcome. -/
theorem settle?_of_draft {ctx : Context} {d : Draft} (drafted : ctx.draft = .ok d) :
    d.settle? = some d.settle := Draft.settle?_eq (inRange_of_draft drafted)

theorem decodeReported_eq (ctx : Context) :
    ctx.decodeReported = ctx.draft >>= fun d => d.settle.map fun l =>
      (l, .decoded l.size ctx.code.length d.pending.size) := by
  have outcome : ctx.decodeReported? = some (ctx.draft >>= fun d => d.settle.map fun l =>
      (l, .decoded l.size ctx.code.length d.pending.size)) := by
    rw [decodeReported?]
    cases drafted : ctx.draft with
    | error fault => rfl
    | ok d => simp [settle?_of_draft drafted, bind, Except.bind]
  simp [decodeReported, outcome]

theorem decode_eq (ctx : Context) : ctx.decode = ctx.draft >>= Draft.settle := by
  rw [decode, decodeReported_eq]
  cases ctx.draft with
  | error fault => rfl
  | ok d => cases settled : d.settle <;> simp [bind, Except.bind, Except.map, settled]

theorem decode_eq_ok_iff_draft {ctx : Context} {l : Listing} :
    ctx.decode = .ok l ↔ ∃ d, ctx.draft = .ok d ∧ d.settle = .ok l := by
  rw [decode_eq, bind_eq_ok_iff]

/-- Decoding gives exactly the listings that read a tiling of the code. -/
theorem decode_eq_ok_iff {ctx : Context} {l : Listing} :
    ctx.decode = .ok l ↔ ∃ cs, Tiles 0 ctx.code cs ∧ l.Reads ctx cs := by
  rw [decode_eq_ok_iff_draft]
  constructor
  · rintro ⟨d, hdraft, hsettle⟩
    obtain ⟨cs, tiles, drafted⟩ := draft_eq_ok_iff.1 hdraft
    have follows := Draft.follows_of_foldlM drafted
    have ordered := follows.ordered tiles
    obtain ⟨hsize, settled⟩ := (follows.settle_eq_ok_iff ordered).1 hsettle
    refine ⟨cs, tiles, hsize.trans follows.size, ?_⟩
    intro i c hc
    obtain ⟨o, read, hx⟩ := follows.read i c hc
    obtain ⟨x', hx', hl⟩ := settled i _ hx
    have longer := Instruction.starts_extract_prefix d.instructions i
    obtain ⟨o', rfl, denotes⟩ := (Chunk.settle_eq_ok_iff_denotes read longer ordered).1 hx'
    exact ⟨o', hl, follows.starts ▸ denotes⟩
  · rintro ⟨cs, tiles, reads⟩
    have denote : ∀ c ∈ cs, ∃ o, c.Denotes ctx (cs.map Chunk.offset) o := by
      intro c hc
      obtain ⟨i, hi⟩ := List.getElem?_of_mem hc
      obtain ⟨o, -, denotes⟩ := reads.instruction i c hi
      exact ⟨o, denotes⟩
    obtain ⟨d, drafted⟩ := Draft.exists_draft tiles (List.append_nil cs).symm denote
    have follows := Draft.follows_of_foldlM drafted
    have ordered := follows.ordered tiles
    refine ⟨d, draft_eq_ok_iff.2 ⟨cs, tiles, drafted⟩, ?_⟩
    refine (follows.settle_eq_ok_iff ordered).2 ⟨reads.size.trans follows.size.symm, ?_⟩
    intro i x hx
    obtain ⟨c, o, hc, read, rfl⟩ := follows.chunk hx
    obtain ⟨o', hl, denotes⟩ := reads.instruction i c hc
    have longer := Instruction.starts_extract_prefix d.instructions i
    refine ⟨c.instruction i cs.length o', ?_, hl⟩
    exact (Chunk.settle_eq_ok_iff_denotes read longer ordered).2
      ⟨o', rfl, follows.starts ▸ denotes⟩

end Context

end Cil
