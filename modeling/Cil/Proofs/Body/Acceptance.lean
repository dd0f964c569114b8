import Cil.Proofs.Body.Drafting

/-!
# Which bodies decode

A body decodes exactly if its code is tiled by chunks whose slots are in range, whose tokens stand
for what their opcodes require, and whose jumps lead to starts of chunks. The tiling is the only
one, and the listing reads it.
-/

namespace Cil

/-- The slot that a chunk encodes, in its opcode or in its operand. -/
def Chunk.slot? (c : Chunk) : Option (SlotFamily × Nat) :=
  match c.opcode.operand with
  | .none => c.opcode.implicitSlot?
  | .slot8 | .slot16 => some (c.opcode.slotFamily, LittleEndian.value c.payload)
  | _ => none

namespace Context

/-- Whether the token of a chunk, if it has one, stands for what its opcode requires. -/
def Resolves (ctx : Context) (c : Chunk) : Prop :=
  match c.opcode.operand with
  | .string => ∃ s, ctx.resolver.string c.token = .ok s
  | .field => ∃ f, ctx.member c.token = .ok (.field f)
  | .method => ∃ m, ctx.member c.token = .ok (.method m)
  | .type => ∃ t, ctx.member c.token = .ok (.type t)
  | .anyMember => ∃ m, ctx.member c.token = .ok m
  | .signature => ∃ blob, ctx.resolver.signature c.token = .ok blob
  | _ => True

/-- Chunks that make up the code of a body and make sense in it. -/
structure Accepts (ctx : Context) (cs : List Chunk) : Prop where
  tiles : Tiles 0 ctx.code cs
  slots : ∀ c ∈ cs, ∀ family n, c.slot? = some (family, n) → ctx.HasSlot family n
  tokens : ∀ c ∈ cs, ctx.Resolves c
  targets : ∀ c ∈ cs, ∀ raw ∈ c.rawOffsets, ∃ d ∈ cs, (d.offset : Int) = c.stop + raw.toInt

end Context

namespace Chunk

variable {ctx : Context} {c : Chunk} {starts : List Nat}

/-- A jump lands somewhere exactly if a chunk starts where it leads. -/
theorem exists_lands_iff {raw : Int32} :
    (∃ j, c.Lands starts raw j) ↔ ∃ s ∈ starts, (s : Int) = c.stop + raw.toInt := by
  constructor
  · rintro ⟨j, lands⟩
    obtain ⟨i, -, hstart⟩ := lands.start
    exact ⟨j.target, List.mem_of_getElem? hstart, lands.relative⟩
  · rintro ⟨s, hs, hrelative⟩
    obtain ⟨i, hi⟩ := List.getElem?_of_mem hs
    exact ⟨⟨raw, s, some i⟩, ⟨rfl, hrelative⟩, i, rfl, hi⟩

/-- A table of jumps lands exactly if each of its entries does. -/
theorem exists_lands_table_iff {raws : List Int32} :
    (∃ js, List.Forall₂ (c.Lands starts) raws js) ↔ ∀ raw ∈ raws, ∃ j, c.Lands starts raw j := by
  induction raws with
  | nil => simp
  | cons raw raws ih =>
    rw [List.forall_mem_cons, ← ih]
    constructor
    · rintro ⟨_, ⟨⟩⟩
      next j js first rest => exact ⟨⟨j, first⟩, js, rest⟩
    · rintro ⟨⟨j, first⟩, js, rest⟩
      exact ⟨j :: js, .cons first rest⟩

theorem Complete.operand_ne_phi (complete : c.Complete) : c.opcode.operand ≠ .phi := by
  intro hkind
  have size := complete.framed.size? (by rw [hkind]; nofun)
  rw [hkind] at size
  exact nomatch size

/-- A chunk denotes something exactly if its slot, its token and its jumps make sense. -/
theorem exists_denotes_iff (complete : c.Complete) :
    (∃ o, c.Denotes ctx starts o) ↔
      (∀ family n, c.slot? = some (family, n) → ctx.HasSlot family n) ∧ ctx.Resolves c ∧
        ∀ raw ∈ c.rawOffsets, ∃ s ∈ starts, (s : Int) = c.stop + raw.toInt := by
  simp only [← exists_lands_iff]
  cases hkind : c.opcode.operand
  case phi => exact absurd hkind complete.operand_ne_phi
  all_goals simp only [Denotes, slot?, Context.Resolves, rawOffsets, hkind]
  case none =>
    cases hslot : c.opcode.implicitSlot? with
    | none => simp
    | some slot =>
      obtain ⟨family, n⟩ := slot
      simp [Context.exists_selects_iff]
  case slot8 | slot16 => simp [Context.exists_selects_iff]
  case anyMember =>
    cases hmember : ctx.member c.token with
    | error fault => simp
    | ok m => cases m <;> simp
  case switch =>
    rw [← exists_lands_table_iff]
    simp
  all_goals simp

end Chunk

namespace Context

theorem Accepts.denotes {ctx : Context} {cs : List Chunk} (accepts : ctx.Accepts cs) :
    ∀ c ∈ cs, ∃ o, c.Denotes ctx (cs.map Chunk.offset) o := by
  intro c hc
  refine (Chunk.exists_denotes_iff (accepts.tiles.complete_of_mem hc)).2
    ⟨accepts.slots c hc, accepts.tokens c hc, ?_⟩
  intro raw hraw
  obtain ⟨d, hd, hoffset⟩ := accepts.targets c hc raw hraw
  exact ⟨d.offset, List.mem_map_of_mem hd, hoffset⟩

theorem accepts_of_denotes {ctx : Context} {cs : List Chunk} (tiles : Tiles 0 ctx.code cs)
    (denotes : ∀ c ∈ cs, ∃ o, c.Denotes ctx (cs.map Chunk.offset) o) : ctx.Accepts cs := by
  have sense : ∀ c ∈ cs, _ := fun c hc =>
    (Chunk.exists_denotes_iff (tiles.complete_of_mem hc)).1 (denotes c hc)
  refine ⟨tiles, fun c hc => (sense c hc).1, fun c hc => (sense c hc).2.1, ?_⟩
  intro c hc raw hraw
  obtain ⟨s, hs, hoffset⟩ := (sense c hc).2.2 raw hraw
  obtain ⟨d, hd, rfl⟩ := List.mem_map.1 hs
  exact ⟨d, hd, hoffset⟩

/-- Chunks that each denote something are read by a listing. -/
theorem exists_reads {ctx : Context} {cs : List Chunk}
    (denotes : ∀ c ∈ cs, ∃ o, c.Denotes ctx (cs.map Chunk.offset) o) :
    ∃ l : Listing, l.Reads ctx cs := by
  have : Nonempty Operand := ⟨.none⟩
  choose! meaning holds using denotes
  refine ⟨⟨(cs.mapIdx fun i c => c.instruction i cs.length (meaning c)).toArray⟩, ?_, ?_⟩
  · simp [Listing.size]
  · intro i c hc
    exact ⟨meaning c, by simp [Listing.get?, hc], holds c (List.mem_of_getElem? hc)⟩

theorem Accepts.of_reads {ctx : Context} {cs : List Chunk} {l : Listing}
    (tiles : Tiles 0 ctx.code cs) (reads : l.Reads ctx cs) : ctx.Accepts cs := by
  apply accepts_of_denotes tiles
  intro c hc
  obtain ⟨i, hi⟩ := List.getElem?_of_mem hc
  obtain ⟨o, -, denotes⟩ := reads.instruction i c hi
  exact ⟨o, denotes⟩

/-- Decoding succeeds exactly on code that is tiled by chunks that make sense. There is only one
tiling, and the listing reads it, chunk by chunk. -/
theorem decode_succeeds_iff_accepts (ctx : Context) :
    ((∃ l, ctx.decode = .ok l) ↔ ∃ cs, ctx.Accepts cs) ∧
      (∀ cs cs', Tiles 0 ctx.code cs → Tiles 0 ctx.code cs' → cs = cs') ∧
      ∀ cs, ctx.Accepts cs → ∃ l, ctx.decode = .ok l ∧ l.Reads ctx cs := by
  have complete : ∀ cs, ctx.Accepts cs → ∃ l, ctx.decode = .ok l ∧ l.Reads ctx cs := by
    intro cs accepts
    obtain ⟨l, reads⟩ := exists_reads accepts.denotes
    exact ⟨l, decode_eq_ok_iff.2 ⟨cs, accepts.tiles, reads⟩, reads⟩
  refine ⟨⟨?_, ?_⟩, fun cs cs' => Tiles.unique, complete⟩
  · rintro ⟨l, decoded⟩
    obtain ⟨cs, tiles, reads⟩ := decode_eq_ok_iff.1 decoded
    exact ⟨cs, .of_reads tiles reads⟩
  · rintro ⟨cs, accepts⟩
    obtain ⟨l, decoded, -⟩ := complete cs accepts
    exact ⟨l, decoded⟩

end Context

end Cil
