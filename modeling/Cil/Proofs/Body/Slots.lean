import Cil.Proofs.Body.FirstFault
import Cil.Proofs.Body.Navigation
import Cil.Proofs.Bytes.Encoding

/-!
# Encodings of slots

An argument or a local variable can be named in many ways: by opcodes of its own, or by its slot on
one or on two bytes. All of them come to the same variable wherever they stand in a body, and they
fail alike where there is none. No form of one family ever selects from the other.
-/

namespace Cil

open Fallible

/-! ## The forms -/

/-- Where an instruction has its slot: in the opcode itself, or on so many bytes behind it. -/
inductive SlotPlace
  | opcode (slot : Nat)
  | operand (width : Nat)
  deriving DecidableEq

namespace SlotPlace

/-- Whether there is room for a slot. -/
def Holds (slot : Nat) : SlotPlace → Prop
  | opcode own => slot = own
  | operand width => slot < 256 ^ width

instance (slot : Nat) : (place : SlotPlace) → Decidable (place.Holds slot)
  | opcode own => inferInstanceAs (Decidable (slot = own))
  | operand width => inferInstanceAs (Decidable (slot < 256 ^ width))

/-- What follows the opcode. -/
def payload (slot : Nat) : SlotPlace → List UInt8
  | opcode _ => []
  | operand width => LittleEndian.encode width slot

/-- The table has the slot of an opcode in the same place, and among the same variables. -/
def Agrees (op : Opcode) (family : SlotFamily) : SlotPlace → Prop
  | opcode own => op.operand = .none ∧ op.implicitSlot? = some (family, own)
  | operand width =>
    (op.operand = .slot8 ∧ width = 1 ∨ op.operand = .slot16 ∧ width = 2) ∧ op.slotFamily = family

instance (op : Opcode) (family : SlotFamily) : (place : SlotPlace) →
    Decidable (place.Agrees op family)
  | opcode _ => inferInstanceAs (Decidable (_ ∧ _))
  | operand _ => inferInstanceAs (Decidable (_ ∧ _))

end SlotPlace

/-- A form of instruction that works on a variable. -/
structure SlotForm where
  mnemonic : String
  /-- The bytes of the opcode. -/
  lead : List UInt8
  family : SlotFamily
  place : SlotPlace
  deriving DecidableEq

namespace SlotForm

/-- The forms that work on an argument, and those that work on a local variable. -/
def all : List SlotForm :=
  [⟨"ldarg.0", [0x02], .argument, .opcode 0⟩, ⟨"ldarg.1", [0x03], .argument, .opcode 1⟩,
    ⟨"ldarg.2", [0x04], .argument, .opcode 2⟩, ⟨"ldarg.3", [0x05], .argument, .opcode 3⟩,
    ⟨"ldarg.s", [0x0E], .argument, .operand 1⟩, ⟨"ldarga.s", [0x0F], .argument, .operand 1⟩,
    ⟨"starg.s", [0x10], .argument, .operand 1⟩, ⟨"ldarg", [0xFE, 0x09], .argument, .operand 2⟩,
    ⟨"ldarga", [0xFE, 0x0A], .argument, .operand 2⟩,
    ⟨"starg", [0xFE, 0x0B], .argument, .operand 2⟩,
    ⟨"ldloc.0", [0x06], .local, .opcode 0⟩, ⟨"ldloc.1", [0x07], .local, .opcode 1⟩,
    ⟨"ldloc.2", [0x08], .local, .opcode 2⟩, ⟨"ldloc.3", [0x09], .local, .opcode 3⟩,
    ⟨"stloc.0", [0x0A], .local, .opcode 0⟩, ⟨"stloc.1", [0x0B], .local, .opcode 1⟩,
    ⟨"stloc.2", [0x0C], .local, .opcode 2⟩, ⟨"stloc.3", [0x0D], .local, .opcode 3⟩,
    ⟨"ldloc.s", [0x11], .local, .operand 1⟩, ⟨"ldloca.s", [0x12], .local, .operand 1⟩,
    ⟨"stloc.s", [0x13], .local, .operand 1⟩, ⟨"ldloc", [0xFE, 0x0C], .local, .operand 2⟩,
    ⟨"ldloca", [0xFE, 0x0D], .local, .operand 2⟩, ⟨"stloc", [0xFE, 0x0E], .local, .operand 2⟩]

/-- The instruction of a form that works on a slot. -/
def bytes (form : SlotForm) (slot : Nat) : List UInt8 := form.lead ++ form.place.payload slot

/-- The table describes an opcode as the form does. -/
def Describes (form : SlotForm) (op : Opcode) : Prop :=
  op.bytes = form.lead ∧ op.mnemonic = form.mnemonic ∧ form.place.Agrees op form.family

instance (form : SlotForm) (op : Opcode) : Decidable (form.Describes op) :=
  inferInstanceAs (Decidable (_ ∧ _))

end SlotForm

/-- The family of variables that an opcode works on. -/
def Opcode.family? (op : Opcode) : Option SlotFamily :=
  match op.operand with
  | .none => op.implicitSlot?.map Prod.fst
  | .slot8 | .slot16 => some op.slotFamily
  | _ => none

/-- The family of the variable that an operand is. -/
def Operand.family? : Operand → Option SlotFamily
  | this | param .. => some .argument
  | «local» .. => some .local
  | _ => Option.none

namespace Opcode

theorem defined_of_selected? {code : List UInt8} {op : Opcode} (h : selected? code = some op) :
    lookup? op.page op.byte = some op := by
  cases code with
  | nil => cases h
  | cons first rest =>
    rw [selected?] at h
    split at h
    · obtain ⟨second, -, hfound⟩ := Option.bind_eq_some_iff.1 h
      exact defined_of_lookup? hfound
    · exact defined_of_lookup? h

/-- Bytes start with one opcode at most. -/
theorem eq_of_bytes {op op' : Opcode} (defined : lookup? op.page op.byte = some op)
    (defined' : lookup? op'.page op'.byte = some op') {rest rest' : List UInt8}
    (same : op.bytes ++ rest = op'.bytes ++ rest') : op = op' := by
  have selected := selected?_bytes defined rest
  rw [same, selected?_bytes defined' rest'] at selected
  exact (Option.some.inj selected).symm

end Opcode

namespace SlotForm

variable {form : SlotForm} {op : Opcode}

/-- Every form has an opcode. -/
theorem exists_opcode (known : form ∈ all) :
    ∃ op, Opcode.lookup? op.page op.byte = some op ∧ form.Describes op := by
  have table : ∀ form ∈ all, ((Opcode.selected? form.lead).any (form.Describes ·)) = true := by
    decide +kernel
  obtain ⟨op, selected, describes⟩ := (Option.any_eq_true _ _).1 (table form known)
  exact ⟨op, Opcode.defined_of_selected? selected, of_decide_eq_true describes⟩

/-- An opcode that works on a variable has a form. -/
theorem exists_form {page : Page} {byte : UInt8} {family : SlotFamily}
    (defined : Opcode.lookup? page byte = some op) (works : op.family? = some family) :
    ∃ form ∈ all, form.family = family ∧ form.Describes op := by
  have table : ∀ op ∈ (Opcode.rows page).toList, (op.family?.all fun family =>
      decide (∃ form ∈ all, form.family = family ∧ form.Describes op)) = true := by
    cases page <;> decide +kernel
  have entry := table op (Opcode.mem_rows_of_lookup? defined)
  rw [works] at entry
  exact of_decide_eq_true entry

theorem Describes.family? (describes : form.Describes op) : op.family? = some form.family := by
  obtain ⟨-, -, agrees⟩ := describes
  rw [Opcode.family?]
  cases place : form.place with
  | opcode own =>
    rw [place] at agrees
    rw [agrees.1, agrees.2]
    rfl
  | operand width =>
    rw [place] at agrees
    obtain ⟨⟨kind, -⟩ | ⟨kind, -⟩, family⟩ := agrees
    · rw [kind, family]
    · rw [kind, family]

/-- The opcodes that work on a family of variables are those of its forms. -/
theorem family?_eq_some_iff (defined : Opcode.lookup? op.page op.byte = some op)
    {family : SlotFamily} :
    op.family? = some family ↔
      ∃ form ∈ all, form.family = family ∧ form.lead = op.bytes ∧ form.mnemonic = op.mnemonic := by
  constructor
  · intro works
    obtain ⟨form, known, hfamily, lead, mnemonic, -⟩ := exists_form defined works
    exact ⟨form, known, hfamily, lead.symm, mnemonic.symm⟩
  · rintro ⟨form, known, rfl, lead, -⟩
    obtain ⟨op', defined', describes⟩ := exists_opcode known
    have same : op.bytes ++ [] = op'.bytes ++ [] := by rw [describes.1, lead]
    obtain rfl := Opcode.eq_of_bytes defined defined' same
    exact describes.family?

/-- A chunk that consists of a form's bytes has the form's opcode and encodes the slot. -/
theorem slot?_of_bytes (known : form ∈ all) {n : Nat} (holds : form.place.Holds n) {c : Chunk}
    (complete : c.Complete) (encoded : c.bytes = form.bytes n) :
    c.opcode.mnemonic = form.mnemonic ∧ c.slot? = some (form.family, n) := by
  obtain ⟨op, defined, lead, mnemonic, agrees⟩ := exists_opcode known
  rw [Chunk.bytes, bytes, ← lead] at encoded
  obtain rfl := Opcode.eq_of_bytes complete.defined defined encoded
  have hpayload : c.payload = form.place.payload n := List.append_cancel_left encoded
  refine ⟨mnemonic, ?_⟩
  rw [Chunk.slot?, hpayload]
  cases place : form.place with
  | opcode own =>
    rw [place] at holds agrees
    rw [agrees.1, agrees.2, holds]
  | operand width =>
    rw [place] at holds agrees
    have value : LittleEndian.value (SlotPlace.payload n (.operand width)) = n := by
      rw [SlotPlace.payload, LittleEndian.value_encode]
      exact Nat.mod_eq_of_lt holds
    obtain ⟨⟨kind, -⟩ | ⟨kind, -⟩, family⟩ := agrees
    · rw [kind, family, value]
    · rw [kind, family, value]

end SlotForm

/-! ## What slots denote -/

theorem Context.Selects.family? {ctx : Context} {family : SlotFamily} {n : Nat} {o : Operand}
    (selects : ctx.Selects family n o) : o.family? = some family := by
  cases selects <;> rfl

theorem Context.Selects.unique {ctx : Context} {family : SlotFamily} {n : Nat} {o o' : Operand}
    (selects : ctx.Selects family n o) (selects' : ctx.Selects family n o') : o = o' := by
  have found : ctx.slot family n 0 = .ok o := slot_eq_ok_iff.2 selects
  rw [slot_eq_ok_iff.2 selects'] at found
  exact (Except.ok.inj found).symm

namespace Chunk

variable {ctx : Context} {c : Chunk} {starts : List Nat} {o : Operand}

/-- A chunk that encodes a slot denotes the variable behind it. -/
theorem denotes_iff_of_slot? {family : SlotFamily} {n : Nat}
    (encoded : c.slot? = some (family, n)) : c.Denotes ctx starts o ↔ ctx.Selects family n o := by
  cases hkind : c.opcode.operand <;> simp only [slot?, hkind] at encoded
  case none => simp only [Denotes, hkind, encoded]
  case slot8 | slot16 =>
    cases encoded
    simp only [Denotes, hkind]
  all_goals cases encoded

/-- An operand is a variable exactly if the opcode works on one, and then of the same family. -/
theorem Denotes.family? (denotes : c.Denotes ctx starts o) : o.family? = c.opcode.family? := by
  cases hkind : c.opcode.operand <;> simp only [Denotes, hkind] at denotes <;>
    simp only [Opcode.family?, hkind]
  case none =>
    split at denotes
    · next hslot =>
      rw [denotes.family?, hslot]
      rfl
    · next hslot =>
      rw [denotes, hslot]
      rfl
  case slot8 | slot16 => exact denotes.family?
  case int8 =>
    rw [denotes]
    split <;> rfl
  case string | field | method | type | signature | branch8 | branch32 | switch =>
    obtain ⟨_, -, rfl⟩ := denotes
    rfl
  case anyMember =>
    rcases denotes with ⟨_, -, rfl⟩ | ⟨_, -, rfl⟩ | ⟨_, -, rfl⟩ | ⟨_, -, rfl⟩ | ⟨_, -, rfl⟩ <;> rfl
  all_goals exact denotes ▸ rfl

end Chunk

/-- The instruction of a chunk is found at its offset. -/
theorem Listing.Reads.at?_of_chunk {ctx : Context} {cs : List Chunk} {l : Listing}
    (reads : l.Reads ctx cs) (tiles : Tiles 0 ctx.code cs) {i : Nat} {c : Chunk}
    (hc : cs[i]? = some c) :
    ∃ o, l.at? c.offset = some (c.instruction i cs.length o) ∧
      c.Denotes ctx (cs.map Chunk.offset) o := by
  obtain ⟨o, hx, denotes⟩ := reads.instruction i c hc
  exact ⟨o, (reads.at?_eq_some_iff tiles).2 ⟨mem_of_get? hx, rfl⟩, denotes⟩

namespace Context

/-- A body divided into chunks that all make sense in it, one apart. -/
structure AcceptsAround (ctx : Context) (before : List Chunk) (c : Chunk) (after : List Chunk) :
    Prop where
  tiles : Tiles 0 ctx.code (before ++ c :: after)
  others : ∀ d ∈ before ++ after, ∃ o, d.Denotes ctx ((before ++ c :: after).map Chunk.offset) o

/-- The instruction at an offset of the decoded body, by its mnemonic and its operand. -/
def DecodesAt (ctx : Context) (offset : Nat) (mnemonic : String) (o : Operand) : Prop :=
  ∃ l x, ctx.decode = .ok l ∧ l.at? offset = some x ∧ x.opcode.mnemonic = mnemonic ∧ x.operand = o

namespace AcceptsAround

variable {ctx : Context} {before after : List Chunk} {c : Chunk} {family : SlotFamily} {n : Nat}
  {o : Operand}

theorem denotes (around : ctx.AcceptsAround before c after)
    (sense : ∃ o, c.Denotes ctx ((before ++ c :: after).map Chunk.offset) o) :
    ∀ d ∈ before ++ c :: after, ∃ o, d.Denotes ctx ((before ++ c :: after).map Chunk.offset) o := by
  intro d hd
  rcases List.mem_append.1 hd with hd | hd
  · exact around.others d (List.mem_append_left _ hd)
  · rcases List.mem_cons.1 hd with rfl | hd
    · exact sense
    · exact around.others d (List.mem_append_right _ hd)

/-- A slot of such a body is decoded to the variable that it selects. -/
theorem decodesAt_iff (around : ctx.AcceptsAround before c after)
    (encoded : c.slot? = some (family, n)) :
    ctx.DecodesAt c.offset c.opcode.mnemonic o ↔ ctx.Selects family n o := by
  have place : (before ++ c :: after)[before.length]? = some c := by simp
  constructor
  · rintro ⟨l, x, decoded, found, -, rfl⟩
    obtain ⟨cs, tiles, reads⟩ := decode_eq_ok_iff.1 decoded
    obtain rfl := tiles.unique around.tiles
    obtain ⟨o, found', denotes⟩ := reads.at?_of_chunk tiles place
    obtain rfl := Option.some.inj (found.symm.trans found')
    exact (Chunk.denotes_iff_of_slot? encoded).1 denotes
  · intro selects
    obtain ⟨l, reads⟩ :=
      exists_reads (around.denotes ⟨o, (Chunk.denotes_iff_of_slot? encoded).2 selects⟩)
    have decoded := decode_eq_ok_iff.2 ⟨_, around.tiles, reads⟩
    obtain ⟨o', found, denotes⟩ := reads.at?_of_chunk around.tiles place
    have selects' := (Chunk.denotes_iff_of_slot? encoded).1 denotes
    exact ⟨l, _, decoded, found, rfl, selects'.unique selects⟩

/-- A slot that is out of range is what such a body fails for. -/
theorem decode_eq_error (around : ctx.AcceptsAround before c after)
    (encoded : c.slot? = some (family, n)) (beyond : ¬ ctx.HasSlot family n) :
    ctx.decode = .error (ctx.slotFault c.offset n family) := by
  have before' : ∀ d ∈ before, ∃ o,
      d.Denotes ctx ((before ++ c :: after).map Chunk.offset) o := by
    intro d hd
    exact around.others d (List.mem_append_left _ hd)
  have tiles := around.tiles
  have drafted := Draft.exists_draft tiles rfl before'
  rw [List.append_cons] at tiles
  obtain ⟨front, rest, hcode, upTo, -⟩ := Tiles.append_iff.1 tiles
  obtain ⟨_, _, -, first, -⟩ := Tiles.append_iff.1 upTo
  have passes := (Draft.exists_draft_iff_passes first).1 drafted
  have fault : ctx.FirstFault _ := .misread hcode upTo passes (.slot encoded beyond)
  exact decode_eq_error_iff.2 (.inl fault.draft)

theorem decode_eq_error_iff (around : ctx.AcceptsAround before c after)
    (encoded : c.slot? = some (family, n)) :
    ctx.decode = .error (ctx.slotFault c.offset n family) ↔ ¬ ctx.HasSlot family n := by
  refine ⟨?_, around.decode_eq_error encoded⟩
  intro failed inRange
  obtain ⟨o, selects⟩ := exists_selects_iff.2 inRange
  obtain ⟨l, -, decoded, -⟩ := (around.decodesAt_iff encoded).2 selects
  rw [failed] at decoded
  cases decoded

end AcceptsAround

theorem selects_this_iff {ctx : Context} {n : Nat} :
    ctx.Selects .argument n .this ↔ ctx.isStatic = false ∧ n = 0 := by
  constructor
  · intro selects
    cases selects with
    | this bound => exact ⟨bound, rfl⟩
  · rintro ⟨bound, rfl⟩
    exact .this bound

theorem selects_param_iff {ctx : Context} {n p : Nat} (slot : n = p + ctx.instanceSlots)
    {info : Param} : ctx.Selects .argument n (.param p info) ↔ ctx.params[p]? = some info := by
  constructor
  · intro selects
    cases selects with
    | param declared => exact declared
  · intro declared
    rw [slot]
    exact .param declared

theorem selects_local_iff {ctx : Context} {n : Nat} {info : Local} :
    ctx.Selects .local n (.local n info) ↔ ctx.locals[n]? = some info := by
  constructor
  · intro selects
    cases selects with
    | var declared => exact declared
  · exact .var

/-- Whatever form encodes a slot, and wherever it stands in a body that makes sense otherwise, it
decodes to the same variable: an argument slot to the instance, if it is the first of an instance
method, and else to the declared parameter counted without the instance; a local slot to the
variable with its number. Where nothing is declared, decoding fails for that reason. And exactly the
forms of a family have its variables as operands. -/
theorem decode_agrees_on_slots (ctx : Context) :
    (∀ form ∈ SlotForm.all, ∀ n, form.place.Holds n → ∀ before c after,
      ctx.AcceptsAround before c after → c.bytes = form.bytes n →
        (form.family = .argument →
          (ctx.DecodesAt c.offset form.mnemonic .this ↔ ctx.isStatic = false ∧ n = 0) ∧
          ∀ p, n = p + ctx.instanceSlots →
            (∀ info, ctx.DecodesAt c.offset form.mnemonic (.param p info) ↔
              ctx.params[p]? = some info) ∧
            (ctx.decode = .error (.argumentSlot n c.offset ctx.params.size) ↔
              ctx.params.size ≤ p)) ∧
        (form.family = .local →
          (∀ info, ctx.DecodesAt c.offset form.mnemonic (.local n info) ↔
            ctx.locals[n]? = some info) ∧
          (ctx.decode = .error (.localSlot n c.offset ctx.locals.size) ↔ ctx.locals.size ≤ n))) ∧
    ∀ l, ctx.decode = .ok l → ∀ x ∈ l.instructions, ∀ family,
      x.operand.family? = some family ↔
        ∃ form ∈ SlotForm.all,
          form.family = family ∧ form.lead = x.opcode.bytes ∧ form.mnemonic = x.opcode.mnemonic := by
  constructor
  · intro form known n holds before c after around encoded
    have complete := around.tiles.complete_of_mem
      (List.mem_append_right before List.mem_cons_self)
    obtain ⟨mnemonic, slot⟩ := SlotForm.slot?_of_bytes known holds complete encoded
    rw [← mnemonic]
    constructor
    · intro family
      rw [family] at slot
      refine ⟨(around.decodesAt_iff slot).trans selects_this_iff, ?_⟩
      intro p hp
      refine ⟨fun info => (around.decodesAt_iff slot).trans (selects_param_iff hp), ?_⟩
      refine (around.decode_eq_error_iff slot).trans ?_
      rw [HasSlot]
      omega
    · intro family
      rw [family] at slot
      refine ⟨fun info => (around.decodesAt_iff slot).trans selects_local_iff, ?_⟩
      refine (around.decode_eq_error_iff slot).trans ?_
      rw [HasSlot]
      omega
  · intro l decoded x hx family
    obtain ⟨cs, tiles, reads⟩ := decode_eq_ok_iff.1 decoded
    obtain ⟨i, hi⟩ := Array.getElem?_of_mem hx
    obtain ⟨c, o, hc, rfl, denotes⟩ := reads.chunk hi
    have defined := (tiles.complete_of_mem (List.mem_of_getElem? hc)).defined
    exact denotes.family? ▸ SlotForm.family?_eq_some_iff defined

/-- Chunks of a body, around one of them, that can be read without looking at others. -/
theorem AcceptsAround.of_cut {ctx : Context} (whole : (Cut.ofCode ctx.code).fault = none) {i : Nat}
    {c : Chunk} (place : (Cut.ofCode ctx.code).chunks.toList[i]? = some c)
    (plain : ∀ d ∈ (Cut.ofCode ctx.code).chunks.toList.take i ++
        (Cut.ofCode ctx.code).chunks.toList.drop (i + 1),
      d.opcode.operand.isJump = false ∧ (d.operand ctx #[]).isOk = true) :
    ctx.AcceptsAround ((Cut.ofCode ctx.code).chunks.toList.take i) c
      ((Cut.ofCode ctx.code).chunks.toList.drop (i + 1)) := by
  obtain ⟨hi, hc⟩ := List.getElem?_eq_some_iff.1 place
  have split := List.take_append_drop i (Cut.ofCode ctx.code).chunks.toList
  rw [List.drop_eq_getElem_cons hi, hc] at split
  constructor
  · rw [split, ← Cut.ofCode_eq_iff, Array.toArray_toList, ← whole]
  · intro d hd
    obtain ⟨jumps, read⟩ := plain d hd
    cases hread : d.operand ctx #[] with
    | error fault =>
      rw [hread] at read
      cases read
    | ok o => exact ⟨o, (Chunk.operand_eq_ok_iff jumps #[] _).1 hread⟩

/-- An instance method with two parameters and a variable. It loads the instance by an opcode of its
own, stores to the second parameter on one byte and loads the variable on two. -/
def slotted : Context where
  code := [0x02, 0x10, 0x02, 0xFE, 0x0C, 0x00, 0x00, 0x2A]
  params := #[⟨0, "from", ⟨0⟩, false⟩, ⟨1, "to", ⟨0⟩, false⟩]
  locals := #[⟨0, ⟨0⟩, false, false⟩]
  isStatic := false
  resolver := turning.resolver

/-- The same method, with a parameter too many. -/
def overdrawn : Context := slotted.withCode [0x02, 0x10, 0x02, 0xFE, 0x09, 0x03, 0x00, 0x2A]

theorem decode_agrees_on_slots_slotted :
    (∃ before c after, slotted.AcceptsAround before c after ∧ c.offset = 1 ∧ c.bytes = [0x10, 2] ∧
      slotted.DecodesAt 1 "starg.s" (.param 1 ⟨1, "to", ⟨0⟩, false⟩)) ∧
    ∃ before c after, overdrawn.AcceptsAround before c after ∧ c.offset = 3 ∧
      c.bytes = [0xFE, 0x09, 3, 0] ∧ overdrawn.decode = .error (.argumentSlot 3 3 2) := by
  constructor
  · have chunk : ((Cut.ofCode slotted.code).chunks.toList[1]?.any fun c =>
        c.offset == 1 && c.bytes == [0x10, 2]) = true := by decide +kernel
    obtain ⟨c, place, shape⟩ := (Option.any_eq_true _ _).1 chunk
    obtain ⟨offset, bytes⟩ : c.offset = 1 ∧ c.bytes = [0x10, 2] := by simpa using shape
    have around := AcceptsAround.of_cut (by decide +kernel) place (by decide +kernel)
    have means := (decode_agrees_on_slots slotted).1 ⟨"starg.s", [0x10], .argument, .operand 1⟩
      (by decide) 2 (by decide) _ c _ around bytes
    rw [offset] at means
    exact ⟨_, c, _, around, offset, bytes, ((means.1 rfl).2 1 rfl).1 _ |>.2 rfl⟩
  · have chunk : ((Cut.ofCode overdrawn.code).chunks.toList[2]?.any fun c =>
        c.offset == 3 && c.bytes == [0xFE, 0x09, 3, 0]) = true := by decide +kernel
    obtain ⟨c, place, shape⟩ := (Option.any_eq_true _ _).1 chunk
    obtain ⟨offset, bytes⟩ : c.offset = 3 ∧ c.bytes = [0xFE, 0x09, 3, 0] := by simpa using shape
    have around := AcceptsAround.of_cut (by decide +kernel) place (by decide +kernel)
    have means := (decode_agrees_on_slots overdrawn).1
      ⟨"ldarg", [0xFE, 0x09], .argument, .operand 2⟩ (by decide) 3 (by decide) _ c _ around bytes
    rw [offset] at means
    exact ⟨_, c, _, around, offset, bytes, ((means.1 rfl).2 2 rfl).2.2 (by decide)⟩

end Context

end Cil
