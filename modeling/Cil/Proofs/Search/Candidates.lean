import Cil.Proofs.Body.Jumps
import Cil.Proofs.Body.Partition
import Cil.Proofs.Search.Following

/-!
# Searching a decoded body

Searching a body that decodes amounts to a query over its listing. The candidates of the query are
the members that the tokens of the listing stand for, each followed by the method that a constrained
call of it lands on, if there is one.
-/

namespace Cil

/-- The token behind the opcode of an instruction. -/
def Context.tokenOf (ctx : Context) (x : Instruction) : Token :=
  ⟨UInt32.ofNat (ctx.numberAt (x.offset + x.opcode.size) 4)⟩

/-- The type that an instruction names for the call after it. -/
def Instruction.constraint? (x : Instruction) : Option TypeDef :=
  match x.operand with
  | .type type => if x.opcode.isConstrained then some type else none
  | _ => none

/-- The method that a use of `m` lands on where it is constrained to a type. A landing that cannot
be determined is none. -/
def Member.landing? (t : TypeTable) (r : Resolver) (constraint : Option TypeDef) (m : Member) :
    Option Method :=
  match constraint, m with
  | some u, .method called => (called.constrainedTo t r u).toOption.join
  | _, _ => none

namespace Listing

/-- What an instruction of a listing gives to search for: the member of its token, and behind a
constraint also the method that is landed on. -/
def candidatesAt (t : TypeTable) (ctx : Context) (l : Listing) (x : Instruction) : List Member :=
  if x.opcode.operand.namesMember then
    match ctx.member (ctx.tokenOf x) with
    | .ok m =>
      let constraint := (l.previous? x).bind Instruction.constraint?
      m :: ((m.landing? t ctx.resolver constraint).map Member.method).toList
    | .error _ => []
  else []

/-- The candidates of a listing, front to back. -/
def candidates (t : TypeTable) (ctx : Context) (l : Listing) : List Member :=
  l.instructions.toList.flatMap (l.candidatesAt t ctx)

end Listing

/-- What is sighted at a member are the member and where it lands. -/
theorem Trail.filterMap_sight (t : TypeTable) (r : Resolver) (offset : Nat)
    (constraint : Option TypeDef) (m : Member) :
    (sight t r offset constraint m).filterMap Sighting.member? =
      m :: ((m.landing? t r constraint).map Member.method).toList := by
  cases constraint with
  | none => rfl
  | some type =>
    cases m with
    | method called =>
      cases h : called.constrainedTo t r type with
      | error fault => simp [sight, Member.landing?, h, Sighting.member?, Except.toOption]
      | ok found =>
        cases found with
        | none => simp [sight, Member.landing?, h, Sighting.member?, Except.toOption]
        | some found => simp [sight, Member.landing?, h, Sighting.member?, Except.toOption]
    | _ => rfl

/-- Only the constrained prefix names a type for the call after it, and its operand is a type. -/
theorem Opcode.operand_of_isConstrained {page : Page} {byte : UInt8} {op : Opcode}
    (defined : lookup? page byte = some op) (constrained : op.isConstrained = true) :
    op.operand = .type := by
  have table : ∀ op ∈ (rows page).toList, op.isConstrained = true → op.operand = .type := by
    cases page <;> decide +kernel
  exact table op (mem_rows_of_lookup? defined) constrained

namespace Chunk

variable {ctx : Context} {starts : List Nat} {c : Chunk} {o : Operand}

/-- A chunk that denotes something has a token that stands for a member, if it is to name one. -/
theorem Denotes.member (denotes : c.Denotes ctx starts o)
    (names : c.opcode.operand.namesMember = true) : ∃ m, ctx.member c.token = .ok m := by
  cases hkind : c.opcode.operand <;> rw [hkind] at names <;> simp only [Denotes, hkind] at denotes
  case field | method | type =>
    obtain ⟨x, hx, -⟩ := denotes
    exact ⟨_, hx⟩
  case anyMember =>
    rcases denotes with ⟨x, hx, -⟩ | ⟨x, hx, -⟩ | ⟨x, hx, -⟩ | ⟨x, hx, -⟩ | ⟨x, hx, -⟩
    all_goals exact ⟨_, hx⟩
  all_goals contradiction

/-- The token of a chunk is the one that stands in the code. -/
theorem token_eq_tokenOf {cs : List Chunk} (tiles : Tiles 0 ctx.code cs) (hc : c ∈ cs)
    (names : c.opcode.operand.namesMember = true) (index count : Nat) (o : Operand) :
    c.token = ctx.tokenOf (c.instruction index count o) := by
  obtain ⟨after, hafter⟩ := tiles.drop_payload_of_mem hc
  have width : c.payload.length = 4 := by
    obtain ⟨plain, four⟩ := OperandKind.size?_of_namesMember names
    have size := (tiles.complete_of_mem hc).framed.size? plain
    exact Option.some.inj (size.symm.trans four)
  have operand : ctx.numberAt (c.offset + c.opcode.size) 4 = LittleEndian.value c.payload := by
    rw [Context.numberAt, hafter, ← width, List.take_left]
  rw [token, Context.tokenOf, instruction, operand]

/-- Decoded or not, a chunk names the same type for the call after it. -/
theorem constraintOf_eq_constraint? {m : Member} (complete : c.Complete)
    (denotes : c.Denotes ctx starts o) (hm : ctx.member c.token = .ok m) (index count : Nat) :
    Trail.constraintOf c m = (c.instruction index count o).constraint? := by
  cases constrained : c.opcode.isConstrained with
  | true =>
    have kind := Opcode.operand_of_isConstrained complete.defined constrained
    simp only [Denotes, kind] at denotes
    obtain ⟨u, hu, rfl⟩ := denotes
    obtain rfl := Except.ok.inj (hm.symm.trans hu)
    rfl
  | false =>
    have none_before : Trail.constraintOf c m = none := by
      cases m <;> simp [Trail.constraintOf, constrained]
    have none_after : (c.instruction index count o).constraint? = none := by
      cases o <;> simp [Instruction.constraint?, instruction, constrained]
    rw [none_before, none_after]

theorem constraint?_of_not_namesMember (complete : c.Complete)
    (names : c.opcode.operand.namesMember = false) (index count : Nat) (o : Operand) :
    (c.instruction index count o).constraint? = none := by
  have unconstrained : c.opcode.isConstrained = false := by
    rw [← Bool.not_eq_true]
    intro constrained
    rw [Opcode.operand_of_isConstrained complete.defined constrained] at names
    exact nomatch names
  cases o <;> simp [Instruction.constraint?, instruction, unconstrained]

end Chunk

/-- The type that the instruction before an index names. -/
def Listing.constraintAt (l : Listing) : Nat → Option TypeDef
  | 0 => none
  | i + 1 => (l.get? i).bind Instruction.constraint?

theorem Listing.Reads.bind_previous? {ctx : Context} {cs : List Chunk} {l : Listing}
    (reads : l.Reads ctx cs) {i : Nat} {x : Instruction} (hx : l.get? i = some x) :
    (l.previous? x).bind Instruction.constraint? = l.constraintAt i := by
  cases i with
  | zero => rw [reads.previous?_of_first hx]; rfl
  | succ i => rw [reads.previous?_of_succ hx]; rfl

namespace Trail

variable {t : TypeTable} {ctx : Context} {cs : List Chunk} {l : Listing}

/-- One chunk of a body that decodes adds to a trail what the instruction gives to search for. -/
theorem ofChunks_cons (tiles : Tiles 0 ctx.code cs) (reads : l.Reads ctx cs) {i : Nat} {c : Chunk}
    (hc : cs[i]? = some c) (fault : Option Fault) (rest : List Chunk) :
    ∃ (x : Instruction) (new : List Sighting), l.get? i = some x ∧
      new.filterMap Sighting.member? = l.candidatesAt t ctx x ∧
      ofChunks t ctx fault (l.constraintAt i) (c :: rest) =
        (ofChunks t ctx fault (l.constraintAt (i + 1)) rest).behind new := by
  obtain ⟨o, hx, denotes⟩ := reads.instruction i c hc
  have hmem := List.mem_of_getElem? hc
  have complete := tiles.complete_of_mem hmem
  have next : l.constraintAt (i + 1) = (c.instruction i cs.length o).constraint? := by
    rw [Listing.constraintAt, hx]
    rfl
  cases names : c.opcode.operand.namesMember with
  | true =>
    obtain ⟨m, hm⟩ := denotes.member names
    have token := Chunk.token_eq_tokenOf tiles hmem names i cs.length o
    refine ⟨_, sight t ctx.resolver c.offset (l.constraintAt i) m, hx, ?_, ?_⟩
    · have resolved : ctx.member (ctx.tokenOf (c.instruction i cs.length o)) = .ok m := token ▸ hm
      have named : (c.instruction i cs.length o).opcode.operand.namesMember = true := names
      rw [filterMap_sight, Listing.candidatesAt, if_pos named, resolved]
      dsimp only
      rw [reads.bind_previous? hx]
    · rw [ofChunks, if_pos names, hm, next,
        ← Chunk.constraintOf_eq_constraint? complete denotes hm i cs.length]
  | false =>
    have unnamed : ¬ c.opcode.operand.namesMember = true := by
      rw [names]
      exact Bool.false_ne_true
    refine ⟨_, [], hx, ?_, ?_⟩
    · rw [Listing.candidatesAt, Chunk.instruction, if_neg unnamed]
      rfl
    · rw [ofChunks, if_neg unnamed, next,
        Chunk.constraint?_of_not_namesMember complete names i cs.length o]
      rfl

/-- The trail of chunks from an index on. -/
theorem ofChunks_of_reads (tiles : Tiles 0 ctx.code cs) (reads : l.Reads ctx cs)
    (fault : Option Fault) (rest : List Chunk) (i : Nat) (hrest : cs.drop i = rest) :
    (ofChunks t ctx fault (l.constraintAt i) rest).fault = fault ∧
      (ofChunks t ctx fault (l.constraintAt i) rest).sightings.filterMap Sighting.member? =
        (l.instructions.toList.drop i).flatMap (l.candidatesAt t ctx) := by
  induction rest generalizing i with
  | nil =>
    have past : l.instructions.toList.drop i = [] := by
      have size : l.instructions.toList.length = cs.length := by
        rw [Array.length_toList]
        exact reads.size
      rw [List.drop_eq_nil_iff, size]
      exact List.drop_eq_nil_iff.1 hrest
    simp [ofChunks, past]
  | cons c rest ih =>
    have hc : cs[i]? = some c := by rw [← List.head?_drop, hrest]; rfl
    have hrest' : cs.drop (i + 1) = rest := by rw [← List.tail_drop, hrest]; rfl
    obtain ⟨x, new, hx, hnew, hcons⟩ := ofChunks_cons (t := t) tiles reads hc fault rest
    have step : l.instructions.toList.drop i = x :: l.instructions.toList.drop (i + 1) := by
      obtain ⟨hlt, rfl⟩ := Array.getElem?_eq_some_iff.1 hx
      exact List.drop_eq_getElem_cons (by simpa using hlt)
    obtain ⟨hfault, hsightings⟩ := ih (i + 1) hrest'
    rw [hcons]
    refine ⟨hfault, ?_⟩
    rw [behind, List.filterMap_append, hsightings, step, List.flatMap_cons, hnew]

/-- The trail of a body that decodes has no fault, and its members are the candidates of the
listing. -/
theorem ofContext_of_decode (decoded : ctx.decode = .ok l) :
    (ofContext t ctx).fault = none ∧
      (ofContext t ctx).sightings.filterMap Sighting.member? = l.candidates t ctx := by
  obtain ⟨cs, tiles, reads⟩ := Context.decode_eq_ok_iff.1 decoded
  rw [ofContext, Cut.ofCode_eq_iff.2 tiles]
  exact ofChunks_of_reads tiles reads none cs 0 rfl

end Trail

/-- The tokens that name members in a listing stand for members. -/
theorem Listing.member_of_decode {ctx : Context} {l : Listing} (decoded : ctx.decode = .ok l)
    {x : Instruction} (hx : x ∈ l.instructions) (names : x.opcode.operand.namesMember = true) :
    ∃ m, ctx.member (ctx.tokenOf x) = .ok m := by
  obtain ⟨cs, tiles, reads⟩ := Context.decode_eq_ok_iff.1 decoded
  obtain ⟨i, hi⟩ := Array.getElem?_of_mem hx
  obtain ⟨c, o, hc, rfl, denotes⟩ := reads.chunk hi
  rw [← Chunk.token_eq_tokenOf tiles (List.mem_of_getElem? hc) names i cs.length o]
  exact denotes.member names

namespace Search

/-- A place in code that chunks tile, before one of them or behind the last. -/
def Between (code : List UInt8) (cs : List Chunk) (c : Cursor) : Prop :=
  ∃ front before rest, code = front ++ c.rest ∧ c.pos = front.length ∧ cs = before ++ rest ∧
    Tiles c.pos c.rest rest

/-- A search goes from chunk to chunk. -/
theorem Between.visit {t : TypeTable} {ctx : Context} {mode : SearchMode} {p p' : Pursuit}
    {cs : List Chunk} {c after : Cursor} (between : Between ctx.code cs c)
    (visited : visit t ctx mode p c = .ok (p', after)) : Between ctx.code cs after := by
  obtain ⟨pos, code⟩ := c
  obtain ⟨front, before, rest, hcode, hpos, rfl, tiles⟩ := between
  dsimp only at hcode hpos tiles
  cases tiles with
  | nil =>
    have shorter := length_rest_of_visit visited
    simp at shorter
  | @cons d code rest complete others =>
    have read : Chunk.read ⟨d.offset, d.bytes ++ code⟩ = .ok (d, ⟨d.stop, code⟩) :=
      Chunk.read_eq_ok_iff.2 ⟨complete, rfl, rfl, rfl⟩
    obtain ⟨rfl, -⟩ := visited_of_read read visited
    refine ⟨front ++ d.bytes, before ++ [d], rest, ?_, ?_, ?_, others⟩
    · rw [hcode, List.append_assoc]
    · rw [List.length_append, Chunk.length_bytes, ← hpos, Chunk.stop]
    · rw [List.append_assoc, List.singleton_append]

theorem Reached.between {t : TypeTable} {ctx : Context} {mode : SearchMode} {rules : List Rule}
    {p : Pursuit} {c : Cursor} (reached : Reached t ctx mode rules p c) {cs : List Chunk}
    (tiles : Tiles 0 ctx.code cs) : Between ctx.code cs c := by
  induction reached with
  | start => exact ⟨[], [], cs, rfl, rfl, rfl, tiles⟩
  | step _ visited ih => exact ih.visit visited

/-- Wherever a search of a body that decodes comes, an instruction starts there or the code ends. -/
theorem Reached.at_instruction {t : TypeTable} {ctx : Context} {mode : SearchMode}
    {rules : List Rule} {p : Pursuit} {c : Cursor} (reached : Reached t ctx mode rules p c)
    {l : Listing} (decoded : ctx.decode = .ok l) :
    c.rest = [] ∨ ∃ x ∈ l.instructions, x.offset = c.pos ∧ c.rest = ctx.code.drop x.offset := by
  obtain ⟨cs, tiles, reads⟩ := Context.decode_eq_ok_iff.1 decoded
  obtain ⟨front, before, rest, hcode, hpos, rfl, behind⟩ := reached.between tiles
  cases rest with
  | nil => exact .inl (behind.eq_nil_iff.1 rfl)
  | cons d rest =>
    have hd : (before ++ d :: rest)[before.length]? = some d := by simp
    obtain ⟨o, hx, -⟩ := reads.instruction _ d hd
    have hoffset := behind.offset_of_cons
    refine .inr ⟨_, Array.mem_of_getElem? hx, hoffset, ?_⟩
    have start : (d.instruction before.length (before ++ d :: rest).length o).offset =
        front.length := hoffset.trans hpos
    rw [start, hcode, List.drop_left]

/-- Searching a body that decodes is a query over the candidates of its listing: it goes from
instruction to instruction, it gives an answer, and the answer is whether the candidates satisfy the
rules. -/
theorem run_eq_query_of_decode (t : TypeTable) (ctx : Context) (l : Listing)
    (decoded : ctx.decode = .ok l) (mode : SearchMode) (rules : List Rule) (nonempty : rules ≠ [])
    (one : mode = .single → rules.length = 1) :
    (∀ x ∈ l.instructions, x.opcode.operand.namesMember = true →
      ∃ m, ctx.member (ctx.tokenOf x) = .ok m) ∧
    (∀ p c, Reached t ctx mode rules p c →
      c.rest = [] ∨ ∃ x ∈ l.instructions, x.offset = c.pos ∧ c.rest = ctx.code.drop x.offset) ∧
    ∃ b, (run t ctx mode rules).answer = .ok b ∧
      (b = true ↔ mode.Satisfied t ctx.resolver rules (l.candidates t ctx)) := by
  refine ⟨fun x hx names => Listing.member_of_decode decoded hx names,
    fun p c reached => reached.at_instruction decoded, ?_⟩
  obtain ⟨hfault, hcandidates⟩ := Trail.ofContext_of_decode (t := t) decoded
  obtain ⟨yes, no⟩ := answer_run t ctx nonempty one
  rw [hcandidates] at yes no
  by_cases satisfied : mode.Satisfied t ctx.resolver rules (l.candidates t ctx)
  · exact ⟨true, yes satisfied, iff_of_true rfl satisfied⟩
  · refine ⟨false, ?_, iff_of_false nofun satisfied⟩
    rw [no satisfied, hfault]
    rfl

namespace Dispatching

/-- A structure with a method of its own. -/
def shape : TypeDef := ⟨⟨0⟩, ⟨0x02000001⟩, "", "Shape", 0⟩

/-- The method that the interface declares. -/
def called : Method := ⟨⟨0x06000002⟩, "Draw", ⟨1⟩, ⟨1⟩, ⟨0x40⟩, #[]⟩

/-- The method that the structure has under the same name. -/
def landed : Method := ⟨⟨0x06000001⟩, "Draw", ⟨0⟩, ⟨0⟩, ⟨0x40⟩, #[]⟩

def types : TypeTable :=
  ⟨#[some { head := shape, methods := #[landed] },
    some { head := ⟨⟨1⟩, ⟨0x02000002⟩, "", "IDraw", 0x20⟩, methods := #[called] }]⟩

/-- A call of the interface's method, constrained to the structure. -/
def body : Context where
  code := [0xFE, 0x16, 0x01, 0x00, 0x00, 0x02, 0x6F, 0x02, 0x00, 0x00, 0x06, 0x2A]
  resolver :=
    { member := fun token _ =>
        if token = ⟨0x02000001⟩ then .ok (.type shape) else .ok (.method called)
      string := fun token => .error (.unresolved token .noString)
      signature := fun token => .error (.unresolved token .noSignature)
      membersNamed := fun type name => .ok (types.membersNamed type.id name) }

/-- A rule for the structure's method, which does not stand in the code. -/
def rule : Rule := { target := .method landed, config := .exact }

end Dispatching

theorem run_eq_query_of_decode_dispatching :
    ∃ l, Dispatching.body.decode = .ok l ∧ [Dispatching.rule] ≠ [] ∧
      (SearchMode.single = .single → [Dispatching.rule].length = 1) ∧
      l.candidates Dispatching.types Dispatching.body =
        [.type Dispatching.shape, .method Dispatching.called, .method Dispatching.landed] ∧
      (run Dispatching.types Dispatching.body .single [Dispatching.rule]).answer = .ok true := by
  have decoded : Dispatching.body.decode =
      .ok (Dispatching.body.decode.toOption.getD ⟨#[]⟩) := by decide +kernel
  have candidates : (Dispatching.body.decode.toOption.getD ⟨#[]⟩).candidates
      Dispatching.types Dispatching.body =
        [.type Dispatching.shape, .method Dispatching.called, .method Dispatching.landed] := by
    decide +kernel
  have satisfied : SearchMode.single.Satisfied Dispatching.types Dispatching.body.resolver
      [Dispatching.rule]
      [.type Dispatching.shape, .method Dispatching.called, .method Dispatching.landed] :=
    ⟨Dispatching.rule, by decide, .method Dispatching.landed, by decide, by decide +kernel⟩
  obtain ⟨-, -, b, answer, yes_iff⟩ := run_eq_query_of_decode Dispatching.types Dispatching.body _
    decoded .single [Dispatching.rule] (by decide) (by decide)
  rw [candidates] at yes_iff
  refine ⟨_, decoded, by decide, by decide, candidates, ?_⟩
  rw [answer, yes_iff.2 satisfied]

end Search

end Cil
