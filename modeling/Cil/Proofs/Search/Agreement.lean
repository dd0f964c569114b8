import Cil.Proofs.Body.FirstFault
import Cil.Proofs.Search.Candidates
import Cil.Proofs.Search.Decomposition

/-!
# How searches fail

A search fails with the first member token that does not resolve, or else where the code cannot be
cut. Which members a type lists and where constrained calls land decide how far a search goes, but
never what it fails with. So it fails only on bodies that do not decode, and where decoding ends
with a fault of the encoding, a search that comes so far ends with the same fault.
-/

namespace Cil

namespace Context

variable (ctx : Context)

/-- The fault of the token of a chunk that names a member, if it does not resolve. -/
def memberFault? (c : Chunk) : Option Fault :=
  if c.opcode.operand.namesMember then
    match ctx.member c.token with
    | .ok _ => none
    | .error fault => some fault
  else none

/-- The fault that a search can come to: that of the first member token that does not resolve, or
else the one where the cut ends. -/
def searchFault? : Option Fault :=
  let cut := Cut.ofCode ctx.code
  (cut.chunks.toList.findSome? ctx.memberFault?).or cut.fault

/-- The body among types that list their members in another way. -/
def listingBy (membersNamed : TypeDef → String → Except Fault (List Member)) : Context :=
  { ctx with resolver := { ctx.resolver with membersNamed } }

variable {ctx}

theorem memberFault?_eq_some_iff {c : Chunk} {fault : Fault} :
    ctx.memberFault? c = some fault ↔
      c.opcode.operand.namesMember = true ∧ ctx.member c.token = .error fault := by
  cases names : c.opcode.operand.namesMember <;> cases member : ctx.member c.token <;>
    simp [memberFault?, names, member]

theorem memberFault?_eq_none_iff {c : Chunk} :
    ctx.memberFault? c = none ↔
      (c.opcode.operand.namesMember = true → ∃ m, ctx.member c.token = .ok m) := by
  cases names : c.opcode.operand.namesMember <;> cases member : ctx.member c.token <;>
    simp [memberFault?, names, member]

/-- What a search fails with does not depend on the members that types list. -/
theorem searchFault?_listingBy (membersNamed : TypeDef → String → Except Fault (List Member)) :
    (ctx.listingBy membersNamed).searchFault? = ctx.searchFault? := rfl

end Context

/-- A chunk that makes sense so far has a token that stands for a member, if it is to name one. -/
theorem Chunk.memberFault?_of_operand {ctx : Context} {before : Array Instruction} {c : Chunk}
    {o : Operand} (read : c.operand ctx before = .ok o) : ctx.memberFault? c = none := by
  refine Context.memberFault?_eq_none_iff.2 fun names => ?_
  have plain : c.opcode.operand.isJump = false := by
    cases hkind : c.opcode.operand <;> rw [hkind] at names <;> first | rfl | cases names
  exact ((operand_eq_ok_iff plain before []).1 read).member names

theorem Draft.Follows.memberFault? {ctx : Context} {cs : List Chunk} {d : Draft}
    (follows : Follows ctx cs d) : cs.findSome? ctx.memberFault? = none := by
  refine List.findSome?_eq_none_iff.2 fun c hc => ?_
  obtain ⟨i, hi⟩ := List.getElem?_of_mem hc
  obtain ⟨o, read, -⟩ := follows.read i c hi
  exact Chunk.memberFault?_of_operand read

namespace Trail

variable (t : TypeTable) (ctx : Context)

/-- The trail of chunks ends at the first member token that does not resolve. -/
theorem fault_ofChunks (fault : Option Fault) (cs : List Chunk) (constraint : Option TypeDef) :
    (ofChunks t ctx fault constraint cs).fault = (cs.findSome? ctx.memberFault?).or fault := by
  induction cs generalizing constraint with
  | nil => rfl
  | cons c cs ih =>
    rw [ofChunks, List.findSome?_cons, Context.memberFault?]
    split
    · cases ctx.member c.token with
      | error fault' => rfl
      | ok m => exact ih _
    · exact ih _

theorem fault_ofContext : (ofContext t ctx).fault = ctx.searchFault? := fault_ofChunks ..

end Trail

namespace Context

variable {ctx : Context} {fault : Fault}

/-- A search can come to a fault of the encoding, or to a member token at the front of the code that
does not resolve. -/
theorem ofEncoding_or_member_of_searchFault? (found : ctx.searchFault? = some fault) :
    fault.ofEncoding = true ∨
      ∃ front rest cs c, ctx.code = front ++ rest ∧ Tiles 0 front cs ∧ c ∈ cs ∧
        c.opcode.operand.namesMember = true ∧ ctx.member c.token = .error fault := by
  rw [searchFault?, Option.or_eq_some_iff] at found
  rcases found with unresolved | ⟨-, ended⟩
  · obtain ⟨front, rest, hcode, tiles, -⟩ := Cut.ofCode_front ctx.code
    obtain ⟨c, hc, unresolved⟩ := List.exists_of_findSome?_eq_some unresolved
    obtain ⟨names, failed⟩ := memberFault?_eq_some_iff.1 unresolved
    exact .inr ⟨front, rest, _, c, hcode, tiles, hc, names, failed⟩
  · exact .inl (Cut.ofEncoding_of_ofCode ended)

/-- Where decoding ends with a fault of the encoding, so does a search that comes so far. -/
theorem searchFault?_of_decode (fails : ctx.resolver.FailsByToken)
    (failed : ctx.decode = .error fault) (encoding : fault.ofEncoding = true) :
    ctx.searchFault? = some fault := by
  obtain ⟨ended, d, drafted⟩ := cut_of_decode_ofEncoding fails failed encoding
  rw [searchFault?, (Draft.follows_of_foldlM drafted).memberFault?, ended]
  rfl

end Context

namespace Search

variable {t : TypeTable} {ctx : Context} {mode : SearchMode} {rules : List Rule}

/-- A search says whether its rules are satisfied, unless it comes to the fault of the body. -/
theorem answer_run_eq_error (nonempty : rules ≠ []) (one : mode = .single → rules.length = 1)
    {fault : Fault} (failed : (run t ctx mode rules).answer = .error fault) :
    ctx.searchFault? = some fault := by
  have other : Except.error fault ≠ .ok true := nofun
  obtain ⟨-, ends⟩ := (answer_run_eq_iff_of_ne_true mode nonempty one other).1 failed
  rw [← Trail.fault_ofContext t]
  cases h : (Trail.ofContext t ctx).fault with
  | none =>
    rw [h] at ends
    cases ends
  | some fault' =>
    rw [h] at ends
    cases ends
    rfl

/-- Searching fails as decoding does. Where decoding ends with a fault of the encoding, a search
says yes or ends with the same fault. A search that fails does so on a body that does not decode,
and with a fault of the encoding or of a member token. No listing of members has a part in it: any
two searches of the body that fail do so with the same fault, whatever types list and wherever
constrained calls land. -/
theorem run_fails_as_decode (t : TypeTable) (ctx : Context) (mode : SearchMode)
    (rules : List Rule) (nonempty : rules ≠ []) (one : mode = .single → rules.length = 1) :
    (ctx.resolver.FailsByToken → ∀ fault, ctx.decode = .error fault → fault.ofEncoding = true →
      (run t ctx mode rules).answer = .ok true ∨
        (run t ctx mode rules).answer = .error fault) ∧
    ∀ fault, (run t ctx mode rules).answer = .error fault →
      (∃ fault', ctx.decode = .error fault') ∧
      (fault.ofEncoding = true ∨
        ∃ front rest cs c, ctx.code = front ++ rest ∧ Tiles 0 front cs ∧ c ∈ cs ∧
          c.opcode.operand.namesMember = true ∧ ctx.member c.token = .error fault) ∧
      ∀ t' listing mode' rules' fault', rules' ≠ [] → (mode' = .single → rules'.length = 1) →
        (run t' (ctx.listingBy listing) mode' rules').answer = .error fault' → fault' = fault := by
  refine ⟨fun fails fault failed encoding => ?_, fun fault failed => ?_⟩
  · have found := Context.searchFault?_of_decode fails failed encoding
    obtain ⟨yes, no⟩ := answer_run t ctx nonempty one
    by_cases satisfied : mode.Satisfied t ctx.resolver rules (ctx.sighted t)
    · exact .inl (yes satisfied)
    · refine .inr ((no satisfied).trans ?_)
      rw [Trail.fault_ofContext, found]
      rfl
  · have found := answer_run_eq_error nonempty one failed
    refine ⟨?_, Context.ofEncoding_or_member_of_searchFault? found, ?_⟩
    · cases decoded : ctx.decode with
      | error fault' => exact ⟨fault', rfl⟩
      | ok l =>
        have faultless := (Trail.ofContext_of_decode (t := t) decoded).1
        rw [Trail.fault_ofContext, found] at faultless
        cases faultless
    · intro t' listing mode' rules' fault' nonempty' one' failed'
      have found' := answer_run_eq_error nonempty' one' failed'
      rw [Context.searchFault?_listingBy, found] at found'
      exact (Option.some.inj found').symm

theorem CutShort.failsByToken : CutShort.body.resolver.FailsByToken where
  member token args fault failed := by
    have failed : (if token = ⟨0x06000001⟩ then .ok (Member.method called)
      else .error (.unresolved token .noMember)) = Except.error fault := failed
    split at failed
    · cases failed
    · cases failed
      rfl
  string _ _ failed := by cases failed; rfl
  signature _ _ failed := by cases failed; rfl

theorem run_fails_as_decode_cutShort :
    CutShort.body.resolver.FailsByToken ∧ [CutShort.miss] ≠ [] ∧
      (SearchMode.single = .single → [CutShort.miss].length = 1) ∧
      CutShort.body.decode = .error (.unknownOpcode 5 0x24) ∧
      (run CutShort.types CutShort.body .single [CutShort.miss]).answer =
        .error (.unknownOpcode 5 0x24) := by
  have decoded : CutShort.body.decode = .error (.unknownOpcode 5 0x24) := by decide +kernel
  have unhit : (run CutShort.types CutShort.body .single [CutShort.miss]).answer ≠ .ok true := by
    decide +kernel
  obtain ⟨agree, -⟩ := run_fails_as_decode CutShort.types CutShort.body .single [CutShort.miss]
    (List.cons_ne_nil _ _) (fun _ => rfl)
  have failed := (agree CutShort.failsByToken _ decoded rfl).resolve_left unhit
  exact ⟨CutShort.failsByToken, List.cons_ne_nil _ _, fun _ => rfl, decoded, failed⟩

end Search

end Cil
