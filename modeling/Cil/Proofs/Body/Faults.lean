import Cil.Proofs.Body.Drafting

/-!
# Faults of a body

A body fails to decode where its code cannot be cut, where a chunk makes no sense in it, or where a
jump that waits leads to no instruction. Some faults are of the encoding, and some of tokens; a
resolver that keeps to its own fails only with the latter.
-/

namespace Cil

open Fallible

namespace Fault

/-- The faults of the encoding: bytes that select no opcode, and code that ends inside an
instruction. -/
def ofEncoding : Fault → Bool
  | unknownOpcode .. | truncated .. => true
  | _ => false

/-- The faults of tokens that do not resolve. -/
def ofToken : Fault → Bool
  | unresolved .. => true
  | _ => false

theorem not_ofEncoding_of_ofToken {fault : Fault} (token : fault.ofToken = true) :
    fault.ofEncoding = false := by
  cases fault with
  | unresolved => rfl
  | _ => cases token

end Fault

/-- A resolver that fails only because a token does not resolve. -/
structure Resolver.FailsByToken (r : Resolver) : Prop where
  member : ∀ token args fault, r.member token args = .error fault → fault.ofToken = true
  string : ∀ token fault, r.string token = .error fault → fault.ofToken = true
  signature : ∀ token fault, r.signature token = .error fault → fault.ofToken = true

/-- No opcode has an operand of the reserved kind. -/
theorem Opcode.operand_ne_phi_of_lookup? {page : Page} {byte : UInt8} {op : Opcode}
    (defined : lookup? page byte = some op) : op.operand ≠ .phi := by
  have table : ∀ row ∈ (rows page).toList, row.operand ≠ .phi := by
    cases page <;> decide +kernel
  exact table op (mem_rows_of_lookup? defined)

namespace Draft

theorem add_eq_error_iff {ctx : Context} {d : Draft} {c : Chunk} {fault : Fault} :
    add ctx d c = .error fault ↔ c.operand ctx d.instructions = .error fault := by
  rw [add, bind_pure_eq_error_iff]

end Draft

namespace Context

theorem draft_eq_error_iff {ctx : Context} {fault : Fault} :
    ctx.draft = .error fault ↔
      (Cut.ofCode ctx.code).chunks.toList.foldlM (Draft.add ctx) {} = .error fault ∨
        ∃ d, (Cut.ofCode ctx.code).chunks.toList.foldlM (Draft.add ctx) {} = .ok d ∧
          (Cut.ofCode ctx.code).fault = some fault := by
  rw [draft_eq, bind_eq_error_iff]
  refine or_congr_right (exists_congr fun d => and_congr_right fun _ => ?_)
  cases (Cut.ofCode ctx.code).fault <;> simp

theorem decode_eq_error_iff {ctx : Context} {fault : Fault} :
    ctx.decode = .error fault ↔
      ctx.draft = .error fault ∨ ∃ d, ctx.draft = .ok d ∧ d.settle = .error fault := by
  rw [decode_eq, bind_eq_error_iff]

end Context

end Cil
