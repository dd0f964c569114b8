import Cil.Bytes.Cursor
import Cil.Bytes.Scalar
import Cil.Fault
import Cil.Opcode.Lookup

/-!
# Reading code

The reads of which decoding and searching are made. Each belongs to the instruction that starts at
`offset`, and a read that asks for more bytes than follow is the fault of that instruction.
-/

namespace Cil.Cursor

def fetch (type : ScalarType) (offset : Nat) (c : Cursor) : Except Fault (type.Value × Cursor) :=
  match c.take? type.size with
  | some (taken, after) => .ok (type.ofBits (LittleEndian.value taken), after)
  | none => .error (.truncated offset type.size c.remaining)

def skip (needed offset : Nat) (c : Cursor) : Except Fault Cursor :=
  if c.remaining < needed then .error (.truncated offset needed c.remaining)
  else .ok ⟨c.pos + needed, c.rest.drop needed⟩

def opcode (offset : Nat) (c : Cursor) : Except Fault (Selection × Cursor) :=
  match c.fetch .u8 offset with
  | .error fault => .error fault
  | .ok (first, c) =>
    if first = extendedLead then
      match c.fetch .u8 offset with
      | .error fault => .error fault
      | .ok (second, c) =>
        match Opcode.lookup? .extended second with
        | some op => .ok (⟨op, second⟩, c)
        | none => .error (.unknownOpcode offset (0xFE00 + second.toNat))
    else
      match Opcode.lookup? .single first with
      | some op => .ok (⟨op, first⟩, c)
      | none => .error (.unknownOpcode offset first.toNat)

/-- The number of entries of a switch table, all of which must follow. -/
def switchCount (offset : Nat) (c : Cursor) : Except Fault (Nat × Cursor) :=
  match c.fetch .u32 offset with
  | .error fault => .error fault
  | .ok (count, c) =>
    let needed := 4 * count.toNat
    if c.remaining < needed then .error (.truncated offset needed c.remaining)
    else .ok (count.toNat, c)

def entries (offset : Nat) : Nat → Cursor → Except Fault (List Int32 × Cursor)
  | 0, c => .ok ([], c)
  | count + 1, c =>
    match c.fetch .i32 offset with
    | .error fault => .error fault
    | .ok (raw, c) =>
      match entries offset count c with
      | .error fault => .error fault
      | .ok (raws, c) => .ok (raw :: raws, c)

variable {offset : Nat} {c after : Cursor}

theorem length_rest_of_take? {n : Nat} {taken : List UInt8}
    (h : c.take? n = some (taken, after)) : after.rest.length + n = c.rest.length := by
  dsimp only [take?] at h
  split at h
  · next enough =>
    cases h
    rw [List.length_take] at enough
    simp only [List.length_drop]
    omega
  · cases h

theorem length_rest_of_fetch {type : ScalarType} {value : type.Value}
    (h : c.fetch type offset = .ok (value, after)) :
    after.rest.length + type.size = c.rest.length := by
  unfold fetch at h
  split at h
  · next taken last htaken =>
    cases h
    exact length_rest_of_take? htaken
  · cases h

theorem length_rest_of_skip {needed : Nat} (h : c.skip needed offset = .ok after) :
    after.rest.length ≤ c.rest.length := by
  unfold skip at h
  split at h
  · cases h
  · cases h
    simp only [List.length_drop]
    omega

/-- An opcode takes at least one byte. -/
theorem length_rest_of_opcode {s : Selection} (h : c.opcode offset = .ok (s, after)) :
    after.rest.length < c.rest.length := by
  unfold opcode at h
  split at h
  · cases h
  next first mid hfirst =>
  have shorter := length_rest_of_fetch hfirst
  dsimp only [ScalarType.size] at shorter
  split at h
  · split at h
    · cases h
    next second last hsecond =>
    have shorter' := length_rest_of_fetch hsecond
    dsimp only [ScalarType.size] at shorter'
    split at h
    · cases h
      omega
    · cases h
  · split at h
    · cases h
      omega
    · cases h

theorem length_rest_of_switchCount {count : Nat} (h : c.switchCount offset = .ok (count, after)) :
    after.rest.length ≤ c.rest.length := by
  unfold switchCount at h
  split at h
  · cases h
  next value mid hvalue =>
  have shorter := length_rest_of_fetch hvalue
  dsimp only at h
  split at h
  · cases h
  · cases h
    omega

theorem length_rest_of_entries {count : Nat} {raws : List Int32}
    (h : entries offset count c = .ok (raws, after)) : after.rest.length ≤ c.rest.length := by
  induction count generalizing c raws with
  | zero =>
    cases h
    exact Nat.le_refl _
  | succ count ih =>
    rw [entries] at h
    split at h
    · cases h
    next raw mid hraw =>
    have shorter := length_rest_of_fetch hraw
    split at h
    · cases h
    next raws last hraws =>
    cases h
    have shorter' := ih hraws
    omega

end Cil.Cursor
