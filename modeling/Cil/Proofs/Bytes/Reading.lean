import Cil.Bytes.Cursor
import Cil.Bytes.Reader

/-!
# Reading on machine words

The three kinds of steps guard themselves in three ways: by a difference that stops at zero, by a
sum that must be a word, and by the number of bytes that a value takes. All of them draw the line at
the same place, where the requested bytes end behind the buffer. So a reader that starts inside its
buffer stays there, whatever it is asked for, and the steps that succeed take the buffer apart.
-/

namespace Cil

namespace Word

theorem toNat_monus (a b : UInt64) : (monus a b).toNat = a.toNat - b.toNat := by
  rw [monus]
  split
  next le => exact UInt64.toNat_sub_of_le a b le
  next more =>
    rw [UInt64.le_iff_toNat_le] at more
    have zero : a.toNat - b.toNat = 0 := by omega
    rw [zero]
    rfl

/-- A sum that is a word is the sum of the numbers. -/
theorem toNat_add {a b : UInt64} (fits : a.toNat + b.toNat < UInt64.size) :
    (a + b).toNat = a.toNat + b.toNat := by
  rw [UInt64.toNat_add]
  exact Nat.mod_eq_of_lt fits

end Word

namespace Buffer

theorem toNat_length (b : Buffer) : b.length.toNat = b.bytes.length :=
  UInt64.toNat_ofNat_of_lt' b.fits

/-- The sum of a position and a count that end inside a buffer. -/
theorem toNat_add (b : Buffer) {position count : UInt64}
    (inside : position.toNat + count.toNat ≤ b.bytes.length) :
    (position + count).toNat = position.toNat + count.toNat :=
  Word.toNat_add (Nat.lt_of_le_of_lt inside b.fits)

theorem slice?_add (b : Buffer) {position count : UInt64}
    (inside : position.toNat + count.toNat ≤ b.bytes.length) :
    b.slice? position (position + count) =
      some ((b.bytes.drop position.toNat).take count.toNat) := by
  have stop := b.toNat_add inside
  have ordered : position ≤ position + count := by
    rw [UInt64.le_iff_toNat_le]
    omega
  have within : position + count ≤ b.length := by
    rw [UInt64.le_iff_toNat_le, b.toNat_length]
    omega
  rw [slice?, if_pos ⟨ordered, within⟩, stop, Nat.add_sub_cancel_left]

theorem length_take_drop (b : Buffer) {start count : Nat}
    (inside : start + count ≤ b.bytes.length) :
    ((b.bytes.drop start).take count).length = count := by
  rw [List.length_take, List.length_drop]
  omega

end Buffer

/-! ## Values at an offset -/

theorem ScalarType.toNat_size (type : ScalarType) : (UInt64.ofNat type.size).toNat = type.size := by
  cases type <;> rfl

namespace Scalar

variable {type : ScalarType} {buffer : Buffer} {offset : UInt64}

theorem readAt_of_le (inside : offset.toNat + type.size ≤ buffer.bytes.length) :
    readAt type buffer offset = some
      ⟨.ok (ofNat (LittleEndian.value ((buffer.bytes.drop offset.toNat).take type.size)) type),
        offset + UInt64.ofNat type.size⟩ := by
  have size := type.toNat_size
  have inside' : offset.toNat + (UInt64.ofNat type.size).toNat ≤ buffer.bytes.length := by omega
  have fits := Nat.lt_of_le_of_lt inside' buffer.fits
  have within : ¬ buffer.length < offset + UInt64.ofNat type.size := by
    rw [UInt64.lt_iff_toNat_lt, buffer.toNat_length, buffer.toNat_add inside']
    omega
  have taken := buffer.slice?_add inside'
  rw [size] at taken
  have width := buffer.length_take_drop inside
  simp only [readAt, Word.add?, if_pos fits, if_neg within, taken, Option.map_some, ofBytes?,
    if_pos width]

theorem readAt_of_lt (outside : buffer.bytes.length < offset.toNat + type.size) :
    readAt type buffer offset = some (.refused offset) := by
  have size := type.toNat_size
  rw [readAt, Word.add?]
  by_cases fits : offset.toNat + (UInt64.ofNat type.size).toNat < UInt64.size
  · have beyond : buffer.length < offset + UInt64.ofNat type.size := by
      rw [UInt64.lt_iff_toNat_lt, buffer.toNat_length, Word.toNat_add fits, size]
      exact outside
    simp only [if_pos fits, if_pos beyond]
  · simp only [if_neg fits]

end Scalar

/-! ## Steps -/

/-- What a step makes of the bytes that it takes. -/
def ReadStep.result (taken : List UInt8) : ReadStep → ReadResult
  | scalar type => .scalar (Scalar.ofNat (LittleEndian.value taken) type)
  | bytes _ => .bytes taken
  | advance _ => .passed

namespace Reader

/-- A reader that is not behind the end of its buffer. From behind the end, a request for no bytes
would pass the guard and look outside. -/
def Inside (r : Reader) : Prop := r.position.toNat ≤ r.buffer.bytes.length

/-- The place of a reader, as a cut of code has it. -/
def cursor (r : Reader) : Cursor := ⟨r.position.toNat, r.buffer.bytes.drop r.position.toNat⟩

theorem inside_start (buffer : Buffer) : (start buffer).Inside := Nat.zero_le _

theorem toNat_remaining (r : Reader) :
    r.remaining.toNat = r.buffer.bytes.length - r.position.toNat := by
  rw [remaining, Word.toNat_monus, r.buffer.toNat_length]

variable {r : Reader} {count : UInt64}

theorem Inside.remaining_lt_iff (inside : r.Inside) :
    r.remaining < count ↔ r.buffer.bytes.length < r.position.toNat + count.toNat := by
  have within : r.position.toNat ≤ r.buffer.bytes.length := inside
  rw [UInt64.lt_iff_toNat_lt, toNat_remaining]
  omega

theorem bytes_of_le (enough : r.position.toNat + count.toNat ≤ r.buffer.bytes.length) :
    r.bytes count = some
      ⟨.ok ((r.buffer.bytes.drop r.position.toNat).take count.toNat), r.position + count⟩ := by
  have inside : r.Inside := Nat.le_trans (Nat.le_add_right ..) enough
  have follow : ¬ r.remaining < count := by
    rw [inside.remaining_lt_iff]
    omega
  simp only [bytes, if_neg follow, r.buffer.slice?_add enough, Option.map_some]

theorem cursor_take?_of_le (enough : r.position.toNat + count.toNat ≤ r.buffer.bytes.length) :
    r.cursor.take? count.toNat = some
      ((r.buffer.bytes.drop r.position.toNat).take count.toNat,
        (r.moveTo (r.position + count)).cursor) := by
  have width := r.buffer.length_take_drop enough
  have stop := r.buffer.toNat_add enough
  simp only [Cursor.take?, cursor, if_pos width, moveTo, stop, List.drop_drop]

end Reader

namespace ReadStep

variable {r : Reader}

/-- A step takes the bytes that it asks for, if they are there. -/
theorem run_of_le (step : ReadStep)
    (enough : r.position.toNat + step.amount.toNat ≤ r.buffer.bytes.length) :
    step.run r = some
      ⟨.ok (step.result ((r.buffer.bytes.drop r.position.toNat).take step.amount.toNat)),
        r.position + step.amount⟩ := by
  cases step with
  | scalar type =>
    have size : (scalar type).amount.toNat = type.size := type.toNat_size
    rw [size] at enough ⊢
    rw [run, Reader.scalar, Scalar.readAt_of_le enough]
    rfl
  | bytes count =>
    have enough : r.position.toNat + count.toNat ≤ r.buffer.bytes.length := enough
    rw [run, Reader.bytes_of_le enough]
    rfl
  | advance count =>
    have inside : r.Inside := Nat.le_trans (Nat.le_add_right ..) enough
    have follow : ¬ r.remaining < count := by
      rw [inside.remaining_lt_iff]
      exact Nat.not_lt.2 enough
    rw [run, Reader.advance, if_neg follow]
    rfl

/-- And it is refused otherwise. -/
theorem run_of_lt (step : ReadStep) (inside : r.Inside)
    (short : r.buffer.bytes.length < r.position.toNat + step.amount.toNat) :
    step.run r = some (.refused r.position) := by
  have guarded : r.remaining < step.amount := inside.remaining_lt_iff.2 short
  cases step with
  | scalar type =>
    have size : (scalar type).amount.toNat = type.size := type.toNat_size
    rw [size] at short
    rw [run, Reader.scalar, Scalar.readAt_of_lt short]
    rfl
  | bytes count =>
    have guarded : r.remaining < count := guarded
    rw [run, Reader.bytes, if_pos guarded]
    rfl
  | advance count =>
    have guarded : r.remaining < count := guarded
    rw [run, Reader.advance, if_pos guarded]
    rfl

end ReadStep

/-! ## Sequences of steps -/

/-- A step, where it was made and how it ended. -/
structure Stage where
  step : ReadStep
  start : UInt64
  reading : Reading ReadResult

/-- The bytes that a step has taken, from where up to where. -/
def Stage.range? (s : Stage) : Option (Nat × Nat) :=
  match s.reading.answer with
  | .ok _ => some (s.start.toNat, s.reading.position.toNat)
  | .error _ => none

/-- Performs steps one after the other, each where the one before has left the reader. -/
def Reader.perform (r : Reader) : List ReadStep → Option (List Stage × Reader)
  | [] => some ([], r)
  | step :: steps => do
    let reading ← step.run r
    let (stages, after) ← (r.moveTo reading.position).perform steps
    return (⟨step, r.position, reading⟩ :: stages, after)

/-- How a step in a buffer may end: it gives what the bytes mean that it asks for, and stands behind
them, or there are not so many, and it stays. -/
structure Stage.Fair (buffer : Buffer) (s : Stage) : Prop where
  inside : s.reading.position.toNat ≤ buffer.bytes.length
  remaining : (Reader.mk buffer s.reading.position).remaining.toNat =
    buffer.length.toNat - s.reading.position.toNat
  fails_iff : s.reading.answer = .error .outOfBounds ↔
    (Reader.mk buffer s.start).remaining < s.step.amount
  stays : ∀ fault, s.reading.answer = .error fault →
    fault = .outOfBounds ∧ s.reading.position = s.start
  consumes : ∀ result, s.reading.answer = .ok result →
    s.reading.position.toNat = s.start.toNat + s.step.amount.toNat
  /-- The cursor of a cut takes the same bytes there. -/
  gives : ∀ result, s.reading.answer = .ok result → ∃ taken,
    (Reader.mk buffer s.start).cursor.take? s.step.amount.toNat =
        some (taken, (Reader.mk buffer s.reading.position).cursor) ∧
      result = s.step.result taken

/-- Ranges that lie one behind the other, from `a` up to `b`. -/
def Joined : Nat → Nat → List (Nat × Nat) → Prop
  | a, b, [] => a = b
  | a, b, range :: ranges => range.1 = a ∧ range.1 ≤ range.2 ∧ Joined range.2 b ranges

/-- What steps make of a reader. -/
structure Reader.Accounts (r : Reader) (steps : List ReadStep) (stages : List Stage)
    (after : Reader) : Prop where
  buffer : after.buffer = r.buffer
  inside : after.Inside
  steps : stages.map Stage.step = steps
  fair : ∀ s ∈ stages, s.Fair r.buffer
  ranges : Joined r.position.toNat after.position.toNat (stages.filterMap Stage.range?)

theorem Joined.le {a b : Nat} {ranges : List (Nat × Nat)} (joined : Joined a b ranges) : a ≤ b := by
  induction ranges generalizing a with
  | nil => exact Nat.le_of_eq joined
  | cons range ranges ih =>
    obtain ⟨rfl, ordered, rest⟩ := joined
    exact Nat.le_trans ordered (ih rest)

/-- The bytes of joined ranges, put together. -/
theorem Joined.flatMap_take {a b : Nat} {ranges : List (Nat × Nat)} (joined : Joined a b ranges)
    (bytes : List UInt8) :
    (ranges.flatMap fun range => (bytes.drop range.1).take (range.2 - range.1)) =
      (bytes.drop a).take (b - a) := by
  induction ranges generalizing a with
  | nil =>
    obtain rfl : a = b := joined
    simp
  | cons range ranges ih =>
    obtain ⟨rfl, ordered, rest⟩ := joined
    have split : b - range.1 = range.2 - range.1 + (b - range.2) := by
      have := rest.le
      omega
    rw [List.flatMap_cons, ih rest, split, List.take_add, List.drop_drop,
      Nat.add_sub_cancel' ordered]

/-- A step that has taken bytes joins them to those that are taken later. -/
theorem Stage.Fair.joined {buffer : Buffer} {s : Stage} (fair : s.Fair buffer) {b : Nat}
    {stages : List Stage}
    (later : Joined s.reading.position.toNat b (stages.filterMap Stage.range?)) :
    Joined s.start.toNat b ((s :: stages).filterMap Stage.range?) := by
  cases answer : s.reading.answer with
  | ok result =>
    have range : s.range? = some (s.start.toNat, s.reading.position.toNat) := by
      rw [range?, answer]
    have ordered : s.start.toNat ≤ s.reading.position.toNat := by
      have := fair.consumes result answer
      omega
    rw [List.filterMap_cons_some range]
    exact ⟨rfl, ordered, later⟩
  | error fault =>
    have range : s.range? = none := by
      rw [range?, answer]
    rw [List.filterMap_cons_none range, ← (fair.stays fault answer).2]
    exact later

namespace Reader

variable {r : Reader}

/-- One step, from inside the buffer. -/
theorem Inside.run (inside : r.Inside) (step : ReadStep) :
    ∃ reading, step.run r = some reading ∧ Stage.Fair r.buffer ⟨step, r.position, reading⟩ := by
  have remaining (position : UInt64) : (Reader.mk r.buffer position).remaining.toNat =
      r.buffer.length.toNat - position.toNat := by
    rw [toNat_remaining, r.buffer.toNat_length]
  by_cases enough : r.position.toNat + step.amount.toNat ≤ r.buffer.bytes.length
  · have stop := r.buffer.toNat_add enough
    have guard : ¬ r.remaining < step.amount := by
      rw [inside.remaining_lt_iff]
      omega
    refine ⟨_, step.run_of_le enough, ?_, remaining _, ?_, ?_, ?_, ?_⟩
    · exact Nat.le_trans (Nat.le_of_eq stop) enough
    · refine ⟨?_, fun less => absurd less guard⟩
      rintro ⟨⟩
    · rintro fault ⟨⟩
    · exact fun _ _ => stop
    · rintro result ⟨⟩
      exact ⟨_, cursor_take?_of_le enough, rfl⟩
  · have short := Nat.lt_of_not_le enough
    refine ⟨_, step.run_of_lt inside short, inside, remaining _, ?_, ?_, ?_, ?_⟩
    · exact ⟨fun _ => inside.remaining_lt_iff.2 short, fun _ => rfl⟩
    · rintro fault ⟨⟩
      exact ⟨rfl, rfl⟩
    · rintro result ⟨⟩
    · rintro result ⟨⟩

/-- Any steps, from inside the buffer. -/
theorem Inside.perform (inside : r.Inside) (steps : List ReadStep) :
    ∃ stages after, r.perform steps = some (stages, after) ∧ r.Accounts steps stages after := by
  induction steps generalizing r with
  | nil => exact ⟨[], r, rfl, rfl, inside, rfl, List.forall_mem_nil _, rfl⟩
  | cons step steps ih =>
    obtain ⟨reading, ran, fair⟩ := inside.run step
    have inside' : (r.moveTo reading.position).Inside := fair.inside
    obtain ⟨stages, after, performed, accounts⟩ := ih inside'
    refine ⟨⟨step, r.position, reading⟩ :: stages, after, ?_, accounts.buffer, accounts.inside,
      ?_, ?_, ?_⟩
    · simp [Reader.perform, ran, performed]
    · rw [List.map_cons, accounts.steps]
    · exact List.forall_mem_cons.2 ⟨fair, accounts.fair⟩
    · exact fair.joined accounts.ranges

/-- Whatever a reader is asked for, it never looks outside its buffer. A step fails exactly if it
asks for more bytes than follow, and stays; otherwise it takes the bytes that it asks for, so that
the steps that succeed take apart what lies before the reader. The same holds of a value at any
offset, where the offset and the size are added as numbers. -/
theorem perform_accounts (buffer : Buffer) (steps : List ReadStep) :
    (∃ stages after, (start buffer).perform steps = some (stages, after) ∧
      (start buffer).Accounts steps stages after ∧
      ((stages.filterMap Stage.range?).flatMap fun range =>
        (buffer.bytes.drop range.1).take (range.2 - range.1)) =
          buffer.bytes.take after.position.toNat) ∧
    ∀ (type : ScalarType) (offset : UInt64), ∃ reading,
      Scalar.readAt type buffer offset = some reading ∧
      (reading.answer = .error .outOfBounds ↔ buffer.bytes.length < offset.toNat + type.size) ∧
      (∀ fault, reading.answer = .error fault → fault = .outOfBounds ∧ reading.position = offset) ∧
      ∀ value, reading.answer = .ok value →
        reading.position.toNat = offset.toNat + type.size := by
  constructor
  · obtain ⟨stages, after, performed, accounts⟩ := (inside_start buffer).perform steps
    exact ⟨stages, after, performed, accounts, accounts.ranges.flatMap_take buffer.bytes⟩
  · intro type offset
    by_cases enough : offset.toNat + type.size ≤ buffer.bytes.length
    · refine ⟨_, Scalar.readAt_of_le enough, ?_, ?_, ?_⟩
      · refine ⟨?_, fun short => absurd enough (Nat.not_le.2 short)⟩
        rintro ⟨⟩
      · rintro fault ⟨⟩
      · intro value _
        have size := type.toNat_size
        rw [← size] at enough
        rw [buffer.toNat_add enough, size]
    · have short := Nat.lt_of_not_le enough
      refine ⟨_, Scalar.readAt_of_lt short, ?_, ?_, ?_⟩
      · exact ⟨fun _ => short, fun _ => rfl⟩
      · rintro fault ⟨⟩
        exact ⟨rfl, rfl⟩
      · rintro value ⟨⟩

end Reader

end Cil
