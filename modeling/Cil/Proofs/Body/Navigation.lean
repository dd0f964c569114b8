import Cil.Proofs.Body.Partition

/-!
# Finding one's way in a listing

In a decoded listing the instruction at an offset is found exactly where one starts. Walking on from
the first instruction, or back from the last, passes by every instruction once and then ends. And
the instructions that one may branch to are those at the targets of its jumps, none left out.
-/

namespace Cil

/-- Where a walk stops by: it goes on from place to place as long as there is a way on. -/
inductive Visits {α : Type} (step : α → Option α) : Option α → List α → Prop
  | stop : Visits step none []
  | visit {x : α} {xs : List α} (rest : Visits step (step x) xs) : Visits step (some x) (x :: xs)

/-- A walk has only one course. -/
theorem Visits.unique {α : Type} {step : α → Option α} {start : Option α} {xs ys : List α}
    (first : Visits step start xs) (second : Visits step start ys) : xs = ys := by
  induction first generalizing ys with
  | stop =>
    cases second
    rfl
  | visit _ ih =>
    cases second with
    | visit rest => rw [ih rest]

theorem Visits.eq_iff {α : Type} {step : α → Option α} {start : Option α} {xs ys : List α}
    (visits : Visits step start xs) : Visits step start ys ↔ ys = xs := by
  constructor
  · intro other
    exact other.unique visits
  · rintro rfl
    exact visits

namespace Listing

/-- A listing of some code in which lookups and links lead where they should. -/
structure Navigable (l : Listing) (code : List UInt8) : Prop where
  index : ∀ offset i, l.indexAt? offset = some i ↔ ∃ x, l.get? i = some x ∧ x.offset = offset
  inside : ∀ x ∈ l.instructions, ∀ offset, x.offset < offset → offset < x.offset + x.size →
    l.indexAt? offset = none
  beyond : ∀ offset, code.length ≤ offset → l.indexAt? offset = none
  /-- What is found at an offset is the instruction that starts there, and it stands at the index
  that is found. -/
  found : ∀ offset x, l.at? offset = some x ↔ x ∈ l.instructions ∧ x.offset = offset
  agrees : ∀ offset, (l.at? offset).map Instruction.index = l.indexAt? offset
  ordered : l.instructions.toList.Pairwise fun x y => x.offset < y.offset
  /-- The walk from the first instruction on. -/
  forward : ∀ xs, Visits l.next? l.first? xs ↔ xs = l.instructions.toList
  ends : ∀ xs, Visits l.next? l.first? xs → xs.getLast? = l.last?
  /-- The walk from the last instruction back. -/
  backward : ∀ xs, Visits l.previous? l.last? xs ↔ xs = l.instructions.toList.reverse
  returns : ∀ xs, Visits l.previous? l.last? xs → xs.getLast? = l.first?
  /-- A step can be taken back. -/
  back : ∀ x ∈ l.instructions, ∀ y, l.next? x = some y → l.previous? y = some x
  forth : ∀ y ∈ l.instructions, ∀ x, l.previous? y = some x → l.next? x = some y
  targets : ∀ x ∈ l.instructions,
    (l.branchTargets x).map some = x.operand.jumps.map fun j => l.at? j.target

variable {l : Listing} {x y : Instruction} {i : Nat}

theorem lt_size_of_get? (hx : l.get? i = some x) : i < l.size :=
  (Array.getElem?_eq_some_iff.1 hx).1

theorem mem_of_get? (hx : l.get? i = some x) : x ∈ l.instructions := Array.mem_of_getElem? hx

theorem drop_of_get? (hx : l.get? i = some x) :
    l.instructions.toList.drop i = x :: l.instructions.toList.drop (i + 1) := by
  obtain ⟨hi, rfl⟩ := Array.getElem?_eq_some_iff.1 hx
  exact List.drop_eq_getElem_cons hi

theorem take_of_get? (hx : l.get? i = some x) :
    l.instructions.toList.take (i + 1) = l.instructions.toList.take i ++ [x] := by
  obtain ⟨hi, rfl⟩ := Array.getElem?_eq_some_iff.1 hx
  exact (List.take_append_getElem hi).symm

namespace Reads

variable {ctx : Context} {cs : List Chunk} {offset : Nat}

theorem ordered (reads : l.Reads ctx cs) (tiles : Tiles 0 ctx.code cs) :
    Instruction.Ordered l.instructions := by
  apply List.pairwise_map.2
  apply List.pairwise_iff_getElem.2
  intro i j hi hj hij
  exact reads.offset_lt tiles hij (Array.getElem?_eq_getElem hi) (Array.getElem?_eq_getElem hj)

/-! ## Lookups -/

theorem indexAt?_eq_some_iff (reads : l.Reads ctx cs) (tiles : Tiles 0 ctx.code cs) :
    l.indexAt? offset = some i ↔ ∃ x, l.get? i = some x ∧ x.offset = offset := by
  rw [indexAt?, Instruction.indexAt?_eq_some_iff (reads.ordered tiles),
    Instruction.getElem?_starts, Option.map_eq_some_iff]
  exact Iff.rfl

theorem indexAt?_eq_none (reads : l.Reads ctx cs) (tiles : Tiles 0 ctx.code cs)
    (absent : ∀ x ∈ l.instructions, x.offset ≠ offset) : l.indexAt? offset = none := by
  cases hfound : l.indexAt? offset with
  | none => rfl
  | some i =>
    obtain ⟨x, hx, hoffset⟩ := (reads.indexAt?_eq_some_iff tiles).1 hfound
    exact absurd hoffset (absent x (mem_of_get? hx))

/-- What starts behind the start of an instruction starts behind all of it. -/
theorem stop_le_offset (reads : l.Reads ctx cs) (tiles : Tiles 0 ctx.code cs)
    (hx : x ∈ l.instructions) (hy : y ∈ l.instructions) (behind : x.offset < y.offset) :
    x.offset + x.size ≤ y.offset := by
  obtain ⟨i, hi⟩ := Array.getElem?_of_mem hx
  obtain ⟨j, hj⟩ := Array.getElem?_of_mem hy
  have ordered := reads.ordered tiles
  have hij : i < j := by
    by_contra hle
    have := ordered.offset_le (Nat.le_of_not_lt hle) hj hi
    omega
  have hnext : i + 1 < l.size := Nat.lt_of_le_of_lt hij (lt_size_of_get? hj)
  obtain ⟨z, hz⟩ := l.exists_get? hnext
  have adjacent := reads.offset_of_next tiles hi hz
  have := ordered.offset_le hij hz hj
  omega

theorem stop_le_length (reads : l.Reads ctx cs) (tiles : Tiles 0 ctx.code cs)
    (hx : x ∈ l.instructions) : x.offset + x.size ≤ ctx.code.length := by
  obtain ⟨i, hi⟩ := Array.getElem?_of_mem hx
  have hlt := lt_size_of_get? hi
  have hlast : l.size - 1 < l.size := by omega
  obtain ⟨z, hz⟩ := l.exists_get? hlast
  have hstop := reads.stop_of_last? tiles (l.last?_eq.trans hz)
  by_cases h : i = l.size - 1
  · subst h
    obtain rfl : x = z := Option.some.inj (hi.symm.trans hz)
    omega
  · have behind := reads.offset_lt tiles (by omega : i < l.size - 1) hi hz
    have := reads.stop_le_offset tiles hx (mem_of_get? hz) behind
    omega

theorem at?_eq_some_iff (reads : l.Reads ctx cs) (tiles : Tiles 0 ctx.code cs) :
    l.at? offset = some x ↔ x ∈ l.instructions ∧ x.offset = offset := by
  rw [at?, Option.bind_eq_some_iff]
  constructor
  · rintro ⟨i, hi, hx⟩
    obtain ⟨y, hy, hoffset⟩ := (reads.indexAt?_eq_some_iff tiles).1 hi
    obtain rfl : x = y := Option.some.inj (hx.symm.trans hy)
    exact ⟨mem_of_get? hx, hoffset⟩
  · rintro ⟨hx, hoffset⟩
    obtain ⟨i, hi⟩ := Array.getElem?_of_mem hx
    exact ⟨i, (reads.indexAt?_eq_some_iff tiles).2 ⟨x, hi, hoffset⟩, hi⟩

theorem map_index_at? (reads : l.Reads ctx cs) (tiles : Tiles 0 ctx.code cs) (offset : Nat) :
    (l.at? offset).map Instruction.index = l.indexAt? offset := by
  rw [at?]
  cases hfound : l.indexAt? offset with
  | none => rfl
  | some i =>
    obtain ⟨x, hx, -⟩ := (reads.indexAt?_eq_some_iff tiles).1 hfound
    rw [Option.bind_some, hx, Option.map_some, reads.index_eq hx]

/-! ## Walks -/

/-- From any index on, the walk takes what is left. -/
theorem visits_next (reads : l.Reads ctx cs) (i : Nat) :
    Visits l.next? (l.get? i) (l.instructions.toList.drop i) := by
  induction h : l.size - i generalizing i with
  | zero =>
    have hi : l.size ≤ i := by omega
    rw [l.get?_eq_none hi, List.drop_eq_nil_of_le hi]
    exact .stop
  | succ n ih =>
    obtain ⟨x, hx⟩ := l.exists_get? (by omega : i < l.size)
    have rest := ih (i + 1) (by omega)
    rw [hx, drop_of_get? hx]
    apply Visits.visit
    rw [reads.next?_eq hx]
    exact rest

/-- Back from any index, the walk takes what lies before it. -/
theorem visits_previous (reads : l.Reads ctx cs) (hx : l.get? i = some x) :
    Visits l.previous? (some x) (l.instructions.toList.take (i + 1)).reverse := by
  induction i generalizing x with
  | zero =>
    rw [take_of_get? hx, List.take_zero, List.nil_append, List.reverse_singleton]
    apply Visits.visit
    rw [reads.previous?_of_first hx]
    exact .stop
  | succ i ih =>
    have hi : i < l.size := Nat.lt_of_succ_lt (lt_size_of_get? hx)
    obtain ⟨y, hy⟩ := l.exists_get? hi
    rw [take_of_get? hx, List.reverse_concat]
    apply Visits.visit
    rw [reads.previous?_of_succ hx, hy]
    exact ih hy

theorem visits_forward (reads : l.Reads ctx cs) :
    Visits l.next? l.first? l.instructions.toList := reads.visits_next 0

theorem visits_backward (reads : l.Reads ctx cs) :
    Visits l.previous? l.last? l.instructions.toList.reverse := by
  rw [last?_eq]
  by_cases hsize : l.size = 0
  · have hempty : l.instructions.toList = [] := List.length_eq_zero_iff.1 hsize
    rw [l.get?_eq_none (by omega), hempty]
    exact .stop
  · obtain ⟨x, hx⟩ := l.exists_get? (by omega : l.size - 1 < l.size)
    have all : l.instructions.toList.take (l.size - 1 + 1) = l.instructions.toList := by
      apply List.take_of_length_le
      change l.size ≤ _
      omega
    have visits := reads.visits_previous hx
    rw [all] at visits
    rw [hx]
    exact visits

/-- A step on can be taken back. -/
theorem previous?_of_next? (reads : l.Reads ctx cs) (hx : x ∈ l.instructions)
    (next : l.next? x = some y) : l.previous? y = some x := by
  obtain ⟨i, hi⟩ := Array.getElem?_of_mem hx
  rw [reads.next?_eq hi] at next
  exact (reads.previous?_of_succ next).trans hi

/-- A step back can be taken again. -/
theorem next?_of_previous? (reads : l.Reads ctx cs) (hy : y ∈ l.instructions)
    (previous : l.previous? y = some x) : l.next? x = some y := by
  obtain ⟨i, hi⟩ := Array.getElem?_of_mem hy
  cases i with
  | zero =>
    rw [reads.previous?_of_first hi] at previous
    cases previous
  | succ i =>
    rw [reads.previous?_of_succ hi] at previous
    exact (reads.next?_eq previous).trans hi

/-! ## Branches -/

/-- Every jump of an instruction is resolved. -/
theorem resolves_of_mem (reads : l.Reads ctx cs) (hx : x ∈ l.instructions) {j : Jump}
    (hj : j ∈ x.operand.jumps) : l.Resolves x j := by
  obtain ⟨i, hi⟩ := Array.getElem?_of_mem hx
  obtain ⟨c, o, -, rfl, denotes⟩ := reads.chunk hi
  cases o with
  | branch j' =>
    obtain rfl : j = j' := List.mem_singleton.1 hj
    obtain ⟨raw, -, lands⟩ := denotes.branch
    exact reads.resolves lands i _ _
  | switch js =>
    obtain ⟨-, lands⟩ := denotes.switch
    obtain ⟨-, each⟩ := Chunk.lands_of_table lands
    obtain ⟨raw, land⟩ := each j hj
    exact reads.resolves land i _ _
  | _ => cases hj

/-- Jumps that are resolved lead to the instructions at their targets, none left out. -/
theorem map_some_landings (reads : l.Reads ctx cs) (tiles : Tiles 0 ctx.code cs) {js : List Jump}
    (resolved : ∀ j ∈ js, l.Resolves x j) :
    ((js.filterMap Jump.landing).filterMap l.get?).map some = js.map fun j => l.at? j.target := by
  induction js with
  | nil => rfl
  | cons j js ih =>
    obtain ⟨first, rest⟩ := List.forall_mem_cons.1 resolved
    obtain ⟨t, y, hlanding, hy, hoffset⟩ := first.landing
    have found : l.at? j.target = some y :=
      (reads.at?_eq_some_iff tiles).2 ⟨mem_of_get? hy, hoffset⟩
    rw [List.filterMap_cons_some hlanding, List.filterMap_cons_some hy, List.map_cons,
      List.map_cons, ih rest, found]

end Reads

end Listing

namespace Context

/-- In a decoded listing, lookups by offset are exact, the walks in both directions pass by all
instructions, each step can be taken back, and branches lead to the instructions at their
targets. -/
theorem decode_navigable (ctx : Context) (l : Listing) (decoded : ctx.decode = .ok l) :
    l.Navigable ctx.code := by
  obtain ⟨cs, tiles, reads⟩ := decode_eq_ok_iff.1 decoded
  constructor
  case index => exact fun offset i => reads.indexAt?_eq_some_iff tiles
  case inside =>
    intro x hx offset behind before
    apply reads.indexAt?_eq_none tiles
    rintro y hy rfl
    have := reads.stop_le_offset tiles hx hy behind
    omega
  case beyond =>
    intro offset hlength
    apply reads.indexAt?_eq_none tiles
    rintro x hx rfl
    have hstop := reads.stop_le_length tiles hx
    have hsize := (reads.size_eq tiles hx).1
    omega
  case found => exact fun offset x => reads.at?_eq_some_iff tiles
  case agrees => exact reads.map_index_at? tiles
  case ordered => exact List.pairwise_map.1 (reads.ordered tiles)
  case forward => exact fun xs => reads.visits_forward.eq_iff
  case ends =>
    intro xs visits
    rw [visits.unique reads.visits_forward, Listing.last?, ← Array.getLast?_toList]
  case backward => exact fun xs => reads.visits_backward.eq_iff
  case returns =>
    intro xs visits
    rw [visits.unique reads.visits_backward, List.getLast?_reverse, List.head?_eq_getElem?]
    exact Array.getElem?_toList
  case back => exact fun x hx y => reads.previous?_of_next? hx
  case forth => exact fun y hy x => reads.next?_of_previous? hy
  case targets =>
    intro x hx
    exact reads.map_some_landings tiles fun j => reads.resolves_of_mem hx

theorem decode_navigable_turning :
    ∃ l, turning.decode = .ok l ∧ l.size = 6 ∧ l.Navigable turning.code := by
  have decoded : turning.decode = .ok (turning.decode.toOption.getD ⟨#[]⟩) := by decide +kernel
  have hsize : (turning.decode.toOption.getD ⟨#[]⟩).size = 6 := by decide +kernel
  exact ⟨_, decoded, hsize, decode_navigable turning _ decoded⟩

end Context

end Cil
