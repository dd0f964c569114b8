import Cil.Body.Instruction

/-!
# Instructions in byte order

In an array of instructions in which each starts before those behind it, the search by halves
finds the instruction at an offset exactly if there is one.
-/

namespace Cil.Instruction

/-- Where instructions start, in order. -/
def starts (xs : Array Instruction) : List Nat := xs.toList.map offset

/-- Instructions each of which starts before those behind it. -/
def Ordered (xs : Array Instruction) : Prop := (starts xs).Pairwise (· < ·)

variable {xs : Array Instruction} {offset : Nat}

theorem getElem?_starts (i : Nat) : (starts xs)[i]? = xs[i]?.map Instruction.offset := by
  simp [starts]

theorem starts_push (xs : Array Instruction) (x : Instruction) :
    starts (xs.push x) = starts xs ++ [x.offset] := by
  simp [starts]

theorem starts_extract (xs : Array Instruction) (i : Nat) :
    starts (xs.extract 0 i) = (starts xs).take i := by
  simp [starts, List.map_take]

theorem starts_extract_prefix (xs : Array Instruction) (i : Nat) :
    starts (xs.extract 0 i) <+: starts xs :=
  starts_extract xs i ▸ List.take_prefix i (starts xs)

theorem any_getElem?_congr {ys : Array Instruction} (same : starts xs = starts ys) (i : Nat)
    (p : Nat → Bool) : xs[i]?.any (fun x => p x.offset) = ys[i]?.any (fun x => p x.offset) := by
  have h := congrArg (fun offsets => offsets[i]?.any p) same
  simpa only [getElem?_starts, Option.any_map] using h

/-- The search by halves looks at nothing but where instructions start. -/
theorem lowerBound_congr {ys : Array Instruction} (same : starts xs = starts ys)
    (offset lo hi : Nat) : lowerBound xs offset lo hi = lowerBound ys offset lo hi := by
  have test (i : Nat) := any_getElem?_congr same i (fun start => decide (start < offset))
  fun_induction lowerBound xs offset lo hi with
  | case1 lo hi more mid before ih =>
    conv => rhs; rw [lowerBound, if_pos more]
    exact ih.trans (if_pos ((test mid).symm.trans before)).symm
  | case2 lo hi more mid notBefore ih =>
    conv => rhs; rw [lowerBound, if_pos more]
    exact ih.trans (if_neg fun h => notBefore ((test mid).trans h)).symm
  | case3 lo hi finished => rw [lowerBound, if_neg finished]

theorem indexAt?_congr {ys : Array Instruction} (same : starts xs = starts ys) (offset : Nat) :
    indexAt? xs offset = indexAt? ys offset := by
  have size : xs.size = ys.size := by simpa [starts] using congrArg List.length same
  rw [indexAt?, indexAt?, lowerBound_congr same, size]
  have test := any_getElem?_congr same (lowerBound ys offset 0 ys.size) (· == offset)
  simp only [test]

theorem Ordered.offset_lt (ordered : Ordered xs) {i j : Nat} {x y : Instruction} (hij : i < j)
    (hx : xs[i]? = some x) (hy : xs[j]? = some y) : x.offset < y.offset := by
  obtain ⟨hi, rfl⟩ := Array.getElem?_eq_some_iff.1 hx
  obtain ⟨hj, rfl⟩ := Array.getElem?_eq_some_iff.1 hy
  have h := List.pairwise_iff_getElem.1 ordered i j (by simpa [starts] using hi)
    (by simpa [starts] using hj) hij
  simpa [starts] using h

theorem Ordered.offset_le (ordered : Ordered xs) {i j : Nat} {x y : Instruction} (hij : i ≤ j)
    (hx : xs[i]? = some x) (hy : xs[j]? = some y) : x.offset ≤ y.offset := by
  by_cases h : i = j
  · subst h
    rw [hx] at hy
    cases hy
    exact Nat.le_refl _
  · exact Nat.le_of_lt (ordered.offset_lt (by omega) hx hy)

/-- What lies before `i` starts before the offset, and what lies from `i` on does not. -/
def Separates (xs : Array Instruction) (offset i : Nat) : Prop :=
  (∀ k x, k < i → xs[k]? = some x → x.offset < offset) ∧
    ∀ k x, i ≤ k → xs[k]? = some x → offset ≤ x.offset

/-- The interval of the search narrows around the place that separates. -/
theorem separates_lowerBound (ordered : Ordered xs) (lo hi : Nat)
    (below : ∀ k x, k < lo → xs[k]? = some x → x.offset < offset)
    (above : ∀ k x, hi ≤ k → xs[k]? = some x → offset ≤ x.offset) :
    Separates xs offset (lowerBound xs offset lo hi) := by
  fun_induction lowerBound xs offset lo hi with
  | case1 lo hi _ mid before ih =>
    obtain ⟨m, hm, hless⟩ := (Option.any_eq_true _ _).1 before
    apply ih _ above
    intro k x hk hx
    have hle := ordered.offset_le (Nat.le_of_lt_succ hk) hx hm
    have hlt : m.offset < offset := by simpa using hless
    omega
  | case2 lo hi _ mid notBefore ih =>
    apply ih below
    intro k x hk hx
    obtain ⟨hin, -⟩ := Array.getElem?_eq_some_iff.1 hx
    have hmid : mid < xs.size := by omega
    have hm : xs[mid]? = some xs[mid] := Array.getElem?_eq_getElem hmid
    have hle := ordered.offset_le hk hm hx
    have hge : ¬ xs[mid].offset < offset := by simpa [hm] using notBefore
    omega
  | case3 lo hi finished =>
    exact ⟨below, fun k x hk hx => above k x (by omega) hx⟩

theorem separates_start (ordered : Ordered xs) (offset : Nat) :
    Separates xs offset (lowerBound xs offset 0 xs.size) := by
  apply separates_lowerBound ordered
  · intro k x hk
    omega
  · intro k x hk hx
    obtain ⟨hin, -⟩ := Array.getElem?_eq_some_iff.1 hx
    omega

/-- A place that separates is the only one at which an instruction can start at the offset. -/
theorem Separates.eq (ordered : Ordered xs) {i j : Nat} {x : Instruction}
    (separates : Separates xs offset i) (hx : xs[j]? = some x) (hoffset : x.offset = offset) :
    i = j := by
  by_cases hlt : j < i
  · have := separates.1 j x hlt hx
    omega
  · by_cases hgt : i < j
    · obtain ⟨hin, -⟩ := Array.getElem?_eq_some_iff.1 hx
      have hi : i < xs.size := by omega
      have hsome : xs[i]? = some xs[i] := Array.getElem?_eq_getElem hi
      have hbefore := ordered.offset_lt hgt hsome hx
      have hnot := separates.2 i _ (Nat.le_refl _) hsome
      omega
    · omega

theorem indexAt?_eq_some_iff (ordered : Ordered xs) {i : Nat} :
    indexAt? xs offset = some i ↔ (starts xs)[i]? = some offset := by
  have separates := separates_start ordered offset
  rw [indexAt?, getElem?_starts, Option.map_eq_some_iff]
  constructor
  · intro h
    split at h
    · next hit =>
      cases h
      obtain ⟨x, hx, hoffset⟩ := (Option.any_eq_true _ _).1 hit
      exact ⟨x, hx, by simpa using hoffset⟩
    · cases h
  · rintro ⟨x, hx, hoffset⟩
    have hfound := separates.eq ordered hx hoffset
    simp [hfound, hx, hoffset]

end Cil.Instruction
