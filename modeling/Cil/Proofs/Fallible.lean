import Mathlib.Data.List.Forall2

/-!
# Computations that can fail

How a computation made of parts succeeds: when its parts do, one after the other. And how it fails:
with the fault of the first part that does.
-/

namespace Cil.Fallible

variable {ε α β : Type}

theorem map_eq_ok_iff {f : α → β} {x : Except ε α} {b : β} :
    x.map f = .ok b ↔ ∃ a, x = .ok a ∧ b = f a := by
  cases x <;> simp [Except.map, eq_comm]

theorem bind_eq_ok_iff {f : α → Except ε β} {x : Except ε α} {b : β} :
    x >>= f = .ok b ↔ ∃ a, x = .ok a ∧ f a = .ok b := by
  cases x <;> simp [bind, Except.bind]

theorem pure_eq_ok_iff {a b : α} : (pure a : Except ε α) = .ok b ↔ b = a := by
  simp [pure, Except.pure, eq_comm]

theorem mapM_eq_ok_iff {f : α → Except ε β} {xs : List α} {ys : List β} :
    xs.mapM f = .ok ys ↔ List.Forall₂ (fun x y => f x = .ok y) xs ys := by
  induction xs generalizing ys with
  | nil => rw [List.mapM_nil, pure_eq_ok_iff, List.forall₂_nil_left_iff]
  | cons x xs ih =>
    simp only [List.mapM_cons, bind_eq_ok_iff, pure_eq_ok_iff, List.forall₂_cons_left_iff, ih]
    constructor
    · rintro ⟨y, hy, ys, hys, rfl⟩
      exact ⟨y, ys, hy, hys, rfl⟩
    · rintro ⟨y, ys, hy, hys, rfl⟩
      exact ⟨y, hy, ys, hys, rfl⟩

theorem map_eq_error_iff {f : α → β} {x : Except ε α} {e : ε} :
    x.map f = .error e ↔ x = .error e := by
  cases x <;> simp [Except.map]

theorem bind_eq_error_iff {f : α → Except ε β} {x : Except ε α} {e : ε} :
    x >>= f = .error e ↔ x = .error e ∨ ∃ a, x = .ok a ∧ f a = .error e := by
  cases x <;> simp [bind, Except.bind]

theorem pure_ne_error {a : α} {e : ε} : (pure a : Except ε α) ≠ .error e := nofun

theorem bind_pure_eq_error_iff {f : α → β} {x : Except ε α} {e : ε} :
    (x >>= fun a => pure (f a)) = .error e ↔ x = .error e := by
  simp only [bind_eq_error_iff, pure_ne_error, and_false, exists_false, or_false]

/-- A list is gone through up to the first element that fails. -/
theorem mapM_eq_error_iff {f : α → Except ε β} {xs : List α} {e : ε} :
    xs.mapM f = .error e ↔
      ∃ before x after, xs = before ++ x :: after ∧ (∀ y ∈ before, ∃ b, f y = .ok b) ∧
        f x = .error e := by
  constructor
  · intro failed
    induction xs with
    | nil => exact absurd failed pure_ne_error
    | cons x xs ih =>
      rw [List.mapM_cons, bind_eq_error_iff] at failed
      rcases failed with first | ⟨b, hb, rest⟩
      · exact ⟨[], x, xs, rfl, by simp, first⟩
      · obtain ⟨before, x', after, rfl, earlier, failed⟩ := ih (bind_pure_eq_error_iff.1 rest)
        refine ⟨x :: before, x', after, rfl, ?_, failed⟩
        exact List.forall_mem_cons.2 ⟨⟨b, hb⟩, earlier⟩
  · rintro ⟨before, x, after, rfl, earlier, failed⟩
    induction before with
    | nil =>
      rw [List.nil_append, List.mapM_cons, bind_eq_error_iff]
      exact .inl failed
    | cons y before ih =>
      obtain ⟨⟨b, hb⟩, earlier⟩ := List.forall_mem_cons.1 earlier
      rw [List.cons_append, List.mapM_cons, bind_eq_error_iff]
      exact .inr ⟨b, hb, bind_eq_error_iff.2 (.inl (ih earlier))⟩

/-- A fold goes on up to the first element that fails. -/
theorem foldlM_eq_error_iff {f : β → α → Except ε β} {xs : List α} {b : β} {e : ε} :
    xs.foldlM f b = .error e ↔
      ∃ before x after b', xs = before ++ x :: after ∧ before.foldlM f b = .ok b' ∧
        f b' x = .error e := by
  constructor
  · intro failed
    induction xs generalizing b with
    | nil => exact absurd failed pure_ne_error
    | cons x xs ih =>
      rw [List.foldlM_cons, bind_eq_error_iff] at failed
      rcases failed with first | ⟨b', hb', rest⟩
      · exact ⟨[], x, xs, b, rfl, rfl, first⟩
      · obtain ⟨before, x', after, b'', rfl, earlier, failed⟩ := ih rest
        refine ⟨x :: before, x', after, b'', rfl, ?_, failed⟩
        rw [List.foldlM_cons, bind_eq_ok_iff]
        exact ⟨b', hb', earlier⟩
  · rintro ⟨before, x, after, b', rfl, earlier, failed⟩
    rw [List.foldlM_append, bind_eq_error_iff]
    refine .inr ⟨b', earlier, ?_⟩
    rw [List.foldlM_cons, bind_eq_error_iff]
    exact .inl failed

end Cil.Fallible
