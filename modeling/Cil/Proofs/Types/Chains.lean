import Cil.Types.Table
import Mathlib.Data.List.Nodup

/-!
# Chains of bases

A type leads to the types on its chain of bases, each after so many links, however long the chain
is. The walk that the table follows is the start of that chain. Where no chain comes back to a type
within the reach of a walk, the walk meets no type twice.
-/

namespace Cil.TypeTable

/-! ## What is in the slots -/

theorem get?_add (t : TypeTable) (token : Token) (space name : String) (flags : UInt32)
    (id : TypeId) :
    (t.add token space name flags).2.get? id =
      if id.index = t.slots.size then some { head := (t.add token space name flags).1 }
      else t.get? id := by
  simp only [get?, add, Array.getElem?_push]
  split <;> rfl

theorem get?_keepOnly (t : TypeTable) (keep : TypeId → Bool) (id : TypeId) :
    (t.keepOnly keep).get? id = if keep id then t.get? id else none := by
  simp only [get?, keepOnly, Array.getElem?_mapIdx]
  cases t.slots[id.index]? <;> cases keep id <;> rfl

theorem get?_modify (t : TypeTable) (type : TypeId) (f : TypeEntry → TypeEntry) (id : TypeId) :
    (t.modify type f).get? id = if id = type then (t.get? id).map f else t.get? id := by
  obtain ⟨i⟩ := id
  obtain ⟨j⟩ := type
  simp only [get?, modify, Array.getElem?_modify, TypeId.mk.injEq, eq_comm]
  split
  · cases t.slots[i]? <;> rfl
  · rfl

theorem lt_size_of_get? {t : TypeTable} {id : TypeId} {e : TypeEntry} (h : t.get? id = some e) :
    id.index < t.slots.size :=
  (Array.getElem?_eq_some_iff.1 (Option.join_eq_some_iff.1 h)).1

theorem def?_eq_some_iff {t : TypeTable} {id : TypeId} {d : TypeDef} :
    t.def? id = some d ↔ ∃ e, t.get? id = some e ∧ e.head = d := by
  simp [def?]

theorem base?_eq_some_iff {t : TypeTable} {id : TypeId} {d : TypeDef} :
    t.base? id = some d ↔
      ∃ e b, t.get? id = some e ∧ e.base = some b ∧ t.def? b = some d := by
  simp only [base?, Option.bind_eq_some_iff]
  constructor
  · rintro ⟨b, ⟨e, he, hb⟩, hd⟩
    exact ⟨e, b, he, hb, hd⟩
  · rintro ⟨e, b, he, hb, hd⟩
    exact ⟨b, ⟨e, he, hb⟩, hd⟩

/-- Letting types go makes no link. -/
theorem base?_of_keepOnly {t : TypeTable} {keep : TypeId → Bool} {id : TypeId} {d : TypeDef}
    (h : (t.keepOnly keep).base? id = some d) : t.base? id = some d := by
  obtain ⟨e, b, he, hb, hd⟩ := base?_eq_some_iff.1 h
  obtain ⟨f, hf, rfl⟩ := def?_eq_some_iff.1 hd
  rw [get?_keepOnly, Option.ite_none_right_eq_some] at he hf
  exact base?_eq_some_iff.2 ⟨e, b, he.2, hb, def?_eq_some_iff.2 ⟨f, hf.2, rfl⟩⟩

/-! ## Chains -/

/-- The chain of bases of a type comes to another type after so many links. -/
inductive Leads (t : TypeTable) : Nat → TypeId → TypeId → Prop
  | here (id : TypeId) : Leads t 0 id id
  | up {n : Nat} {id other : TypeId} {b : TypeDef} (base : t.base? id = some b)
      (rest : Leads t n b.id other) : Leads t (n + 1) id other

namespace Leads

variable {t t' : TypeTable} {m n : Nat} {a b c : TypeId}

theorem eq_of_zero (chain : t.Leads 0 a b) : a = b := by
  cases chain
  rfl

theorem trans (first : t.Leads m a b) (second : t.Leads n b c) : t.Leads (m + n) a c := by
  induction first with
  | here => simpa using second
  | @up m _ _ _ base _ ih =>
    rw [Nat.add_right_comm]
    exact .up base (ih second)

/-- Whoever has the links has the chains. -/
theorem mono (links : ∀ id d, t.base? id = some d → t'.base? id = some d)
    (chain : t.Leads n a b) : t'.Leads n a b := by
  induction chain with
  | here id => exact .here id
  | up base _ ih => exact .up (links _ _ base) ih

/-- Chains do not branch: a longer one from the same type goes on where a shorter one ends. -/
theorem continues (shorter : t.Leads m a b) (longer : t.Leads n a c) (le : m ≤ n) :
    t.Leads (n - m) b c := by
  induction shorter generalizing n with
  | here => exact longer
  | @up m id _ d base _ ih =>
    cases longer with
    | here => omega
    | @up n _ _ d' base' rest =>
      obtain rfl : d = d' := Option.some.inj (base.symm.trans base')
      rw [Nat.add_sub_add_right]
      exact ih rest (by omega)

/-- A chain from a type without a base stays there. -/
theorem eq_of_base?_eq_none (chain : t.Leads n a b) (root : t.base? a = none) : n = 0 ∧ b = a := by
  cases chain with
  | here => exact ⟨rfl, rfl⟩
  | up base _ =>
    rw [root] at base
    cases base

end Leads

/-- No chain comes back to where it starts within so many links. -/
def Ringless (t : TypeTable) (reach : Nat) : Prop :=
  ∀ n id, 0 < n → n ≤ reach → ¬ t.Leads n id id

/-! ## Walks -/

variable {t : TypeTable}

/-- A walk meets exactly the types that the chain comes to within its reach. -/
theorem mem_basesWithin_iff (n : Nat) (id other : TypeId) :
    other ∈ (t.basesWithin n id).map TypeDef.id ↔
      ∃ k, 0 < k ∧ k ≤ n ∧ t.Leads k id other := by
  induction n generalizing id with
  | zero =>
    simp only [basesWithin, List.map_nil, List.not_mem_nil, false_iff]
    rintro ⟨k, hpos, hle, -⟩
    omega
  | succ n ih =>
    rw [basesWithin]
    cases hbase : t.base? id with
    | none =>
      simp only [List.map_nil, List.not_mem_nil, false_iff]
      rintro ⟨k, hpos, -, chain⟩
      have := (chain.eq_of_base?_eq_none hbase).1
      omega
    | some b =>
      simp only [List.map_cons, List.mem_cons, ih b.id]
      constructor
      · rintro (rfl | ⟨k, -, hle, chain⟩)
        · exact ⟨1, by omega, by omega, .up hbase (.here _)⟩
        · exact ⟨k + 1, by omega, by omega, .up hbase chain⟩
      · rintro ⟨k, hpos, hle, chain⟩
        cases chain with
        | here => omega
        | @up k _ _ b' base rest =>
          obtain rfl : b = b' := Option.some.inj (hbase.symm.trans base)
          cases rest with
          | here => exact .inl rfl
          | up base' rest' => exact .inr ⟨_, by omega, by omega, .up base' rest'⟩

/-- A walk meets no type twice if no chain comes back within its reach. -/
theorem nodup_basesWithin (n : Nat) (id : TypeId) (ringless : t.Ringless n) :
    ((t.basesWithin n id).map TypeDef.id).Nodup := by
  induction n generalizing id with
  | zero => exact List.nodup_nil
  | succ n ih =>
    rw [basesWithin]
    cases t.base? id with
    | none => exact List.nodup_nil
    | some b =>
      refine List.nodup_cons.2 ⟨fun again => ?_, ?_⟩
      · obtain ⟨k, hpos, hle, ring⟩ := (mem_basesWithin_iff n b.id b.id).1 again
        exact ringless k b.id hpos (by omega) ring
      · exact ih b.id fun k other hpos hle => ringless k other hpos (by omega)

end Cil.TypeTable
