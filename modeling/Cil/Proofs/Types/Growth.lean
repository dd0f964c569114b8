import Cil.Proofs.Types.Chains
import Mathlib.Data.List.Induction

/-!
# How types are linked

Types are created, given bases and let go, in any order. The check that a new base does not derive
from the type reaches as far as a walk does and no farther. So it accepts a base that is a
descendant at a greater distance, and chains can close to rings. But a ring is always longer than a
walk, and hence no walk meets a type twice.
-/

namespace Cil.TypeTable

/-! ## Runs -/

/-- What happens to types: one is created, one is given a base, or only some are kept. -/
inductive Change
  | create (token : Token) (space name : String) (flags : UInt32)
  | link (type base : TypeId)
  | keep (kept : TypeId → Bool)

/-- The token of the type that a change creates. -/
def Change.token? : Change → Option Token
  | create token .. => some token
  | _ => none

/-- The tokens of the types that changes create. -/
def created (changes : List Change) : List Token := changes.filterMap Change.token?

/-- The table after a change. Only types that are there can be linked, and a link that is refused
changes nothing. -/
def after (t : TypeTable) : Change → TypeTable
  | .create token space name flags => (t.add token space name flags).2
  | .link type base =>
    match t.def? type, t.def? base with
    | some type, some base =>
      match t.setBase type base with
      | .ok linked => linked
      | .error _ => t
    | _, _ => t
  | .keep kept => t.keepOnly kept

/-- The table that changes lead to, one after the other, from an empty one. -/
def grown (changes : List Change) : TypeTable := changes.foldl after {}

theorem grown_append_singleton (changes : List Change) (c : Change) :
    grown (changes ++ [c]) = (grown changes).after c := by
  simp [grown]

/-- Whether a type can be given a base. -/
def Accepts (t : TypeTable) (type base : TypeDef) : Prop := ∃ t', t.setBase type base = .ok t'

/-- Whether a link is made, of types that are there. -/
def Links (t : TypeTable) (a b : TypeId) : Prop :=
  ∃ type base, t.def? a = some type ∧ t.def? b = some base ∧ t.Accepts type base

/-- Whether a type was given a base on the way. -/
def GivenBase (changes : List Change) (id : TypeId) : Prop :=
  ∃ before other later, changes = before ++ .link id other :: later ∧
    (grown before).Links id other

/-! ## Linking -/

variable {t t' : TypeTable} {type base : TypeDef}

theorem setBase_eq_ok_iff :
    t.setBase type base = .ok t' ↔
      base.token ≠ type.token ∧ t.isSubclass base.id type.token = false ∧
        (t.get? type.id).bind TypeEntry.base = none ∧
        t' = t.modify type.id fun e => { e with base := some base.id } := by
  rw [setBase]
  split
  · next cycle =>
    refine iff_of_false nofun ?_
    rintro ⟨other, apart, -, -⟩
    simp [other, apart] at cycle
  next noCycle =>
  obtain ⟨other, apart⟩ : base.token ≠ type.token ∧ t.isSubclass base.id type.token = false := by
    simpa using noCycle
  split
  · next taken =>
    refine iff_of_false nofun ?_
    rintro ⟨-, -, unset, -⟩
    rw [unset] at taken
    cases taken
  · next unset => simp [other, apart, Option.not_isSome_iff_eq_none.1 unset, eq_comm]

theorem get?_setBase (linked : t.setBase type base = .ok t') (id : TypeId) :
    t'.get? id =
      if id = type.id then (t.get? id).map fun e => { e with base := some base.id }
      else t.get? id := by
  obtain ⟨-, -, -, rfl⟩ := setBase_eq_ok_iff.1 linked
  exact get?_modify ..

theorem def?_setBase (linked : t.setBase type base = .ok t') (id : TypeId) :
    t'.def? id = t.def? id := by
  rw [def?, get?_setBase linked, def?]
  split
  · rw [Option.map_map]
    rfl
  · rfl

/-- A link changes the base of one type. -/
theorem base?_setBase (linked : t.setBase type base = .ok t') (live : t.def? type.id = some type)
    (baseLive : t.def? base.id = some base) (id : TypeId) :
    t'.base? id = if id = type.id then some base else t.base? id := by
  have sameDefs : t'.def? = t.def? := funext (def?_setBase linked)
  rw [base?, get?_setBase linked, sameDefs]
  split
  · next same =>
    obtain ⟨e, he, -⟩ := def?_eq_some_iff.1 live
    rw [same, he]
    exact baseLive
  · rfl

theorem base?_eq_none_of_setBase (linked : t.setBase type base = .ok t') :
    t.base? type.id = none := by
  obtain ⟨-, -, unset, -⟩ := setBase_eq_ok_iff.1 linked
  rw [base?, unset]
  rfl

theorem size_setBase (linked : t.setBase type base = .ok t') :
    t'.slots.size = t.slots.size := by
  obtain ⟨-, -, -, rfl⟩ := setBase_eq_ok_iff.1 linked
  exact Array.size_modify

/-- A new link from a type that had none leaves the others in place. -/
theorem base?_kept (linked : ∀ id, t'.base? id = if id = type.id then some base else t.base? id)
    (root : t.base? type.id = none) {id : TypeId} {d : TypeDef} (before : t.base? id = some d) :
    t'.base? id = some d := by
  rw [linked]
  split
  · next same =>
    rw [same, root] at before
    cases before
  · exact before

/-- A chain behind a new link is one from before, or passes over the link. -/
theorem Leads.before_link
    (linked : ∀ id, t'.base? id = if id = type.id then some base else t.base? id) {n : Nat}
    {a b : TypeId} (chain : t'.Leads n a b) :
    t.Leads n a b ∨ ∃ i j, t.Leads i a type.id ∧ t'.Leads j base.id b ∧ i + 1 + j = n := by
  induction chain with
  | here id => exact .inl (.here id)
  | @up n id other d up rest ih =>
    rw [linked] at up
    split at up
    · next same =>
      subst same
      cases up
      exact .inr ⟨0, n, .here _, rest, by omega⟩
    · rcases ih with before | ⟨i, j, first, second, sum⟩
      · exact .inl (.up up before)
      · exact .inr ⟨i + 1, j, .up up first, second, by omega⟩

/-- If a base does not lead to the type within some reach, linking it makes no ring within one link
more. -/
theorem Ringless.link {reach : Nat} (ringless : t.Ringless (reach + 1))
    (linked : ∀ id, t'.base? id = if id = type.id then some base else t.base? id)
    (root : t.base? type.id = none) (apart : ∀ n ≤ reach, ¬ t.Leads n base.id type.id) :
    t'.Ringless (reach + 1) := by
  intro n id hpos hle ring
  rcases ring.before_link linked with before | ⟨i, j, toType, fromBase, sum⟩
  · exact ringless n id hpos hle before
  · -- The ring, begun at the new base, comes to the type before it passes over the new link again.
    have around : t'.Leads (j + i) base.id type.id :=
      fromBase.trans (toType.mono fun id d => base?_kept linked root)
    rcases around.before_link linked with before | ⟨i', j', before, -, sum'⟩
    · exact apart (j + i) (by omega) before
    · exact apart i' (by omega) before

theorem Ringless.anti {reach : Nat} (ringless : t.Ringless reach)
    (links : ∀ id d, t'.base? id = some d → t.base? id = some d) : t'.Ringless reach :=
  fun n id hpos hle ring => ringless n id hpos hle (ring.mono links)

/-- What becomes of a table by a link. -/
theorem after_link_cases (t : TypeTable) (a b : TypeId) :
    (¬ t.Links a b ∧ t.after (.link a b) = t) ∨
      ∃ type base, t.def? a = some type ∧ t.def? b = some base ∧
        t.setBase type base = .ok (t.after (.link a b)) := by
  by_cases links : t.Links a b
  · obtain ⟨type, base, htype, hbase, t', linked⟩ := links
    exact .inr ⟨type, base, htype, hbase, by simp [after, htype, hbase, linked]⟩
  · refine .inl ⟨links, ?_⟩
    rw [after]
    split
    · next type base htype hbase =>
      split
      · next t' linked => exact absurd ⟨type, base, htype, hbase, t', linked⟩ links
      · rfl
    · rfl

theorem def?_after_link (t : TypeTable) (a b id : TypeId) :
    (t.after (.link a b)).def? id = t.def? id := by
  rcases after_link_cases t a b with ⟨-, same⟩ | ⟨type, base, -, -, linked⟩
  · rw [same]
  · exact def?_setBase linked id

theorem after_link_of_accepts (live : t.def? type.id = some type)
    (baseLive : t.def? base.id = some base) (accepted : t.Accepts type base) :
    t.setBase type base = .ok (t.after (.link type.id base.id)) := by
  obtain ⟨t', linked⟩ := accepted
  simp [after, live, baseLive, linked]

theorem after_link_of_not_accepts (live : t.def? type.id = some type)
    (baseLive : t.def? base.id = some base) (refused : ¬ t.Accepts type base) :
    t.after (.link type.id base.id) = t := by
  cases linked : t.setBase type base with
  | ok t' => exact absurd ⟨t', linked⟩ refused
  | error fault => simp [after, live, baseLive, linked]

/-! ## Order -/

/-- The types of a table stand in their own slots, each with a token of its own among the given
ones, and are linked to slots that exist. -/
structure Orderly (tokens : List Token) (t : TypeTable) : Prop where
  placed : ∀ id e, t.get? id = some e → e.head.id = id
  known : ∀ id e, t.get? id = some e → e.head.token ∈ tokens
  distinct : ∀ a b d e, t.get? a = some d → t.get? b = some e →
    d.head.token = e.head.token → a = b
  bounded : ∀ id e b, t.get? id = some e → e.base = some b → b.index < t.slots.size

namespace Orderly

variable {tokens : List Token}

theorem empty : Orderly [] {} := by
  have none (id : TypeId) : ({} : TypeTable).get? id = none := by simp [get?]
  constructor <;> simp [none]

/-- A new type with a new token. -/
theorem create (orderly : Orderly tokens t) {token : Token} (fresh : token ∉ tokens)
    (space name : String) (flags : UInt32) :
    Orderly (tokens ++ [token]) (t.add token space name flags).2 := by
  have entry (id : TypeId) (e : TypeEntry)
      (he : (t.add token space name flags).2.get? id = some e) :
      (id = ⟨t.slots.size⟩ ∧ e.head.id = id ∧ e.head.token = token ∧ e.base = none) ∨
        t.get? id = some e := by
    rw [get?_add] at he
    split at he
    · next last =>
      cases he
      obtain rfl : id = ⟨t.slots.size⟩ := congrArg TypeId.mk last
      exact .inl ⟨rfl, rfl, rfl, rfl⟩
    · exact .inr he
  constructor
  · intro id e he
    rcases entry id e he with ⟨-, placed, -, -⟩ | before
    · exact placed
    · exact orderly.placed id e before
  · intro id e he
    rcases entry id e he with ⟨-, -, rfl, -⟩ | before
    · simp
    · exact List.mem_append_left _ (orderly.known id e before)
  · intro a b d e hd he same
    rcases entry a d hd with ⟨rfl, -, hnew, -⟩ | beforeA <;>
      rcases entry b e he with ⟨rfl, -, hnew', -⟩ | beforeB
    · rfl
    · rw [← hnew, same] at fresh
      exact absurd (orderly.known b e beforeB) fresh
    · rw [← hnew', ← same] at fresh
      exact absurd (orderly.known a d beforeA) fresh
    · exact orderly.distinct a b d e beforeA beforeB same
  · intro id e b he hb
    rw [add, Array.size_push]
    rcases entry id e he with ⟨-, -, -, unset⟩ | before
    · rw [unset] at hb
      cases hb
    · exact Nat.lt_succ_of_lt (orderly.bounded id e b before hb)

/-- Entries that keep their heads, and have bases in slots that exist. -/
theorem of_entries (orderly : Orderly tokens t) (size : t'.slots.size = t.slots.size)
    (entries : ∀ id e', t'.get? id = some e' → ∃ e, t.get? id = some e ∧ e'.head = e.head ∧
      ∀ b, e'.base = some b → e.base = some b ∨ b.index < t.slots.size) :
    Orderly tokens t' := by
  constructor
  · intro id e' he'
    obtain ⟨e, he, head, -⟩ := entries id e' he'
    rw [head]
    exact orderly.placed id e he
  · intro id e' he'
    obtain ⟨e, he, head, -⟩ := entries id e' he'
    rw [head]
    exact orderly.known id e he
  · intro a b d' e' hd' he' same
    obtain ⟨d, hd, headD, -⟩ := entries a d' hd'
    obtain ⟨e, he, headE, -⟩ := entries b e' he'
    rw [headD, headE] at same
    exact orderly.distinct a b d e hd he same
  · intro id e' b he' hb
    obtain ⟨e, he, -, bases⟩ := entries id e' he'
    rw [size]
    rcases bases b hb with before | inRange
    · exact orderly.bounded id e b he before
    · exact inRange

theorem keepOnly (orderly : Orderly tokens t) (kept : TypeId → Bool) :
    Orderly tokens (t.keepOnly kept) := by
  refine orderly.of_entries (by simp [TypeTable.keepOnly]) fun id e he => ?_
  rw [get?_keepOnly] at he
  split at he
  · exact ⟨e, he, rfl, fun b hb => .inl hb⟩
  · cases he

theorem setBase (orderly : Orderly tokens t) (linked : t.setBase type base = .ok t')
    (baseLive : t.def? base.id = some base) : Orderly tokens t' := by
  obtain ⟨d, hd, -⟩ := def?_eq_some_iff.1 baseLive
  refine orderly.of_entries (size_setBase linked) fun id e' he' => ?_
  rw [get?_setBase linked] at he'
  split at he'
  · obtain ⟨e, he, rfl⟩ := Option.map_eq_some_iff.1 he'
    refine ⟨e, he, rfl, fun b hb => .inr ?_⟩
    obtain rfl : base.id = b := Option.some.inj hb
    exact lt_size_of_get? hd
  · exact ⟨e', he', rfl, fun b hb => .inl hb⟩

theorem id_of_def? (orderly : Orderly tokens t) {id : TypeId} {d : TypeDef}
    (live : t.def? id = some d) : d.id = id := by
  obtain ⟨e, he, rfl⟩ := def?_eq_some_iff.1 live
  exact orderly.placed id e he

theorem eq_of_token (orderly : Orderly tokens t) {a b : TypeId} {d e : TypeDef}
    (hd : t.def? a = some d) (he : t.def? b = some e) (same : d.token = e.token) : d = e := by
  obtain ⟨d', hd', rfl⟩ := def?_eq_some_iff.1 hd
  obtain ⟨e', he', rfl⟩ := def?_eq_some_iff.1 he
  obtain rfl := orderly.distinct a b d' e' hd' he' same
  rw [Option.some.inj (hd'.symm.trans he')]

/-- A new type changes no link. -/
theorem base?_add (orderly : Orderly tokens t) (token : Token) (space name : String)
    (flags : UInt32) (id : TypeId) :
    (t.add token space name flags).2.base? id = t.base? id := by
  have unused : t.get? ⟨t.slots.size⟩ = none := by simp [get?]
  rw [base?, base?, get?_add]
  split
  · next last =>
    obtain rfl : id = ⟨t.slots.size⟩ := congrArg TypeId.mk last
    rw [unused]
    rfl
  · cases he : t.get? id with
    | none => rfl
    | some e =>
      cases hb : e.base with
      | none => simp [hb]
      | some b =>
        have inRange := orderly.bounded id e b he hb
        have same : (t.add token space name flags).2.def? b = t.def? b := by
          rw [def?, get?_add, if_neg (by omega), def?]
        simp [hb, same]

theorem after (orderly : Orderly tokens t) (c : Change)
    (fresh : ∀ token ∈ c.token?, token ∉ tokens) :
    Orderly (tokens ++ c.token?.toList) (t.after c) := by
  cases c with
  | create token space name flags => exact orderly.create (fresh token rfl) space name flags
  | keep kept => simpa [Change.token?, TypeTable.after] using orderly.keepOnly kept
  | link a b =>
    simp only [Change.token?, Option.toList_none, List.append_nil]
    rcases after_link_cases t a b with ⟨-, same⟩ | ⟨type, base, -, hbase, linked⟩
    · rw [same]
      exact orderly
    · obtain rfl := orderly.id_of_def? hbase
      exact orderly.setBase linked hbase

/-- What a walk meets is there. -/
theorem def?_of_mem_basesWithin (orderly : Orderly tokens t) {n : Nat} {id : TypeId} {d : TypeDef}
    (hd : d ∈ t.basesWithin n id) : t.def? d.id = some d := by
  induction n generalizing id with
  | zero => cases hd
  | succ n ih =>
    rw [basesWithin] at hd
    cases hbase : t.base? id with
    | none => simp [hbase] at hd
    | some b =>
      rw [hbase] at hd
      rcases List.mem_cons.1 hd with rfl | hd
      · obtain ⟨-, b, -, -, live⟩ := base?_eq_some_iff.1 hbase
        rw [orderly.id_of_def? live]
        exact live
      · exact ih hd

/-- A walk finds the token of a type exactly if the chain comes to the type within its reach. -/
theorem isSubclass_iff (orderly : Orderly tokens t) (live : t.def? type.id = some type)
    (id : TypeId) :
    t.isSubclass id type.token = true ↔ ∃ n, 0 < n ∧ n ≤ maxDepth ∧ t.Leads n id type.id := by
  rw [← mem_basesWithin_iff, List.mem_map, isSubclass, List.any_eq_true]
  refine exists_congr fun d => and_congr_right fun hd => ?_
  have there := orderly.def?_of_mem_basesWithin hd
  rw [beq_iff_eq]
  constructor
  · intro same
    rw [orderly.eq_of_token there live same]
  · intro same
    rw [same, live] at there
    rw [Option.some.inj there]

/-- What is asked of a base: the type has none yet, and the base does not lead to it within the
reach of a walk. -/
theorem accepts_iff (orderly : Orderly tokens t) (live : t.def? type.id = some type)
    (baseLive : t.def? base.id = some base) :
    t.Accepts type base ↔
      (t.get? type.id).bind TypeEntry.base = none ∧ base ≠ type ∧
        ∀ n ≤ maxDepth, ¬ t.Leads n base.id type.id := by
  constructor
  · rintro ⟨t', linked⟩
    obtain ⟨other, apart, unset, -⟩ := setBase_eq_ok_iff.1 linked
    have different : base ≠ type := fun same => other (congrArg TypeDef.token same)
    refine ⟨unset, different, fun n hle chain => ?_⟩
    by_cases hn : n = 0
    · subst hn
      rw [chain.eq_of_zero, live] at baseLive
      exact different (Option.some.inj baseLive).symm
    · rw [(orderly.isSubclass_iff live base.id).2 ⟨n, by omega, hle, chain⟩] at apart
      cases apart
  · rintro ⟨unset, different, apart⟩
    refine ⟨_, setBase_eq_ok_iff.2 ⟨?_, ?_, unset, rfl⟩⟩
    · exact fun same => different (orderly.eq_of_token baseLive live same)
    · rw [← Bool.not_eq_true, orderly.isSubclass_iff live]
      rintro ⟨n, -, hle, chain⟩
      exact apart n hle chain

end Orderly

theorem Ringless.after {tokens : List Token} (ringless : t.Ringless (maxDepth + 1))
    (orderly : Orderly tokens t) (c : Change) : (t.after c).Ringless (maxDepth + 1) := by
  cases c with
  | create token space name flags =>
    refine ringless.anti fun id d hd => ?_
    rw [← orderly.base?_add token space name flags]
    exact hd
  | keep kept => exact ringless.anti fun id d => base?_of_keepOnly
  | link a b =>
    rcases after_link_cases t a b with ⟨-, same⟩ | ⟨type, base, htype, hbase, linked⟩
    · rw [same]
      exact ringless
    · obtain rfl := orderly.id_of_def? htype
      obtain rfl := orderly.id_of_def? hbase
      obtain ⟨-, -, apart⟩ := (orderly.accepts_iff htype hbase).1 ⟨_, linked⟩
      exact ringless.link (base?_setBase linked htype hbase) (base?_eq_none_of_setBase linked) apart

/-! ## Whole runs -/

variable {changes : List Change}

theorem created_append_singleton (changes : List Change) (c : Change) :
    created (changes ++ [c]) = created changes ++ c.token?.toList := by
  rw [created, List.filterMap_append]
  cases hc : c.token? <;> simp [created, hc]

theorem created_append_link (changes : List Change) (a b : TypeId) :
    created (changes ++ [.link a b]) = created changes := by
  rw [created_append_singleton]
  exact List.append_nil _

/-- Whatever happens to types with tokens of their own, their table is orderly, and a ring in it is
longer than a walk. -/
theorem orderly_and_ringless_grown (distinct : (created changes).Nodup) :
    Orderly (created changes) (grown changes) ∧ (grown changes).Ringless (maxDepth + 1) := by
  induction changes using List.reverseRecOn with
  | nil =>
    refine ⟨.empty, fun n id hpos _ ring => ?_⟩
    have root : (grown []).base? id = none := by simp [grown, base?, get?]
    have := (ring.eq_of_base?_eq_none root).1
    omega
  | append_singleton changes c ih =>
    rw [created_append_singleton, List.nodup_append'] at distinct
    obtain ⟨before, -, disjoint⟩ := distinct
    obtain ⟨orderly, ringless⟩ := ih before
    rw [created_append_singleton, grown_append_singleton]
    refine ⟨orderly.after c fun token htoken known => ?_, ringless.after orderly c⟩
    exact disjoint known (Option.mem_toList.2 htoken)

theorem orderly_grown (distinct : (created changes).Nodup) :
    Orderly (created changes) (grown changes) :=
  (orderly_and_ringless_grown distinct).1

theorem ringless_grown (distinct : (created changes).Nodup) :
    (grown changes).Ringless (maxDepth + 1) :=
  (orderly_and_ringless_grown distinct).2

/-- Slots are never given up. -/
theorem size_le_after (t : TypeTable) (c : Change) : t.slots.size ≤ (t.after c).slots.size := by
  cases c with
  | create token space name flags => simp [after, add]
  | keep kept => simp [after, keepOnly]
  | link a b =>
    rcases after_link_cases t a b with ⟨-, same⟩ | ⟨type, base, -, -, linked⟩
    · exact Nat.le_of_eq (congrArg (·.slots.size) same.symm)
    · exact Nat.le_of_eq (size_setBase linked).symm

theorem size_grown_le_append (changes later : List Change) :
    (grown changes).slots.size ≤ (grown (changes ++ later)).slots.size := by
  induction later using List.reverseRecOn with
  | nil => simp
  | append_singleton later c ih =>
    rw [← List.append_assoc, grown_append_singleton]
    exact Nat.le_trans ih (size_le_after _ c)

theorem GivenBase.lt_size {id : TypeId} (given : GivenBase changes id) :
    id.index < (grown changes).slots.size := by
  obtain ⟨before, other, later, rfl, type, base, live, -, -⟩ := given
  obtain ⟨e, he, -⟩ := def?_eq_some_iff.1 live
  exact Nat.lt_of_lt_of_le (lt_size_of_get? he) (size_grown_le_append before _)

/-- A type was given a base before the last change, or by it. -/
theorem givenBase_append_singleton_iff {c : Change} {id : TypeId} :
    GivenBase (changes ++ [c]) id ↔
      GivenBase changes id ∨ ∃ other, c = .link id other ∧ (grown changes).Links id other := by
  constructor
  · rintro ⟨before, other, later, split, links⟩
    rcases List.eq_nil_or_concat' later with rfl | ⟨later, last, rfl⟩
    · obtain ⟨rfl, hc⟩ := List.append_inj' split rfl
      cases hc
      exact .inr ⟨other, rfl, links⟩
    · rw [← List.cons_append, ← List.append_assoc] at split
      obtain ⟨rfl, -⟩ := List.append_inj' split rfl
      exact .inl ⟨before, other, later, rfl, links⟩
  · rintro (⟨before, other, later, rfl, links⟩ | ⟨other, rfl, links⟩)
    · exact ⟨before, other, later ++ [c], by simp, links⟩
    · exact ⟨changes, other, [], rfl, links⟩

theorem givenBase_append_singleton_iff_of_not_linked {c : Change} {id : TypeId}
    (unlinked : ∀ other, c = .link id other → ¬ (grown changes).Links id other) :
    GivenBase (changes ++ [c]) id ↔ GivenBase changes id := by
  rw [givenBase_append_singleton_iff, or_iff_left]
  rintro ⟨other, hc, links⟩
  exact unlinked other hc links

/-- A type that is there has a base set exactly if it was given one. -/
theorem isSome_base_iff_givenBase (distinct : (created changes).Nodup) {id : TypeId}
    {e : TypeEntry} (live : (grown changes).get? id = some e) :
    e.base.isSome = true ↔ GivenBase changes id := by
  induction changes using List.reverseRecOn generalizing e with
  | nil => simp [grown, get?] at live
  | append_singleton changes c ih =>
    rw [created_append_singleton, List.nodup_append'] at distinct
    have orderly := orderly_grown distinct.1
    rw [grown_append_singleton] at live
    cases c with
    | create token space name flags =>
      rw [givenBase_append_singleton_iff_of_not_linked (by rintro _ ⟨⟩)]
      rw [after, get?_add] at live
      split at live
      · next last =>
        cases live
        refine iff_of_false Bool.false_ne_true fun given => ?_
        have := given.lt_size
        omega
      · exact ih distinct.1 live
    | keep kept =>
      rw [givenBase_append_singleton_iff_of_not_linked (by rintro _ ⟨⟩)]
      rw [after, get?_keepOnly, Option.ite_none_right_eq_some] at live
      exact ih distinct.1 live.2
    | link a b =>
      rcases after_link_cases (grown changes) a b with
        ⟨refused, same⟩ | ⟨type, base, ha, hb, linked⟩
      · rw [same] at live
        rw [givenBase_append_singleton_iff_of_not_linked (by rintro _ ⟨⟩; exact refused)]
        exact ih distinct.1 live
      · obtain rfl := orderly.id_of_def? ha
        rw [get?_setBase linked] at live
        split at live
        · next same =>
          subst same
          obtain ⟨e, -, rfl⟩ := Option.map_eq_some_iff.1 live
          refine iff_of_true rfl (givenBase_append_singleton_iff.2 (.inr ⟨b, rfl, ?_⟩))
          exact ⟨type, base, ha, hb, _, linked⟩
        · next other =>
          rw [givenBase_append_singleton_iff_of_not_linked
            (by rintro _ ⟨⟩; exact absurd rfl other)]
          exact ih distinct.1 live

end Cil.TypeTable
