import Cil.Proofs.Types.Growth

/-!
# Which bases are accepted

A base is accepted exactly if the type was given none before and the base does not lead to the type
within the reach of a walk. That is less than to refuse every descendant: a chain that is longer
than a walk can be closed to a ring. Still no walk meets a type twice, on a ring or on the way into
one.
-/

namespace Cil.TypeTable

variable {changes : List Change} {t : TypeTable}

/-- All chains from a type to one without a base are equally long. -/
theorem Leads.length_unique {m n : Nat} {a b : TypeId} (root : t.base? b = none)
    (first : t.Leads m a b) (second : t.Leads n a b) : m = n := by
  by_cases le : m ≤ n
  · have := ((first.continues second le).eq_of_base?_eq_none root).1
    omega
  · have := ((second.continues first (by omega)).eq_of_base?_eq_none root).1
    omega

theorem base?_eq_none_of_not_givenBase (distinct : (created changes).Nodup) {id : TypeId}
    (live : ∃ d, (grown changes).def? id = some d) (never : ¬ GivenBase changes id) :
    (grown changes).base? id = none := by
  obtain ⟨d, live⟩ := live
  obtain ⟨e, he, -⟩ := def?_eq_some_iff.1 live
  rw [← isSome_base_iff_givenBase distinct he, Option.not_isSome_iff_eq_none] at never
  simp [base?, he, never]

/-- Chains stay among the slots. -/
theorem Orderly.lt_size_of_leads {tokens : List Token} (orderly : Orderly tokens t) {n : Nat}
    {a b : TypeId} (chain : t.Leads n a b) (inRange : a.index < t.slots.size) :
    b.index < t.slots.size := by
  induction chain with
  | here => exact inRange
  | up base _ ih =>
    obtain ⟨-, b, -, -, live⟩ := base?_eq_some_iff.1 base
    obtain ⟨e, he, -⟩ := def?_eq_some_iff.1 live
    exact ih (orderly.id_of_def? live ▸ lt_size_of_get? he)

section Types

variable {type base : TypeDef}

/-- What is asked of a base, in terms of what happened before. -/
theorem accepts_grown_iff (distinct : (created changes).Nodup)
    (live : (grown changes).def? type.id = some type)
    (baseLive : (grown changes).def? base.id = some base) :
    (grown changes).Accepts type base ↔
      ¬ GivenBase changes type.id ∧ base ≠ type ∧
        ∀ n ≤ maxDepth, ¬ (grown changes).Leads n base.id type.id := by
  obtain ⟨e, he, -⟩ := def?_eq_some_iff.1 live
  rw [(orderly_grown distinct).accepts_iff live baseLive, he,
    ← isSome_base_iff_givenBase distinct he, Option.not_isSome_iff_eq_none]
  rfl

/-- Every descendant is refused exactly if there is none beyond the reach of a walk, or the type has
a base already. -/
theorem accepts_grown_iff_not_descendant (distinct : (created changes).Nodup)
    (live : (grown changes).def? type.id = some type)
    (baseLive : (grown changes).def? base.id = some base) :
    ((grown changes).Accepts type base ↔
        ¬ GivenBase changes type.id ∧ base ≠ type ∧
          ∀ n, ¬ (grown changes).Leads n base.id type.id) ↔
      GivenBase changes type.id ∨
        ∀ n, (grown changes).Leads n base.id type.id → n ≤ maxDepth := by
  rw [accepts_grown_iff distinct live baseLive]
  constructor
  · intro agree
    by_cases given : GivenBase changes type.id
    · exact .inl given
    · refine .inr fun n chain => ?_
      by_contra far
      have root := base?_eq_none_of_not_givenBase distinct ⟨type, live⟩ given
      have apart : ∀ m ≤ maxDepth, ¬ (grown changes).Leads m base.id type.id := by
        intro m hle chain'
        have := chain'.length_unique root chain
        omega
      have different : base ≠ type := by
        rintro rfl
        exact apart 0 (Nat.zero_le _) (.here _)
      exact (agree.1 ⟨given, different, apart⟩).2.2 n chain
  · rintro (given | near)
    · exact iff_of_false (fun h => h.1 given) (fun h => h.1 given)
    · refine and_congr_right fun _ => and_congr_right fun _ => ?_
      exact ⟨fun apart n chain => apart n (near n chain) chain, fun apart n _ => apart n⟩

/-- A base that is accepted changes one link. -/
theorem base?_grown_link (live : (grown changes).def? type.id = some type)
    (baseLive : (grown changes).def? base.id = some base)
    (accepted : (grown changes).Accepts type base) (id : TypeId) :
    (grown (changes ++ [.link type.id base.id])).base? id =
      if id = type.id then some base else (grown changes).base? id := by
  rw [grown_append_singleton]
  exact base?_setBase (after_link_of_accepts live baseLive accepted) live baseLive id

end Types

/-! ## Chains longer than a walk -/

namespace Chain

/-- The type at a place of a chain. -/
def member (i : Nat) : TypeDef := ⟨⟨i⟩, ⟨UInt32.ofNat i⟩, "Chain", Nat.repr i, 0⟩

/-- Creates the type at a place. -/
def creation (i : Nat) : Change :=
  .create (member i).token (member i).space (member i).name (member i).flags

/-- Builds a chain from its root to a tip: each type is created and linked to the one before. -/
def building : Nat → List Change
  | 0 => [creation 0]
  | n + 1 => building n ++ [creation (n + 1)] ++ [.link (member (n + 1)).id (member n).id]

/-- A chain that has been built: the root has no base, and the tip leads to it. -/
structure Built (n : Nat) (t : TypeTable) : Prop where
  size : t.slots.size = n + 1
  root : t.get? (member 0).id = some { head := member 0 }
  tip : t.def? (member n).id = some (member n)
  leads : t.Leads n (member n).id (member 0).id

/-- The type behind the tip, once it is created: nothing leads to it, and everything else is as it
was. -/
structure Created (n : Nat) (t t' : TypeTable) : Prop where
  size : t'.slots.size = n + 2
  new : t'.get? (member (n + 1)).id = some { head := member (n + 1) }
  old : ∀ i ≤ n, t'.get? (member i).id = t.get? (member i).id
  links : ∀ id, t'.base? id = t.base? id

section Step

variable {n : Nat} {t : TypeTable} {tokens : List Token}

theorem Built.created (built : Built n t) (orderly : Orderly tokens t) :
    Created n t (t.after (creation (n + 1))) where
  size := by
    rw [creation, after, add, Array.size_push, built.size]
  new := by
    have last : (member (n + 1)).id.index = t.slots.size := built.size.symm
    rw [creation, after, get?_add, if_pos last, add, built.size]
    rfl
  old i hi := by
    rw [creation, after, get?_add, if_neg]
    rw [built.size]
    show i ≠ n + 1
    omega
  links id := orderly.base?_add ..

variable {t' : TypeTable} {tokens' : List Token}

theorem Created.live (created : Created n t t') :
    t'.def? (member (n + 1)).id = some (member (n + 1)) :=
  def?_eq_some_iff.2 ⟨_, created.new, rfl⟩

theorem Created.tip (created : Created n t t') (built : Built n t) :
    t'.def? (member n).id = some (member n) := by
  rw [def?, created.old n (Nat.le_refl n)]
  exact built.tip

/-- The new type accepts the tip as its base. -/
theorem Built.accepts (built : Built n t) (orderly : Orderly tokens t)
    (created : Created n t t') (orderly' : Orderly tokens' t') :
    t'.Accepts (member (n + 1)) (member n) := by
  refine (orderly'.accepts_iff created.live (created.tip built)).2 ⟨?_, ?_, fun k _ chain => ?_⟩
  · exact congrArg (·.bind TypeEntry.base) created.new
  · intro same
    have := congrArg (·.id.index) same
    simp [member] at this
  · -- Nothing led to the new type's slot before it was there.
    have chain : t.Leads k (member n).id (member (n + 1)).id :=
      chain.mono fun id d hd => created.links id ▸ hd
    have inRange := orderly.lt_size_of_leads chain (built.size ▸ Nat.lt_succ_self n)
    rw [built.size] at inRange
    exact Nat.lt_irrefl _ inRange

/-- One more type at the tip. -/
theorem Built.link (built : Built n t) (orderly : Orderly tokens t)
    (created : Created n t t') (orderly' : Orderly tokens' t') :
    Built (n + 1) (t'.after (.link (member (n + 1)).id (member n).id)) := by
  have live := created.live
  have tip := created.tip built
  have linked := after_link_of_accepts live tip (built.accepts orderly created orderly')
  have links := base?_setBase linked live tip
  refine ⟨?_, ?_, ?_, ?_⟩
  · rw [size_setBase linked, created.size]
  · rw [get?_setBase linked, if_neg (by simp [member]), created.old 0 (Nat.zero_le n)]
    exact built.root
  · rw [def?_setBase linked]
    exact live
  · refine .up ((links _).trans (if_pos rfl)) (built.leads.mono fun id d hd => ?_)
    rw [← created.links] at hd
    exact base?_kept links (base?_eq_none_of_setBase linked) hd

end Step

theorem created_building_succ (n : Nat) :
    created (building (n + 1)) = created (building n ++ [creation (n + 1)]) := by
  rw [building, created_append_link]

/-- A chain of at most as many types as there are tokens can be built. -/
theorem nodup_created_building {n : Nat} (hn : n < UInt32.size) :
    (created (building n)).Nodup := by
  have tokens : created (building n) = (List.range (n + 1)).map fun i => (member i).token := by
    clear hn
    induction n with
    | zero => rfl
    | succ n ih =>
      rw [created_building_succ, created_append_singleton, ih, List.range_succ (n := n + 1),
        List.map_append]
      rfl
  rw [tokens]
  refine List.Nodup.map_on (fun i hi j hj same => ?_) List.nodup_range
  rw [List.mem_range] at hi hj
  have same : (UInt32.ofNat i).toNat = (UInt32.ofNat j).toNat := congrArg (·.value.toNat) same
  rwa [UInt32.toNat_ofNat_of_lt' (by omega), UInt32.toNat_ofNat_of_lt' (by omega)] at same

theorem built_grown {n : Nat} (hn : n < UInt32.size) : Built n (grown (building n)) := by
  induction n with
  | zero => exact ⟨rfl, rfl, rfl, .here _⟩
  | succ n ih =>
    have built := ih (by omega)
    have orderly := orderly_grown (nodup_created_building (n := n) (by omega))
    have orderly' := orderly_grown (created_building_succ n ▸ nodup_created_building hn)
    rw [building, grown_append_singleton]
    rw [grown_append_singleton] at orderly' ⊢
    exact built.link orderly (built.created orderly) orderly'

section Ring

variable {n : Nat} {t : TypeTable}

theorem Built.live (built : Built n t) : t.def? (member 0).id = some (member 0) :=
  def?_eq_some_iff.2 ⟨_, built.root, rfl⟩

theorem Built.base?_root (built : Built n t) : t.base? (member 0).id = none := by
  rw [base?, built.root]
  rfl

/-- The root of a chain that is longer than a walk accepts the tip. -/
theorem Built.accepts_tip {tokens : List Token} (built : Built n t) (orderly : Orderly tokens t)
    (long : maxDepth < n) : t.Accepts (member 0) (member n) := by
  refine (orderly.accepts_iff built.live built.tip).2 ⟨?_, ?_, fun k near chain => ?_⟩
  · exact congrArg (·.bind TypeEntry.base) built.root
  · intro same
    have : n = 0 := congrArg (·.id.index) same
    omega
  · have := chain.length_unique built.base?_root built.leads
    omega

/-- Builds a chain and makes its tip the base of its root. -/
def closing (n : Nat) : List Change := building n ++ [.link (member 0).id (member n).id]

theorem nodup_created_closing (hn : n < UInt32.size) : (created (closing n)).Nodup := by
  rw [closing, created_append_link]
  exact nodup_created_building hn

theorem live_closing (hn : n < UInt32.size) :
    (grown (closing n)).def? (member 0).id = some (member 0) := by
  rw [closing, grown_append_singleton, def?_after_link]
  exact (built_grown hn).live

theorem leads_closing (hn : n < UInt32.size) (long : maxDepth < n) :
    (grown (closing n)).Leads (n + 1) (member 0).id (member 0).id := by
  have built := built_grown hn
  have accepted := built.accepts_tip (orderly_grown (nodup_created_building hn)) long
  have links := base?_grown_link built.live built.tip accepted
  refine .up ((links _).trans (if_pos rfl)) (built.leads.mono fun id d hd => ?_)
  exact base?_kept links built.base?_root hd

end Ring

end Chain

/-! ## What is accepted, and what walks meet -/

/-- A base is accepted exactly if the type was given none before, the base is not the type itself,
and it does not lead to the type within the reach of a walk. All descendants are refused unless one
lies beyond that reach. A refusal changes no link, and rings are longer than a walk. -/
theorem setBase_accepts_exactly (changes : List Change) (distinct : (created changes).Nodup)
    (type base : TypeDef) (live : (grown changes).def? type.id = some type)
    (baseLive : (grown changes).def? base.id = some base) :
    ((grown changes).Accepts type base ↔
      ¬ GivenBase changes type.id ∧ base ≠ type ∧
        ∀ n ≤ maxDepth, ¬ (grown changes).Leads n base.id type.id) ∧
    (((grown changes).Accepts type base ↔
        ¬ GivenBase changes type.id ∧ base ≠ type ∧
          ∀ n, ¬ (grown changes).Leads n base.id type.id) ↔
      GivenBase changes type.id ∨
        ∀ n, (grown changes).Leads n base.id type.id → n ≤ maxDepth) ∧
    (¬ (grown changes).Accepts type base → ∀ id,
      (grown (changes ++ [.link type.id base.id])).base? id = (grown changes).base? id) ∧
    ((grown changes).Accepts type base → ∀ id,
      (grown (changes ++ [.link type.id base.id])).base? id =
        if id = type.id then some base else (grown changes).base? id) ∧
    ∀ n id, 0 < n → (grown changes).Leads n id id → maxDepth + 1 < n := by
  refine ⟨accepts_grown_iff distinct live baseLive,
    accepts_grown_iff_not_descendant distinct live baseLive, fun refused id => ?_,
    base?_grown_link live baseLive, fun n id hpos ring => ?_⟩
  · rw [grown_append_singleton, after_link_of_not_accepts live baseLive refused]
  · by_contra short
    exact ringless_grown distinct n id hpos (by omega) ring

/-- The root of a chain of 258 types has no base and stands above the tip, so that to refuse every
descendant and to accept a base are not the same there. -/
theorem setBase_accepts_exactly_long :
    (created (Chain.building 257)).Nodup ∧
    (grown (Chain.building 257)).def? (Chain.member 0).id = some (Chain.member 0) ∧
    (grown (Chain.building 257)).def? (Chain.member 257).id = some (Chain.member 257) ∧
    ¬ ((grown (Chain.building 257)).Accepts (Chain.member 0) (Chain.member 257) ↔
      ¬ GivenBase (Chain.building 257) (Chain.member 0).id ∧ Chain.member 257 ≠ Chain.member 0 ∧
        ∀ n, ¬ (grown (Chain.building 257)).Leads n (Chain.member 257).id (Chain.member 0).id) := by
  have distinct := Chain.nodup_created_building (n := 257) (by decide)
  have built := Chain.built_grown (n := 257) (by decide)
  refine ⟨distinct, built.live, built.tip, fun agree => ?_⟩
  obtain ⟨-, exactly, -⟩ := setBase_accepts_exactly (Chain.building 257) distinct
    (Chain.member 0) (Chain.member 257) built.live built.tip
  rcases exactly.1 agree with given | near
  · rw [← isSome_base_iff_givenBase distinct built.root] at given
    cases given
  · exact absurd (near 257 built.leads) (by decide)

/-- A descendant that lies beyond the reach of a walk is accepted, which closes a ring. -/
theorem setBase_accepts_far_descendant :
    (created (Chain.building 257)).Nodup ∧
    (grown (Chain.building 257)).Leads 257 (Chain.member 257).id (Chain.member 0).id ∧
    (grown (Chain.building 257)).Accepts (Chain.member 0) (Chain.member 257) ∧
    (grown (Chain.building 257 ++ [.link (Chain.member 0).id (Chain.member 257).id])).Leads 258
      (Chain.member 0).id (Chain.member 0).id := by
  have distinct := Chain.nodup_created_building (n := 257) (by decide)
  have built := Chain.built_grown (n := 257) (by decide)
  exact ⟨distinct, built.leads, built.accepts_tip (orderly_grown distinct) (by decide),
    Chain.leads_closing (by decide) (by decide)⟩

/-- No walk meets a type twice or comes back to the type that it starts from, whatever happened to
the types before. So no type derives from itself. -/
theorem ancestors_never_repeat (changes : List Change) (distinct : (created changes).Nodup)
    (type : TypeDef) (live : (grown changes).def? type.id = some type) :
    (((grown changes).ancestors type.id).map TypeDef.id).Nodup ∧
      type.id ∉ ((grown changes).ancestors type.id).map TypeDef.id ∧
      (grown changes).isSubclass type.id type.token = false := by
  have ringless := ringless_grown distinct
  have noReturn : ¬ ∃ n, 0 < n ∧ n ≤ maxDepth ∧ (grown changes).Leads n type.id type.id := by
    rintro ⟨n, hpos, hle, ring⟩
    exact ringless n type.id hpos (by omega) ring
  refine ⟨nodup_basesWithin maxDepth type.id fun n id hpos hle => ringless n id hpos (by omega),
    ?_, ?_⟩
  · rw [ancestors, mem_basesWithin_iff]
    exact noReturn
  · rw [← Bool.not_eq_true, (orderly_grown distinct).isSubclass_iff live]
    exact noReturn

/-- On a ring of 258 types a walk is as long as it can be and ends before it comes round. -/
theorem ancestors_never_repeat_ring :
    (created (Chain.closing 257)).Nodup ∧
    (grown (Chain.closing 257)).def? (Chain.member 0).id = some (Chain.member 0) ∧
    (grown (Chain.closing 257)).Leads 258 (Chain.member 0).id (Chain.member 0).id ∧
    (((grown (Chain.closing 257)).ancestors (Chain.member 0).id).map TypeDef.id).Nodup ∧
    (Chain.member 0).id ∉
      ((grown (Chain.closing 257)).ancestors (Chain.member 0).id).map TypeDef.id ∧
    (grown (Chain.closing 257)).isSubclass (Chain.member 0).id (Chain.member 0).token = false := by
  have distinct := Chain.nodup_created_closing (n := 257) (by decide)
  have live := Chain.live_closing (n := 257) (by decide)
  exact ⟨distinct, live, Chain.leads_closing (by decide) (by decide),
    ancestors_never_repeat (Chain.closing 257) distinct (Chain.member 0) live⟩

end Cil.TypeTable
