import Cil.Proofs.Rule.Symmetry

/-!
# Members obtained through another type

Through a derived type one comes by the members of its base types, as copies that differ in the type
they were obtained through. The accessors of a property are copied with it, and a rule for a copied
method finds them by looking up the property of the method itself and copying that. Both ways lead
to the same copies. So among copies through one type matching is what it is among the members
themselves, and the way back to the declaring type leads to the very member that was copied.
-/

namespace Cil

/-- The accessors of the property are no copies, and are declared where it is. -/
def Property.OwnAccessors (p : Property) : Prop :=
  ∀ a ∈ p.accessors, (Member.method a).Own ∧ a.declaring = p.declaring

instance (p : Property) : Decidable p.OwnAccessors :=
  inferInstanceAs (Decidable (∀ a ∈ p.accessors, _))

/-- The member `m` is no copy, and `d` declares it. It can be obtained through `u`, which is another
type. Both types are there, and properties have accessors of their own. -/
structure Member.Reflectable (t : TypeTable) (m : Member) (d u : TypeDef) : Prop where
  own : m.Own
  declared : m.declaring? = some d.id
  declaring : t.def? d.id = some d
  reflecting : t.def? u.id = some u
  other : u.token ≠ d.token
  accessors : ∀ p, m = .property p → p.OwnAccessors
  listed : ∀ id e, t.get? id = some e → ∀ p ∈ e.properties, p.OwnAccessors

/-! ## Copies -/

theorem Property.isStatic_through (p : Property) (u : TypeId) :
    (p.through u).isStatic = p.isStatic := by
  rw [isStatic, isStatic, accessors_through, List.any_map]
  rfl

/-- Copying a property back gives the property, since its accessors come back with it. -/
theorem Property.through_through {p : Property} (own : (Member.property p).Own)
    (accessors : p.OwnAccessors) (u : TypeId) : (p.through u).through p.declaring = p := by
  have back (o : Option Method) (mem : ∀ a ∈ o, a ∈ p.accessors) :
      (o.map (·.through u)).map (·.through p.declaring) = o := by
    cases o with
    | none => rfl
    | some a =>
      obtain ⟨ownA, declaring⟩ := accessors a (mem a rfl)
      have reflected : p.declaring = a.reflected := declaring.symm.trans (Option.some.inj ownA).symm
      rw [reflected]
      rfl
  have getter := back p.getter fun a ha => List.mem_append_left _ (Option.mem_toList.2 ha)
  have setter := back p.setter fun a ha => List.mem_append_right _ (Option.mem_toList.2 ha)
  have reflected : p.reflected = p.declaring := Option.some.inj own
  calc (p.through u).through p.declaring
      = { p with
          reflected := p.declaring
          getter := (p.getter.map (·.through u)).map (·.through p.declaring)
          setter := (p.setter.map (·.through u)).map (·.through p.declaring) } := rfl
    _ = { p with reflected := p.declaring } := by rw [getter, setter]
    _ = p := congrArg (fun id => { p with reflected := id }) reflected.symm

namespace Member

variable {t : TypeTable} {m c : Member}

theorem kind_through (m : Member) (u : TypeId) : (m.through u).kind = m.kind := by
  cases m <;> rfl

theorem token_through (m : Member) (u : TypeId) : (m.through u).token = m.token := by
  cases m <;> rfl

theorem declaring?_through (m : Member) (u : TypeId) :
    (m.through u).declaring? = m.declaring? := by
  cases m <;> rfl

theorem reflected?_through (m : Member) (u : TypeId) :
    (m.through u).reflected? = m.declaring?.map fun _ => u := by
  cases m <;> rfl

theorem isStatic_through (m : Member) (u : TypeId) : (m.through u).isStatic = m.isStatic := by
  cases m with
  | property p => exact p.isStatic_through u
  | _ => rfl

/-- Copies through one type are the same exactly if what is copied is. -/
theorem identity_through_eq_iff (ownC : c.Own) (ownM : m.Own) (u : TypeId) :
    (c.through u).identity t = (m.through u).identity t ↔ c.identity t = m.identity t := by
  simp only [identity, Identity.mk.injEq, kind_through, token_through, declaring?_through]
  refine and_congr_right fun kinds => and_congr_right fun _ => and_congr_right fun declaring => ?_
  have copies : (c.through u).reflected? = (m.through u).reflected? := by
    rw [reflected?_through, reflected?_through]
    cases c <;> cases m <;> simp_all [kind, declaring?]
  rw [copies, ownC, ownM, declaring]
  exact iff_of_true rfl rfl

/-- What is no copy is not the same as a copy through another type than the declaring one. -/
theorem identity_ne_through {d u : TypeId} {x y : Token} (own : c.Own)
    (declared : m.declaring? = some d) (hd : t.token? d = some x) (hu : t.token? u = some y)
    (other : y ≠ x) : c.identity t ≠ (m.through u).identity t := by
  intro same
  have declaring : c.declaring?.bind t.token? = some x := by
    have := congrArg Identity.declaring same
    simpa [identity, declaring?_through, declared, hd] using this
  have reflected : c.reflected?.bind t.token? = some y := by
    have := congrArg Identity.reflected same
    simpa [identity, reflected?_through, declared, hu] using this
  rw [own, declaring] at reflected
  exact other (Option.some.inj reflected).symm

/-! ## Accessors of copies -/

namespace Reflectable

variable {d u : TypeDef} (reflectable : m.Reflectable t d u)
include reflectable

theorem token?_declaring : t.token? d.id = some d.token :=
  congrArg (Option.map TypeDef.token) reflectable.declaring

theorem token?_reflecting : t.token? u.id = some u.token :=
  congrArg (Option.map TypeDef.token) reflectable.reflecting

/-- The way back to the declaring type leads to the member that was copied. -/
theorem through_through : (m.through u.id).through d.id = m := by
  have declared := reflectable.declared
  have own := reflectable.own
  cases m with
  | field f =>
    have reflected : d.id = f.reflected := Option.some.inj (declared.symm.trans own.symm)
    rw [reflected]
    rfl
  | method n =>
    have reflected : d.id = n.reflected := Option.some.inj (declared.symm.trans own.symm)
    rw [reflected]
    rfl
  | property p =>
    have declaring : p.declaring = d.id := Option.some.inj declared
    rw [← declaring]
    exact congrArg Member.property (Property.through_through own (reflectable.accessors p rfl) u.id)
  | type _ | unknown _ => cases declared

/-- The copy of a member has the copies of its accessors, and nothing else. -/
theorem accesses_through_iff {a : Method} :
    (m.through u.id).Accesses t a ↔ ∃ b, m.Accesses t b ∧ a = b.through u.id := by
  have own := reflectable.own
  have declared := reflectable.declared
  cases m with
  | property p =>
    constructor
    · rintro ⟨mem⟩
      rw [Property.accessors_through, List.mem_map] at mem
      obtain ⟨b, hb, rfl⟩ := mem
      exact ⟨b, .property hb, rfl⟩
    · rintro ⟨b, ⟨hb⟩, rfl⟩
      apply Accesses.property
      rw [Property.accessors_through]
      exact List.mem_map_of_mem hb
  | method n =>
    have head {e : TypeEntry} (declares : t.get? n.declaring = some e) : e.head = d := by
      have live := reflectable.declaring
      rw [← Option.some.inj declared, TypeTable.def?, declares] at live
      exact Option.some.inj live
    constructor
    · intro accesses
      change (Member.method (n.through u.id)).Accesses t a at accesses
      cases accesses with
      | direct owns same _ =>
        have tokens := same u reflectable.reflecting
        rw [head owns.declares] at tokens
        exact absurd tokens reflectable.other
      | through owns reflected _ mem =>
        obtain rfl := Option.some.inj (reflectable.reflecting.symm.trans reflected)
        exact ⟨_, own.accesses_iff.2 ⟨_, _, ⟨owns.declares, owns.first, owns.has⟩, mem⟩, rfl⟩
    · rintro ⟨b, accesses, rfl⟩
      obtain ⟨e, p, owns, mem⟩ := own.accesses_iff.1 accesses
      have other : u.token ≠ e.head.token := by
        rw [head owns.declares]
        exact reflectable.other
      have owns' : p.Owns t (n.through u.id) e := ⟨owns.declares, owns.first, owns.has⟩
      exact .through owns' reflectable.reflecting other mem
  | field f =>
    constructor
    · rintro ⟨⟩
    · rintro ⟨_, ⟨⟩, _⟩
  | type _ | unknown _ => cases declared

/-- The accessors of a member are no copies, and are declared by the type with its token. -/
theorem own_of_accesses {a : Method} (accesses : m.Accesses t a) :
    (Member.method a).Own ∧ t.token? a.declaring = some d.token := by
  have declared := reflectable.declared
  cases m with
  | property p =>
    obtain ⟨mem⟩ := accesses
    obtain ⟨own, declaring⟩ := reflectable.accessors p rfl a mem
    refine ⟨own, ?_⟩
    rw [declaring, Option.some.inj declared, reflectable.token?_declaring]
  | method n =>
    obtain ⟨e, p, owns, mem⟩ := reflectable.own.accesses_iff.1 accesses
    obtain ⟨before, after, split, -⟩ := owns.first
    have listed : p ∈ e.properties := by
      rw [← Array.mem_toList_iff, split]
      simp
    have keeps := reflectable.listed _ e owns.declares p listed
    obtain ⟨own, declaring⟩ := keeps a mem
    refine ⟨own, ?_⟩
    -- the accessor that is the method itself tells where the property is declared
    obtain ⟨b, hb, definition⟩ := owns.has
    rw [Method.sameDefinition, Bool.and_eq_true, beq_iff_eq, beq_iff_eq] at definition
    rw [declaring, ← (keeps b hb).2, definition.2, Option.some.inj declared,
      reflectable.token?_declaring]
  | field f => cases accesses
  | type _ | unknown _ => cases declared

/-- A copy stands for a copy exactly if one member stands for the other. -/
theorem standsFor_through_iff (ownC : c.Own) :
    (c.through u.id).StandsFor t (m.through u.id) ↔ c.StandsFor t m := by
  refine or_congr (identity_through_eq_iff ownC reflectable.own u.id) ?_
  have copies {b : Method} (accesses : m.Accesses t b) :
      (c.through u.id).identity t = (Member.method (b.through u.id)).identity t ↔
        c.identity t = (Member.method b).identity t :=
    identity_through_eq_iff ownC (reflectable.own_of_accesses accesses).1 u.id
  constructor
  · rintro ⟨a, accesses, same⟩
    obtain ⟨b, original, rfl⟩ := reflectable.accesses_through_iff.1 accesses
    exact ⟨b, original, (copies original).1 same⟩
  · rintro ⟨b, accesses, same⟩
    exact ⟨b.through u.id, reflectable.accesses_through_iff.2 ⟨b, accesses, rfl⟩,
      (copies accesses).2 same⟩

/-- What is no copy does not stand for one. -/
theorem not_standsFor_through (ownC : c.Own) : ¬ c.StandsFor t (m.through u.id) := by
  rintro (same | ⟨a, accesses, same⟩)
  · exact identity_ne_through ownC reflectable.declared reflectable.token?_declaring
      reflectable.token?_reflecting reflectable.other same
  · obtain ⟨b, original, rfl⟩ := reflectable.accesses_through_iff.1 accesses
    exact identity_ne_through (m := .method b) ownC rfl (reflectable.own_of_accesses original).2
      reflectable.token?_reflecting reflectable.other same

end Reflectable

end Member

/-! ## Rules for copies -/

/-- Without base matching, what counts stands for the target, or for the target as obtained through
its declaring type. -/
theorem MatchConfig.covers_iff_of_base_off {t : TypeTable} {r : Resolver} {config : MatchConfig}
    {target c : Member} (off : config.base = false) :
    config.Covers t r target c ↔
      c.StandsFor t target ∨
        target.isStatic = false ∧ config.declaring = true ∧
          ∃ d u, target.declaringDef? t = some d ∧ target.reflectedDef? t = some u ∧
            d.token ≠ u.token ∧ c.StandsFor t (target.through d.id) := by
  constructor
  · intro covers
    cases covers with
    | itself same => exact .inl (.inl same)
    | accessor accesses same => exact .inl (.inr ⟨_, accesses, same⟩)
    | declaring nonstatic on declares reflected other stands =>
      exact .inr ⟨nonstatic, on, _, _, declares, reflected, other, stands⟩
    | inherited _ on | derived _ on => exact absurd (off.symm.trans on) Bool.false_ne_true
  · rintro ((same | ⟨a, accesses, same⟩) |
      ⟨nonstatic, on, d, u, declares, reflected, other, stands⟩)
    · exact .itself same
    · exact .accessor accesses same
    · exact .declaring nonstatic on declares reflected other stands

/-- A rule for a copy that admits the target as obtained through its declaring type takes what is no
copy for the target only that way. -/
theorem Member.Reflectable.covers_through_iff {t : TypeTable} {m c : Member} {d u : TypeDef}
    (reflectable : m.Reflectable t d u) (ownC : c.Own) {r : Resolver} {config : MatchConfig}
    (off : config.base = false) (on : config.declaring = true) :
    config.Covers t r (m.through u.id) c ↔ m.isStatic = false ∧ c.StandsFor t m := by
  have declares : (m.through u.id).declaringDef? t = some d := by
    rw [declaringDef?, declaring?_through, reflectable.declared]
    exact reflectable.declaring
  have reflected : (m.through u.id).reflectedDef? t = some u := by
    rw [reflectedDef?, reflected?_through, reflectable.declared]
    exact reflectable.reflecting
  rw [MatchConfig.covers_iff_of_base_off off, or_iff_right (reflectable.not_standsFor_through ownC),
    isStatic_through]
  simp [on, declares, reflected, reflectable.other.symm, reflectable.through_through]

namespace Rule

variable {t : TypeTable} {r : Resolver} {m c : Member} {d u : TypeDef}

/-- An exact rule says yes to what stands for its target. -/
theorem holds_query_exact_iff (depth : Nat) (uses : List Use) :
    ((({ target := m, config := { MatchConfig.exact with depth } } : Rule).afterAll t r uses).query
      t r c).holds = true ↔ c.StandsFor t m := by
  rw [holds_query_afterAll, admits_iff_covers, MatchConfig.covers_iff_of_base_off rfl]
  simp [MatchConfig.exact]

/-- An exact rule says the same of copies through one type as of the members themselves. A rule for
a copy that admits only the target as obtained through its declaring type says the same of members
that are no copies, unless the target is static; then it says yes to none of them. -/
theorem query_through (reflectable : m.Reflectable t d u) (ownC : c.Own) (r : Resolver)
    (depth : Nat) (uses uses' : List Use) :
    let exact : Rule := { target := m, config := { MatchConfig.exact with depth } }
    let copied (config : MatchConfig) : Rule :=
      { target := m.through u.id, config := { config with depth } }
    (((copied .exact).afterAll t r uses).query t r (c.through u.id)).holds =
        ((exact.afterAll t r uses').query t r c).holds ∧
      (m.isStatic = false →
        (((copied .declaringType).afterAll t r uses).query t r c).holds =
          ((exact.afterAll t r uses').query t r c).holds) ∧
      (m.isStatic = true →
        (((copied .declaringType).afterAll t r uses).query t r c).holds = false) := by
  intro exact copied
  have back : (((copied .declaringType).afterAll t r uses).query t r c).holds = true ↔
      m.isStatic = false ∧ c.StandsFor t m := by
    rw [holds_query_afterAll, admits_iff_covers]
    exact reflectable.covers_through_iff ownC rfl rfl
  refine ⟨?_, fun nonstatic => ?_, fun static => ?_⟩
  · rw [Bool.eq_iff_iff, holds_query_exact_iff, holds_query_exact_iff]
    exact reflectable.standsFor_through_iff ownC
  · rw [Bool.eq_iff_iff, back, holds_query_exact_iff]
    exact and_iff_right nonstatic
  · rw [← Bool.not_eq_true, back, static]
    exact fun yes => Bool.false_ne_true yes.1.symm

open Volume in
/-- The getter and the setter of a property, both as obtained through the derived type. -/
theorem query_through_volume :
    (Member.method getter).Reflectable types device player ∧ (Member.method setter).Own ∧
      (Member.method getter).isStatic = false ∧
      (({ target := .method (getter.through player.id), config := .exact } : Rule).query types
        resolver (.method (setter.through player.id))).holds = true ∧
      (({ target := .method (getter.through player.id), config := .declaringType } : Rule).query
        types resolver (.method setter)).holds = true := by
  have reflectable : (Member.method getter).Reflectable types device player :=
    { own := rfl
      declared := rfl
      declaring := rfl
      reflecting := rfl
      other := by decide
      accessors := fun p hp => by cases hp
      listed := by
        intro id e entry
        rcases entry_cases entry with ⟨-, rfl⟩ | ⟨-, rfl⟩ <;> decide }
  have own : (Member.method setter).Own := rfl
  have matched : (({ target := .method getter, config := .exact } : Rule).query types resolver
      (.method setter)).holds = true := by decide +kernel
  obtain ⟨copies, back, -⟩ :=
    query_through reflectable own resolver MatchConfig.defaultDepth [] []
  exact ⟨reflectable, own, rfl, copies.trans matched, (back rfl).trans matched⟩

end Rule

end Cil
