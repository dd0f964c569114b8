import Cil.Proofs.Rule.Bases
import Cil.Proofs.Rule.Memory

/-!
# What a rule covers

Five ways for a candidate to count as a target: it is the target, or an accessor of the property
the target is or belongs to; it stands for the target as obtained through its declaring type, or
for a member that a base type lists; or it hides the target or one of its accessors in a derived
type. The last three are for targets that are not static.
-/

namespace Cil

/-- `p` is the first property of the live type `e`, which declares the method `m`, that has `m`
among its accessors. -/
structure Property.Owns (t : TypeTable) (m : Method) (e : TypeEntry) (p : Property) : Prop where
  declares : t.get? m.declaring = some e
  first : ∃ before after, e.properties.toList = before ++ p :: after ∧
    ∀ q ∈ before, ∀ a ∈ q.accessors, a.sameDefinition t m = false
  has : ∃ a ∈ p.accessors, a.sameDefinition t m = true

namespace Member

/-- The method `a` gets or sets the property that a member is or belongs to. -/
inductive Accesses (t : TypeTable) : Member → Method → Prop
  | property {p : Property} {a : Method} (mem : a ∈ p.accessors) : Accesses t (.property p) a
  /-- The property is taken as it is when the method was obtained through no other type. -/
  | direct {m : Method} {e : TypeEntry} {p : Property} {a : Method} (owns : p.Owns t m e)
      (own : ∀ u, t.def? m.reflected = some u → u.token = e.head.token)
      (mem : a ∈ p.accessors) : Accesses t (.method m) a
  | through {m : Method} {e : TypeEntry} {p : Property} {a : Method} {u : TypeDef}
      (owns : p.Owns t m e) (reflected : t.def? m.reflected = some u)
      (other : u.token ≠ e.head.token) (mem : a ∈ p.accessors) :
      Accesses t (.method m) (a.through u.id)

/-- The candidate `c` is the member `m` or one of its accessors. -/
def StandsFor (t : TypeTable) (c m : Member) : Prop :=
  c.identity t = m.identity t ∨
    ∃ a, Accesses t m a ∧ c.identity t = (Member.method a).identity t

/-- The candidate `c` has the signature of `m` and is declared by a type derived from the one that
declares `m`. -/
structure Hides (t : TypeTable) (c m : Member) : Prop where
  like : m.sameSignature t c = true
  derived : ∃ d b, c.declaringDef? t = some d ∧ m.declaringDef? t = some b ∧
    ∃ a ∈ t.ancestors d.id, a.token = b.token

end Member

namespace MatchConfig

/-- A configuration has the candidate `c` count as the target. -/
inductive Covers (t : TypeTable) (r : Resolver) (config : MatchConfig) (target c : Member) : Prop
  | itself (same : c.identity t = target.identity t)
  | accessor {a : Method} (accesses : target.Accesses t a)
      (same : c.identity t = (Member.method a).identity t)
  | declaring {d u : TypeDef} (nonstatic : target.isStatic = false) (on : config.declaring = true)
      (declares : target.declaringDef? t = some d) (reflected : target.reflectedDef? t = some u)
      (other : d.token ≠ u.token) (stands : c.StandsFor t (target.through d.id))
  | inherited {m : Member} (nonstatic : target.isStatic = false) (on : config.base = true)
      (inherits : Rule.Inherits t r target config.depth m) (stands : c.StandsFor t m)
  | derived {m : Member} (nonstatic : target.isStatic = false) (on : config.base = true)
      (hidden : m = target ∨ ∃ a, target.Accesses t a ∧ m = .method a) (hides : c.Hides t m)

end MatchConfig

theorem Property.hasAccessor_iff (t : TypeTable) (p : Property) (m : Method) :
    p.hasAccessor t m = true ↔ ∃ a ∈ p.accessors, a.sameDefinition t m = true := by
  rw [hasAccessor, List.any_eq_true]

theorem Property.owns_iff (t : TypeTable) (m : Method) (e : TypeEntry) (p : Property) :
    p.Owns t m e ↔
      t.get? m.declaring = some e ∧ e.properties.find? (fun q => q.hasAccessor t m) = some p := by
  rw [← Array.find?_toList, List.find?_eq_some_iff_append, hasAccessor_iff]
  constructor
  · rintro ⟨declares, ⟨before, after, split, none⟩, has⟩
    refine ⟨declares, has, before, after, split, fun q hq => ?_⟩
    simpa [hasAccessor] using none q hq
  · rintro ⟨declares, has, before, after, split, none⟩
    refine ⟨declares, ⟨before, after, split, fun q hq => ?_⟩, has⟩
    simpa [hasAccessor] using none q hq

theorem Property.accessors_through (p : Property) (u : TypeId) :
    (p.through u).accessors = p.accessors.map fun a => a.through u := by
  cases hg : p.getter <;> cases hs : p.setter <;> simp [through, accessors, hg, hs]

namespace Accessors

theorem toList_ofProperty (p : Property) : (ofProperty p).toList = p.accessors := rfl

theorem mem_ofMethod_iff (t : TypeTable) (m a : Method) :
    a ∈ (ofMember t (.method m)).toList ↔ (Member.method m).Accesses t a := by
  constructor
  · intro mem
    cases declares : t.get? m.declaring with
    | none => simp [ofMember, declares, toList] at mem
    | some e =>
      cases find : e.properties.find? (fun p => p.hasAccessor t m) with
      | none => simp [ofMember, declares, find, toList] at mem
      | some p =>
        have owns : p.Owns t m e := (p.owns_iff t m e).2 ⟨declares, find⟩
        cases reflected : t.def? m.reflected with
        | none =>
          simp only [ofMember, declares, find, reflected] at mem
          exact .direct owns (fun u hu => nomatch reflected.symm.trans hu) mem
        | some u =>
          simp only [ofMember, declares, find, reflected] at mem
          by_cases same : u.token = e.head.token
          · rw [if_pos (beq_iff_eq.2 same)] at mem
            refine .direct owns (fun u' hu' => ?_) mem
            obtain rfl := Option.some.inj (reflected.symm.trans hu')
            exact same
          · rw [if_neg (by simpa using same), toList_ofProperty, Property.accessors_through] at mem
            obtain ⟨b, hb, rfl⟩ := List.mem_map.1 mem
            exact .through owns reflected same hb
  · intro accesses
    cases accesses with
    | direct owns own mem =>
      obtain ⟨declares, find⟩ := (Property.owns_iff ..).1 owns
      cases reflected : t.def? m.reflected with
      | none =>
        simp only [ofMember, declares, find, reflected]
        exact mem
      | some u =>
        simp only [ofMember, declares, find, reflected, own u reflected, beq_self_eq_true, if_true]
        exact mem
    | through owns reflected other mem =>
      obtain ⟨declares, find⟩ := (Property.owns_iff ..).1 owns
      simp only [ofMember, declares, find, reflected, beq_iff_eq, if_neg other, toList_ofProperty,
        Property.accessors_through]
      exact List.mem_map_of_mem mem

/-- What is looked up are the accessors. -/
theorem mem_ofMember_iff (t : TypeTable) (m : Member) (a : Method) :
    a ∈ (ofMember t m).toList ↔ m.Accesses t a := by
  cases m with
  | property p => exact ⟨.property, fun | .property mem => mem⟩
  | method m => exact mem_ofMethod_iff t m a
  | field f => exact ⟨fun mem => absurd mem List.not_mem_nil, nofun⟩
  | type u => exact ⟨fun mem => absurd mem List.not_mem_nil, nofun⟩
  | unknown u => exact ⟨fun mem => absurd mem List.not_mem_nil, nofun⟩

/-- Nothing but a method is the same as an accessor. -/
theorem contains_iff (t : TypeTable) (as : Accessors) (c : Member) :
    as.contains t c = true ↔ ∃ a ∈ as.toList, c.identity t = (Member.method a).identity t := by
  cases c with
  | method m =>
    rw [contains, List.any_eq_true]
    exact exists_congr fun a => and_congr_right fun _ => beq_iff_eq.trans eq_comm
  | _ => simp [contains, Member.identity, Member.kind]

theorem contains_ofMember_iff (t : TypeTable) (m c : Member) :
    (ofMember t m).contains t c = true ↔
      ∃ a, m.Accesses t a ∧ c.identity t = (Member.method a).identity t := by
  simp only [contains_iff, mem_ofMember_iff]

end Accessors

theorem Alternate.admits_iff (t : TypeTable) (m c : Member) :
    ({ member := m } : Alternate).admits t c = true ↔ c.StandsFor t m := by
  rw [admits, Bool.or_eq_true, Member.same, beq_iff_eq]
  exact or_congr_right (Accessors.contains_ofMember_iff t m c)

namespace Rule

variable (t : TypeTable) (r : Resolver) (config : MatchConfig) (target c : Member)

theorem hides_iff (m : Member) : hides t c m = true ↔ c.Hides t m := by
  rw [hides, Bool.and_eq_true]
  constructor
  · rintro ⟨like, derived⟩
    split at derived
    next d b hd hb =>
      rw [TypeTable.isSubclass, List.any_eq_true] at derived
      obtain ⟨a, ha, same⟩ := derived
      exact ⟨like, d, b, hd, hb, a, ha, beq_iff_eq.1 same⟩
    next => contradiction
  · rintro ⟨like, d, b, hd, hb, a, ha, same⟩
    rw [hd, hb]
    exact ⟨like, List.any_eq_true.2 ⟨a, ha, beq_iff_eq.2 same⟩⟩

theorem hiddenBy_iff :
    hiddenBy t target (Accessors.ofMember t target) c = true ↔
      ∃ m, (m = target ∨ ∃ a, target.Accesses t a ∧ m = .method a) ∧ c.Hides t m := by
  rw [hiddenBy, Bool.or_eq_true, List.any_eq_true, hides_iff]
  constructor
  · rintro (hides | ⟨a, mem, hides⟩)
    · exact ⟨target, .inl rfl, hides⟩
    · exact ⟨.method a, .inr ⟨a, (Accessors.mem_ofMember_iff t target a).1 mem, rfl⟩,
        (hides_iff t c _).1 hides⟩
  · rintro ⟨m, rfl | ⟨a, accesses, rfl⟩, hides⟩
    · exact .inl hides
    · exact .inr ⟨a, (Accessors.mem_ofMember_iff t target a).2 accesses, (hides_iff t c _).2 hides⟩

theorem accessors_expand (rule : Rule) :
    (rule.expand t r).1.accessors = Accessors.ofMember t rule.target := by
  simp only [expand]
  split
  · rfl
  · split
    · split
      · rfl
      · rfl
    · rfl

theorem declaring_expand (rule : Rule) :
    (rule.expand t r).1.declaring =
      if rule.target.isStatic = false ∧ rule.config.declaring = true then
        declaringAlternate t rule.target
      else none := by
  simp only [expand]
  split
  next static => simp [static]
  next nonstatic =>
    split
    · split
      · simp [nonstatic]
      · simp [nonstatic]
    · simp [nonstatic]

theorem bases_expand (rule : Rule) :
    (rule.expand t r).1.bases =
      if rule.target.isStatic = false ∧ rule.config.base = true then
        (inherited t r rule.target rule.config.depth).map fun m => { member := m }
      else [] := by
  simp only [expand, inherited]
  split
  next static => simp [static]
  next nonstatic =>
    split
    next d declares =>
      split
      next on => simp [nonstatic, on, declares, found_gather]
      next off => simp [off]
    next declares => simp [declares]

theorem declaringAlternate_eq_some_iff (a : Alternate) :
    declaringAlternate t target = some a ↔
      ∃ d u, target.declaringDef? t = some d ∧ target.reflectedDef? t = some u ∧
        d.token ≠ u.token ∧ a = { member := target.through d.id } := by
  rw [declaringAlternate]
  constructor
  · intro h
    split at h
    next d u declares reflected =>
      split at h
      next => contradiction
      next other =>
        exact ⟨d, u, declares, reflected, by simpa using other, (Option.some.inj h).symm⟩
    next => contradiction
  · rintro ⟨d, u, declares, reflected, other, rfl⟩
    simp [declares, reflected, other]

theorem declaring_admits_iff :
    (({ target, config } : Rule).expand t r).1.declaring.any (fun a => a.admits t c) = true ↔
      target.isStatic = false ∧ config.declaring = true ∧
        ∃ d u, target.declaringDef? t = some d ∧ target.reflectedDef? t = some u ∧
          d.token ≠ u.token ∧ c.StandsFor t (target.through d.id) := by
  rw [declaring_expand]
  split
  next on =>
    rw [Option.any_eq_true]
    constructor
    · rintro ⟨a, some_a, admits⟩
      obtain ⟨d, u, declares, reflected, other, rfl⟩ :=
        (declaringAlternate_eq_some_iff t target a).1 some_a
      exact ⟨on.1, on.2, d, u, declares, reflected, other, (Alternate.admits_iff t _ c).1 admits⟩
    · rintro ⟨_, _, d, u, declares, reflected, other, stands⟩
      exact ⟨_, (declaringAlternate_eq_some_iff t target _).2
        ⟨d, u, declares, reflected, other, rfl⟩, (Alternate.admits_iff t _ c).2 stands⟩
  next off =>
    exact ⟨nofun, fun h => absurd ⟨h.1, h.2.1⟩ off⟩

theorem bases_admits_iff :
    (({ target, config } : Rule).expand t r).1.bases.any (fun a => a.admits t c) = true ↔
      target.isStatic = false ∧ config.base = true ∧
        ∃ m, Inherits t r target config.depth m ∧ c.StandsFor t m := by
  rw [bases_expand]
  split
  next on =>
    simp only [List.any_map, List.any_eq_true, Function.comp_apply, Alternate.admits_iff,
      mem_inherited_iff]
    exact ⟨fun h => ⟨on.1, on.2, h⟩, fun h => h.2.2⟩
  next off => exact ⟨nofun, fun h => absurd ⟨h.1, h.2.1⟩ off⟩

/-- What a rule says at first is what its configuration covers. -/
theorem admits_iff_covers :
    ({ target, config } : Rule).admits t r c = true ↔ config.Covers t r target c := by
  have accessors := accessors_expand t r { target, config }
  have viaAccessor := Accessors.contains_ofMember_iff t target c
  have viaDeclaring := declaring_admits_iff t r config target c
  have viaBase := bases_admits_iff t r config target c
  have viaHiding := hiddenBy_iff t target c
  have forced : ({ target, config } : Rule).force t r = ({ target, config } : Rule).expand t r :=
    rfl
  rw [admits, forced, Expansion.admits, accessors]
  simp only [Bool.or_eq_true, Bool.and_eq_true, Bool.not_eq_true', viaAccessor, viaDeclaring,
    viaBase, viaHiding, Member.same, beq_iff_eq]
  constructor
  · rintro ((same | (⟨a, accesses, same⟩ |
        ⟨nonstatic, on, d, u, declares, reflected, other, stands⟩) |
        ⟨nonstatic, on, m, inherits, stands⟩) | ⟨⟨on, nonstatic⟩, m, hidden, hides⟩)
    · exact .itself same
    · exact .accessor accesses same
    · exact .declaring nonstatic on declares reflected other stands
    · exact .inherited nonstatic on inherits stands
    · exact .derived nonstatic on hidden hides
  · intro covers
    cases covers with
    | itself same => exact .inl (.inl same)
    | accessor accesses same => exact .inl (.inr (.inl (.inl ⟨_, accesses, same⟩)))
    | declaring nonstatic on declares reflected other stands =>
      exact .inl (.inr (.inl (.inr ⟨nonstatic, on, _, _, declares, reflected, other, stands⟩)))
    | inherited nonstatic on inherits stands =>
      exact .inl (.inr (.inr ⟨nonstatic, on, _, inherits, stands⟩))
    | derived nonstatic on hidden hides => exact .inr ⟨⟨on, nonstatic⟩, _, hidden, hides⟩

/-- A rule answers yes for exactly what its configuration covers, whatever it was asked before and
whether or not its expansion was looked at. -/
theorem query_afterAll_iff_covers (uses : List Use) :
    ((({ target, config } : Rule).afterAll t r uses).query t r c).holds = true ↔
      config.Covers t r target c := by
  rw [holds_query_afterAll]
  exact admits_iff_covers t r config target c

end Rule

end Cil
