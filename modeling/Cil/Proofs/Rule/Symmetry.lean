import Cil.Proofs.Member.Likeness
import Cil.Proofs.Rule.Meaning
import Cil.Proofs.Types.Growth

/-!
# Base matching in both directions

From a member of a derived type a rule comes to the member of a base type by collecting what the
base types list. The other way round it tells by the signature and the declaring type of a candidate
that it hides the target. Where members are listed by the types that declare them and nowhere else,
and accessors belong to one property, both describe the same relation.
-/

namespace Cil

/-- Obtained through the type that declares it, and so not a copy through another. -/
def Member.Own (m : Member) : Prop := m.reflected? = m.declaring?

instance (m : Member) : Decidable m.Own := inferInstanceAs (Decidable (_ = _))

theorem Member.exists_method {m : Member} (kind : m.kind = .method) : ∃ n, m = .method n := by
  cases m with
  | method n => exact ⟨n, rfl⟩
  | _ => cases kind

theorem Member.isSome_reflected? (m : Member) : m.reflected?.isSome = m.declaring?.isSome := by
  cases m <;> rfl

/-- A type lists a member under the member's name. -/
def Resolver.Lists (r : Resolver) (type : TypeDef) (m : Member) : Prop :=
  ∃ listed, r.membersNamed type m.name = .ok listed ∧ m ∈ listed

/-- The members that are `present` are in order: they can be told apart, types list the members that
they declare and no copies of others, and accessors belong to one property of their own type.
Everything that is listed is present. -/
structure Tidy (t : TypeTable) (r : Resolver) (present : Member → Prop) : Prop where
  types : ∃ tokens, TypeTable.Orderly tokens t
  distinct : ∀ m n, present m → present n → m.Own → n.Own → m.token = n.token → m = n
  alive : ∀ m, present m → ∀ id, m.declaring? = some id ∨ m.reflected? = some id →
    ∃ d, t.def? id = some d
  enumerated : ∀ id type, t.def? id = some type → ∀ name listed,
    r.membersNamed type name = .ok listed → ∀ m ∈ listed, present m
  declared : ∀ id e, t.get? id = some e → ∀ p ∈ e.properties, present (.property p)
  listed : ∀ m, present m → m.Own → ∀ id type, t.def? id = some type →
    (r.Lists type m ↔ m.declaring? = some id)
  accessors : ∀ p, present (.property p) → ∀ a ∈ p.accessors,
    present (.method a) ∧ (Member.method a).Own ∧ a.declaring = p.declaring
  unshared : ∀ p q, present (.property p) → present (.property q) → ∀ a ∈ p.accessors,
    a ∈ q.accessors → p = q

/-- A method that is no copy has the accessors of its property as they are. -/
theorem Member.Own.accesses_iff {t : TypeTable} {m a : Method} (own : (Member.method m).Own) :
    (Member.method m).Accesses t a ↔ ∃ e, ∃ p : Property, p.Owns t m e ∧ a ∈ p.accessors := by
  have same : m.reflected = m.declaring := Option.some.inj own
  have head {e : TypeEntry} {p : Property} {u : TypeDef} (owns : p.Owns t m e)
      (reflected : t.def? m.reflected = some u) : u = e.head := by
    rw [same, TypeTable.def?, owns.declares] at reflected
    exact (Option.some.inj reflected).symm
  constructor
  · intro accesses
    cases accesses with
    | direct owns _ mem => exact ⟨_, _, owns, mem⟩
    | through owns reflected other _ =>
      exact absurd (congrArg TypeDef.token (head owns reflected)) other
  · rintro ⟨e, p, owns, mem⟩
    exact .direct owns (fun u hu => congrArg TypeDef.token (head owns hu)) mem

namespace Tidy

variable {t : TypeTable} {r : Resolver} {present : Member → Prop} (tidy : Tidy t r present)
include tidy

/-! ## Telling members apart -/

theorem eq_of_token? {a b : TypeId} {d e : TypeDef} (hd : t.def? a = some d)
    (he : t.def? b = some e) (same : d.token = e.token) : a = b := by
  obtain ⟨tokens, orderly⟩ := tidy.types
  have heads := orderly.eq_of_token hd he same
  rw [← orderly.id_of_def? hd, ← orderly.id_of_def? he, heads]

/-- A member is no copy if its two types have the same token. -/
theorem own_of_tokens {m : Member} (hm : present m)
    (same : m.declaring?.bind t.token? = m.reflected?.bind t.token?) : m.Own := by
  have both := m.isSome_reflected?
  cases declaring : m.declaring? with
  | none =>
    rw [declaring, Option.isSome_none, Option.isSome_eq_false_iff, Option.isNone_iff_eq_none] at both
    rw [Member.Own, both, declaring]
  | some a =>
    rw [declaring, Option.isSome_some] at both
    obtain ⟨b, reflected⟩ := Option.isSome_iff_exists.1 both
    obtain ⟨d, hd⟩ := tidy.alive m hm a (.inl declaring)
    obtain ⟨e, he⟩ := tidy.alive m hm b (.inr reflected)
    have tokens : d.token = e.token := by
      simpa [declaring, reflected, TypeTable.token?, hd, he] using same
    rw [Member.Own, declaring, reflected, tidy.eq_of_token? hd he tokens]

/-- What has the identity of a member that is no copy is that member. -/
theorem eq_of_identity {m n : Member} (hm : present m) (hn : present n) (own : n.Own)
    (same : m.identity t = n.identity t) : m = n := by
  have declaring : m.declaring?.bind t.token? = n.declaring?.bind t.token? :=
    congrArg Identity.declaring same
  have reflected : m.reflected?.bind t.token? = n.reflected?.bind t.token? :=
    congrArg Identity.reflected same
  have ownM : m.Own := by
    apply tidy.own_of_tokens hm
    rw [declaring, reflected, own]
  exact tidy.distinct m n hm hn ownM own (congrArg Identity.token same)

/-! ## Accessors -/

theorem present_of_owns {m : Method} {e : TypeEntry} {p : Property} (owns : p.Owns t m e) :
    present (.property p) := by
  obtain ⟨before, after, split, -⟩ := owns.first
  apply tidy.declared m.declaring e owns.declares
  rw [← Array.mem_toList_iff, split]
  simp

section Accessors

variable {m a : Method} {e : TypeEntry} {p : Property} (hm : present (.method m))
  (own : (Member.method m).Own)
include hm own

theorem eq_of_sameDefinition (ha : present (.method a)) (ownA : (Member.method a).Own)
    (same : a.sameDefinition t m = true) : a = m := by
  have tokens : a.token = m.token := by
    rw [Method.sameDefinition, Bool.and_eq_true, beq_iff_eq] at same
    exact same.1
  exact Member.method.inj (tidy.distinct _ _ ha hm ownA own tokens)

theorem mem_accessors_of_owns (owns : p.Owns t m e) :
    present (.property p) ∧ m ∈ p.accessors := by
  have hp := tidy.present_of_owns owns
  obtain ⟨b, hb, same⟩ := owns.has
  obtain ⟨there, ownB, -⟩ := tidy.accessors p hp b hb
  rw [tidy.eq_of_sameDefinition hm own there ownB same] at hb
  exact ⟨hp, hb⟩

/-- The property that a method belongs to is the one that its other accessor belongs to. -/
theorem owns_of_mem (owns : p.Owns t m e) (mem : a ∈ p.accessors) : p.Owns t a e := by
  obtain ⟨hp, memM⟩ := tidy.mem_accessors_of_owns hm own owns
  obtain ⟨ha, ownA, declaring⟩ := tidy.accessors p hp a mem
  obtain ⟨-, -, declaring'⟩ := tidy.accessors p hp m memM
  obtain ⟨before, after, split, none⟩ := owns.first
  refine ⟨?_, ⟨before, after, split, ?_⟩, a, mem, ?_⟩
  · rw [declaring, ← declaring']
    exact owns.declares
  · -- An earlier property with this accessor would be the same property, and so have the other.
    intro q hq b hb
    by_contra same
    rw [Bool.not_eq_false] at same
    have hq' : present (.property q) := by
      apply tidy.declared m.declaring e owns.declares
      rw [← Array.mem_toList_iff, split]
      exact List.mem_append_left _ hq
    obtain ⟨hb', ownB, -⟩ := tidy.accessors q hq' b hb
    rw [tidy.eq_of_sameDefinition ha ownA hb' ownB same] at hb
    obtain rfl := tidy.unshared q p hq' hp a hb mem
    have unlike := none q hq m memM
    simp [Method.sameDefinition] at unlike
  · simp [Method.sameDefinition]

/-- Accessors of one property are accessors of each other. -/
theorem accesses_symm (accesses : (Member.method m).Accesses t a) :
    present (.method a) ∧ (Member.method a).Own ∧ a.declaring = m.declaring ∧
      (Member.method a).Accesses t m := by
  obtain ⟨e, p, owns, mem⟩ := own.accesses_iff.1 accesses
  obtain ⟨hp, memM⟩ := tidy.mem_accessors_of_owns hm own owns
  obtain ⟨ha, ownA, declaring⟩ := tidy.accessors p hp a mem
  obtain ⟨-, -, declaring'⟩ := tidy.accessors p hp m memM
  refine ⟨ha, ownA, declaring.trans declaring'.symm, ?_⟩
  exact ownA.accesses_iff.2 ⟨e, p, tidy.owns_of_mem hm own owns mem, memM⟩

end Accessors

/-- A method that has a member which is no copy for its accessor is no copy either. -/
theorem own_of_accesses {m a : Method} {g : Member} (hm : present (.method m)) (ownG : g.Own)
    (accesses : (Member.method m).Accesses t a)
    (same : g.identity t = (Member.method a).identity t) : (Member.method m).Own := by
  cases accesses with
  | @direct _ e _ _ owns own _ =>
    obtain ⟨u, hu⟩ := tidy.alive _ hm m.reflected (.inr rfl)
    have head : t.def? m.declaring = some e.head := by
      rw [TypeTable.def?, owns.declares]
      rfl
    rw [Member.Own, Member.reflected?, Member.declaring?, tidy.eq_of_token? hu head (own u hu)]
  | @through _ e p b u owns reflected other mem =>
    -- The accessor as obtained through another type would have two different types.
    obtain ⟨tokens, orderly⟩ := tidy.types
    have hp := tidy.present_of_owns owns
    obtain ⟨c, hc, definition⟩ := owns.has
    obtain ⟨-, -, declaringB⟩ := tidy.accessors p hp b mem
    obtain ⟨-, -, declaringC⟩ := tidy.accessors p hp c hc
    have twice : t.token? b.declaring = t.token? u.id := by
      have declaring : g.declaring?.bind t.token? = t.token? b.declaring :=
        congrArg Identity.declaring same
      have reflected : g.reflected?.bind t.token? = t.token? u.id :=
        congrArg Identity.reflected same
      rw [← declaring, ← reflected, ownG]
    have owner : t.token? b.declaring = some e.head.token := by
      rw [Method.sameDefinition, Bool.and_eq_true, beq_iff_eq, beq_iff_eq] at definition
      rw [declaringB, ← declaringC, definition.2, TypeTable.token?, TypeTable.def?, owns.declares]
      rfl
    rw [owner, orderly.id_of_def? reflected, TypeTable.token?, reflected] at twice
    exact absurd (Option.some.inj twice).symm other

/-! ## Base and derived types -/

/-- Whatever is inherited is present, and a base type lists it under its name. -/
theorem lists_of_inherits {f m : Member} {depth : Nat} (inherits : Rule.Inherits t r f depth m) :
    present m ∧ ∃ d type, f.declaringDef? t = some d ∧ type ∈ t.ancestors d.id ∧
      t.def? type.id = some type ∧ r.Lists type m := by
  obtain ⟨tokens, orderly⟩ := tidy.types
  obtain ⟨like, -, d, declares, before, after, split, -⟩ := inherits
  have mem : m ∈ Rule.baseMembers t r f depth d.id := by
    rw [split]
    simp
  obtain ⟨type, visited, listed, lists, hm⟩ := (Rule.mem_baseMembers_iff t r f).1 mem
  have ancestor : type ∈ t.ancestors d.id := List.mem_of_mem_take visited
  have live := orderly.def?_of_mem_basesWithin ancestor
  have names : f.name = m.name := (Member.sameSignature_iff.1 like).2.1
  exact ⟨tidy.enumerated type.id type live f.name listed lists m hm, d, type, declares, ancestor,
    live, listed, names ▸ lists, hm⟩

/-- A member hides what it inherits, unless that is a copy. -/
theorem hides_of_inherits {f m : Member} {depth : Nat} (own : m.Own)
    (inherits : Rule.Inherits t r f depth m) : f.Hides t m := by
  obtain ⟨hm, d, type, declares, ancestor, live, lists⟩ := tidy.lists_of_inherits inherits
  have declaring := (tidy.listed m hm own type.id type live).1 lists
  refine ⟨Member.sameSignature_symm inherits.like, d, type, declares, ?_, type, ancestor, rfl⟩
  rw [Member.declaringDef?, declaring]
  exact live

/-- A member inherits what it hides, if all base types of its declaring type are visited. -/
theorem inherits_of_hides {g m : Member} {depth : Nat}
    (reach : ∀ d, g.declaringDef? t = some d → (t.ancestors d.id).length ≤ depth)
    (hm : present m) (own : m.Own) (hides : g.Hides t m)
    (other : m.identity t ≠ g.identity t) : Rule.Inherits t r g depth m := by
  obtain ⟨tokens, orderly⟩ := tidy.types
  obtain ⟨like, d, b, declares, declaresM, ancestor, hancestor, same⟩ := hides
  obtain ⟨id, declaring, live⟩ := Option.bind_eq_some_iff.1 declaresM
  have liveAncestor := orderly.def?_of_mem_basesWithin hancestor
  obtain rfl : ancestor = b := orderly.eq_of_token liveAncestor live same
  obtain ⟨listed, lists, mem⟩ := (tidy.listed m hm own id ancestor live).2 declaring
  have names : m.name = g.name := (Member.sameSignature_iff.1 like).2.1
  have visited : (t.ancestors d.id).take depth = t.ancestors d.id :=
    List.take_of_length_le (reach d declares)
  have base : m ∈ Rule.baseMembers t r g depth d.id := by
    rw [Rule.mem_baseMembers_iff, visited]
    exact ⟨ancestor, hancestor, listed, names ▸ lists, mem⟩
  -- Of the members with this identity one is kept, and there is only one.
  obtain ⟨n, hn, identity⟩ := Rule.exists_mem_kept t g base (Member.sameSignature_symm like)
    (List.mem_singleton.not.2 other)
  have inherits : Rule.Inherits t r g depth n := by
    rw [← Rule.mem_inherited_iff, Rule.inherited, declares]
    exact hn
  obtain ⟨present, -⟩ := tidy.lists_of_inherits inherits
  rw [← tidy.eq_of_identity present hm own identity]
  exact inherits

/-! ## Both directions -/

/-- What stands for an inherited member is an accessor of it, or the member itself. -/
theorem covers_of_inherits {f g m : Member} {config : MatchConfig} (hg : present g)
    (ownG : g.Own) (kinds : f.kind = g.kind) (nonstatic : g.isStatic = false)
    (on : config.base = true) (inherits : Rule.Inherits t r f config.depth m)
    (stands : g.StandsFor t m) : config.Covers t r g f := by
  obtain ⟨hm, -⟩ := tidy.lists_of_inherits inherits
  rcases stands with same | ⟨a, accesses, same⟩
  · obtain rfl := tidy.eq_of_identity hm hg ownG same.symm
    exact .derived nonstatic on (.inl rfl) (tidy.hides_of_inherits ownG inherits)
  · have kindG : g.kind = .method := congrArg Identity.kind same
    have kindM : m.kind = .method := by
      rw [← (Member.sameSignature_iff.1 inherits.like).1, kinds, kindG]
    obtain ⟨m, rfl⟩ := Member.exists_method kindM
    have own := tidy.own_of_accesses hm ownG accesses same
    obtain ⟨ha, ownA, -, back⟩ := tidy.accesses_symm hm own accesses
    obtain rfl := tidy.eq_of_identity hg ha ownA same
    exact .derived nonstatic on (.inr ⟨m, back, rfl⟩) (tidy.hides_of_inherits own inherits)

/-- What hides a target or its accessor inherits it. -/
theorem covers_of_hides {f g m : Member} {config : MatchConfig} (hf : present f) (hg : present g)
    (ownF : f.Own) (ownG : g.Own) (kinds : f.kind = g.kind) (nonstatic : g.isStatic = false)
    (on : config.base = true)
    (reach : ∀ d, g.declaringDef? t = some d → (t.ancestors d.id).length ≤ config.depth)
    (hidden : m = f ∨ ∃ a, f.Accesses t a ∧ m = .method a) (hides : g.Hides t m) :
    config.Covers t r g f := by
  rcases hidden with rfl | ⟨a, accesses, rfl⟩
  · by_cases same : m.identity t = g.identity t
    · exact .itself same
    · exact .inherited nonstatic on (tidy.inherits_of_hides reach hf ownF hides same) (.inl rfl)
  · have kindG : g.kind = .method := (Member.sameSignature_iff.1 hides.like).1.symm
    obtain ⟨f, rfl⟩ := Member.exists_method (kinds.trans kindG)
    obtain ⟨ha, ownA, -, back⟩ := tidy.accesses_symm hf ownF accesses
    by_cases same : (Member.method a).identity t = g.identity t
    · obtain rfl := tidy.eq_of_identity ha hg ownG same
      exact .accessor back rfl
    · exact .inherited nonstatic on (tidy.inherits_of_hides reach ha ownA hides same)
        (.inr ⟨f, back, rfl⟩)

theorem covers_symm {f g : Member} {config : MatchConfig} (hf : present f) (hg : present g)
    (ownF : f.Own) (ownG : g.Own) (kinds : f.kind = g.kind) (nonstatic : g.isStatic = false)
    (on : config.base = true)
    (reach : ∀ d, g.declaringDef? t = some d → (t.ancestors d.id).length ≤ config.depth)
    (covers : config.Covers t r f g) : config.Covers t r g f := by
  cases covers with
  | itself same => exact .itself same.symm
  | @accessor a accesses same =>
    have kindG : g.kind = .method := congrArg Identity.kind same
    obtain ⟨f, rfl⟩ := Member.exists_method (kinds.trans kindG)
    obtain ⟨ha, ownA, -, back⟩ := tidy.accesses_symm hf ownF accesses
    obtain rfl := tidy.eq_of_identity hg ha ownA same
    exact .accessor back rfl
  | declaring _ _ declares reflected other _ =>
    rw [Member.reflectedDef?, ownF, ← Member.declaringDef?, declares] at reflected
    exact absurd (congrArg TypeDef.token (Option.some.inj reflected)) other
  | inherited _ _ inherits stands =>
    exact tidy.covers_of_inherits hg ownG kinds nonstatic on inherits stands
  | derived _ _ hidden hides =>
    exact tidy.covers_of_hides hf hg ownF ownG kinds nonstatic on reach hidden hides

end Tidy

/-- With base matching the rule for one of two members answers yes for the other exactly if the
rule for the other answers yes for the first, whatever either was asked before. A walk to all base
types is at most as long as the walks that tell whether a type is derived from another. -/
theorem Rule.query_symm {t : TypeTable} {r : Resolver} {present : Member → Prop}
    (tidy : Tidy t r present) (f g : Member) (hf : present f) (hg : present g) (ownF : f.Own)
    (ownG : g.Own) (kinds : f.kind = g.kind) (nonstaticF : f.isStatic = false)
    (nonstaticG : g.isStatic = false) (config : MatchConfig) (on : config.base = true)
    (reachF : ∀ d, f.declaringDef? t = some d → (t.ancestors d.id).length ≤ config.depth)
    (reachG : ∀ d, g.declaringDef? t = some d → (t.ancestors d.id).length ≤ config.depth)
    (usesF usesG : List Use) :
    ((({ target := f, config } : Rule).afterAll t r usesF).query t r g).holds =
      ((({ target := g, config } : Rule).afterAll t r usesG).query t r f).holds := by
  rw [Bool.eq_iff_iff, holds_query_afterAll, holds_query_afterAll, admits_iff_covers,
    admits_iff_covers]
  constructor
  · exact tidy.covers_symm hf hg ownF ownG kinds nonstaticG on reachG
  · exact tidy.covers_symm hg hf ownG ownF kinds.symm nonstaticF on reachF

namespace Rule.Volume

def player : TypeDef := ⟨⟨0⟩, ⟨0x02000001⟩, "", "Player", 0⟩
def device : TypeDef := ⟨⟨1⟩, ⟨0x02000002⟩, "", "Device", 0⟩

def getter : Method := ⟨⟨0x06000001⟩, "get_Volume", device.id, device.id, ⟨0x40⟩, #[]⟩
def setter : Method :=
  ⟨⟨0x06000002⟩, "set_Volume", device.id, device.id, ⟨0x40⟩, #[⟨0, "value", device.id, false⟩]⟩

/-- A property of the base type. -/
def volume : Property :=
  ⟨⟨0x17000001⟩, "Volume", device.id, device.id, some getter, some setter⟩

/-- A method of the derived type that hides one of the accessors. -/
def newSetter : Method := { setter with
  token := ⟨0x06000003⟩, declaring := player.id, reflected := player.id }

def playerEntry : TypeEntry :=
  { head := player, base := some device.id, methods := #[newSetter] }

def deviceEntry : TypeEntry :=
  { head := device, methods := #[getter, setter], properties := #[volume] }

def types : TypeTable := ⟨#[some playerEntry, some deviceEntry]⟩

def members : List Member := [.method getter, .method setter, .method newSetter, .property volume]

def resolver : Resolver where
  member token _ := .error (.unresolved token .noMember)
  string token := .error (.unresolved token .noString)
  signature token := .error (.unresolved token .noSignature)
  membersNamed type name := .ok (types.membersNamed type.id name)

theorem entry_cases {id : TypeId} {e : TypeEntry} (entry : types.get? id = some e) :
    (id = player.id ∧ e = playerEntry) ∨ (id = device.id ∧ e = deviceEntry) := by
  obtain ⟨i⟩ := id
  rcases i with _ | _ | i
  · exact .inl ⟨rfl, (Option.some.inj entry).symm⟩
  · exact .inr ⟨rfl, (Option.some.inj entry).symm⟩
  · simp [TypeTable.get?, types] at entry

theorem lists_iff {type : TypeDef} {m : Member} :
    resolver.Lists type m ↔ m ∈ types.membersNamed type.id m.name := by
  simp [Resolver.Lists, resolver]

theorem orderly : TypeTable.Orderly [player.token, device.token] types where
  placed id e entry := by
    rcases entry_cases entry with ⟨rfl, rfl⟩ | ⟨rfl, rfl⟩ <;> rfl
  known id e entry := by
    rcases entry_cases entry with ⟨rfl, rfl⟩ | ⟨rfl, rfl⟩ <;> decide
  distinct a b d e entryA entryB := by
    rcases entry_cases entryA with ⟨rfl, rfl⟩ | ⟨rfl, rfl⟩ <;>
      rcases entry_cases entryB with ⟨rfl, rfl⟩ | ⟨rfl, rfl⟩ <;> decide
  bounded id e b entry := by
    rcases entry_cases entry with ⟨rfl, rfl⟩ | ⟨rfl, rfl⟩
    · rintro ⟨⟩
      decide
    · rintro ⟨⟩

theorem def_cases {id : TypeId} {type : TypeDef} (live : types.def? id = some type) :
    id = type.id ∧ type ∈ [player, device] := by
  obtain ⟨e, entry, rfl⟩ := TypeTable.def?_eq_some_iff.1 live
  rcases entry_cases entry with ⟨rfl, rfl⟩ | ⟨rfl, rfl⟩ <;> decide

theorem eq_volume {p : Property} (hp : .property p ∈ members) : p = volume := by
  simpa [members] using hp

theorem tidy : Tidy types resolver (· ∈ members) where
  types := ⟨_, orderly⟩
  distinct := by
    have distinct : ∀ m ∈ members, ∀ n ∈ members, m.Own → n.Own → m.token = n.token → m = n := by
      decide
    exact fun m n hm hn => distinct m hm n hn
  alive := by
    have alive : ∀ m ∈ members, ∀ id ∈ m.declaring?.toList ++ m.reflected?.toList,
        (types.def? id).isSome = true := by
      decide
    intro m hm id mentioned
    exact Option.isSome_iff_exists.1 (alive m hm id (by simpa using mentioned))
  enumerated := by
    have enumerated : ∀ type ∈ [player, device], ∀ m ∈ types.members type.id, m ∈ members := by
      decide
    intro id type live name listed lists m hm
    obtain rfl := Except.ok.inj lists
    exact enumerated type (def_cases live).2 m (List.mem_filter.1 hm).1
  declared := by
    intro id e entry p hp
    rcases entry_cases entry with ⟨-, rfl⟩ | ⟨-, rfl⟩
    · simp [playerEntry] at hp
    · simp [deviceEntry] at hp
      simp [hp, members]
  listed := by
    have listed : ∀ m ∈ members, ∀ type ∈ [player, device],
        m ∈ types.membersNamed type.id m.name ↔ m.declaring? = some type.id := by
      decide
    intro m hm _ id type live
    obtain ⟨rfl, known⟩ := def_cases live
    rw [lists_iff]
    exact listed m hm type known
  accessors := by
    intro p hp
    rw [eq_volume hp]
    decide
  unshared := by
    intro p q hp hq _ _ _
    rw [eq_volume hp, eq_volume hq]

end Rule.Volume

open Rule.Volume in
/-- The setter of the derived type hides that of the base type. So the rule for the getter of the
base type answers yes for it, and its own rule comes back to the getter. -/
theorem Rule.query_symm_volume :
    Tidy types resolver (· ∈ members) ∧ (Member.method getter).isStatic = false ∧
      ((({ target := .method getter, config := .baseMembers } : Rule).afterAll types resolver
        [.ask (.method setter)]).query types resolver (.method newSetter)).holds = true ∧
      ((({ target := .method newSetter, config := .baseMembers } : Rule).afterAll types resolver
        []).query types resolver (.method getter)).holds = true := by
  have answer : ((({ target := .method getter, config := .baseMembers } : Rule).afterAll types
      resolver [.ask (.method setter)]).query types resolver (.method newSetter)).holds = true := by
    decide +kernel
  refine ⟨tidy, rfl, answer, ?_⟩
  rw [← Rule.query_symm tidy (.method getter) (.method newSetter) (by decide) (by decide) rfl rfl rfl
    (by decide) (by decide) .baseMembers rfl ?_ ?_ [.ask (.method setter)] []]
  · exact answer
  · rintro d ⟨⟩
    decide
  · rintro d ⟨⟩
    decide

end Cil
