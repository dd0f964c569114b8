import Cil.Proofs.Member.Likeness
import Cil.Proofs.Rule.Meaning
import Cil.Proofs.Types.Succession

/-!
# Rules that have answered no

To answer no, a rule has to look up everything that it could ever need. From then on it changes no
more, and all that its answers still depend on are tokens, bases and parameter types of members that
it knows by then. So nothing that is added later makes a difference, neither to types nor to what a
resolver says.
-/

namespace Cil

/-! ## What tables that agree say of members -/

namespace TypeTable.Agrees

variable {t t' : TypeTable} (agrees : t.Agrees t') {m n c : Member}
include agrees

theorem token? {id : TypeId} (slot : id.index < t.slots.size) : t'.token? id = t.token? id := by
  rw [TypeTable.token?, TypeTable.token?, agrees.def? id slot]

theorem identity (knows : t.Knows m) : m.identity t' = m.identity t := by
  have declaring : m.declaring?.bind t'.token? = m.declaring?.bind t.token? := by
    cases h : m.declaring? with
    | none => rfl
    | some id => exact agrees.token? (knows id (Member.mem_mentioned_of_declaring? h))
  have reflected : m.reflected?.bind t'.token? = m.reflected?.bind t.token? := by
    cases h : m.reflected? with
    | none => rfl
    | some id => exact agrees.token? (knows id (Member.mem_mentioned_of_reflected? h))
  rw [Member.identity, Member.identity, declaring, reflected]

theorem same (knowsM : t.Knows m) (knowsN : t.Knows n) : m.same t' n = m.same t n := by
  rw [Member.same, Member.same, agrees.identity knowsM, agrees.identity knowsN]

theorem declaringDef? (knows : t.Knows m) : m.declaringDef? t' = m.declaringDef? t := by
  rw [Member.declaringDef?, Member.declaringDef?]
  cases h : m.declaring? with
  | none => rfl
  | some id => exact agrees.def? id (knows id (Member.mem_mentioned_of_declaring? h))

theorem sameShape {m n : Method} (knowsM : t.Knows (.method m)) (knowsN : t.Knows (.method n)) :
    m.sameShape t' n = m.sameShape t n := by
  have slot {m : Method} (knows : t.Knows (.method m)) {p : Param} (hp : p ∈ m.params.toList) :
      p.type.index < t.slots.size :=
    knows _ (List.mem_cons_of_mem _ (List.mem_cons_of_mem _ (List.mem_map_of_mem hp)))
  rw [Method.sameShape, Method.sameShape]
  congr 1
  rw [Bool.eq_iff_iff, List.all_eq_true, List.all_eq_true]
  refine forall₂_congr fun pq hpq => ?_
  obtain ⟨p, q⟩ := pq
  obtain ⟨hp, hq⟩ := List.of_mem_zip hpq
  show p.sameShape t' q = true ↔ p.sameShape t q = true
  rw [Param.sameShape_iff, Param.sameShape_iff, agrees.token? (slot knowsM hp),
    agrees.token? (slot knowsN hq)]

theorem sameSignature (knowsM : t.Knows m) (knowsN : t.Knows n) :
    m.sameSignature t' n = m.sameSignature t n := by
  rw [Bool.eq_iff_iff, Member.sameSignature_iff, Member.sameSignature_iff]
  refine and_congr_right fun _ => and_congr_right fun _ => ?_
  refine forall₂_congr fun m' n' => forall₂_congr fun hm hn => ?_
  subst hm hn
  rw [agrees.sameShape knowsM knowsN]

variable (founded : t.Founded)
include founded

theorem hides (knowsC : t.Knows c) (knowsM : t.Knows m) :
    Rule.hides t' c m = Rule.hides t c m := by
  rw [Rule.hides, Rule.hides, agrees.sameSignature knowsM knowsC, agrees.declaringDef? knowsC,
    agrees.declaringDef? knowsM]
  cases declares : c.declaringDef? t with
  | none => rfl
  | some d =>
    cases m.declaringDef? t with
    | none => rfl
    | some b =>
      obtain ⟨id, -, live⟩ := Option.bind_eq_some_iff.1 declares
      have slot := (founded.slot_of_def? live).2
      simp only [TypeTable.isSubclass, agrees.ancestors d.id slot]

end TypeTable.Agrees

/-! ## What rules know -/

/-- The accessors are methods that exist. -/
def Accessors.Known (t : TypeTable) (accessors : Accessors) : Prop :=
  ∀ m ∈ accessors.toList, t.Knows (.method m)

/-- The alternate exists, and so do the accessors that it has looked up. -/
structure Alternate.Known (t : TypeTable) (a : Alternate) : Prop where
  member : t.Knows a.member
  accessors : ∀ accessors, a.accessors = some accessors → accessors.Known t

/-- All alternates of an expansion. -/
def Expansion.alternates (e : Expansion) : List Alternate := e.declaring.toList ++ e.bases

structure Expansion.Known (t : TypeTable) (e : Expansion) : Prop where
  accessors : e.accessors.Known t
  alternates : ∀ a ∈ e.alternates, a.Known t

/-- All that a rule has looked up exists. -/
structure Rule.Known (t : TypeTable) (rule : Rule) : Prop where
  target : t.Knows rule.target
  expansion : ∀ e, rule.expansion = some e → e.Known t

theorem Rule.Known.mono {t t' : TypeTable} {rule : Rule} (known : rule.Known t)
    (size : t.slots.size ≤ t'.slots.size) : rule.Known t' := by
  refine ⟨known.target.mono size, fun e kept => ?_⟩
  obtain ⟨accessors, alternates⟩ := known.expansion e kept
  refine ⟨fun m hm => (accessors m hm).mono size, fun a ha => ?_⟩
  obtain ⟨member, looked⟩ := alternates a ha
  exact ⟨member.mono size, fun as has m hm => (looked as has m hm).mono size⟩

/-- What a resolver lists are members that exist. -/
def Resolver.Sensible (t : TypeTable) (r : Resolver) : Prop :=
  ∀ type name members, r.membersNamed type name = .ok members → ∀ m ∈ members, t.Knows m

theorem TypeTable.Founded.sensible {t : TypeTable} (founded : t.Founded) {r : Resolver}
    (lists : ∀ type name members, r.membersNamed type name = .ok members →
      members = t.membersNamed type.id name) : r.Sensible t := by
  intro type name members listed m mem
  obtain rfl := lists type name members listed
  exact founded.knows_of_mem_membersNamed mem

theorem TypeTable.Knows.through {t : TypeTable} {m : Member} {u : TypeId} (knows : t.Knows m)
    (slot : u.index < t.slots.size) : t.Knows (m.through u) := by
  cases m with
  | method m => exact knows.method_through slot
  | type d => exact knows
  | unknown token => exact knows
  | field f =>
    intro id h
    rcases List.mem_pair.1 h with rfl | rfl
    · exact knows _ List.mem_cons_self
    · exact slot
  | property p =>
    intro id h
    rcases List.mem_cons.1 h with rfl | h
    · exact knows _ List.mem_cons_self
    rcases List.mem_cons.1 h with rfl | h
    · exact slot
    · obtain ⟨a, ha, hid⟩ := List.mem_flatMap.1 h
      rw [Property.accessors_through] at ha
      obtain ⟨b, hb, rfl⟩ := List.mem_map.1 ha
      exact (knows.accessor hb).method_through slot id hid

section Known

variable {t : TypeTable} (founded : t.Founded)

include founded in
theorem Accessors.known_ofMember {m : Member} (knows : t.Knows m) : (ofMember t m).Known t := by
  have owned {m : Method} {e : TypeEntry} {p : Property} {a : Method} (owns : p.Owns t m e)
      (mem : a ∈ p.accessors) : t.Knows (.method a) := by
    obtain ⟨before, after, split, -⟩ := owns.first
    refine (founded.listed m.declaring e owns.declares (.property p) ?_).accessor mem
    simp [TypeEntry.listed, split]
  intro a mem
  cases (mem_ofMember_iff t m a).1 mem with
  | property accessor => exact knows.accessor accessor
  | direct owns _ accessor => exact owned owns accessor
  | through owns reflected _ accessor =>
    exact (owned owns accessor).method_through (founded.slot_of_def? reflected).2

include founded in
theorem Alternate.Known.filled {a : Alternate} (known : a.Known t) : (a.filled t).Known t := by
  refine ⟨known.member, ?_⟩
  rintro accessors ⟨⟩
  cases h : a.accessors with
  | none => exact Accessors.known_ofMember founded known.member
  | some accessors => exact known.accessors accessors h

theorem Expansion.alternates_filled (e : Expansion) :
    (e.filled t).alternates = e.alternates.map (Alternate.filled t) := by
  cases h : e.declaring <;> simp [alternates, filled, h]

include founded in
theorem Expansion.Known.filled {e : Expansion} (known : e.Known t) : (e.filled t).Known t := by
  refine ⟨known.accessors, ?_⟩
  rw [Expansion.alternates_filled]
  intro a ha
  obtain ⟨b, hb, rfl⟩ := List.mem_map.1 ha
  exact (known.alternates b hb).filled founded

theorem Expansion.Known.of_filled {e : Expansion} (known : (e.filled t).Known t) : e.Known t := by
  refine ⟨known.accessors, fun a ha => ?_⟩
  have filled : (a.filled t).Known t := by
    apply known.alternates
    rw [Expansion.alternates_filled]
    exact List.mem_map_of_mem ha
  refine ⟨filled.member, fun accessors h => filled.accessors accessors ?_⟩
  rw [Alternate.filled, h]
  rfl

end Known

namespace Rule

variable {t : TypeTable} (founded : t.Founded) {r : Resolver} (sensible : r.Sensible t)
include founded sensible

theorem known_expand {rule : Rule} (knows : t.Knows rule.target) :
    (rule.expand t r).1.Known t := by
  have fresh {m : Member} (knows : t.Knows m) : ({ member := m } : Alternate).Known t :=
    ⟨knows, by rintro _ ⟨⟩⟩
  constructor
  · rw [accessors_expand]
    exact Accessors.known_ofMember founded knows
  · intro a ha
    rcases List.mem_append.1 ha with declaring | base
    · rw [declaring_expand, Option.mem_toList, Option.ite_none_right_eq_some] at declaring
      obtain ⟨d, u, declares, -, -, rfl⟩ :=
        (declaringAlternate_eq_some_iff t rule.target a).1 declaring.2
      obtain ⟨id, -, live⟩ := Option.bind_eq_some_iff.1 declares
      exact fresh (knows.through (founded.slot_of_def? live).2)
    · rw [bases_expand] at base
      split at base
      · obtain ⟨m, hm, rfl⟩ := List.mem_map.1 base
        obtain ⟨-, -, d, -, before, after, split, -⟩ := (mem_inherited_iff ..).1 hm
        have mem : m ∈ baseMembers t r rule.target rule.config.depth d.id := by
          rw [split]
          simp
        obtain ⟨ancestor, -, members, lists, mem⟩ := (mem_baseMembers_iff ..).1 mem
        exact fresh (sensible ancestor _ members lists m mem)
      · cases base

theorem Known.force {rule : Rule} (known : rule.Known t) : (rule.force t r).1.Known t := by
  rw [Rule.force]
  split
  next e kept => exact known.expansion e kept
  next => exact known_expand founded sensible known.target

/-- A use of a rule lets it know only what exists. -/
theorem Known.after {rule : Rule} (known : rule.Known t) (use : Use) :
    (rule.after t r use).Known t := by
  have filled : (rule.after t r use).filled t r = rule.filled t r := filled_after t r rule use
  constructor
  · have target : (rule.after t r use).target = rule.target :=
      congrArg (fun rule => rule.target) filled
    rw [target]
    exact known.target
  · intro e kept
    have same : e.filled t = (rule.force t r).1.filled t := by
      have expansion := congrArg Rule.expansion filled
      simpa [Rule.filled, Rule.force, kept] using expansion
    apply Expansion.Known.of_filled
    rw [same]
    exact (known.force founded sensible).filled founded

end Rule

/-! ## Rules with nothing left to look up -/

/-- The accessors of an alternate were looked up. -/
def Alternate.Settled (a : Alternate) : Prop := ∃ accessors, a.accessors = some accessors

/-- Everything that a rule could need was looked up. -/
def Rule.Settled (rule : Rule) : Prop :=
  ∃ e, rule.expansion = some e ∧ ∀ a ∈ e.alternates, a.Settled

namespace Alternate

variable (t : TypeTable) (c : Member)

theorem settled_of_query_eq_false {a : Alternate} (no : (a.query t c).1 = false) :
    (a.query t c).2.Settled := by
  by_cases same : c.same t a.member = true
  · simp [query, same] at no
  · simp [query, same, Settled]

theorem settled_of_queryAny_eq_false {as : List Alternate} (no : (queryAny t c as).1 = false) :
    ∀ a ∈ (queryAny t c as).2, a.Settled := by
  induction as with
  | nil => simp [queryAny]
  | cons a as ih =>
    have first := settled_of_query_eq_false t c (a := a)
    cases asked : a.query t c with
    | mk found after =>
      rw [asked] at first
      cases found with
      | true => simp [queryAny, asked] at no
      | false =>
        have rest : (queryAny t c as).1 = false := by simpa [queryAny, asked] using no
        simp only [queryAny, asked]
        exact List.forall_mem_cons.2 ⟨first rfl, ih rest⟩

theorem Settled.query {a : Alternate} (settled : a.Settled) : (a.query t c).2 = a := by
  obtain ⟨accessors, looked⟩ := settled
  obtain ⟨member, _⟩ := a
  subst looked
  rw [Alternate.query]
  split
  · rfl
  · rfl

theorem queryAny_of_settled {as : List Alternate} (settled : ∀ a ∈ as, a.Settled) :
    (queryAny t c as).2 = as := by
  induction as with
  | nil => rfl
  | cons a as ih =>
    obtain ⟨first, rest⟩ := List.forall_mem_cons.1 settled
    have unchanged := first.query t c
    cases asked : a.query t c with
    | mk found after =>
      obtain rfl : after = a := by
        rw [asked] at unchanged
        exact unchanged
      cases found with
      | true => simp [queryAny, asked]
      | false => simp [queryAny, asked, ih rest]

end Alternate

namespace Rule

theorem settled_of_askDeclaring_eq_false (t : TypeTable) (c : Member) {d : Option Alternate}
    (no : (askDeclaring t c d).1 = false) : ∀ a ∈ (askDeclaring t c d).2.toList, a.Settled := by
  cases d with
  | none => simp [askDeclaring]
  | some a =>
    have settled := Alternate.settled_of_query_eq_false t c no
    simpa [askDeclaring] using settled

theorem askDeclaring_of_settled (t : TypeTable) (c : Member) {d : Option Alternate}
    (settled : ∀ a ∈ d.toList, a.Settled) : (askDeclaring t c d).2 = d := by
  cases d with
  | none => rfl
  | some a => exact congrArg some ((settled a (by simp)).query t c)

/-- To answer no, a rule looks up everything. -/
theorem settled_of_refused {t : TypeTable} {r : Resolver} {rule : Rule} {c : Member}
    (refused : (rule.query t r c).holds = false) : (rule.query t r c).rule.Settled := by
  rw [query_eq] at refused ⊢
  dsimp only at refused ⊢
  split_ifs at refused ⊢ with same accessor declaring
  rw [Bool.or_eq_false_iff] at refused
  refine ⟨_, rfl, fun a ha => ?_⟩
  rcases List.mem_append.1 ha with ha | ha
  · exact settled_of_askDeclaring_eq_false t c (by simpa using declaring) a ha
  · exact Alternate.settled_of_queryAny_eq_false t c refused.1 a ha

namespace Settled

variable {rule : Rule} (settled : rule.Settled) (t : TypeTable) (r : Resolver)
include settled

theorem rule_query (c : Member) : (rule.query t r c).rule = rule := by
  obtain ⟨e, kept, settled⟩ := settled
  have forced : rule.force t r = (e, #[]) := by rw [force, kept]
  have keeping : rule.keeping e = rule := by rw [Rule.keeping, ← kept]
  have declaring : (askDeclaring t c e.declaring).2 = e.declaring :=
    askDeclaring_of_settled t c fun a ha => settled a (List.mem_append_left _ ha)
  have bases : (Alternate.queryAny t c e.bases).2 = e.bases :=
    Alternate.queryAny_of_settled t c fun a ha => settled a (List.mem_append_right _ ha)
  rw [query_eq]
  dsimp only
  rw [forced, declaring, bases]
  split_ifs
  · rfl
  · exact keeping
  · exact keeping
  · exact keeping

/-- No use changes a rule that has nothing left to look up. -/
theorem after (use : Use) : rule.after t r use = rule := by
  cases use with
  | ask c => exact settled.rule_query t r c
  | expand =>
    obtain ⟨e, kept, -⟩ := settled
    rw [Rule.after, Rule.force, kept, Rule.keeping, ← kept]

end Settled

end Rule

/-! ## Answers that last -/

theorem Expansion.admits_eq (t : TypeTable) (e : Expansion) (c : Member) :
    e.admits t c = (e.accessors.contains t c || e.alternates.any fun a => a.admits t c) := by
  cases h : e.declaring with
  | none => simp [admits, alternates, h]
  | some a => simp [admits, alternates, h, Bool.or_assoc]

namespace TypeTable.Agrees

variable {t t' : TypeTable} (agrees : t.Agrees t') {c : Member} (knows : t.Knows c)
include agrees knows

theorem contains {accessors : Accessors} (known : accessors.Known t) :
    accessors.contains t' c = accessors.contains t c := by
  rw [Bool.eq_iff_iff, Accessors.contains_iff, Accessors.contains_iff]
  refine exists_congr fun a => and_congr_right fun mem => ?_
  rw [agrees.identity knows, agrees.identity (known a mem)]

theorem alternate_admits {a : Alternate} (settled : a.Settled) (known : a.Known t) :
    a.admits t' c = a.admits t c := by
  obtain ⟨accessors, looked⟩ := settled
  have contains := agrees.contains knows (known.accessors accessors looked)
  rw [Alternate.admits, Alternate.admits, looked, agrees.same knows known.member]
  exact congrArg _ contains

theorem expansion_admits {e : Expansion} (settled : ∀ a ∈ e.alternates, a.Settled)
    (known : e.Known t) : e.admits t' c = e.admits t c := by
  have alternates : e.alternates.any (fun a => a.admits t' c) =
      e.alternates.any fun a => a.admits t c := by
    rw [Bool.eq_iff_iff, List.any_eq_true, List.any_eq_true]
    refine exists_congr fun a => and_congr_right fun mem => ?_
    rw [agrees.alternate_admits knows (settled a mem) (known.alternates a mem)]
  rw [Expansion.admits_eq, Expansion.admits_eq, alternates, agrees.contains knows known.accessors]

variable (founded : t.Founded)
include founded

theorem hiddenBy {target : Member} (knowsTarget : t.Knows target) {accessors : Accessors}
    (known : accessors.Known t) :
    Rule.hiddenBy t' target accessors c = Rule.hiddenBy t target accessors c := by
  have any : accessors.toList.any (fun m => Rule.hides t' c (.method m)) =
      accessors.toList.any fun m => Rule.hides t c (.method m) := by
    rw [Bool.eq_iff_iff, List.any_eq_true, List.any_eq_true]
    refine exists_congr fun m => and_congr_right fun mem => ?_
    rw [agrees.hides founded knows (known m mem)]
  rw [Rule.hiddenBy, Rule.hiddenBy, any, agrees.hides founded knows knowsTarget]

/-- What a rule that has nothing left to look up says of a member depends on nothing that tables
which agree could differ in, and not on the resolver. -/
theorem rule_admits {rule : Rule} (settled : rule.Settled) (known : rule.Known t)
    (r r' : Resolver) : rule.admits t' r' c = rule.admits t r c := by
  obtain ⟨e, kept, settled⟩ := settled
  have expansion : e.Known t := known.expansion e kept
  have forced (t : TypeTable) (r : Resolver) : (rule.force t r).1 = e := by
    rw [Rule.force, kept]
  rw [Rule.admits, Rule.admits, forced, forced, agrees.same knows known.target,
    agrees.expansion_admits knows settled expansion,
    agrees.hiddenBy knows founded known.target expansion.accessors]

end TypeTable.Agrees

/-! ## Rules in the course of time -/

/-- The types at some time, and a rule. -/
structure Scene where
  types : TypeTable
  rule : Rule

namespace Scene

/-- What happens: something to the types, or a use of the rule, with whatever resolver. -/
inductive Step : Scene → Scene → Prop
  | world {t t' : TypeTable} (rule : Rule) (step : t.Step t') : Step ⟨t, rule⟩ ⟨t', rule⟩
  | use (t : TypeTable) (rule : Rule) {r : Resolver} (sensible : r.Sensible t) (use : Rule.Use) :
      Step ⟨t, rule⟩ ⟨t, rule.after t r use⟩

/-- One scene leads to another, step by step. -/
abbrev Run : Scene → Scene → Prop := Relation.ReflTransGen Step

/-- Types and rule know only what exists. -/
structure Sound (s : Scene) : Prop where
  founded : s.types.Founded
  known : s.rule.Known s.types

/-- The rule of a scene was made in a time after `t`, for a member that existed, and used since. -/
def Made (t : TypeTable) (s : Scene) : Prop :=
  ∃ t₀ target config, t.Becomes t₀ ∧ t₀.Knows target ∧ Run ⟨t₀, { target, config }⟩ s

variable {s s' : Scene}

theorem Sound.step (sound : s.Sound) (step : s.Step s') : s'.Sound := by
  cases step with
  | world rule step => exact ⟨sound.founded.step step, sound.known.mono step.size_le⟩
  | use t rule sensible use => exact ⟨sound.founded, sound.known.after sound.founded sensible use⟩

theorem Sound.run (sound : s.Sound) (run : s.Run s') : s'.Sound := by
  induction run with
  | refl => exact sound
  | tail _ step ih => exact ih.step step

theorem Run.of_becomes {t t' : TypeTable} (becomes : t.Becomes t') (rule : Rule) :
    Run ⟨t, rule⟩ ⟨t', rule⟩ := by
  induction becomes with
  | refl => exact .refl
  | tail _ step ih => exact ih.tail (.world rule step)

theorem Run.becomes (run : s.Run s') : s.types.Becomes s'.types := by
  induction run with
  | refl => exact .refl
  | tail _ step ih =>
    cases step with
    | world rule step => exact ih.tail step
    | use => exact ih

theorem Made.run {t : TypeTable} (made : s.Made t) (run : s.Run s') : s'.Made t := by
  obtain ⟨t₀, target, config, begins, knows, before⟩ := made
  exact ⟨t₀, target, config, begins, knows, before.trans run⟩

theorem Made.earlier {t t' : TypeTable} (made : s.Made t') (becomes : t.Becomes t') :
    s.Made t := by
  obtain ⟨t₀, target, config, begins, knows, run⟩ := made
  exact ⟨t₀, target, config, becomes.trans begins, knows, run⟩

theorem Made.sound (made : s.Made {}) : s.Sound := by
  obtain ⟨t, target, config, begins, knows, run⟩ := made
  have first : Sound ⟨t, { target, config }⟩ :=
    ⟨TypeTable.Founded.empty.becomes begins, knows, by rintro _ ⟨⟩⟩
  exact first.run run

/-- A rule that has nothing left to look up stays as it is. -/
theorem Run.rule_eq (run : s.Run s') (settled : s.rule.Settled) : s'.rule = s.rule := by
  induction run with
  | refl => rfl
  | tail _ step ih =>
    cases step with
    | world => exact ih
    | use t rule _ use =>
      obtain rfl : rule = s.rule := ih
      exact settled.after t _ use

end Scene

/-- Once a rule has answered no, what it says of the members of that time and what it has looked up
stay the same for as long as no type of that time is gone and none was given a base, whatever else
happens and whatever resolvers are used. -/
theorem Rule.refusal_freezes {t t' : TypeTable} {rule rule' : Rule} {r : Resolver} {c : Member}
    (made : Scene.Made {} ⟨t, rule⟩) (sensible : r.Sensible t)
    (refused : (rule.query t r c).holds = false)
    (later : Scene.Run ⟨t, (rule.query t r c).rule⟩ ⟨t', rule'⟩)
    (undisturbed : t.Undisturbed t') :
    (∀ m, t.Knows m → ∀ r₁ r₂,
      (rule'.query t' r₂ m).holds = ((rule.query t r c).rule.query t r₁ m).holds) ∧
    ∀ r₁ r₂, (rule'.force t' r₂).1 = ((rule.query t r c).rule.force t r₁).1 := by
  obtain ⟨founded, known⟩ := made.sound
  have settled : (rule.query t r c).rule.Settled := settled_of_refused refused
  have same : rule' = (rule.query t r c).rule := later.rule_eq settled
  have agrees : t.Agrees t' := founded.agrees later.becomes undisturbed
  constructor
  · intro m knowsM r₁ r₂
    rw [holds_query, holds_query, same]
    exact agrees.rule_admits knowsM founded settled
      (known.after founded sensible (.ask c)) r₁ r₂
  · intro r₁ r₂
    obtain ⟨e, kept, -⟩ := settled
    rw [same, force, force, kept]

namespace Rule.Canvas

def shape : TypeId := ⟨0⟩
def circle : TypeId := ⟨1⟩
def square : TypeId := ⟨2⟩

/-- A method without parameters. -/
def method (token : Token) (name : String) (type : TypeId) : Method :=
  ⟨token, name, type, type, ⟨0x40⟩, #[]⟩

def draw : Method := method ⟨0x06000001⟩ "Draw" circle
def erase : Method := method ⟨0x06000002⟩ "Erase" circle
def drawShape : Method := method ⟨0x06000003⟩ "Draw" shape

/-- A type and one derived from it, without members. -/
def bare : TypeTable :=
  TypeTable.grown [.create ⟨0x02000001⟩ "" "Shape" 0, .create ⟨0x02000002⟩ "" "Circle" 0,
    .link circle shape]

/-- The derived type lists its members. -/
def types : TypeTable := (bare.attach circle (.method draw)).attach circle (.method erase)

/-- A further derived type is there, and the base type lists a member too. -/
def later : TypeTable :=
  ((types.after (.create ⟨0x02000003⟩ "" "Square" 0)).after (.link square shape)).attach shape
    (.method drawShape)

/-- Fails for everything. -/
def silent : Resolver where
  member token _ := .error (.unresolved token .noMember)
  string token := .error (.unresolved token .noString)
  signature token := .error (.unresolved token .noSignature)
  membersNamed type _ := .error (.unresolved type.token (.membersUnavailable type.fullName))

/-- Lists the members of types. -/
def listing (t : TypeTable) : Resolver :=
  { silent with membersNamed type name := .ok (t.membersNamed type.id name) }

def rule : Rule := { target := .method draw, config := .baseMembers }

/-- The rule after it has answered no. -/
def asked : Rule := (rule.query types (listing types) (.method erase)).rule

theorem becomes_types : bare.Becomes types :=
  .tail (.single (.attach circle (by decide))) (.attach circle (by decide))

theorem becomes_later : types.Becomes later :=
  .tail (.tail (.single (.change _)) (.change _)) (.attach shape (by decide +kernel))

theorem undisturbed : types.Undisturbed later := by
  intro ⟨i⟩ e entry
  rcases i with _ | _ | i
  · exact ⟨_, rfl, Option.some.inj entry ▸ rfl⟩
  · exact ⟨_, rfl, Option.some.inj entry ▸ rfl⟩
  · cases entry

end Rule.Canvas

open Rule.Canvas in
/-- A rule that has answered no for one method goes on to answer no for another that its base type
lists later, and its walk stays complete when no type lists its members any more. A rule that starts
later answers yes, and its walk counts a type that fails. -/
theorem Rule.refusal_freezes_canvas :
    Scene.Made {} ⟨types, rule⟩ ∧ types.Undisturbed later ∧
      (rule.query types (listing types) (.method erase)).holds = false ∧
      (asked.query later (listing later) (.method drawShape)).holds = false ∧
      (rule.query later (listing later) (.method drawShape)).holds = true ∧
      (asked.force later silent).1.walk = .complete ∧
      (rule.force later silent).1.walk = .incomplete 1 := by
  have refused : (rule.query types (listing types) (.method erase)).holds = false := by
    decide +kernel
  have made : Scene.Made {} ⟨types, rule⟩ :=
    ⟨bare, _, _, TypeTable.becomes_afterAll {} _, by decide +kernel, .of_becomes becomes_types rule⟩
  have sensible : (listing types).Sensible types :=
    made.sound.founded.sensible fun _ _ _ listed => (Except.ok.inj listed).symm
  obtain ⟨answers, expansion⟩ :=
    refusal_freezes made sensible refused (.of_becomes becomes_later asked) undisturbed
  refine ⟨made, undisturbed, refused, ?_, by decide +kernel, ?_, by decide +kernel⟩
  · rw [answers (.method drawShape) (by decide +kernel) (listing types)]
    decide +kernel
  · rw [expansion (listing types)]
    decide +kernel

end Cil
