import Cil.Proofs.Fallible
import Cil.Proofs.Rule.Freezing
import Cil.Proofs.Search.Following
import Cil.Workspace.Command

/-!
# What commands do to a workspace

Every command is made of a few moves: something happens to the types, a name is given or let go, a
rule is made or used, something is stored, and types that nothing holds are released. Each move
keeps the workspace sound: what it names and what its rules know exists, and the types it names are
there. So the rules of a workspace, however commands follow each other, are new rules that were
used in the course of time.
-/

namespace Cil

open Fallible

/-! ## Members that can be held -/

/-- A member that exists and, if it is a type, is there. -/
structure TypeTable.Has (t : TypeTable) (m : Member) : Prop where
  knows : t.Knows m
  live : ∀ d, m = .type d → t.def? d.id = some d

namespace TypeTable.Has

variable {t : TypeTable} {m : Member}

theorem of_knows (knows : t.Knows m) (noType : m.heldType? = none) : t.Has m := by
  refine ⟨knows, ?_⟩
  rintro d rfl
  cases noType

theorem of_entries {t' : TypeTable} (has : t.Has m) (size : t.slots.size ≤ t'.slots.size)
    (live : ∀ d, m = .type d → t.def? d.id = some d → t'.def? d.id = some d) : t'.Has m :=
  ⟨has.knows.mono size, fun d hd => live d hd (has.live d hd)⟩

theorem create (has : t.Has m) (token : Token) (space name : String) (flags : UInt32) :
    (t.add token space name flags).2.Has m := by
  have size : t.slots.size ≤ (t.add token space name flags).2.slots.size :=
    size_le_after t (.create token space name flags)
  apply has.of_entries size
  intro d _ live
  obtain ⟨e, entry, _⟩ := def?_eq_some_iff.1 live
  have slot := lt_size_of_get? entry
  rw [def?, get?_add, if_neg (by omega)]
  exact live

theorem link (has : t.Has m) {type base : TypeDef} {linked : TypeTable}
    (links : t.setBase type base = .ok linked) : linked.Has m := by
  apply has.of_entries (Nat.le_of_eq (size_setBase links).symm)
  intro d _ live
  rw [def?_setBase links]
  exact live

theorem attach (has : t.Has m) (type : TypeId) (n : Member) : (t.attach type n).Has m := by
  apply has.of_entries (Nat.le_of_eq (size_attach t type n).symm)
  intro d _ live
  obtain ⟨e, entry, rfl⟩ := def?_eq_some_iff.1 live
  rw [def?, get?_attach]
  split
  · rw [entry]
    cases n <;> rfl
  · exact live

/-- Releasing types that are not kept leaves a member that is no type, or a type that is. -/
theorem keepOnly (has : t.Has m) {keep : TypeId → Bool}
    (kept : ∀ id, m.heldType? = some id → keep id = true) : (t.keepOnly keep).Has m := by
  have size : t.slots.size ≤ (t.keepOnly keep).slots.size := size_le_after t (.keep keep)
  apply has.of_entries size
  rintro d rfl live
  rw [def?, get?_keepOnly, if_pos (kept d.id rfl)]
  exact live

theorem added (t : TypeTable) (token : Token) (space name : String) (flags : UInt32) :
    (t.add token space name flags).2.Has (.type (t.add token space name flags).1) := by
  constructor
  · intro id mentioned
    rw [List.mem_singleton.1 mentioned]
    simp [add]
  · rintro d ⟨⟩
    have last : (t.add token space name flags).1.id.index = t.slots.size := rfl
    rw [def?, get?_add, if_pos last]
    rfl

theorem slot {d : TypeDef} (has : t.Has (.type d)) : d.id.index < t.slots.size :=
  has.knows d.id (List.mem_singleton.2 rfl)

theorem through (has : t.Has m) {u : TypeId} (slot : u.index < t.slots.size) :
    t.Has (m.through u) := by
  have knows := has.knows.through slot
  cases m with
  | type d => exact has
  | field | method | property | unknown => exact .of_knows knows rfl

end TypeTable.Has

/-! ## Uses

Questions and searches leave a rule as uses one after the other do. -/

theorem Rule.Known.afterAll {t : TypeTable} (founded : t.Founded) {r : Resolver}
    (sensible : r.Sensible t) {rule : Rule} (known : rule.Known t) (uses : List Use) :
    (rule.afterAll t r uses).Known t := by
  induction uses generalizing rule with
  | nil => exact known
  | cons use uses ih => exact ih (known.after founded sensible use)

theorem Scene.Run.of_uses {t : TypeTable} {r : Resolver} (sensible : r.Sensible t) (rule : Rule)
    (uses : List Rule.Use) : Run ⟨t, rule⟩ ⟨t, rule.afterAll t r uses⟩ := by
  induction uses generalizing rule with
  | nil => exact .refl
  | cons use uses ih => exact .head (.use t rule sensible use) (ih _)

section Uses

variable (t : TypeTable) (r : Resolver)

theorem Rule.rule_queryAll (rule : Rule) (cs : List Member) :
    (rule.queryAll t r cs).2.1 = rule.afterAll t r (cs.map .ask) := by
  induction cs generalizing rule with
  | nil => rfl
  | cons c cs ih => exact ih _

theorem Quarry.exists_rule_asked (q : Quarry) (c : Member) :
    ∃ uses, (q.asked t r c).rule = q.rule.afterAll t r uses := by
  rw [asked]
  split
  · exact ⟨[], rfl⟩
  · exact ⟨[.ask c], rfl⟩

namespace Search

theorem record_singleton (mode : SearchMode) (c : Member) (remaining : Nat) (q : Quarry) :
    (record t r mode c remaining [q]).quarries = [q.asked t r c] := by
  rcases record_cons t r mode c remaining q [] with ⟨_, hrecord, -⟩ | ⟨_, hrecord, -⟩
  · rw [hrecord]
  · rw [hrecord]
    rfl

/-- Following a trail for a rule only asks it. -/
theorem exists_rules_follow (mode : SearchMode) (trail : Trail) {p : Pursuit} {q : Quarry}
    (alone : p.quarries = [q]) :
    ∃ uses, (follow t r mode trail p).rules = [q.rule.afterAll t r uses] := by
  obtain ⟨sightings, fault⟩ := trail
  induction sightings generalizing p q with
  | nil => exact ⟨[], congrArg (List.map Quarry.rule) alone⟩
  | cons s rest ih =>
    rw [follow_cons]
    cases hm : s.member? with
    | none =>
      cases s with
      | lost offset name fault' =>
        have noted : (p.note (.constrainedSkipped name offset fault')).quarries = [q] := alone
        exact ih noted
      | _ => cases hm
    | some m =>
      obtain ⟨found, asks⟩ := Pursuit.see_of_member? t r mode hm p
      obtain ⟨uses, asked⟩ := q.exists_rule_asked t r m
      have left : (p.told (record t r mode m p.remaining p.quarries)).quarries =
          [q.asked t r m] := by
        rw [alone]
        exact record_singleton t r mode m p.remaining q
      rw [asks, Pursuit.ask_eq]
      split
      · next outcome ended =>
        split at ended
        · cases ended
          refine ⟨uses, ?_⟩
          rw [← asked]
          exact congrArg (List.map Quarry.rule) left
        · cases ended
      · next p' goes =>
        split at goes
        · cases goes
        · cases goes
          obtain ⟨uses', rules⟩ := ih left
          refine ⟨uses ++ uses', ?_⟩
          rw [rules, asked, Rule.afterAll, Rule.afterAll, Rule.afterAll, List.foldl_append]

theorem exists_rules_run (ctx : Context) (rule : Rule) :
    ∃ uses, (run t ctx .single [rule]).rules = [rule.afterAll t ctx.resolver uses] := by
  have alone : (Pursuit.start [rule]).quarries = [{ rule }] := rfl
  rw [run_eq_follow t ctx (List.cons_ne_nil rule []) fun _ => rfl]
  exact exists_rules_follow t ctx.resolver .single _ alone

end Search

end Uses

/-! ## Sound workspaces -/

namespace Workspace

/-- What a workspace names and what its rules know exists, and the types it names are there. -/
structure Sound (w : Workspace) : Prop where
  founded : w.types.Founded
  members : ∀ (id : String) (m : Member), w.members[id]? = some m → w.types.Has m
  rules : ∀ (id : String) (rule : Rule), w.rules[id]? = some rule → rule.Known w.types

theorem Sound.empty : Sound {} := by
  refine ⟨TypeTable.Founded.empty, fun id m named => ?_, fun id rule named => ?_⟩
  · simp at named
  · simp at named

/-- What answers for tokens lists members that exist. -/
theorem Sound.sensible {w : Workspace} (sound : w.Sound) (via : ResolverChoice) :
    (w.resolver via).Sensible w.types := by
  apply sound.founded.sensible
  intro type name members listed
  cases via with
  | plain =>
    change w.store.membersNamed w.types type name = .ok members at listed
    rw [Store.membersNamed] at listed
    split at listed
    · cases listed
    · exact (Except.ok.inj listed).symm
  | generic => exact (Except.ok.inj listed).symm

/-! ## Moves -/

/-- What a command is made of. -/
inductive Move (w : Workspace) : Workspace → Prop
  | types {types : TypeTable} (step : w.types.Step types)
      (keeps : ∀ m, w.types.Has m → types.Has m) : Move w { w with types }
  | name (id : String) {m : Member} (has : w.types.Has m) :
      Move w { w with members := w.members.insert id m }
  | forget (id : String) : Move w { w with members := w.members.erase id }
  | make (id : String) {target : Member} (config : MatchConfig) (has : w.types.Has target) :
      Move w { w with rules := w.rules.insert id { target, config } }
  | use {id : String} {rule : Rule} (via : ResolverChoice) (uses : List Rule.Use)
      (named : w.rules[id]? = some rule) :
      Move w { w with rules := w.rules.insert id (rule.afterAll w.types (w.resolver via) uses) }
  | store (store : Store) : Move w { w with store }
  | sweep : Move w w.sweep

/-- One workspace leads to another, move by move. -/
abbrev Moves : Workspace → Workspace → Prop := Relation.ReflTransGen Move

variable {w w' : Workspace}

theorem mem_held_of_member {id : String} {m : Member} {type : TypeId}
    (named : w.members[id]? = some m) (held : m.heldType? = some type) : type ∈ w.held := by
  apply List.mem_append_left
  apply List.mem_append_left
  exact List.mem_filterMap.2 ⟨(id, m), Std.HashMap.mem_toList_iff_getElem?_eq_some.2 named, held⟩

/-- What is held is not released. -/
theorem has_sweep {m : Member} (has : w.types.Has m)
    (held : ∀ type, m.heldType? = some type → type ∈ w.held) : w.sweep.types.Has m := by
  apply has.keepOnly
  intro type holds
  rw [Std.HashSet.contains_ofList, List.contains_iff_mem]
  exact held type holds

theorem Move.becomes (move : w.Move w') : w.types.Becomes w'.types := by
  cases move with
  | types step _ => exact .single step
  | sweep => exact .single (.change (.keep _))
  | name | forget | make | use | store => exact .refl

theorem Move.sound (sound : w.Sound) (move : w.Move w') : w'.Sound := by
  obtain ⟨founded, members, rules⟩ := sound
  cases move with
  | types step keeps =>
    refine ⟨founded.step step, ?_, ?_⟩
    · exact fun id m named => keeps m (members id m named)
    · exact fun id rule named => (rules id rule named).mono step.size_le
  | name id has =>
    refine ⟨founded, fun id' m' named => ?_, rules⟩
    rw [Std.HashMap.getElem?_insert] at named
    split at named
    · cases named
      exact has
    · exact members id' m' named
  | forget id =>
    refine ⟨founded, fun id' m named => ?_, rules⟩
    rw [Std.HashMap.getElem?_erase, Option.ite_none_left_eq_some] at named
    exact members id' m named.2
  | make id config has =>
    refine ⟨founded, members, fun id' rule named => ?_⟩
    rw [Std.HashMap.getElem?_insert] at named
    split at named
    · cases named
      exact ⟨has.knows, by rintro _ ⟨⟩⟩
    · exact rules id' rule named
  | @use id rule via uses used =>
    refine ⟨founded, members, fun id' rule' named => ?_⟩
    rw [Std.HashMap.getElem?_insert] at named
    split at named
    · cases named
      have sensible := Sound.sensible ⟨founded, members, rules⟩ via
      exact (rules id rule used).afterAll founded sensible uses
    · exact rules id' rule' named
  | store store => exact ⟨founded, members, rules⟩
  | sweep =>
    have step : w.types.Step w.sweep.types := .change (.keep _)
    refine ⟨founded.step step, fun id m named => ?_, fun id rule named => ?_⟩
    · exact has_sweep (members id m named) fun type => mem_held_of_member named
    · exact (rules id rule named).mono step.size_le

/-- Where a rule comes from: from the rule that had its name before, or it was just made. -/
theorem Move.origin (sound : w.Sound) (move : w.Move w') {id : String} {rule' : Rule}
    (named : w'.rules[id]? = some rule') :
    (∃ rule, w.rules[id]? = some rule ∧ Scene.Run ⟨w.types, rule⟩ ⟨w'.types, rule'⟩) ∨
      Scene.Made w.types ⟨w'.types, rule'⟩ := by
  cases move with
  | types step _ => exact .inl ⟨rule', named, .of_becomes (.single step) rule'⟩
  | sweep => exact .inl ⟨rule', named, .of_becomes (.single (.change (.keep _))) rule'⟩
  | name | forget | store => exact .inl ⟨rule', named, .refl⟩
  | @make id' target config has =>
    rw [Std.HashMap.getElem?_insert] at named
    split at named
    next =>
      cases named
      exact .inr ⟨w.types, target, config, .refl, has.knows, .refl⟩
    next => exact .inl ⟨rule', named, .refl⟩
  | @use id' rule via uses used =>
    rw [Std.HashMap.getElem?_insert] at named
    split at named
    next same =>
      cases named
      rw [beq_iff_eq] at same
      exact .inl ⟨rule, same ▸ used, .of_uses (sound.sensible via) rule uses⟩
    next => exact .inl ⟨rule', named, .refl⟩

theorem Moves.becomes (moves : w.Moves w') : w.types.Becomes w'.types := by
  induction moves with
  | refl => exact .refl
  | tail _ move ih => exact ih.trans move.becomes

theorem Moves.sound (sound : w.Sound) (moves : w.Moves w') : w'.Sound := by
  induction moves with
  | refl => exact sound
  | tail _ move ih => exact move.sound ih

theorem Moves.origin (sound : w.Sound) (moves : w.Moves w') {id : String} {rule' : Rule}
    (named : w'.rules[id]? = some rule') :
    (∃ rule, w.rules[id]? = some rule ∧ Scene.Run ⟨w.types, rule⟩ ⟨w'.types, rule'⟩) ∨
      Scene.Made w.types ⟨w'.types, rule'⟩ := by
  induction moves generalizing rule' with
  | refl => exact .inl ⟨rule', named, .refl⟩
  | tail before move ih =>
    have becomes := Moves.becomes before
    rcases move.origin (Moves.sound sound before) named with ⟨rule, named, run⟩ | made
    · rcases ih named with ⟨first, named, earlier⟩ | made
      · exact .inl ⟨first, named, earlier.trans run⟩
      · exact .inr (made.run run)
    · exact .inr (made.earlier becomes)

/-! ## Commands are moves -/

theorem member_eq_ok_iff {id : String} {m : Member} :
    w.member id = .ok m ↔ w.members[id]? = some m := by
  rw [member]
  cases w.members[id]? with
  | none => simp
  | some m' => simp

theorem type_eq_ok_iff {id : String} {d : TypeDef} :
    w.type id = .ok d ↔ w.members[id]? = some (.type d) := by
  rw [type, bind_eq_ok_iff]
  constructor
  · rintro ⟨m, named, found⟩
    cases m with
    | type m' =>
      rw [pure_eq_ok_iff] at found
      rw [found]
      exact member_eq_ok_iff.1 named
    | _ => cases found
  · intro named
    exact ⟨_, member_eq_ok_iff.2 named, rfl⟩

theorem method_eq_ok_iff {id : String} {m : Method} :
    w.method id = .ok m ↔ w.members[id]? = some (.method m) := by
  rw [method, bind_eq_ok_iff]
  constructor
  · rintro ⟨m, named, found⟩
    cases m with
    | method m' =>
      rw [pure_eq_ok_iff] at found
      rw [found]
      exact member_eq_ok_iff.1 named
    | _ => cases found
  · intro named
    exact ⟨_, member_eq_ok_iff.2 named, rfl⟩

theorem rule_eq_ok_iff {id : String} {rule : Rule} :
    w.rule id = .ok rule ↔ w.rules[id]? = some rule := by
  rw [Workspace.rule]
  cases w.rules[id]? with
  | none => simp
  | some rule' => simp

theorem moves_bind (id : String) {m : Member} (has : w.types.Has m) :
    w.Moves (w.bind id m) :=
  .tail (.single (.name id has)) .sweep

/-- Something happens to the types, and then a member is named. -/
theorem moves_types_bind {types : TypeTable} (step : w.types.Step types)
    (keeps : ∀ m, w.types.Has m → types.Has m) (id : String) {m : Member} (has : types.Has m) :
    w.Moves ({ w with types }.bind id m) :=
  .head (.types step keeps) (moves_bind id has)

theorem moves_withStore (store : Store) : w.Moves (w.withStore store) :=
  .tail (.single (.store store)) .sweep

theorem moves_use {id : String} {rule : Rule} (named : w.rules[id]? = some rule)
    (via : ResolverChoice) (uses : List Rule.Use) :
    w.Moves (w.bindRule id (rule.afterAll w.types (w.resolver via) uses)) :=
  .tail (.single (.use via uses named)) .sweep

theorem resolver_of_context {b : BodyRequest} {ctx : Context} (request : w.context b = .ok ctx) :
    ctx.resolver = w.resolver b.resolver := by
  simp only [context, bind_eq_ok_iff, pure_eq_ok_iff] at request
  obtain ⟨plain, hplain, params, -, locals, -, generics, -, rfl⟩ := request
  change plain.resolver = _
  rw [plainContext] at hplain
  cases method : b.method with
  | none =>
    rw [method] at hplain
    exact congrArg Context.resolver (Except.ok.inj hplain).symm
  | some name =>
    rw [method] at hplain
    obtain ⟨m, -, rfl⟩ := map_eq_ok_iff.1 hplain
    rfl

theorem Sound.slot_of_type (sound : w.Sound) {id : String} {d : TypeDef}
    (named : w.type id = .ok d) : d.id.index < w.types.slots.size :=
  (sound.members id _ (type_eq_ok_iff.1 named)).slot

theorem Sound.has_of_member (sound : w.Sound) {id : String} {m : Member}
    (named : w.member id = .ok m) : w.types.Has m :=
  sound.members id m (member_eq_ok_iff.1 named)

theorem Sound.slot_of_param (sound : w.Sound) {request : ParamRequest} {p : Param}
    (given : w.param request = .ok p) : p.type.index < w.types.slots.size := by
  rw [param, bind_eq_ok_iff] at given
  obtain ⟨d, named, found⟩ := given
  rw [pure_eq_ok_iff] at found
  rw [found]
  exact sound.slot_of_type named

theorem Sound.knows_method (sound : w.Sound) {id : String} {type : TypeDef}
    (named : w.type id = .ok type) {requests : Array ParamRequest} {params : Array Param}
    (given : requests.mapM w.param = .ok params) {m : Method} (declaring : m.declaring = type.id)
    (reflected : m.reflected = type.id) (takes : m.params = params) :
    w.types.Knows (.method m) := by
  have slot := sound.slot_of_type named
  have param : ∀ p ∈ m.params.toList, p.type.index < w.types.slots.size := by
    rw [Array.mapM_eq_mapM_toList] at given
    obtain ⟨listed, hlisted, rfl⟩ := map_eq_ok_iff.1 given
    have each := (mapM_eq_ok_iff.1 hlisted).flip.imp fun p request (hp : w.param request = .ok p) =>
      And.intro (sound.slot_of_param hp) hp
    rw [takes]
    exact ((List.forall₂_and_left listed requests.toList).1 each).1
  refine List.forall_mem_cons.2 ⟨declaring ▸ slot, List.forall_mem_cons.2 ⟨reflected ▸ slot, ?_⟩⟩
  intro mentioned h
  obtain ⟨p, hp, rfl⟩ := List.mem_map.1 h
  exact param p hp

theorem exists_method_of_mapM {name : Option String} {found : Option Method} {m : Method}
    (given : name.mapM w.method = .ok found) (mem : m ∈ found.toList) :
    ∃ id, w.method id = .ok m := by
  cases name with
  | none =>
    cases given
    cases mem
  | some id =>
    obtain ⟨m', hm', rfl⟩ := map_eq_ok_iff.1 given
    obtain rfl : m = m' := List.mem_singleton.1 mem
    exact ⟨id, hm'⟩

theorem Sound.knows_property (sound : w.Sound) {id : String} {type : TypeDef}
    (named : w.type id = .ok type) {p : Property} (declaring : p.declaring = type.id)
    (reflected : p.reflected = type.id)
    (accessors : ∀ m ∈ p.accessors, ∃ id, w.method id = .ok m) : w.types.Knows (.property p) := by
  have slot := sound.slot_of_type named
  refine List.forall_mem_cons.2 ⟨declaring ▸ slot, List.forall_mem_cons.2 ⟨reflected ▸ slot, ?_⟩⟩
  intro mentioned h
  obtain ⟨m, hm, h⟩ := List.mem_flatMap.1 h
  obtain ⟨id, hid⟩ := accessors m hm
  exact (sound.members id _ (method_eq_ok_iff.1 hid)).knows mentioned h

theorem moves_declare {type : TypeDef} (id : String) {m : Member} (has : w.types.Has m) :
    w.Moves (w.declare id type m) :=
  moves_types_bind (.attach type.id has.knows) (fun _ hn => hn.attach type.id m) id
    (has.attach type.id m)

/-- A command that is carried out is a sequence of moves. -/
theorem run_moves (sound : w.Sound) {command : Command} {reply : Reply}
    (run : w.run command = .ok reply) : w.Moves reply.workspace := by
  cases command with
  | newType id token space name flags =>
    cases run
    exact moves_types_bind (.change (.create token space name flags))
      (fun m has => has.create token space name flags) id (.added ..)
  | setBase type base =>
    simp only [Workspace.run, bind_eq_ok_iff] at run
    obtain ⟨d, hd, b, hb, run⟩ := run
    have liveD := (sound.members type _ (type_eq_ok_iff.1 hd)).live d rfl
    have liveB := (sound.members base _ (type_eq_ok_iff.1 hb)).live b rfl
    split at run
    next types linked =>
      cases run
      have after : w.types.after (.link d.id b.id) = types := by
        simp [TypeTable.after, liveD, liveB, linked]
      exact .single (.types (after ▸ .change (.link d.id b.id)) fun m has => has.link linked)
    next =>
      cases run
      exact .refl
  | newField id type token name flags =>
    simp only [Workspace.run, bind_eq_ok_iff, pure_eq_ok_iff] at run
    obtain ⟨d, hd, rfl⟩ := run
    have slot := sound.slot_of_type hd
    refine moves_declare id (.of_knows ?_ rfl)
    intro mentioned h
    rcases List.mem_pair.1 h with rfl | rfl
    · exact slot
    · exact slot
  | newMethod id type token name flags params =>
    simp only [Workspace.run, bind_eq_ok_iff, pure_eq_ok_iff] at run
    obtain ⟨d, hd, params, hparams, rfl⟩ := run
    exact moves_declare id (.of_knows (sound.knows_method hd hparams rfl rfl rfl) rfl)
  | newProperty id type token name getter setter =>
    simp only [Workspace.run, bind_eq_ok_iff, pure_eq_ok_iff] at run
    obtain ⟨d, hd, getter, hgetter, setter, hsetter, rfl⟩ := run
    refine moves_declare id (.of_knows (sound.knows_property hd rfl rfl ?_) rfl)
    intro m hm
    rcases List.mem_append.1 hm with mem | mem
    · exact exists_method_of_mapM hgetter mem
    · exact exists_method_of_mapM hsetter mem
  | newUnknown id token =>
    cases run
    exact moves_bind id (.of_knows (List.forall_mem_nil _) rfl)
  | reflect id member through =>
    simp only [Workspace.run, bind_eq_ok_iff, pure_eq_ok_iff] at run
    obtain ⟨m, hm, d, hd, rfl⟩ := run
    exact moves_bind id ((sound.has_of_member hm).through (sound.slot_of_type hd))
  | attach type member =>
    simp only [Workspace.run, bind_eq_ok_iff, pure_eq_ok_iff] at run
    obtain ⟨d, hd, m, hm, rfl⟩ := run
    have has := sound.has_of_member hm
    exact .single (.types (.attach d.id has.knows) fun n hn => hn.attach d.id m)
  | forget id =>
    cases run
    exact .tail (.single (.forget id)) .sweep
  | register type =>
    simp only [Workspace.run, bind_eq_ok_iff, pure_eq_ok_iff] at run
    obtain ⟨d, -, rfl⟩ := run
    exact moves_withStore _
  | addMember member token =>
    simp only [Workspace.run, bind_eq_ok_iff, pure_eq_ok_iff] at run
    obtain ⟨m, -, rfl⟩ := run
    exact moves_withStore _
  | addString token value =>
    cases run
    exact moves_withStore _
  | addSignature token blob =>
    cases run
    exact moves_withStore _
  | withhold type =>
    simp only [Workspace.run, bind_eq_ok_iff, pure_eq_ok_iff] at run
    obtain ⟨d, -, rfl⟩ := run
    exact moves_withStore _
  | newRule id target config =>
    simp only [Workspace.run, bind_eq_ok_iff, pure_eq_ok_iff] at run
    obtain ⟨m, hm, rfl⟩ := run
    exact .tail (.single (.make id config (sound.has_of_member hm))) .sweep
  | ask rule candidates via =>
    simp only [Workspace.run, bind_eq_ok_iff, pure_eq_ok_iff] at run
    obtain ⟨asked, hasked, members, -, rfl⟩ := run
    dsimp only
    rw [Rule.rule_queryAll]
    exact moves_use (rule_eq_ok_iff.1 hasked) via _
  | expand rule via =>
    simp only [Workspace.run, bind_eq_ok_iff, pure_eq_ok_iff] at run
    obtain ⟨asked, hasked, rfl⟩ := run
    exact moves_use (rule_eq_ok_iff.1 hasked) via [.expand]
  | searchFor rule body =>
    simp only [Workspace.run, bind_eq_ok_iff, pure_eq_ok_iff] at run
    obtain ⟨asked, hasked, ctx, hctx, rfl⟩ := run
    obtain ⟨uses, rules⟩ := Search.exists_rules_run w.types ctx asked
    dsimp only
    rw [rules, resolver_of_context hctx]
    exact moves_use (rule_eq_ok_iff.1 hasked) body.resolver uses

/-! ## Runs -/

/-- One workspace leads to another by commands that are carried out. -/
inductive Leads (w : Workspace) : Workspace → Prop
  | refl : Leads w w
  | step {w' : Workspace} {command : Command} {reply : Reply} (before : Leads w w')
      (run : w'.run command = .ok reply) : Leads w reply.workspace

theorem Leads.moves (sound : w.Sound) (leads : w.Leads w') : w.Moves w' := by
  induction leads with
  | refl => exact .refl
  | step _ run ih => exact ih.trans (run_moves (Moves.sound sound ih) run)

theorem Leads.sound (made : Leads {} w) : w.Sound := Moves.sound .empty (made.moves .empty)

/-- A rule that commands have led to is the one that had its name before, as uses in the course of
time have left it, or it was made meanwhile. -/
theorem Leads.origin (sound : w.Sound) (leads : w.Leads w') {id : String} {rule' : Rule}
    (named : w'.rules[id]? = some rule') :
    (∃ rule, w.rules[id]? = some rule ∧ Scene.Run ⟨w.types, rule⟩ ⟨w'.types, rule'⟩) ∨
      Scene.Made w.types ⟨w'.types, rule'⟩ :=
  Moves.origin sound (leads.moves sound) named

/-- So in a workspace that commands have led to from an empty one, every rule was made at some time
and used since. -/
theorem Leads.made (leads : Leads {} w) {id : String} {rule : Rule}
    (named : w.rules[id]? = some rule) : Scene.Made {} ⟨w.types, rule⟩ := by
  rcases leads.origin .empty named with ⟨first, none, -⟩ | made
  · simp at none
  · exact made

end Workspace

end Cil
