import Cil.Proofs.Rule.Reflection
import Cil.Proofs.Workspace.Moves

/-!
# Registered types stay

A store holds a type under the type's own token, next to what it holds among its members. Only
another type with the token takes that place. So a registered type is there, and what it declares
knows its declaring type, however names are let go, rules are made and used, and entries are
overwritten.
-/

namespace Cil

open Fallible

namespace Store

/-! ## The types of a store -/

theorem types_addMemberAs (s : Store) (token : Token) (m : Member) :
    (s.addMemberAs token m).types =
      m.type?.elim s.types fun type => s.types.insert type.token type := by
  cases m <;> rfl

theorem types_foldl_addMember (s : Store) {ms : List Member} (noTypes : ∀ m ∈ ms, m.type? = none) :
    (ms.foldl addMember s).types = s.types := by
  induction ms generalizing s with
  | nil => rfl
  | cons m ms ih =>
    obtain ⟨noType, noTypes⟩ := List.forall_mem_cons.1 noTypes
    rw [List.foldl_cons, ih (s.addMember m) noTypes, addMember, types_addMemberAs, noType]
    rfl

theorem types_register (s : Store) (t : TypeTable) (type : TypeDef) :
    (s.register t type).types = s.types.insert type.token type := by
  have noTypes : ∀ m ∈ t.members type.id, m.type? = none := by
    intro m listed
    rw [TypeTable.members] at listed
    split at listed
    · cases listed
    · simp only [List.mem_append, List.mem_map] at listed
      rcases listed with (⟨_, _, rfl⟩ | ⟨_, _, rfl⟩) | ⟨_, _, rfl⟩
      · rfl
      · rfl
      · rfl
  rw [register, types_foldl_addMember _ noTypes, addMember, types_addMemberAs]
  rfl

theorem mem_held_of_types {s : Store} {token : Token} {type : TypeDef}
    (entry : s.types[token]? = some type) : type.id ∈ s.held := by
  apply List.mem_append_left
  exact List.mem_map.2 ⟨(token, type), Std.HashMap.mem_toList_iff_getElem?_eq_some.2 entry, rfl⟩

end Store

namespace Workspace

variable {w w' : Workspace} {command : Command} {reply : Reply} {type : TypeDef}

/-! ## What a command registers -/

/-- The type that a command registers, by its name or as a member. -/
def registered? (w : Workspace) : Command → Option TypeDef
  | .register id => (w.type id).toOption
  | .addMember id _ => (w.member id).toOption.bind Member.type?
  | _ => none

/-- What a command can do to a workspace: types that are there and held afterwards stay, and the
store takes up the type that is registered. -/
structure Passes (w : Workspace) (registered : Option TypeDef) (w' : Workspace) : Prop where
  keeps : ∀ m, w.types.Has m → (∀ id, m.heldType? = some id → id ∈ w'.held) → w'.types.Has m
  entries : w'.store.types =
    registered.elim w.store.types fun type => w.store.types.insert type.token type

namespace Passes

variable {registered : Option TypeDef}

theorem swept (keeps : ∀ m, w.types.Has m → w'.types.Has m)
    (entries : w'.store.types =
      registered.elim w.store.types fun type => w.store.types.insert type.token type) :
    w.Passes registered w'.sweep :=
  ⟨fun m has held => has_sweep (keeps m has) held, entries⟩

/-- Something happens to the types. -/
theorem types {types : TypeTable} (keeps : ∀ m, w.types.Has m → types.Has m) :
    w.Passes none { w with types } :=
  ⟨fun m has _ => keeps m has, rfl⟩

theorem types_bind {types : TypeTable} (keeps : ∀ m, w.types.Has m → types.Has m) (id : String)
    (m : Member) : w.Passes none ({ w with types }.bind id m) :=
  swept keeps rfl

theorem bind (id : String) (m : Member) : w.Passes none (w.bind id m) :=
  types_bind (fun _ has => has) id m

theorem declare (id : String) (type : TypeDef) (m : Member) :
    w.Passes none (w.declare id type m) :=
  types_bind (fun _ has => has.attach type.id m) id m

theorem forget (id : String) : w.Passes none (w.forget id) := swept (fun _ has => has) rfl

theorem bindRule (id : String) (rule : Rule) : w.Passes none (w.bindRule id rule) :=
  swept (fun _ has => has) rfl

theorem withStore {store : Store}
    (entries : store.types =
      registered.elim w.store.types fun type => w.store.types.insert type.token type) :
    w.Passes registered (w.withStore store) :=
  swept (fun _ has => has) entries

end Passes

theorem run_passes (run : w.run command = .ok reply) :
    w.Passes (w.registered? command) reply.workspace := by
  cases command with
  | newType id token space name flags =>
    cases run
    exact .types_bind (fun m has => has.create token space name flags) id _
  | setBase type base =>
    simp only [Workspace.run, bind_eq_ok_iff] at run
    obtain ⟨d, -, b, -, run⟩ := run
    split at run
    next types linked =>
      cases run
      exact .types fun m has => has.link linked
    next =>
      cases run
      exact .types fun m has => has
  | newField id type token name flags =>
    simp only [Workspace.run, bind_eq_ok_iff, pure_eq_ok_iff] at run
    obtain ⟨d, -, rfl⟩ := run
    exact .declare id d _
  | newMethod id type token name flags params =>
    simp only [Workspace.run, bind_eq_ok_iff, pure_eq_ok_iff] at run
    obtain ⟨d, -, params, -, rfl⟩ := run
    exact .declare id d _
  | newProperty id type token name getter setter =>
    simp only [Workspace.run, bind_eq_ok_iff, pure_eq_ok_iff] at run
    obtain ⟨d, -, getter, -, setter, -, rfl⟩ := run
    exact .declare id d _
  | newUnknown id token =>
    cases run
    exact .bind id _
  | reflect id member through =>
    simp only [Workspace.run, bind_eq_ok_iff, pure_eq_ok_iff] at run
    obtain ⟨m, -, d, -, rfl⟩ := run
    exact .bind id _
  | attach type member =>
    simp only [Workspace.run, bind_eq_ok_iff, pure_eq_ok_iff] at run
    obtain ⟨d, -, m, -, rfl⟩ := run
    exact .types fun n has => has.attach d.id m
  | forget id =>
    cases run
    exact .forget id
  | register type =>
    simp only [Workspace.run, bind_eq_ok_iff, pure_eq_ok_iff] at run
    obtain ⟨d, named, rfl⟩ := run
    rw [registered?, named]
    exact .withStore (w.store.types_register w.types d)
  | addMember member token =>
    simp only [Workspace.run, bind_eq_ok_iff, pure_eq_ok_iff] at run
    obtain ⟨m, named, rfl⟩ := run
    rw [registered?, named]
    exact .withStore (w.store.types_addMemberAs _ m)
  | addString token value =>
    cases run
    exact .withStore rfl
  | addSignature token blob =>
    cases run
    exact .withStore rfl
  | withhold type =>
    simp only [Workspace.run, bind_eq_ok_iff, pure_eq_ok_iff] at run
    obtain ⟨d, -, rfl⟩ := run
    exact .withStore rfl
  | newRule id target config =>
    simp only [Workspace.run, bind_eq_ok_iff, pure_eq_ok_iff] at run
    obtain ⟨m, -, rfl⟩ := run
    exact .bindRule id _
  | ask rule candidates via =>
    simp only [Workspace.run, bind_eq_ok_iff, pure_eq_ok_iff] at run
    obtain ⟨asked, -, members, -, rfl⟩ := run
    exact .bindRule rule _
  | expand rule via =>
    simp only [Workspace.run, bind_eq_ok_iff, pure_eq_ok_iff] at run
    obtain ⟨asked, -, rfl⟩ := run
    exact .bindRule rule _
  | searchFor rule body =>
    simp only [Workspace.run, bind_eq_ok_iff, pure_eq_ok_iff] at run
    obtain ⟨asked, -, ctx, -, rfl⟩ := run
    exact .bindRule rule _

theorem Sound.has_of_registered (sound : w.Sound) (registers : w.registered? command = some type) :
    w.types.Has (.type type) := by
  cases command with
  | register id =>
    cases named : w.type id with
    | error => simp [registered?, named, Except.toOption] at registers
    | ok d =>
      obtain rfl : d = type := by simpa [registered?, named, Except.toOption] using registers
      exact sound.members id _ (type_eq_ok_iff.1 named)
  | addMember id token =>
    cases named : w.member id with
    | error => simp [registered?, named, Except.toOption] at registers
    | ok m =>
      rw [registered?, named] at registers
      cases m with
      | type d =>
        cases registers
        exact sound.has_of_member named
      | field | method | property | unknown => cases registers
  | _ => cases registers

/-! ## Registered types -/

/-- The store holds a type under its token, and the type is there. -/
structure Keeps (w : Workspace) (type : TypeDef) : Prop where
  entry : w.store.types[type.token]? = some type
  has : w.types.Has (.type type)

/-- A type that the store holds is not released. -/
theorem Passes.keeps_of_entry {registered : Option TypeDef} (passes : w.Passes registered w')
    (has : w.types.Has (.type type)) (entry : w'.store.types[type.token]? = some type) :
    w'.Keeps type := by
  refine ⟨entry, passes.keeps _ has ?_⟩
  rintro id ⟨⟩
  exact List.mem_append_right _ (Store.mem_held_of_types entry)

theorem keeps_of_registered (sound : w.Sound) (registers : w.registered? command = some type)
    (run : w.run command = .ok reply) : reply.workspace.Keeps type := by
  have passes := run_passes run
  apply passes.keeps_of_entry (sound.has_of_registered registers)
  rw [passes.entries, registers]
  exact Std.HashMap.getElem?_insert_self

/-- A command registers no other type with the token of a type. -/
def Spares (w : Workspace) (command : Command) (type : TypeDef) : Prop :=
  ∀ other, w.registered? command = some other → other.token = type.token → other.id = type.id

/-- A registered type stays when no other type with its token is registered. -/
theorem Keeps.run (sound : w.Sound) (keeps : w.Keeps type) (spares : w.Spares command type)
    (run : w.run command = .ok reply) : reply.workspace.Keeps type := by
  have passes := run_passes run
  apply passes.keeps_of_entry keeps.has
  rw [passes.entries]
  cases registers : w.registered? command with
  | none => exact keeps.entry
  | some other =>
    rw [Option.elim_some, Std.HashMap.getElem?_insert]
    split
    next same =>
      -- The id of a type that is there leaves no choice of what the type is.
      have id := spares other registers (beq_iff_eq.1 same)
      have live := (sound.has_of_registered registers).live other rfl
      rw [id, keeps.has.live type rfl] at live
      exact live.symm
    next => exact keeps.entry

/-! ## Runs -/

/-- One workspace leads to another by commands that spare a type. -/
inductive LeadsSparing (type : TypeDef) (w : Workspace) : Workspace → Prop
  | refl : LeadsSparing type w w
  | step {w' : Workspace} {command : Command} {reply : Reply} (before : LeadsSparing type w w')
      (spares : w'.Spares command type) (run : w'.run command = .ok reply) :
      LeadsSparing type w reply.workspace

theorem LeadsSparing.leads (later : LeadsSparing type w w') : w.Leads w' := by
  induction later with
  | refl => exact .refl
  | step _ _ run ih => exact .step ih run

theorem LeadsSparing.keeps (later : LeadsSparing type w w') (sound : w.Sound)
    (keeps : w.Keeps type) : w'.Keeps type := by
  induction later with
  | refl => exact keeps
  | step before spares run ih =>
    have sound' := Moves.sound sound (before.leads.moves sound)
    exact ih.run sound' spares run

theorem Keeps.declaring_identity (keeps : w.Keeps type) {m : Member}
    (declared : m.declaring? = some type.id) :
    (m.identity w.types).declaring = some type.token := by
  change m.declaring?.bind w.types.token? = some type.token
  rw [declared, Option.bind_some, TypeTable.token?, keeps.has.live type rfl]
  rfl

/-- A type that was registered is there as long as no other type with its token is registered, and
whatever it declares, also as obtained through another type, knows it as its declaring type. -/
theorem registered_type_stays (made : Leads {} w) (registers : w.registered? command = some type)
    (run : w.run command = .ok reply) (later : reply.workspace.LeadsSparing type w') :
    w'.types.def? type.id = some type ∧
      ∀ m : Member, m.declaring? = some type.id →
        (m.identity w'.types).declaring = some type.token ∧
          ∀ through, ((m.through through).identity w'.types).declaring = some type.token := by
  have sound := Moves.sound .empty (made.moves .empty)
  have registered := keeps_of_registered sound registers run
  have keeps := later.keeps (Moves.sound sound (run_moves sound run)) registered
  refine ⟨keeps.has.live type rfl, fun m declared => ⟨keeps.declaring_identity declared, ?_⟩⟩
  intro through
  apply keeps.declaring_identity
  rw [Member.declaring?_through]
  exact declared

/-- The first type of a workspace. -/
def lone : TypeDef := { id := ⟨0⟩, token := ⟨0x02000001⟩, space := "", name := "T", flags := 0 }

/-- A registered type stays that lost its name and its place among the members of the store. -/
theorem registered_type_stays_lone :
    ∃ w : Workspace, w.members["T"]? = none ∧
      w.store.members[lone.token]? = some (.unknown lone.token) ∧
      w.types.def? lone.id = some lone ∧
      ∀ m : Member, m.declaring? = some lone.id →
        (m.identity w.types).declaring = some lone.token := by
  obtain ⟨w, made, named⟩ : ∃ w, Leads {} w ∧ w.type "T" = .ok lone := by
    have creates : run {} (.newType "T" lone.token "" "T" 0) = .ok { workspace := _ } := rfl
    exact ⟨_, .step .refl creates, type_eq_ok_iff.2 Std.HashMap.getElem?_insert_self⟩
  have registers : w.registered? (.register "T") = some lone := by
    rw [registered?, named]
    rfl
  have stores : w.run (.register "T") =
      .ok { workspace := w.withStore (w.store.register w.types lone) } := by
    rw [run, named]
    rfl
  -- The name goes, and then something that cannot be classified takes the token.
  obtain ⟨w', later, gone, unknown⟩ : ∃ w' : Workspace,
      LeadsSparing lone (w.withStore (w.store.register w.types lone)) w' ∧
        w'.members["T"]? = none ∧ w'.member "u" = .ok (.unknown lone.token) := by
    have forgets (v : Workspace) :
        v.run (.forget "T") = .ok { answer := _, workspace := v.forget "T" } := rfl
    have brings (v : Workspace) : v.run (.newUnknown "u" lone.token) =
        .ok { workspace := v.bind "u" (.unknown lone.token) } := rfl
    refine ⟨_, .step (.step .refl ?_ (forgets _)) ?_ (brings _), ?_, ?_⟩
    · rintro other ⟨⟩
    · rintro other ⟨⟩
    · exact Std.HashMap.getElem?_insert.trans (by simp [forget, sweep])
    · exact member_eq_ok_iff.2 Std.HashMap.getElem?_insert_self
  have spares : w'.Spares (.addMember "u" none) lone := by
    rw [Spares, registered?, unknown]
    rintro other ⟨⟩
  have overwrites : w'.run (.addMember "u" none) = .ok {
      workspace := w'.withStore (w'.store.addMemberAs lone.token (.unknown lone.token)) } := by
    rw [run, unknown]
    rfl
  obtain ⟨there, declares⟩ :=
    registered_type_stays made registers stores (.step later spares overwrites)
  exact ⟨w'.withStore _, gone, Std.HashMap.getElem?_insert_self, there,
    fun m declared => (declares m declared).1⟩

end Workspace

end Cil
