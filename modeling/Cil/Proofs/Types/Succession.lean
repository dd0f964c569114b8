import Cil.Proofs.Types.Growth
import Mathlib.Logic.Relation

/-!
# Types in the course of time

Types are created, given bases and members, and let go. A slot is never used again, so a member that
exists at some time speaks of slots that the table has by then. What a later table says of these is
less than before, where types are gone, and more only where a type was given a base.
-/

namespace Cil

/-! ## What members speak of -/

/-- The types that a method speaks of. -/
def Method.mentioned (m : Method) : List TypeId :=
  m.declaring :: m.reflected :: m.params.toList.map Param.type

/-- The types that a member speaks of. -/
def Member.mentioned : Member → List TypeId
  | .field f => [f.declaring, f.reflected]
  | .method m => m.mentioned
  | .property p => p.declaring :: p.reflected :: p.accessors.flatMap Method.mentioned
  | .type d => [d.id]
  | .unknown _ => []

theorem Member.mem_mentioned_of_declaring? {m : Member} {id : TypeId}
    (declaring : m.declaring? = some id) : id ∈ m.mentioned := by
  cases m <;> cases declaring <;> simp [mentioned, Method.mentioned]

theorem Member.mem_mentioned_of_reflected? {m : Member} {id : TypeId}
    (reflected : m.reflected? = some id) : id ∈ m.mentioned := by
  cases m <;> cases reflected <;> simp [mentioned, Method.mentioned]

/-- The members of a type: fields, then methods, then properties. -/
def TypeEntry.listed (e : TypeEntry) : List Member :=
  e.fields.toList.map .field ++ e.methods.toList.map .method ++ e.properties.toList.map .property

/-- The type with one more member in the list of its kind. -/
def TypeEntry.withMember (e : TypeEntry) : Member → TypeEntry
  | .field f => { e with fields := e.fields.push f }
  | .method m => { e with methods := e.methods.push m }
  | .property p => { e with properties := e.properties.push p }
  | .type _ | .unknown _ => e

namespace TypeTable

/-- Every type that a member speaks of has a slot, as it is for a member that exists. -/
def Knows (t : TypeTable) (m : Member) : Prop := ∀ id ∈ m.mentioned, id.index < t.slots.size

instance (t : TypeTable) (m : Member) : Decidable (t.Knows m) :=
  inferInstanceAs (Decidable (∀ id ∈ m.mentioned, id.index < t.slots.size))

theorem Knows.mono {t t' : TypeTable} {m : Member} (knows : t.Knows m)
    (size : t.slots.size ≤ t'.slots.size) : t'.Knows m :=
  fun id h => Nat.lt_of_lt_of_le (knows id h) size

theorem Knows.accessor {t : TypeTable} {p : Property} {a : Method} (knows : t.Knows (.property p))
    (mem : a ∈ p.accessors) : t.Knows (.method a) := by
  intro id h
  apply knows
  exact List.mem_cons_of_mem _ (List.mem_cons_of_mem _ (List.mem_flatMap.2 ⟨a, mem, h⟩))

theorem Knows.method_through {t : TypeTable} {m : Method} {u : TypeId}
    (knows : t.Knows (.method m)) (slot : u.index < t.slots.size) :
    t.Knows (.method (m.through u)) := by
  intro id h
  rcases List.mem_cons.1 h with rfl | h
  · exact knows _ List.mem_cons_self
  rcases List.mem_cons.1 h with rfl | h
  · exact slot
  · exact knows id (List.mem_cons_of_mem _ (List.mem_cons_of_mem _ h))

theorem members_eq (t : TypeTable) (id : TypeId) :
    t.members id = ((t.get? id).map TypeEntry.listed).getD [] := by
  rw [members]
  cases t.get? id with
  | none => rfl
  | some e => rfl

/-! ## Steps -/

/-- What happens to types: they change, or a member that exists is listed on one. -/
inductive Step (t : TypeTable) : TypeTable → Prop
  | change (c : Change) : Step t (t.after c)
  | attach (id : TypeId) {m : Member} (knows : t.Knows m) : Step t (t.attach id m)

/-- One table becomes another, step by step. -/
abbrev Becomes : TypeTable → TypeTable → Prop := Relation.ReflTransGen Step

/-- Types stand in their own slots, have bases with slots, and list members that exist. -/
structure Founded (t : TypeTable) : Prop where
  placed : ∀ id e, t.get? id = some e → e.head.id = id
  bounded : ∀ id e b, t.get? id = some e → e.base = some b → b.index < t.slots.size
  listed : ∀ id e, t.get? id = some e → ∀ m ∈ e.listed, t.Knows m

variable {t t' : TypeTable}

theorem Founded.slot_of_def? (founded : t.Founded) {id : TypeId} {d : TypeDef}
    (live : t.def? id = some d) : d.id = id ∧ d.id.index < t.slots.size := by
  obtain ⟨e, he, rfl⟩ := def?_eq_some_iff.1 live
  rw [founded.placed id e he]
  exact ⟨rfl, lt_size_of_get? he⟩

theorem size_attach (t : TypeTable) (id : TypeId) (m : Member) :
    (t.attach id m).slots.size = t.slots.size := by
  cases m <;> simp [attach, modify]

theorem get?_attach (t : TypeTable) (type : TypeId) (m : Member) (id : TypeId) :
    (t.attach type m).get? id =
      if id = type then (t.get? id).map fun e => e.withMember m else t.get? id := by
  cases m with
  | field f => exact get?_modify ..
  | method m => exact get?_modify ..
  | property p => exact get?_modify ..
  | type d => simp [attach, TypeEntry.withMember]
  | unknown token => simp [attach, TypeEntry.withMember]

/-- Listing a member changes nothing but that. -/
theorem entry_of_attach {type id : TypeId} {m : Member} {e' : TypeEntry}
    (entry : (t.attach type m).get? id = some e') :
    ∃ e, t.get? id = some e ∧ e'.head = e.head ∧ e'.base = e.base ∧
      ∀ n ∈ e'.listed, n ∈ e.listed ∨ n = m := by
  rw [get?_attach] at entry
  split at entry
  · obtain ⟨e, he, rfl⟩ := Option.map_eq_some_iff.1 entry
    refine ⟨e, he, ?_, ?_, ?_⟩
    · cases m <;> rfl
    · cases m <;> rfl
    · intro n hn
      cases m <;> simp [TypeEntry.withMember, TypeEntry.listed] at hn ⊢ <;> grind
  · exact ⟨e', entry, rfl, rfl, fun n hn => .inl hn⟩

/-- What a step makes of the types: at most one is new, without base and members, and the others are
as before but for bases with slots and members that exist. -/
theorem Step.entry (step : t.Step t') (founded : t.Founded) {id : TypeId} {e' : TypeEntry}
    (entry : t'.get? id = some e') :
    (id.index = t.slots.size ∧ e'.head.id = id ∧ e'.base = none ∧ e'.listed = []) ∨
      ∃ e, t.get? id = some e ∧ e'.head = e.head ∧
        (∀ b, e'.base = some b → e.base = some b ∨ b.index < t.slots.size) ∧
        ∀ m ∈ e'.listed, m ∈ e.listed ∨ t.Knows m := by
  have old {e : TypeEntry} (he : t.get? id = some e) : ∃ e', t.get? id = some e' ∧
      e.head = e'.head ∧ (∀ b, e.base = some b → e'.base = some b ∨ b.index < t.slots.size) ∧
      ∀ m ∈ e.listed, m ∈ e'.listed ∨ t.Knows m :=
    ⟨e, he, rfl, fun b hb => .inl hb, fun m hm => .inl hm⟩
  cases step with
  | attach type knows =>
    obtain ⟨e, he, head, base, listed⟩ := entry_of_attach entry
    refine .inr ⟨e, he, head, fun b hb => .inl (base ▸ hb), fun n hn => ?_⟩
    rcases listed n hn with before | rfl
    · exact .inl before
    · exact .inr knows
  | change c =>
    cases c with
    | create token space name flags =>
      rw [after, get?_add] at entry
      split at entry
      · next last =>
        cases entry
        exact .inl ⟨last, congrArg TypeId.mk last.symm, rfl, rfl⟩
      · exact .inr (old entry)
    | keep kept =>
      rw [after, get?_keepOnly, Option.ite_none_right_eq_some] at entry
      exact .inr (old entry.2)
    | link a b =>
      rcases after_link_cases t a b with ⟨-, same⟩ | ⟨type, base, -, hbase, linked⟩
      · rw [same] at entry
        exact .inr (old entry)
      · rw [get?_setBase linked] at entry
        split at entry
        · obtain ⟨e, he, rfl⟩ := Option.map_eq_some_iff.1 entry
          refine .inr ⟨e, he, rfl, fun b' hb' => .inr ?_, fun m hm => .inl hm⟩
          obtain rfl : base.id = b' := Option.some.inj hb'
          exact (founded.slot_of_def? hbase).2
        · exact .inr (old entry)

theorem Step.size_le (step : t.Step t') : t.slots.size ≤ t'.slots.size := by
  cases step with
  | change c => exact size_le_after t c
  | attach id _ => exact Nat.le_of_eq (size_attach ..).symm

theorem becomes_afterAll (t : TypeTable) (changes : List Change) :
    t.Becomes (changes.foldl after t) := by
  induction changes generalizing t with
  | nil => exact .refl
  | cons c changes ih => exact .head (.change c) (ih (t.after c))

theorem Founded.empty : Founded {} := by
  have none (id : TypeId) : ({} : TypeTable).get? id = none := by simp [get?]
  constructor <;> simp [none]

theorem Founded.step (founded : t.Founded) (step : t.Step t') : t'.Founded := by
  have size := step.size_le
  constructor
  · intro id e' entry
    rcases step.entry founded entry with ⟨-, placed, -, -⟩ | ⟨e, he, head, -, -⟩
    · exact placed
    · rw [head]
      exact founded.placed id e he
  · intro id e' b entry hb
    rcases step.entry founded entry with ⟨-, -, unset, -⟩ | ⟨e, he, -, bases, -⟩
    · rw [unset] at hb
      cases hb
    · rcases bases b hb with before | slot
      · exact Nat.lt_of_lt_of_le (founded.bounded id e b he before) size
      · exact Nat.lt_of_lt_of_le slot size
  · intro id e' entry m hm
    rcases step.entry founded entry with ⟨-, -, -, empty⟩ | ⟨e, he, -, -, listed⟩
    · rw [empty] at hm
      cases hm
    · rcases listed m hm with before | knows
      · exact (founded.listed id e he m before).mono size
      · exact knows.mono size

/-- What a type lists are members that exist. -/
theorem Founded.knows_of_mem_membersNamed (founded : t.Founded) {id : TypeId} {name : String}
    {m : Member} (mem : m ∈ t.membersNamed id name) : t.Knows m := by
  obtain ⟨listed, -⟩ := List.mem_filter.1 mem
  rw [members_eq] at listed
  cases entry : t.get? id with
  | none => simp [entry] at listed
  | some e =>
    rw [entry] at listed
    exact founded.listed id e entry m listed

theorem Founded.becomes (founded : t.Founded) (becomes : t.Becomes t') : t'.Founded := by
  induction becomes with
  | refl => exact founded
  | tail _ step ih => exact ih.step step

/-! ## Later tables -/

/-- A later table has all slots. A type that is there now was there before, as the same type. -/
structure Later (t t' : TypeTable) : Prop where
  size : t.slots.size ≤ t'.slots.size
  entries : ∀ id e', id.index < t.slots.size → t'.get? id = some e' →
    ∃ e, t.get? id = some e ∧ e'.head = e.head

theorem Later.refl (t : TypeTable) : t.Later t :=
  ⟨Nat.le_refl _, fun _ e' _ entry => ⟨e', entry, rfl⟩⟩

theorem Later.trans {t'' : TypeTable} (first : t.Later t') (second : t'.Later t'') :
    t.Later t'' := by
  refine ⟨Nat.le_trans first.size second.size, fun id e'' slot entry => ?_⟩
  obtain ⟨e', he', head'⟩ := second.entries id e'' (Nat.lt_of_lt_of_le slot first.size) entry
  obtain ⟨e, he, head⟩ := first.entries id e' slot he'
  exact ⟨e, he, head'.trans head⟩

/-- A type that is gone stays away. -/
theorem Later.get?_eq_none (later : t.Later t') {id : TypeId} (slot : id.index < t.slots.size)
    (gone : t.get? id = none) : t'.get? id = none := by
  cases entry : t'.get? id with
  | none => rfl
  | some e' =>
    obtain ⟨e, he, -⟩ := later.entries id e' slot entry
    rw [gone] at he
    cases he

theorem Founded.later_of_step (founded : t.Founded) (step : t.Step t') : t.Later t' := by
  refine ⟨step.size_le, fun id e' slot entry => ?_⟩
  rcases step.entry founded entry with ⟨last, -⟩ | ⟨e, he, head, -⟩
  · omega
  · exact ⟨e, he, head⟩

theorem Founded.later (founded : t.Founded) (becomes : t.Becomes t') : t.Later t' := by
  induction becomes with
  | refl => exact .refl t
  | tail before step ih => exact ih.trans ((founded.becomes before).later_of_step step)

/-- No type that was there has gone, and none was given a base. -/
def Undisturbed (t t' : TypeTable) : Prop :=
  ∀ id e, t.get? id = some e → ∃ e', t'.get? id = some e' ∧ e'.base = e.base

/-- Two tables say the same of the types that have a slot in the first. -/
structure Agrees (t t' : TypeTable) : Prop where
  def? : ∀ id, id.index < t.slots.size → t'.def? id = t.def? id
  ancestors : ∀ id, id.index < t.slots.size → t'.ancestors id = t.ancestors id

section Undisturbed

variable (later : t.Later t') (undisturbed : t.Undisturbed t')
include later undisturbed

theorem Later.def?_eq {id : TypeId} (slot : id.index < t.slots.size) : t'.def? id = t.def? id := by
  cases entry : t.get? id with
  | none => rw [def?, def?, entry, later.get?_eq_none slot entry]
  | some e =>
    obtain ⟨e', he', -⟩ := undisturbed id e entry
    obtain ⟨e₀, he₀, head⟩ := later.entries id e' slot he'
    obtain rfl : e = e₀ := Option.some.inj (entry.symm.trans he₀)
    rw [def?, def?, entry, he', Option.map_some, Option.map_some, head]

theorem Later.base?_eq (founded : t.Founded) {id : TypeId} (slot : id.index < t.slots.size) :
    t'.base? id = t.base? id := by
  cases entry : t.get? id with
  | none => simp [base?, entry, later.get?_eq_none slot entry]
  | some e =>
    obtain ⟨e', he', base⟩ := undisturbed id e entry
    rw [base?, base?, entry, he', Option.bind_some, Option.bind_some, base]
    cases hb : e.base with
    | none => rfl
    | some b => exact later.def?_eq undisturbed (founded.bounded id e b entry hb)

theorem Later.basesWithin_eq (founded : t.Founded) (n : Nat) {id : TypeId}
    (slot : id.index < t.slots.size) : t'.basesWithin n id = t.basesWithin n id := by
  induction n generalizing id with
  | zero => rfl
  | succ n ih =>
    rw [basesWithin, basesWithin, later.base?_eq undisturbed founded slot]
    cases base : t.base? id with
    | none => rfl
    | some b =>
      obtain ⟨-, c, -, -, live⟩ := base?_eq_some_iff.1 base
      exact congrArg _ (ih (founded.slot_of_def? live).2)

end Undisturbed

/-- As long as no type is gone and none was given a base, a later table says the same of all types
that were there. -/
theorem Founded.agrees (founded : t.Founded) (becomes : t.Becomes t')
    (undisturbed : t.Undisturbed t') : t.Agrees t' := by
  have later := founded.later becomes
  constructor
  · exact fun id slot => later.def?_eq undisturbed slot
  · exact fun id slot => later.basesWithin_eq undisturbed founded maxDepth slot

end TypeTable

end Cil
