import Cil.Proofs.Workspace.Moves

/-!
# Shapes in the course of time

Methods are compared by the names and the types of their parameters, a type by its token and only as
long as it is there. At any time this is symmetric and transitive, and a method whose parameter types
are all there is like itself. In the course of time types go and none comes back, so methods cease to
be alike, when the type of a parameter goes, and never become alike.
-/

namespace Cil

namespace TypeTable

variable {t t' : TypeTable}

/-- A type that is still there has the token that it had. -/
theorem Later.token?_eq (later : t.Later t') {id : TypeId} (slot : id.index < t.slots.size)
    (live : t'.isLive id = true) : t'.token? id = t.token? id := by
  obtain ⟨e', he'⟩ := Option.isSome_iff_exists.1 live
  obtain ⟨e, he, head⟩ := later.entries id e' slot he'
  rw [token?, token?, def?, def?, he', he]
  simp only [Option.map_some, head]

/-- Methods that exist in a table are alike in another one exactly if they were alike and the types
of their parameters are there. -/
def Fades (t t' : TypeTable) : Prop :=
  ∀ m n : Method, t.Knows (.method m) → t.Knows (.method n) →
    (m.sameShape t' n = true ↔
      m.sameShape t n = true ∧ ∀ p ∈ m.params ++ n.params, t'.isLive p.type = true)

theorem Knows.slot_of_mem {m : Method} (knows : t.Knows (.method m)) {p : Param}
    (mem : p ∈ m.params.toList) : p.type.index < t.slots.size :=
  knows _ (List.mem_cons_of_mem _ (List.mem_cons_of_mem _ (List.mem_map_of_mem mem)))

/-- Parameters of types that are still there compare as before. -/
theorem Later.sameShape_iff (later : t.Later t') {p q : Param}
    (slotP : p.type.index < t.slots.size) (slotQ : q.type.index < t.slots.size)
    (liveP : t'.isLive p.type = true) (liveQ : t'.isLive q.type = true) :
    p.sameShape t' q = true ↔ p.sameShape t q = true := by
  rw [Param.sameShape_iff, Param.sameShape_iff, later.token?_eq slotP liveP,
    later.token?_eq slotQ liveQ]

theorem Later.fades (later : t.Later t') : t.Fades t' := by
  intro m n knowsM knowsN
  -- Of each pair that is compared, both types have slots.
  have pair {p q : Param} (mem : (p, q) ∈ m.params.toList.zip n.params.toList)
      (liveP : t'.isLive p.type = true) (liveQ : t'.isLive q.type = true) :
      p.sameShape t' q = true ↔ p.sameShape t q = true := by
    obtain ⟨memP, memQ⟩ := List.of_mem_zip mem
    exact later.sameShape_iff (knowsM.slot_of_mem memP) (knowsN.slot_of_mem memQ) liveP liveQ
  constructor
  · intro like
    have like' := Method.sameShape_symm like
    have liveM := Method.sameShape_self_iff.1 (Method.sameShape_trans like like')
    have liveN := Method.sameShape_self_iff.1 (Method.sameShape_trans like' like)
    refine ⟨?_, fun p mem => ?_⟩
    · rw [Method.sameShape_iff, List.forall₂_iff_zip] at like ⊢
      refine ⟨like.1, @fun p q mem => ?_⟩
      obtain ⟨memP, memQ⟩ := List.of_mem_zip mem
      exact (pair mem (liveM p (Array.mem_toList_iff.1 memP))
        (liveN q (Array.mem_toList_iff.1 memQ))).1 (like.2 mem)
    · rcases Array.mem_append.1 mem with mem | mem
      · exact liveM p mem
      · exact liveN p mem
  · rintro ⟨like, live⟩
    rw [Method.sameShape_iff, List.forall₂_iff_zip] at like ⊢
    refine ⟨like.1, @fun p q mem => ?_⟩
    obtain ⟨memP, memQ⟩ := List.of_mem_zip mem
    have liveP := live p (Array.mem_append.2 (.inl (Array.mem_toList_iff.1 memP)))
    have liveQ := live q (Array.mem_append.2 (.inr (Array.mem_toList_iff.1 memQ)))
    exact (pair mem liveP liveQ).2 (like.2 mem)

theorem Founded.fades (founded : t.Founded) (becomes : t.Becomes t') : t.Fades t' :=
  (founded.later becomes).fades

end TypeTable

namespace Workspace

/-- What was named once is known from then on. -/
theorem Leads.knows {w w' : Workspace} (made : Leads {} w) (later : w.Leads w') {id : String}
    {m : Member} (named : w.members[id]? = some m) : w'.types.Knows m := by
  have sound := made.sound
  have size := (sound.founded.later (later.moves sound).becomes).size
  exact (sound.members id m named).knows.mono size

/-- To have the same shape is symmetric and transitive among any types, and holds of a method and
itself exactly if the types of its parameters are there. In the course of time, whatever happens to
types and whatever commands are carried out, methods that exist never come to have the same shape.
They lose it exactly when the type of a parameter goes. -/
theorem sameShape_fades :
    (∀ (t : TypeTable) (m n : Method), m.sameShape t n = true → n.sameShape t m = true) ∧
    (∀ (t : TypeTable) (m n k : Method), m.sameShape t n = true → n.sameShape t k = true →
      m.sameShape t k = true) ∧
    (∀ (t : TypeTable) (m : Method),
      m.sameShape t m = true ↔ ∀ p ∈ m.params, t.isLive p.type = true) ∧
    (∀ t t' : TypeTable, TypeTable.Becomes {} t → t.Becomes t' → t.Fades t') ∧
    ∀ w w' : Workspace, Leads {} w → w.Leads w' → w.types.Fades w'.types ∧
      ∀ (id : String) (m : Member), w.members[id]? = some m → w'.types.Knows m := by
  refine ⟨?_, ?_, ?_, ?_, ?_⟩
  · exact fun t m n => Method.sameShape_symm
  · exact fun t m n k => Method.sameShape_trans
  · exact fun t m => Method.sameShape_self_iff
  · intro t t' made later
    exact (TypeTable.Founded.empty.becomes made).fades later
  · intro w w' made later
    have sound := made.sound
    exact ⟨sound.founded.fades (later.moves sound).becomes, fun id m => made.knows later⟩

/-- A method of one parameter, of the second type there is. -/
def drawing : Method :=
  { token := ⟨0x06000001⟩, name := "Draw", declaring := ⟨0⟩, reflected := ⟨0⟩
    modifiers := .ofFlags 0
    params := #[{ position := 0, name := "brush", type := ⟨1⟩, optional := false }] }

/-- The type of a parameter goes, and the method is no longer like itself. -/
theorem sameShape_fades_drawing :
    ∃ t t' : TypeTable, TypeTable.Becomes {} t ∧ t.Becomes t' ∧ t.Knows (.method drawing) ∧
      drawing.sameShape t drawing = true ∧ drawing.sameShape t' drawing = false := by
  let t : TypeTable := [TypeTable.Change.create ⟨0x02000001⟩ "" "Canvas" 0,
    .create ⟨0x02000002⟩ "" "Brush" 0].foldl TypeTable.after {}
  let t' : TypeTable := t.after (.keep fun id => id.index == 0)
  have made : TypeTable.Becomes {} t := TypeTable.becomes_afterAll _ _
  have later : t.Becomes t' := .single (.change _)
  have knows : t.Knows (.method drawing) := by decide
  obtain ⟨-, -, self, fades, -⟩ := sameShape_fades
  refine ⟨t, t', made, later, knows, (self t drawing).2 (by decide), ?_⟩
  rw [Bool.eq_false_iff]
  intro like
  have live := ((fades t t' made later drawing drawing knows knows).1 like).2
  revert live
  decide

end Workspace

end Cil
