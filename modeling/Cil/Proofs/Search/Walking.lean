import Cil.Proofs.Body.Walking
import Cil.Search.Basic

/-!
# Searching from chunk to chunk

A search goes over code by itself. It reads member tokens, and passes over what else follows an
opcode by the table of operand sizes, where decoding reads value by value. Both take the same chunks
all the same, and fail alike where there is none. So a search can be told by the trail of a body,
which is what it can come across there: the member of every member token, and, right behind a
constrained call, the method the call lands on. A trail ends with the code or at the first fault and
does not depend on any rule.
-/

namespace Cil

open Fallible

/-- Something a search comes across. -/
inductive Sighting
  /-- A member that stands in the code. -/
  | reference (offset : Nat) (member : Member)
  /-- The method that a constrained call lands on. -/
  | landing (offset : Nat) (method : Method)
  /-- A constrained call whose landing could not be determined. -/
  | lost (offset : Nat) (name : String) (fault : Fault)

/-- What a search comes across, and the fault that ends it, if one does. -/
structure Trail where
  sightings : List Sighting
  fault : Option Fault

namespace Trail

/-- What the member `m` of a chunk adds: itself, and where a call of it lands if the chunk before
names a type. -/
def sight (t : TypeTable) (r : Resolver) (offset : Nat) (constraint : Option TypeDef)
    (m : Member) : List Sighting :=
  match constraint, m with
  | some type, .method called =>
    match called.constrainedTo t r type with
    | .ok (some found) => [.reference offset m, .landing offset found]
    | .ok none => [.reference offset m]
    | .error fault => [.reference offset m, .lost offset called.name fault]
  | _, _ => [.reference offset m]

/-- The type that a chunk with the member `m` names for the call after it. -/
def constraintOf (c : Chunk) (m : Member) : Option TypeDef :=
  match m with
  | .type type => if c.opcode.isConstrained then some type else none
  | _ => none

def behind (new : List Sighting) (trail : Trail) : Trail := ⟨new ++ trail.sightings, trail.fault⟩

/-- The trail of chunks, where `constraint` is the type that the chunk before has named and `fault`
is what comes behind. -/
def ofChunks (t : TypeTable) (ctx : Context) (fault : Option Fault)
    (constraint : Option TypeDef) : List Chunk → Trail
  | [] => ⟨[], fault⟩
  | c :: rest =>
    if c.opcode.operand.namesMember then
      match ctx.member c.token with
      | .error fault => ⟨[], some fault⟩
      | .ok m =>
        (ofChunks t ctx fault (constraintOf c m) rest).behind
          (sight t ctx.resolver c.offset constraint m)
    else
      ofChunks t ctx fault none rest

def ofContext (t : TypeTable) (ctx : Context) : Trail :=
  let cut := Cut.ofCode ctx.code
  ofChunks t ctx cut.fault none cut.chunks.toList

end Trail

/-! ## Operands -/

theorem Cursor.skip_eq (needed offset : Nat) (c : Cursor) :
    c.skip needed offset = (Chunk.readOperandBytes offset needed c).map Prod.snd := by
  rw [skip]
  split
  · next short =>
    rw [Chunk.readOperandBytes_eq_error_iff.2 ⟨short, rfl⟩]
    rfl
  · next enough =>
    have taken : Chunk.readOperandBytes offset needed c =
        .ok (c.rest.take needed, ⟨c.pos + needed, c.rest.drop needed⟩) := by
      refine Chunk.readOperandBytes_eq_ok_iff.2 ⟨?_, ?_, rfl⟩
      · rw [List.length_take]
        exact Nat.min_eq_left (Nat.le_of_not_lt enough)
      · rw [List.take_append_drop]
    rw [taken]
    rfl

/-- The operand of an opcode that names a member is a token. -/
theorem OperandKind.size?_of_namesMember {kind : OperandKind} (names : kind.namesMember = true) :
    kind ≠ .switch ∧ kind.size? = some 4 := by
  cases kind
  case field | method | type | anyMember => exact ⟨nofun, rfl⟩
  all_goals contradiction

namespace Search

/-- Passing over an operand leaves behind what decoding reads. -/
theorem pass_eq (kind : OperandKind) (offset : Nat) (c : Cursor) :
    pass kind offset c = (Chunk.readPayload offset kind c).map Prod.snd := by
  unfold pass
  split
  · have size : OperandKind.switch.size? = some 4 := rfl
    rw [Cursor.switchCount_eq, Chunk.readPayload_eq size]
    simp only [if_true]
    cases Chunk.readOperandBytes offset 4 c with
    | error fault => rfl
    | ok read =>
      obtain ⟨count, table⟩ := read
      simp only [bind, Except.bind]
      cases whole : Chunk.readOperandBytes offset (4 * LittleEndian.value count) table with
      | error fault => rfl
      | ok read => simp [Except.map, Cursor.skip_eq, Nat.mul_comm _ 4, whole]
  · rfl
  · next plain _ =>
    cases size : kind.size? with
    | none => simp [Chunk.readPayload, OperandKind.size, size, bind, Except.bind, Except.map]
    | some n =>
      rw [Chunk.readPayload_of_plain plain size, OperandKind.size, size]
      exact Cursor.skip_eq n offset c

theorem fetchMember_eq (ctx : Context) {kind : OperandKind} (names : kind.namesMember = true)
    (offset : Nat) (c : Cursor) :
    fetchMember ctx offset c = Chunk.readPayload offset kind c >>= fun read =>
      (ctx.member ⟨UInt32.ofNat (LittleEndian.value read.1)⟩).map (·, read.2) := by
  obtain ⟨plain, width⟩ := OperandKind.size?_of_namesMember names
  have four : kind.size? = some ScalarType.u32.size := width
  rw [fetchMember, Cursor.fetch_eq_readPayload plain four]
  cases Chunk.readPayload offset kind c with
  | error fault => rfl
  | ok read => cases ctx.member ⟨UInt32.ofNat (LittleEndian.value read.1)⟩ <;> rfl

/-! ## Following a trail -/

namespace Pursuit

/-- What a sighting does to a search. -/
def see (t : TypeTable) (r : Resolver) (mode : SearchMode) (p : Pursuit) :
    Sighting → Except Outcome Pursuit
  | .reference offset m => p.ask t r mode m (.referenceFound offset)
  | .landing offset m => p.ask t r mode (.method m) (.constrainedFound offset)
  | .lost offset name fault => .ok (p.note (.constrainedSkipped name offset fault))

/-- The search with another type in mind for the next call. -/
def constrainedTo (p : Pursuit) (constraint : Option TypeDef) : Pursuit := { p with constraint }

/-- The search as it is once a candidate was asked about. -/
def told (p : Pursuit) (tally : Tally) : Pursuit :=
  { p with
    quarries := tally.quarries, remaining := tally.remaining, events := p.events ++ tally.events }

variable {t : TypeTable} {r : Resolver} {mode : SearchMode}

theorem ask_eq (candidate : Member) (found : Event) (p : Pursuit) :
    p.ask t r mode candidate found =
      if (record t r mode candidate p.remaining p.quarries).known then
        .error (((p.told (record t r mode candidate p.remaining p.quarries)).note found).finish
          (.ok true))
      else .ok (p.told (record t r mode candidate p.remaining p.quarries)) := rfl

theorem ask_constrainedTo (candidate : Member) (found : Event) (p : Pursuit)
    (constraint : Option TypeDef) :
    (p.constrainedTo constraint).ask t r mode candidate found =
      (p.ask t r mode candidate found).map (constrainedTo · constraint) := by
  let tally := record t r mode candidate p.remaining p.quarries
  have same : (p.constrainedTo constraint).ask t r mode candidate found =
      if tally.known then .error (((p.told tally).note found).finish (.ok true))
      else .ok ((p.told tally).constrainedTo constraint) := rfl
  rw [same, ask_eq]
  split <;> rfl

theorem see_constrainedTo (p : Pursuit) (constraint : Option TypeDef) (s : Sighting) :
    (p.constrainedTo constraint).see t r mode s =
      (p.see t r mode s).map (constrainedTo · constraint) := by
  cases s with
  | reference offset m | landing offset m => exact ask_constrainedTo ..
  | lost offset name fault => rfl

theorem foldlM_see_constrainedTo (sightings : List Sighting) (p : Pursuit)
    (constraint : Option TypeDef) :
    sightings.foldlM (see t r mode) (p.constrainedTo constraint) =
      (sightings.foldlM (see t r mode) p).map (constrainedTo · constraint) := by
  induction sightings generalizing p with
  | nil => rfl
  | cons s sightings ih =>
    rw [List.foldlM_cons, List.foldlM_cons, see_constrainedTo]
    cases p.see t r mode s with
    | error outcome => rfl
    | ok q => exact ih q

/-- To meet a member is to see what it adds to a trail. -/
theorem meet_eq (c : Chunk) (m : Member) (p : Pursuit) :
    p.meet t r mode c.opcode.selection c.offset m =
      ((Trail.sight t r c.offset p.constraint m).foldlM (see t r mode) p).map
        (constrainedTo · (Trail.constraintOf c m)) := by
  rw [← foldlM_see_constrainedTo]
  cases m with
  | method called =>
    cases constraint : p.constraint with
    | none =>
      simp only [meet, constraint]
      rfl
    | some type =>
      simp only [meet, constraint, Trail.sight]
      cases called.constrainedTo t r type with
      | error fault => rfl
      | ok landing =>
        cases landing with
        | none => rfl
        | some found => exact bind_congr fun asked => (bind_pure _).symm
  | _ => cases constraint : p.constraint <;> simp only [meet, constraint] <;> rfl

end Pursuit

/-- What a search answers that comes to the end of a trail. -/
def ending : Option Fault → Except Fault Bool
  | some fault => .error fault
  | none => .ok false

/-- Follows a trail until the outcome is known. -/
def follow (t : TypeTable) (r : Resolver) (mode : SearchMode) (trail : Trail) (p : Pursuit) :
    Outcome :=
  match trail.sightings.foldlM (Pursuit.see t r mode) p with
  | .error outcome => outcome
  | .ok p => p.finish (ending trail.fault)

section Follow

variable {t : TypeTable} {r : Resolver} {mode : SearchMode} {new : List Sighting} {p : Pursuit}

theorem follow_of_error {trail : Trail} {outcome : Outcome}
    (ended : trail.sightings.foldlM (Pursuit.see t r mode) p = .error outcome) :
    follow t r mode trail p = outcome := by
  rw [follow, ended]

theorem follow_behind_of_error (trail : Trail) {outcome : Outcome}
    (ended : new.foldlM (Pursuit.see t r mode) p = .error outcome) :
    follow t r mode (trail.behind new) p = outcome := by
  apply follow_of_error
  rw [Trail.behind, List.foldlM_append, ended]
  rfl

theorem follow_behind_of_ok (trail : Trail) {p' : Pursuit}
    (seen : new.foldlM (Pursuit.see t r mode) p = .ok p') :
    follow t r mode (trail.behind new) p = follow t r mode trail p' := by
  rw [follow, Trail.behind, List.foldlM_append, seen]
  rfl

/-- The type that a search has in mind has no part in following a trail, which has it already. -/
theorem follow_constrainedTo (trail : Trail) (p : Pursuit) (constraint : Option TypeDef) :
    follow t r mode trail (p.constrainedTo constraint) = follow t r mode trail p := by
  rw [follow, follow, Pursuit.foldlM_see_constrainedTo]
  cases trail.sightings.foldlM (Pursuit.see t r mode) p <;> rfl

end Follow

/-! ## Steps and runs -/

/-- The states that a search for some rules comes to, and where. -/
inductive Reached (t : TypeTable) (ctx : Context) (mode : SearchMode) (rules : List Rule) :
    Pursuit → Cursor → Prop
  | start : Reached t ctx mode rules (.start rules) (.start ctx.code)
  | step {p p' : Pursuit} {c after : Cursor} (reached : Reached t ctx mode rules p c)
      (visited : visit t ctx mode p c = .ok (p', after)) : Reached t ctx mode rules p' after

section Steps

variable {t : TypeTable} {ctx : Context} {mode : SearchMode} {p p' : Pursuit} {c after : Cursor}
  {chunk : Chunk} {fault : Fault}

theorem visit_of_opcode {op : Opcode} {body : Cursor}
    (opcode : c.opcode c.pos = .ok (op.selection, body)) :
    visit t ctx mode p c =
      if op.operand.namesMember then
        p.orFail (fetchMember ctx c.pos body) >>= fun found =>
          (p.meet t ctx.resolver mode op.selection c.pos found.1).map (·, found.2)
      else
        (p.orFail (pass op.operand c.pos body)).map (p.constrainedTo none, ·) := by
  rw [visit, opcode]
  rfl

/-- A chunk without a member is passed over. -/
theorem visit_of_plain (read : Chunk.read c = .ok (chunk, after))
    (plain : chunk.opcode.operand.namesMember = false) :
    visit t ctx mode p c = .ok (p.constrainedTo none, after) := by
  obtain ⟨body, opcode, -, payload⟩ := Chunk.parts_of_read read
  rw [visit_of_opcode opcode, if_neg (by simp [plain]), pass_eq, payload]
  rfl

/-- At the member of a chunk, the search sees what the chunk adds to a trail. -/
theorem visit_of_member (read : Chunk.read c = .ok (chunk, after))
    (names : chunk.opcode.operand.namesMember = true) {m : Member}
    (found : ctx.member chunk.token = .ok m) :
    visit t ctx mode p c =
      ((Trail.sight t ctx.resolver chunk.offset p.constraint m).foldlM
        (Pursuit.see t ctx.resolver mode) p).map
          fun p => (p.constrainedTo (Trail.constraintOf chunk m), after) := by
  obtain ⟨-, start, -, -⟩ := Chunk.read_eq_ok_iff.1 read
  obtain ⟨body, opcode, -, payload⟩ := Chunk.parts_of_read read
  rw [visit_of_opcode opcode, if_pos names, fetchMember_eq ctx names, payload]
  have fetched : ctx.member ⟨UInt32.ofNat (LittleEndian.value chunk.payload)⟩ = .ok m := found
  simp only [bind, Except.bind, fetched, Except.map, Pursuit.orFail, Except.mapError]
  rw [← start, Pursuit.meet_eq]
  cases (Trail.sight t ctx.resolver chunk.offset p.constraint m).foldlM
    (Pursuit.see t ctx.resolver mode) p <;> rfl

theorem visit_of_unresolved (read : Chunk.read c = .ok (chunk, after))
    (names : chunk.opcode.operand.namesMember = true)
    (lost : ctx.member chunk.token = .error fault) :
    visit t ctx mode p c = .error (p.finish (.error fault)) := by
  obtain ⟨body, opcode, -, payload⟩ := Chunk.parts_of_read read
  rw [visit_of_opcode opcode, if_pos names, fetchMember_eq ctx names, payload]
  have fetched : ctx.member ⟨UInt32.ofNat (LittleEndian.value chunk.payload)⟩ = .error fault := lost
  simp only [bind, Except.bind, fetched]
  rfl

/-- Where decoding finds no chunk, a search finds none either. -/
theorem visit_of_fault (unread : Chunk.read c = .error fault) :
    visit t ctx mode p c = .error (p.finish (.error fault)) := by
  rcases Chunk.parts_of_fault unread with opcode | ⟨op, body, opcode, -, payload⟩
  · rw [visit, opcode]
    rfl
  · rw [visit_of_opcode opcode]
    split
    · next names =>
      rw [fetchMember_eq ctx names, payload]
      rfl
    · rw [pass_eq, payload]
      rfl

/-- A search that goes on leaves a chunk where decoding does, and has only seen sightings. -/
theorem visited_of_read (read : Chunk.read c = .ok (chunk, after)) {after' : Cursor}
    (visited : visit t ctx mode p c = .ok (p', after')) :
    after' = after ∧ ∃ (sightings : List Sighting) (q : Pursuit) (constraint : Option TypeDef),
      sightings.foldlM (Pursuit.see t ctx.resolver mode) p = .ok q ∧
        p' = q.constrainedTo constraint := by
  cases names : chunk.opcode.operand.namesMember with
  | false =>
    rw [visit_of_plain read names] at visited
    cases visited
    exact ⟨rfl, [], p, none, rfl, rfl⟩
  | true =>
    cases found : ctx.member chunk.token with
    | error fault =>
      rw [visit_of_unresolved read names found] at visited
      cases visited
    | ok m =>
      rw [visit_of_member read names found] at visited
      obtain ⟨q, seen, same⟩ := map_eq_ok_iff.1 visited
      cases same
      exact ⟨rfl, _, q, _, seen, rfl⟩

theorem walk_end (pos : Nat) : walk t ctx mode p ⟨pos, []⟩ = p.finish (.ok false) := by
  rw [walk]
  rfl

theorem walk_of_ok (visited : visit t ctx mode p c = .ok (p', after)) :
    walk t ctx mode p c = walk t ctx mode p' after := by
  rw [walk, if_pos (Cursor.hasMore_of_shorter (length_rest_of_visit visited))]
  split
  · next h =>
    rw [visited] at h
    cases h
    rfl
  · next h => simp [visited] at h

theorem walk_of_error (more : c.hasMore = true) {outcome : Outcome}
    (ended : visit t ctx mode p c = .error outcome) : walk t ctx mode p c = outcome := by
  rw [walk, if_pos more]
  split
  · next h => simp [ended] at h
  · next h =>
    rw [ended] at h
    cases h
    rfl

theorem walk_of_ends {stop? : Option Fault} (ends : Cut.Ends c stop?) :
    walk t ctx mode p c = p.finish (ending stop?) := by
  cases ends with
  | code pos => exact walk_end pos
  | fault more unread =>
    exact walk_of_error (by simpa [Cursor.hasMore] using more) (visit_of_fault unread)

/-- A search of chunks follows their trail. -/
theorem walk_eq_follow (t : TypeTable) (ctx : Context) (mode : SearchMode) {start : Nat}
    {front rest : List UInt8} {cs : List Chunk} {stop? : Option Fault}
    (tiles : Tiles start front cs) (ends : Cut.Ends ⟨start + front.length, rest⟩ stop?)
    (p : Pursuit) :
    walk t ctx mode p ⟨start, front ++ rest⟩ =
      follow t ctx.resolver mode (Trail.ofChunks t ctx stop? p.constraint cs) p := by
  induction tiles generalizing p with
  | nil start => exact walk_of_ends ends
  | @cons c code cs complete _ ih =>
    rw [c.offset_add_length] at ends
    have read : Chunk.read ⟨c.offset, c.bytes ++ code ++ rest⟩ = .ok (c, ⟨c.stop, code ++ rest⟩) :=
      Chunk.read_eq_ok_iff.2 ⟨complete, rfl, List.append_assoc .., rfl⟩
    cases names : c.opcode.operand.namesMember with
    | false =>
      rw [walk_of_ok (visit_of_plain read names), ih ends, follow_constrainedTo]
      simp [Trail.ofChunks, names, Pursuit.constrainedTo]
    | true =>
      have more := Cursor.hasMore_of_shorter (Chunk.length_rest_of_read read)
      cases found : ctx.member c.token with
      | error fault =>
        rw [walk_of_error more (visit_of_unresolved read names found)]
        simp only [Trail.ofChunks, names, if_true, found]
        rfl
      | ok m =>
        simp only [Trail.ofChunks, names, if_true, found]
        have visited : visit t ctx mode p _ = _ := visit_of_member read names found
        cases seen : (Trail.sight t ctx.resolver c.offset p.constraint m).foldlM
            (Pursuit.see t ctx.resolver mode) p with
        | error outcome =>
          rw [seen] at visited
          rw [walk_of_error more visited, follow_behind_of_error _ seen]
        | ok q =>
          rw [seen] at visited
          rw [walk_of_ok visited, ih ends, follow_constrainedTo, follow_behind_of_ok _ seen]
          rfl

end Steps

/-- Without rules, or with another number than a single search needs, a search does not look at the
body. -/
theorem run_blind_or (t : TypeTable) (mode : SearchMode) (rules : List Rule) :
    (∃ answer, ∀ ctx, run t ctx mode rules = ⟨answer, rules, #[]⟩) ∨
      rules ≠ [] ∧ (mode = .single → rules.length = 1) := by
  by_cases miscounted : mode = .single ∧ rules.length ≠ 1
  · refine .inl ⟨.error (.ruleCount rules.length), fun ctx => ?_⟩
    rw [run, if_pos miscounted]
  by_cases none : rules = []
  · refine .inl ⟨.ok (mode == .all), fun ctx => ?_⟩
    rw [run, if_neg miscounted, if_pos (by rw [none]; rfl)]
  · refine .inr ⟨none, fun single => ?_⟩
    exact Decidable.byContradiction fun other => miscounted ⟨single, other⟩

/-- A search of a body follows its trail. -/
theorem run_eq_follow (t : TypeTable) (ctx : Context) {mode : SearchMode} {rules : List Rule}
    (nonempty : rules ≠ []) (one : mode = .single → rules.length = 1) :
    run t ctx mode rules =
      follow t ctx.resolver mode (Trail.ofContext t ctx) (.start rules) := by
  have counted : ¬ (mode = .single ∧ rules.length ≠ 1) := fun h => h.2 (one h.1)
  have some : ¬ rules.isEmpty = true := by simpa using nonempty
  obtain ⟨front, rest, code, tiles, ends⟩ := Cut.ofCode_front ctx.code
  rw [← Nat.zero_add front.length] at ends
  have through := walk_eq_follow t ctx mode tiles ends (.start rules)
  rw [← code] at through
  rw [run, if_neg counted, if_neg some]
  exact through

end Search

end Cil
