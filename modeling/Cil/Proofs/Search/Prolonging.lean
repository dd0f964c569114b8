import Cil.Proofs.Body.Prolonging
import Cil.Proofs.Search.Agreement

/-!
# Searches of code that goes on

A search reads no farther than it has to. So what it has come to, a yes or a fault that does not
speak of the end of the code, does not change when the code goes on. If it said no, and says yes
once the code goes on, then the code before ended with an instruction, and a rule that was not hit
so far is hit by a candidate of an instruction behind. The last instruction before may still have a
part in it: it can name the type that a call right behind is constrained to.
-/

namespace Cil

namespace Context

/-- The last of some chunks constrains a call right behind it to a type. -/
def Constrains (ctx : Context) (before : List Chunk) (u : TypeDef) : Prop :=
  ∃ p, before.getLast? = some p ∧ p.opcode.isConstrained = true ∧ ctx.member p.token = .ok (.type u)

/-- Before the first chunk, nothing is constrained. -/
theorem constrains_of_none (ctx : Context) :
    ∀ u, (none : Option TypeDef) = some u → ctx.Constrains [] u := nofun

/-- The candidates that a chunk behind some others yields: the member of its token, and the method
that a call lands on if it is constrained to a type. -/
inductive Yields (t : TypeTable) (ctx : Context) (before : List Chunk) (c : Chunk) : Member → Prop
  | member {m : Member} (names : c.opcode.operand.namesMember = true)
      (found : ctx.member c.token = .ok m) : Yields t ctx before c m
  | landing {called landed : Method} {u : TypeDef} (names : c.opcode.operand.namesMember = true)
      (found : ctx.member c.token = .ok (.method called)) (constrains : ctx.Constrains before u)
      (lands : called.constrainedTo t ctx.resolver u = .ok (some landed)) :
      Yields t ctx before c (.method landed)

end Context

theorem Member.landing?_eq_some_iff {t : TypeTable} {r : Resolver} {constraint : Option TypeDef}
    {m : Member} {landed : Method} :
    m.landing? t r constraint = some landed ↔
      ∃ u called, constraint = some u ∧ m = .method called ∧
        called.constrainedTo t r u = .ok (some landed) := by
  cases constraint with
  | none => simp [landing?]
  | some u =>
    cases m with
    | method called =>
      cases lands : called.constrainedTo t r u with
      | error fault => simp [landing?, lands, Except.toOption]
      | ok found => simp [landing?, lands, Except.toOption]
    | _ => simp [landing?]

/-! ## Trails -/

namespace Trail

theorem constraintOf_eq_some_iff {c : Chunk} {m : Member} {u : TypeDef} :
    constraintOf c m = some u ↔ m = .type u ∧ c.opcode.isConstrained = true := by
  cases m with
  | type type =>
    cases constrained : c.opcode.isConstrained <;> simp [constraintOf, constrained]
  | _ => simp [constraintOf]

variable {t : TypeTable} {ctx : Context} {constraint : Option TypeDef} {cs prior : List Chunk}

/-- Of a body, a trail sees the chunks and nothing else of the code. -/
theorem ofChunks_withCode (code : List UInt8) (fault : Option Fault) :
    ofChunks t (ctx.withCode code) fault constraint cs = ofChunks t ctx fault constraint cs := by
  induction cs generalizing constraint with
  | nil => rfl
  | cons c cs ih =>
    rw [ofChunks, ofChunks]
    split
    · have same : (ctx.withCode code).member c.token = ctx.member c.token := rfl
      rw [same]
      cases ctx.member c.token with
      | error fault' => rfl
      | ok m => exact congrArg (behind _) ih
    · exact ih

theorem ofContext_withCode (code : List UInt8) :
    ofContext t (ctx.withCode code) =
      ofChunks t ctx (Cut.ofCode code).fault none (Cut.ofCode code).chunks.toList :=
  ofChunks_withCode code _

/-- The members that a chunk adds to a trail are those that it yields. -/
theorem yields_of_mem_sight {c : Chunk} {m n : Member} {offset : Nat}
    (named : ∀ u, constraint = some u → ctx.Constrains prior u)
    (names : c.opcode.operand.namesMember = true) (found : ctx.member c.token = .ok m)
    (mem : n ∈ (sight t ctx.resolver offset constraint m).filterMap Sighting.member?) :
    ctx.Yields t prior c n := by
  rw [filterMap_sight, List.mem_cons] at mem
  rcases mem with rfl | mem
  · exact .member names found
  · obtain ⟨landed, landing, rfl⟩ : ∃ landed, m.landing? t ctx.resolver constraint = some landed ∧
        .method landed = n := by simpa using mem
    obtain ⟨u, called, hu, rfl, lands⟩ := Member.landing?_eq_some_iff.1 landing
    exact .landing names found (named u hu) lands

section Step

variable (named : ∀ u, constraint = some u → ctx.Constrains prior u)
include named

variable (t) in
/-- What a chunk does to a trail: its token does not resolve and ends it, or the trail goes on
behind what the chunk yields, with the type that it names. -/
theorem ofChunks_cons_cases (c : Chunk) :
    (∃ found, ctx.memberFault? c = some found ∧
      ∀ fault rest, ofChunks t ctx fault constraint (c :: rest) = ⟨[], some found⟩) ∨
    ∃ (new : List Sighting) (constraint' : Option TypeDef), ctx.memberFault? c = none ∧
      (∀ n ∈ new.filterMap Sighting.member?, ctx.Yields t prior c n) ∧
      (∀ u, constraint' = some u → ctx.Constrains (prior ++ [c]) u) ∧
      ∀ fault rest, ofChunks t ctx fault constraint (c :: rest) =
        (ofChunks t ctx fault constraint' rest).behind new := by
  cases names : c.opcode.operand.namesMember with
  | false => exact .inr ⟨[], none, by simp [Context.memberFault?, names], by simp, by simp,
      fun fault rest => by simp [ofChunks, names, behind]⟩
  | true =>
    cases found : ctx.member c.token with
    | error fault => exact .inl ⟨fault, Context.memberFault?_eq_some_iff.2 ⟨names, found⟩,
        fun fault rest => by simp [ofChunks, names, found]⟩
    | ok m =>
      refine .inr ⟨sight t ctx.resolver c.offset constraint m, constraintOf c m,
        Context.memberFault?_eq_none_iff.2 fun _ => ⟨m, found⟩,
        fun n mem => yields_of_mem_sight named names found mem, ?_,
        fun fault rest => by simp [ofChunks, names, found]⟩
      intro u hu
      obtain ⟨rfl, constrained⟩ := constraintOf_eq_some_iff.1 hu
      exact ⟨c, List.getLast?_concat, constrained, found⟩

/-- A trail that ends at a member token does not come to what stands behind. -/
theorem ofChunks_append_of_memberFault {found : Fault}
    (ends : cs.findSome? ctx.memberFault? = some found) (fault fault' : Option Fault)
    (ds : List Chunk) :
    ofChunks t ctx fault constraint (cs ++ ds) = ofChunks t ctx fault' constraint cs := by
  induction cs generalizing constraint prior with
  | nil => cases ends
  | cons c cs ih =>
    rw [List.findSome?_cons] at ends
    rcases ofChunks_cons_cases t named c with
      ⟨_, -, stops⟩ | ⟨new, constraint', resolves, -, named', goes⟩
    · rw [List.cons_append, stops, stops]
    · rw [resolves] at ends
      rw [List.cons_append, goes, goes, ih named' ends]

/-- Behind chunks whose tokens resolve, a trail goes on with what they have added. -/
theorem ofChunks_append (resolve : cs.findSome? ctx.memberFault? = none) :
    ∃ (new : List Sighting) (constraint' : Option TypeDef),
      (∀ u, constraint' = some u → ctx.Constrains (prior ++ cs) u) ∧
      ∀ fault ds, ofChunks t ctx fault constraint (cs ++ ds) =
        (ofChunks t ctx fault constraint' ds).behind new := by
  induction cs generalizing constraint prior with
  | nil => exact ⟨[], constraint, by simpa using named, fun fault ds => rfl⟩
  | cons c cs ih =>
    rw [List.findSome?_cons] at resolve
    rcases ofChunks_cons_cases t named c with
      ⟨found, ends, -⟩ | ⟨new, constraint', resolves, -, named', goes⟩
    · rw [ends] at resolve
      cases resolve
    · rw [resolves] at resolve
      obtain ⟨more, last, behind, all⟩ := ih named' resolve
      refine ⟨new ++ more, last, by simpa using behind, fun fault ds => ?_⟩
      rw [List.cons_append, goes, all]
      simp [Trail.behind]

/-- Every member on a trail is yielded by one of the chunks. -/
theorem yields_of_mem_ofChunks {fault : Option Fault} {n : Member}
    (mem : n ∈ (ofChunks t ctx fault constraint cs).sightings.filterMap Sighting.member?) :
    ∃ before c after, cs = before ++ c :: after ∧ ctx.Yields t (prior ++ before) c n := by
  induction cs generalizing constraint prior with
  | nil => cases mem
  | cons c cs ih =>
    rcases ofChunks_cons_cases t named c with
      ⟨_, -, stops⟩ | ⟨new, constraint', -, yields, named', goes⟩
    · rw [stops] at mem
      cases mem
    · rw [goes, behind, List.filterMap_append, List.mem_append] at mem
      rcases mem with here | later
      · exact ⟨[], c, cs, rfl, by simpa using yields n here⟩
      · obtain ⟨before, d, after, rfl, yielded⟩ := ih named' later
        exact ⟨c :: before, d, after, rfl, by simpa using yielded⟩

end Step

variable {code : List UInt8}

/-- A trail that ends with a fault, but not for want of bytes, is the same when the code goes on. -/
theorem ofContext_append_of_fault {fault : Fault}
    (ends : (ofContext t (ctx.withCode code)).fault = some fault) (fits : fault.wantsBytes = false)
    (more : List UInt8) :
    ofContext t (ctx.withCode (code ++ more)) = ofContext t (ctx.withCode code) := by
  rw [fault_ofContext, Context.searchFault?, Option.or_eq_some_iff] at ends
  rw [ofContext_withCode, ofContext_withCode]
  rcases ends with unresolved | ⟨-, ended⟩
  · obtain ⟨ds, hds⟩ := Cut.chunks_isPrefix_append code more
    rw [← hds]
    exact ofChunks_append_of_memberFault ctx.constrains_of_none unresolved _ _ ds
  · change (Cut.ofCode code).fault = some fault at ended
    rw [Cut.ofCode_append_of_fault ended fits more]

/-- What is sighted in some code is sighted first when the code goes on. -/
theorem sightings_isPrefix_append (t : TypeTable) (ctx : Context) (code more : List UInt8) :
    (ofContext t (ctx.withCode code)).sightings <+:
      (ofContext t (ctx.withCode (code ++ more))).sightings := by
  obtain ⟨ds, hds⟩ := Cut.chunks_isPrefix_append code more
  rw [ofContext_withCode, ofContext_withCode, ← hds]
  cases resolve : (Cut.ofCode code).chunks.toList.findSome? ctx.memberFault? with
  | some found =>
    refine ⟨[], ?_⟩
    rw [List.append_nil,
      ofChunks_append_of_memberFault ctx.constrains_of_none resolve _ (Cut.ofCode code).fault]
  | none =>
    obtain ⟨new, constraint', -, goes⟩ := ofChunks_append (t := t) ctx.constrains_of_none resolve
    have first := goes (Cut.ofCode code).fault []
    rw [List.append_nil] at first
    rw [first, goes, behind, ofChunks, List.append_nil]
    exact List.prefix_append _ _

/-- What is sighted only when the code goes on is yielded by a chunk behind it, if the code was cut
to its end. -/
theorem yields_of_mem_append {cs : List Chunk} (tiles : Tiles 0 code cs)
    (resolve : cs.findSome? ctx.memberFault? = none) (more : List UInt8) {n : Member}
    (mem : n ∈ (ctx.withCode (code ++ more)).sighted t)
    (unseen : n ∉ (ctx.withCode code).sighted t) :
    ∃ before d front rest, more = front ++ rest ∧ Tiles code.length front (before ++ [d]) ∧
      ctx.Yields t (cs ++ before) d n := by
  obtain ⟨ds, front, rest, hchunks, hmore, behind⟩ := Cut.chunks_ofCode_append tiles more
  obtain ⟨new, constraint', named, goes⟩ := ofChunks_append (t := t) ctx.constrains_of_none resolve
  have first := goes none []
  rw [List.append_nil] at first
  rw [Context.sighted, ofContext_withCode, hchunks, goes, Trail.behind, List.filterMap_append,
    List.mem_append] at mem
  rw [Context.sighted, ofContext_withCode, Cut.ofCode_eq_iff.2 tiles, first, Trail.behind,
    ofChunks, List.append_nil] at unseen
  have later := mem.resolve_left unseen
  obtain ⟨before, d, after, rfl, yields⟩ := yields_of_mem_ofChunks named later
  rw [List.append_cons] at behind
  obtain ⟨front, rest', rfl, upTo, -⟩ := Tiles.append_iff.1 behind
  exact ⟨before, d, front, rest' ++ rest, by simp [hmore], upTo, yields⟩

end Trail

/-- Where candidates satisfy a search and fewer do not, a rule is hit by the former only. -/
theorem SearchMode.Satisfied.exists_hit {t : TypeTable} {r : Resolver} {mode : SearchMode}
    {rules : List Rule} {cands cands' : List Member} (satisfied : mode.Satisfied t r rules cands')
    (not : ¬ mode.Satisfied t r rules cands) :
    ∃ rule ∈ rules, (∃ c ∈ cands', (rule.query t r c).holds = true) ∧
      ¬ ∃ c ∈ cands, (rule.query t r c).holds = true := by
  cases mode with
  | all =>
    obtain ⟨rule, hrule, miss⟩ := not_forall₂.1 not
    exact ⟨rule, hrule, satisfied rule hrule, miss⟩
  | single | any =>
    obtain ⟨rule, hrule, hit⟩ := satisfied
    exact ⟨rule, hrule, hit, fun hit' => not ⟨rule, hrule, hit'⟩⟩

/-- Code without a fault is made of whole instructions, and their member tokens resolve. -/
theorem Context.tiles_of_searchFault? {ctx : Context} {code : List UInt8}
    (faultless : (ctx.withCode code).searchFault? = none) :
    ∃ cs, Tiles 0 code cs ∧ cs.findSome? ctx.memberFault? = none := by
  obtain ⟨resolve, uncut⟩ := Option.or_eq_none_iff.1 faultless
  change (Cut.ofCode code).fault = none at uncut
  refine ⟨(Cut.ofCode code).chunks.toList, Cut.ofCode_eq_iff.1 ?_, resolve⟩
  rw [← uncut]

namespace Search

variable {t : TypeTable} {ctx : Context} {mode : SearchMode} {rules : List Rule}

/-- A search that says yes does not look at the sightings behind. -/
theorem follow_of_isPrefix {r : Resolver} {trail longer : Trail} {p : Pursuit}
    (starts : trail.sightings <+: longer.sightings)
    (yes : (follow t r mode trail p).answer = .ok true) :
    follow t r mode longer p = follow t r mode trail p := by
  obtain ⟨more, hmore⟩ := starts
  cases seen : trail.sightings.foldlM (Pursuit.see t r mode) p with
  | error outcome =>
    have ended : longer.sightings.foldlM (Pursuit.see t r mode) p = .error outcome := by
      rw [← hmore, List.foldlM_append, seen]
      rfl
    rw [follow_of_error ended, follow_of_error seen]
  | ok q =>
    rw [follow, seen] at yes
    exact absurd yes (ending_ne_true trail.fault)

/-- Code has a part in a search only by the trail, and only if there are rules to search for. -/
theorem run_withCode_eq_or (t : TypeTable) (ctx : Context) (mode : SearchMode) (rules : List Rule) :
    (∀ code code', run t (ctx.withCode code) mode rules = run t (ctx.withCode code') mode rules) ∨
    rules ≠ [] ∧ (mode = .single → rules.length = 1) ∧
      ∀ code, run t (ctx.withCode code) mode rules =
        follow t ctx.resolver mode (Trail.ofContext t (ctx.withCode code)) (.start rules) := by
  rcases run_blind_or t mode rules with ⟨answer, blind⟩ | ⟨nonempty, one⟩
  · exact .inl fun code code' => by rw [blind, blind]
  · exact .inr ⟨nonempty, one, fun code => run_eq_follow t (ctx.withCode code) nonempty one⟩

theorem run_append_of_true {code : List UInt8}
    (yes : (run t (ctx.withCode code) mode rules).answer = .ok true) (more : List UInt8) :
    run t (ctx.withCode (code ++ more)) mode rules = run t (ctx.withCode code) mode rules := by
  rcases run_withCode_eq_or t ctx mode rules with same | ⟨-, -, run_eq⟩
  · exact same _ _
  · rw [run_eq] at yes
    rw [run_eq, run_eq]
    exact follow_of_isPrefix (Trail.sightings_isPrefix_append t ctx code more) yes

theorem run_append_of_error {code : List UInt8} {fault : Fault}
    (failed : (run t (ctx.withCode code) mode rules).answer = .error fault)
    (fits : fault.wantsBytes = false) (more : List UInt8) :
    run t (ctx.withCode (code ++ more)) mode rules = run t (ctx.withCode code) mode rules := by
  rcases run_withCode_eq_or t ctx mode rules with same | ⟨nonempty, one, run_eq⟩
  · exact same _ _
  · have ends := answer_run_eq_error nonempty one failed
    rw [← Trail.fault_ofContext t] at ends
    rw [run_eq, run_eq, Trail.ofContext_append_of_fault ends fits more]

/-- A search says no if its rules are not satisfied and there is no fault to come to. -/
theorem answer_run_eq_false_iff (nonempty : rules ≠ []) (one : mode = .single → rules.length = 1) :
    (run t ctx mode rules).answer = .ok false ↔
      ¬ mode.Satisfied t ctx.resolver rules (ctx.sighted t) ∧ ctx.searchFault? = none := by
  have other : (Except.ok false : Except Fault Bool) ≠ .ok true := nofun
  rw [answer_run_eq_iff_of_ne_true mode nonempty one other, Trail.fault_ofContext]
  refine and_congr_right fun _ => ?_
  cases ctx.searchFault? <;> simp [ending]

/-- Where a search says no, and yes once the code goes on, a rule that was not hit is hit by what
an instruction behind the code yields. -/
theorem exists_yields_of_answer_run {code more : List UInt8}
    (no : (run t (ctx.withCode code) mode rules).answer = .ok false)
    (yes : (run t (ctx.withCode (code ++ more)) mode rules).answer = .ok true) :
    ∃ cs before d front rest, Tiles 0 code cs ∧ more = front ++ rest ∧
      Tiles code.length front (before ++ [d]) ∧
      ∃ rule ∈ rules, single t (ctx.withCode code) rule = .ok false ∧
        ∃ m, ctx.Yields t (cs ++ before) d m ∧ (rule.query t ctx.resolver m).holds = true := by
  rcases run_withCode_eq_or t ctx mode rules with same | ⟨nonempty, one, -⟩
  · rw [same _ code, no] at yes
    cases yes
  obtain ⟨unsatisfied, faultless⟩ := (answer_run_eq_false_iff nonempty one).1 no
  obtain ⟨cs, tiles, resolve⟩ := Context.tiles_of_searchFault? faultless
  have satisfied := (answer_run_eq_true_iff mode nonempty one).1 yes
  obtain ⟨rule, hrule, ⟨m, mem, holds⟩, miss⟩ := satisfied.exists_hit unsatisfied
  have unseen : m ∉ (ctx.withCode code).sighted t := fun seen => miss ⟨m, seen, holds⟩
  obtain ⟨before, d, front, rest, hmore, behind, yields⟩ :=
    Trail.yields_of_mem_append tiles resolve more mem unseen
  have alone : single t (ctx.withCode code) rule = .ok false :=
    (answer_run_eq_false_iff (List.cons_ne_nil _ _) fun _ => rfl).2
      ⟨satisfied_single_iff.not.2 miss, faultless⟩
  exact ⟨cs, before, d, front, rest, tiles, hmore, behind, rule, hrule, alone, m, yields, holds⟩

/-- What a search has come to does not depend on code that follows. A search that says yes, or
fails with a fault other than that bytes are missing, ends alike in all when the code goes on. A
search that says no may then say yes, but only if the code is made of whole instructions and one
behind it yields something that hits a rule which was not hit. -/
theorem run_decided_early (t : TypeTable) (ctx : Context) (mode : SearchMode) (rules : List Rule)
    (code more : List UInt8) :
    ((run t (ctx.withCode code) mode rules).answer = .ok true →
      run t (ctx.withCode (code ++ more)) mode rules = run t (ctx.withCode code) mode rules) ∧
    (∀ fault, (run t (ctx.withCode code) mode rules).answer = .error fault →
      fault.wantsBytes = false →
      run t (ctx.withCode (code ++ more)) mode rules = run t (ctx.withCode code) mode rules) ∧
    ((run t (ctx.withCode code) mode rules).answer = .ok false →
      (run t (ctx.withCode (code ++ more)) mode rules).answer = .ok true →
      ∃ cs before d front rest, Tiles 0 code cs ∧ more = front ++ rest ∧
        Tiles code.length front (before ++ [d]) ∧
        ∃ rule ∈ rules, single t (ctx.withCode code) rule = .ok false ∧
          ∃ m, ctx.Yields t (cs ++ before) d m ∧ (rule.query t ctx.resolver m).holds = true) :=
  ⟨fun yes => run_append_of_true yes more,
    fun _ failed fits => run_append_of_error failed fits more, exists_yields_of_answer_run⟩

/-- The seam is between a constraint and its call, then behind the call. In a body that a byte cuts
short, what follows that byte has no part. -/
theorem run_decided_early_seam :
    (run Dispatching.types (Dispatching.body.withCode [0xFE, 0x16, 0x01, 0x00, 0x00, 0x02]) .single
      [Dispatching.rule]).answer = .ok false ∧
    (∃ cs before d front rest, Tiles 0 [0xFE, 0x16, 0x01, 0x00, 0x00, 0x02] cs ∧
      [0x6F, 0x02, 0x00, 0x00, 0x06] = front ++ rest ∧ Tiles 6 front (before ++ [d]) ∧
      ∃ m, Dispatching.body.Yields Dispatching.types (cs ++ before) d m ∧
        (Dispatching.rule.query Dispatching.types Dispatching.body.resolver m).holds = true) ∧
    (∀ more, (run Dispatching.types (Dispatching.body.withCode
      ([0xFE, 0x16, 0x01, 0x00, 0x00, 0x02, 0x6F, 0x02, 0x00, 0x00, 0x06] ++ more)) .single
        [Dispatching.rule]).answer = .ok true) ∧
    ∀ more, (run CutShort.types (CutShort.body.withCode (CutShort.body.code ++ more)) .all
      [CutShort.hit, CutShort.miss]).answer = .error (.unknownOpcode 5 0x24) := by
  have no : (run Dispatching.types (Dispatching.body.withCode [0xFE, 0x16, 0x01, 0x00, 0x00, 0x02])
      .single [Dispatching.rule]).answer = .ok false := by decide +kernel
  have yes : (run Dispatching.types (Dispatching.body.withCode
      [0xFE, 0x16, 0x01, 0x00, 0x00, 0x02, 0x6F, 0x02, 0x00, 0x00, 0x06]) .single
        [Dispatching.rule]).answer = .ok true := by decide +kernel
  have failed : (run CutShort.types (CutShort.body.withCode CutShort.body.code) .all
      [CutShort.hit, CutShort.miss]).answer = .error (.unknownOpcode 5 0x24) := by decide +kernel
  refine ⟨no, ?_, fun more => ?_, fun more => ?_⟩
  · obtain ⟨cs, before, d, front, rest, tiles, split, behind, rule, mem, -, m, yields, holds⟩ :=
      (run_decided_early _ _ _ _ _ [0x6F, 0x02, 0x00, 0x00, 0x06]).2.2 no yes
    rw [List.mem_singleton.1 mem] at holds
    exact ⟨cs, before, d, front, rest, tiles, split, behind, m, yields, holds⟩
  · rw [(run_decided_early _ _ _ _ _ more).1 yes, yes]
  · rw [(run_decided_early _ _ _ _ _ more).2.1 _ failed rfl, failed]

end Search

end Cil
