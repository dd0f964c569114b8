import Cil.Proofs.Rule.Collection

/-!
# Wider configurations

A configuration is wider than another if it admits every equivalence of the other and looks at no
fewer base types. A rule loses nothing by that. What it collects from the nearer base types is
collected first, and what a base type farther off lists again under an identity that is there
already is left out, so the members collected before stay at the front and in order.
-/

namespace Cil

/-- Every equivalence that `narrow` admits is one of `wide`, which looks at no fewer base types. -/
structure MatchConfig.Within (narrow wide : MatchConfig) : Prop where
  base : narrow.base = true → wide.base = true
  declaring : narrow.declaring = true → wide.declaring = true
  depth : narrow.depth ≤ wide.depth

namespace Rule

variable (t : TypeTable) (r : Resolver) (target : Member) {near far : Nat}

theorem baseMembers_isPrefix (farther : near ≤ far) (type : TypeId) :
    baseMembers t r target near type <+: baseMembers t r target far type := by
  obtain ⟨rest, split⟩ : (t.ancestors type).take near <+: (t.ancestors type).take far :=
    List.take_prefix_take_left farther
  refine ⟨rest.flatMap (listed r target), ?_⟩
  rw [baseMembers, baseMembers, ← split, List.flatMap_append]

/-- What comes later neither drops nor moves what is kept. -/
theorem kept_isPrefix_append (seen : List Identity) (ms ns : List Member) :
    kept t target seen ms <+: kept t target seen (ms ++ ns) := by
  induction ms generalizing seen with
  | nil => exact List.nil_prefix
  | cons m ms ih =>
    rw [List.cons_append, kept, kept]
    split
    · exact (List.prefix_cons_inj m).2 (ih _)
    · exact ih seen

/-- What nearer base types contribute comes first. -/
theorem inherited_isPrefix (farther : near ≤ far) :
    inherited t r target near <+: inherited t r target far := by
  rw [inherited, inherited]
  cases target.declaringDef? t with
  | none => exact List.prefix_rfl
  | some d =>
    obtain ⟨rest, split⟩ := baseMembers_isPrefix t r target farther d.id
    show kept t target _ _ <+: kept t target _ _
    rw [← split]
    exact kept_isPrefix_append t target _ _ rest

variable {t r target}

theorem Inherits.mono {m : Member} (inherits : Inherits t r target near m) (farther : near ≤ far) :
    Inherits t r target far m := by
  rw [← mem_inherited_iff] at inherits ⊢
  exact (inherited_isPrefix t r target farther).subset inherits

end Rule

namespace MatchConfig

variable {t : TypeTable} {r : Resolver} {target c : Member} {narrow wide : MatchConfig}

/-- Whatever a configuration covers, a wider one covers in the same way. -/
theorem Covers.mono (covers : narrow.Covers t r target c) (within : narrow.Within wide) :
    wide.Covers t r target c := by
  cases covers with
  | itself same => exact .itself same
  | accessor accesses same => exact .accessor accesses same
  | declaring nonstatic on declares reflected other stands =>
    exact .declaring nonstatic (within.declaring on) declares reflected other stands
  | inherited nonstatic on inherits stands =>
    exact .inherited nonstatic (within.base on) (inherits.mono within.depth) stands
  | derived nonstatic on hidden hides => exact .derived nonstatic (within.base on) hidden hides

end MatchConfig

namespace Rule

variable (t : TypeTable) (r : Resolver) (target c : Member) {narrow wide : MatchConfig}

theorem member_bases_expand (config : MatchConfig) :
    (({ target, config } : Rule).expand t r).1.bases.map Alternate.member =
      if target.isStatic = false ∧ config.base = true then inherited t r target config.depth
      else [] := by
  rw [bases_expand]
  split
  · rw [List.map_map]
    exact List.map_id _
  · rfl

/-- A rule with a wider configuration says yes to whatever a rule for the same target says yes to,
whatever either was asked before. The members that it collects from base types start with those that
the other collects. -/
theorem query_widens (within : narrow.Within wide) (uses uses' : List Use) :
    (((({ target, config := narrow } : Rule).afterAll t r uses).query t r c).holds = true →
      ((({ target, config := wide } : Rule).afterAll t r uses').query t r c).holds = true) ∧
    (({ target, config := narrow } : Rule).force t r).1.bases.map Alternate.member <+:
      (({ target, config := wide } : Rule).force t r).1.bases.map Alternate.member := by
  constructor
  · rw [holds_query_afterAll, holds_query_afterAll, admits_iff_covers, admits_iff_covers]
    exact fun covers => covers.mono within
  · change (expand t r _).1.bases.map _ <+: (expand t r _).1.bases.map _
    rw [member_bases_expand, member_bases_expand]
    split
    next on =>
      rw [if_pos ⟨on.1, within.base on.2⟩]
      exact inherited_isPrefix t r target within.depth
    next => exact List.nil_prefix

open Layers in
/-- The walk that goes on meets a type that fails, and then the method of the nearest once more. -/
theorem query_widens_layers :
    let narrow : MatchConfig := { MatchConfig.baseMembers with depth := 1 }
    let wide : MatchConfig := { MatchConfig.comprehensive with depth := 3 }
    let rule (config : MatchConfig) : Rule := { target := .method ofBottom, config }
    narrow.Within wide ∧
      ((rule narrow).query types resolver (.method ofMiddle)).holds = true ∧
      ((rule wide).query types resolver (.method ofMiddle)).holds = true ∧
      ((rule narrow).force types resolver).1.bases.map Alternate.member = [.method ofMiddle] ∧
      [.method ofMiddle] <+: ((rule wide).force types resolver).1.bases.map Alternate.member := by
  intro narrow wide rule
  have within : narrow.Within wide := ⟨fun _ => rfl, nofun, by decide⟩
  have matched : ((rule narrow).query types resolver (.method ofMiddle)).holds = true := by
    decide +kernel
  have collects : ((rule narrow).force types resolver).1.bases.map Alternate.member =
      [.method ofMiddle] := by decide +kernel
  obtain ⟨keeps, front⟩ :=
    query_widens types resolver (.method ofBottom) (.method ofMiddle) within [] []
  refine ⟨within, matched, keeps matched, collects, ?_⟩
  rw [← collects]
  exact front

end Rule

end Cil
