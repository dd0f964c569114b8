import Cil.Proofs.Fallible
import Cil.Rule.Dispatch

/-!
# Where constrained calls land

A constrained call is looked for on the type that it names and then on the base types of that type,
nearest first. The first of them that has anything for the call answers it, with its first method of
the called shape or, without one, with its first method. A type that fails to list its members
counts only where the search comes to it.
-/

namespace Cil.Method

/-- The name of a method ends in a dot and the given name, as for one that implements a method of
an interface by name. -/
def EndsIn (m : Method) (name : String) : Prop := ∃ space : String, m.name = space ++ "." ++ name

theorem implementsName_iff (m : Method) (name : String) :
    m.implementsName name = true ↔ m.EndsIn name := by
  rw [implementsName, List.isSuffixOf_iff_suffix]
  constructor
  · rintro ⟨space, split⟩
    refine ⟨String.ofList space, String.toList_injective ?_⟩
    simp [← split]
  · rintro ⟨space, split⟩
    exact ⟨space.toList, by simp [split]⟩

instance (m : Method) (name : String) : Decidable (m.EndsIn name) :=
  decidable_of_iff _ (implementsName_iff m name)

section Candidates

variable (t : TypeTable) (r : Resolver) (called : Method)

/-- What a type has for a call: the methods it lists under the called name, and behind them its
methods whose names end in the called name. -/
def Offers (type : TypeDef) (methods : List Method) : Prop :=
  ∃ listed, r.membersNamed type called.name = .ok listed ∧
    methods = listed.filterMap Member.method? ++
      ((t.members type.id).filterMap Member.method?).filter fun m => m.EndsIn called.name

/-- Which of several methods a call prefers. -/
inductive Prefers (methods : List Method) (m : Method) : Prop
  | shaped {before after : List Method} (split : methods = before ++ m :: after)
      (shape : m.sameShape t called = true)
      (first : ∀ n ∈ before, n.sameShape t called = false)
  /-- No method has the called shape. -/
  | named {after : List Method} (split : methods = m :: after)
      (shapeless : ∀ n ∈ methods, n.sameShape t called = false)

/-- How a call fares on types that are searched in order. -/
inductive Lands (types : List TypeDef) : Except Fault (Option Method) → Prop
  /-- A type fails, and those before it have nothing for the call. -/
  | fails {before after : List TypeDef} {failing : TypeDef} {fault : Fault}
      (split : types = before ++ failing :: after)
      (nothing : ∀ type ∈ before, Offers t r called type [])
      (failure : r.membersNamed failing called.name = .error fault) : Lands types (.error fault)
  /-- A type answers, and those before it have nothing for the call. -/
  | answers {before after : List TypeDef} {answering : TypeDef} {methods : List Method}
      {m : Method} (split : types = before ++ answering :: after)
      (nothing : ∀ type ∈ before, Offers t r called type [])
      (offers : Offers t r called answering methods) (prefers : Prefers t called methods m) :
      Lands types (.ok (some m))
  | nowhere (nothing : ∀ type ∈ types, Offers t r called type []) : Lands types (.ok none)

end Candidates

variable {t : TypeTable} {r : Resolver} {called : Method}

theorem filterMap_method?_members (t : TypeTable) (id : TypeId) :
    (t.members id).filterMap Member.method? = ((t.get? id).map (·.methods.toList)).getD [] := by
  cases entry : t.get? id with
  | none => simp [TypeTable.members, entry]
  | some e =>
    have fields : (e.fields.toList.map Member.field).filterMap Member.method? = [] := by
      simp [List.filterMap_map, List.filterMap_eq_nil_iff, Member.method?]
    have methods : (e.methods.toList.map Member.method).filterMap Member.method? =
        e.methods.toList := by
      rw [List.filterMap_map]
      exact List.filterMap_some
    have properties : (e.properties.toList.map Member.property).filterMap Member.method? = [] := by
      simp [List.filterMap_map, List.filterMap_eq_nil_iff, Member.method?]
    simp [TypeTable.members, entry, fields, methods, properties]

theorem landings_eq_ok_iff {type : TypeDef} {methods : List Method} :
    landings t r type called = .ok methods ↔ called.Offers t r type methods := by
  have suffix : (fun m : Method => m.implementsName called.name) =
      fun m => decide (m.EndsIn called.name) := by
    funext m
    rw [Bool.eq_iff_iff, decide_eq_true_iff]
    exact implementsName_iff m called.name
  simp only [landings, Fallible.map_eq_ok_iff, Offers, filterMap_method?_members, suffix]

theorem landings_eq_error_iff {type : TypeDef} {fault : Fault} :
    landings t r type called = .error fault ↔ r.membersNamed type called.name = .error fault := by
  rw [landings, Fallible.map_eq_error_iff]

theorem preferred_eq_some_iff {methods : List Method} {m : Method} :
    preferred t called methods = some m ↔ called.Prefers t methods m := by
  rw [preferred, Option.or_eq_some_iff]
  constructor
  · rintro (found | ⟨none, head⟩)
    · obtain ⟨shape, before, after, split, first⟩ := List.find?_eq_some_iff_append.1 found
      exact .shaped split shape fun n hn => by simpa using first n hn
    · obtain ⟨after, split⟩ := List.head?_eq_some_iff.1 head
      exact .named split fun n hn => by simpa using List.find?_eq_none.1 none n hn
  · intro prefers
    cases prefers with
    | shaped split shape first =>
      refine .inl (List.find?_eq_some_iff_append.2 ⟨shape, _, _, split, ?_⟩)
      intro n hn
      simp [first n hn]
    | named split shapeless =>
      refine .inr ⟨List.find?_eq_none.2 ?_, ?_⟩
      · intro n hn
        simp [shapeless n hn]
      · rw [split]
        rfl

theorem preferred_eq_none_iff {methods : List Method} :
    preferred t called methods = none ↔ methods = [] := by
  rw [preferred, Option.or_eq_none_iff, List.head?_eq_none_iff]
  constructor
  · exact fun h => h.2
  · rintro rfl
    exact ⟨rfl, rfl⟩

/-! ## One type after the other -/

theorem landingAmong_of_fails {type : TypeDef} {fault : Fault}
    (fails : r.membersNamed type called.name = .error fault) (types : List TypeDef) :
    landingAmong t r called (type :: types) = .error fault := by
  simp [landingAmong, landings_eq_error_iff.2 fails]

theorem landingAmong_of_prefers {type : TypeDef} {methods : List Method} {m : Method}
    (offers : called.Offers t r type methods) (prefers : called.Prefers t methods m)
    (types : List TypeDef) : landingAmong t r called (type :: types) = .ok (some m) := by
  simp [landingAmong, landings_eq_ok_iff.2 offers, preferred_eq_some_iff.2 prefers]

theorem landingAmong_of_offers_nil {type : TypeDef} (offers : called.Offers t r type [])
    (types : List TypeDef) :
    landingAmong t r called (type :: types) = landingAmong t r called types := by
  simp [landingAmong, landings_eq_ok_iff.2 offers, preferred_eq_none_iff.2 rfl]

/-- Types that have nothing for a call are passed over. -/
theorem landingAmong_append {before : List TypeDef}
    (nothing : ∀ type ∈ before, called.Offers t r type []) (types : List TypeDef) :
    landingAmong t r called (before ++ types) = landingAmong t r called types := by
  induction before with
  | nil => rfl
  | cons type before ih =>
    obtain ⟨first, rest⟩ := List.forall_mem_cons.1 nothing
    rw [List.cons_append, landingAmong_of_offers_nil first]
    exact ih rest

/-- A type fails, has something for a call, or has nothing for it. -/
theorem offers_cases (t : TypeTable) (r : Resolver) (called : Method) (type : TypeDef) :
    (∃ fault, r.membersNamed type called.name = .error fault) ∨
      (∃ methods m, called.Offers t r type methods ∧ called.Prefers t methods m) ∨
      called.Offers t r type [] := by
  cases landed : landings t r type called with
  | error fault => exact .inl ⟨fault, landings_eq_error_iff.1 landed⟩
  | ok methods =>
    have offers := landings_eq_ok_iff.1 landed
    cases preference : preferred t called methods with
    | some m => exact .inr (.inl ⟨methods, m, offers, preferred_eq_some_iff.1 preference⟩)
    | none =>
      rw [preferred_eq_none_iff.1 preference] at offers
      exact .inr (.inr offers)

theorem exists_lands (t : TypeTable) (r : Resolver) (called : Method) (types : List TypeDef) :
    ∃ outcome, called.Lands t r types outcome := by
  induction types with
  | nil => exact ⟨_, .nowhere fun type h => absurd h List.not_mem_nil⟩
  | cons type types ih =>
    rcases offers_cases t r called type with ⟨fault, failure⟩ | ⟨methods, m, offers, prefers⟩ | first
    · exact ⟨_, .fails (List.nil_append _).symm (by simp) failure⟩
    · exact ⟨_, .answers (List.nil_append _).symm (by simp) offers prefers⟩
    · obtain ⟨outcome, lands⟩ := ih
      refine ⟨outcome, ?_⟩
      cases lands with
      | fails split nothing failure =>
        subst split
        exact .fails (List.cons_append ..).symm (List.forall_mem_cons.2 ⟨first, nothing⟩) failure
      | answers split nothing offers prefers =>
        subst split
        exact .answers (List.cons_append ..).symm (List.forall_mem_cons.2 ⟨first, nothing⟩) offers
          prefers
      | nowhere nothing => exact .nowhere (List.forall_mem_cons.2 ⟨first, nothing⟩)

theorem Lands.landingAmong {types : List TypeDef} {outcome : Except Fault (Option Method)}
    (lands : called.Lands t r types outcome) : landingAmong t r called types = outcome := by
  cases lands with
  | fails split nothing failure =>
    subst split
    rw [landingAmong_append nothing]
    exact landingAmong_of_fails failure _
  | answers split nothing offers prefers =>
    subst split
    rw [landingAmong_append nothing]
    exact landingAmong_of_prefers offers prefers _
  | nowhere nothing =>
    have none := landingAmong_append nothing []
    rw [List.append_nil] at none
    exact none

theorem landingAmong_eq_iff {types : List TypeDef} {outcome : Except Fault (Option Method)} :
    landingAmong t r called types = outcome ↔ called.Lands t r types outcome := by
  constructor
  · rintro rfl
    obtain ⟨outcome, lands⟩ := exists_lands t r called types
    rw [lands.landingAmong]
    exact lands
  · exact Lands.landingAmong

/-- Behind a type that has something for a call, nothing matters. -/
theorem landingAmong_congr {r' : Resolver} {before after : List TypeDef} {answering : TypeDef}
    {methods : List Method} (offers : called.Offers t r answering methods) (nonempty : methods ≠ [])
    (agree : ∀ type ∈ before ++ [answering],
      r'.membersNamed type called.name = r.membersNamed type called.name) :
    landingAmong t r' called (before ++ answering :: after) =
      landingAmong t r called (before ++ answering :: after) := by
  have same (type : TypeDef)
      (h : r'.membersNamed type called.name = r.membersNamed type called.name) :
      landings t r' type called = landings t r type called := by
    rw [landings, landings, h]
  induction before with
  | nil =>
    have here := same answering (agree answering (by simp))
    have landed := landings_eq_ok_iff.2 offers
    cases preference : preferred t called methods with
    | none => exact absurd (preferred_eq_none_iff.1 preference) nonempty
    | some m => simp [Method.landingAmong, here, landed, preference]
  | cons type before ih =>
    obtain ⟨first, rest⟩ := List.forall_mem_cons.1 agree
    simp only [List.cons_append, Method.landingAmong, same type first, ih rest]

/-- A constrained call lands on the first type, from the one it is constrained to upwards, that has
something for it, or fails with the first type that fails before. What happens on types behind one
that has something for it makes no difference. -/
theorem constrainedTo_lands (t : TypeTable) (r : Resolver) (called : Method) (type : TypeDef) :
    (∀ outcome, called.constrainedTo t r type = outcome ↔
      called.Lands t r (type :: t.ancestors type.id) outcome) ∧
    ∀ (r' : Resolver) (before after : List TypeDef) (answering : TypeDef) (methods : List Method),
      type :: t.ancestors type.id = before ++ answering :: after →
      called.Offers t r answering methods → methods ≠ [] →
      (∀ u ∈ before ++ [answering],
        r'.membersNamed u called.name = r.membersNamed u called.name) →
      called.constrainedTo t r' type = called.constrainedTo t r type := by
  refine ⟨fun outcome => landingAmong_eq_iff, ?_⟩
  intro r' before after answering methods split offers nonempty agree
  rw [constrainedTo, constrainedTo, split]
  exact landingAmong_congr offers nonempty agree

namespace Drawing

def circle : TypeDef := ⟨⟨0⟩, ⟨0x02000001⟩, "", "Circle", 0⟩
def figure : TypeDef := ⟨⟨1⟩, ⟨0x02000002⟩, "", "Figure", 0⟩
def object : TypeDef := ⟨⟨2⟩, ⟨0x01000001⟩, "System", "Object", 0⟩

/-- The parameter that the interface asks for. -/
def scale : Param := ⟨0, "scale", object.id, false⟩

/-- The method that the interface declares. -/
def draw : Method := ⟨⟨0x06000003⟩, "Draw", ⟨3⟩, ⟨3⟩, ⟨0x40⟩, #[scale]⟩

/-- A method of the called name with other parameters. -/
def plain : Method := ⟨⟨0x06000001⟩, "Draw", figure.id, figure.id, ⟨0⟩, #[]⟩

/-- A method that implements the interface by name. -/
def implementing : Method :=
  ⟨⟨0x06000002⟩, "IDraw.Draw", figure.id, figure.id, ⟨0x40⟩, #[scale]⟩

def types : TypeTable :=
  ⟨#[some { head := circle, base := some figure.id },
    some { head := figure, base := some object.id, methods := #[plain, implementing] },
    some { head := object },
    some { head := ⟨⟨3⟩, ⟨0x02000003⟩, "", "IDraw", 0x20⟩, methods := #[draw] }]⟩

/-- Lists the members of all types but those that are left out. -/
def resolver (leftOut : List TypeDef) : Resolver where
  member token _ := .error (.unresolved token .noMember)
  string token := .error (.unresolved token .noString)
  signature token := .error (.unresolved token .noSignature)
  membersNamed type name :=
    if type ∈ leftOut then .error (.unresolved type.token (.membersUnavailable type.fullName))
    else .ok (types.membersNamed type.id name)

end Drawing

open Drawing in
/-- The call passes over the circle and lands on the second method of its base, whether or not the
type above that lists its members. -/
theorem constrainedTo_lands_implementing :
    circle :: types.ancestors circle.id = [circle] ++ figure :: [object] ∧
      draw.Offers types (resolver [object]) figure [plain, implementing] ∧
      draw.constrainedTo types (resolver [object]) circle = .ok (some implementing) ∧
      draw.constrainedTo types (resolver []) circle = .ok (some implementing) := by
  have searched : circle :: types.ancestors circle.id = [circle] ++ figure :: [object] := by
    decide +kernel
  have nothing : draw.Offers types (resolver [object]) circle [] :=
    ⟨[], by decide +kernel, by decide +kernel⟩
  have offers : draw.Offers types (resolver [object]) figure [plain, implementing] :=
    ⟨[.method plain], by decide +kernel, by decide +kernel⟩
  have prefers : draw.Prefers types [plain, implementing] implementing :=
    .shaped (List.singleton_append).symm (by decide +kernel) (by decide +kernel)
  obtain ⟨lands_iff, behind⟩ := constrainedTo_lands types (resolver [object]) draw circle
  have lands := (lands_iff _).2 (.answers searched (by simpa using nothing) offers prefers)
  refine ⟨searched, offers, lands, ?_⟩
  rw [behind (resolver []) [circle] [object] figure _ searched offers (by simp) (by decide +kernel)]
  exact lands

end Cil.Method
