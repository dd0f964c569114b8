import Cil.Resolver.Store
import Mathlib.Data.Finset.Card
import Mathlib.Data.List.Induction

/-!
# What a store remembers

A store answers for a token with what was put last under it, whatever was put in between, and with a
fault exactly if nothing was. Members, strings and signatures are kept apart. Signatures are found
through an index into a heap that only grows, so the index of one that was put earlier stays good.
-/

namespace Cil.Store

/-! ## Histories -/

/-- What is done to a store. A type is registered with what it lists at the time. -/
inductive Call
  | register (types : TypeTable) (type : TypeDef)
  | addMember (m : Member)
  | addMemberAs (token : Token) (m : Member)
  | addString (token : Token) (value : String)
  | addSignature (token : Token) (blob : List UInt8)
  | withhold (type : TypeDef)

/-- The store after a call. -/
def after (s : Store) : Call → Store
  | .register types type => s.register types type
  | .addMember m => s.addMember m
  | .addMemberAs token m => s.addMemberAs token m
  | .addString token value => s.addString token value
  | .addSignature token blob => s.addSignature token blob
  | .withhold type => s.withhold type

/-- A new store after some calls. -/
def replay (calls : List Call) : Store := calls.foldl after {}

namespace Call

/-- The members that a call puts under tokens, in order. A type comes first, and then the fields,
the methods and the properties that it lists. -/
def members : Call → List (Token × Member)
  | register types type =>
    (type.token, .type type) ::
      match types.get? type.id with
      | none => []
      | some e =>
        e.fields.toList.map (fun f => (f.token, .field f)) ++
          e.methods.toList.map (fun m => (m.token, .method m)) ++
          e.properties.toList.map fun p => (p.token, .property p)
  | addMember m => [(m.token, m)]
  | addMemberAs token m => [(token, m)]
  | addString .. | addSignature .. | withhold _ => []

/-- The string that a call puts under a token. -/
def strings : Call → List (Token × String)
  | addString token value => [(token, value)]
  | _ => []

/-- The signature that a call puts under a token. -/
def signatures : Call → List (Token × List UInt8)
  | addSignature token blob => [(token, blob)]
  | _ => []

end Call

section Entries

variable {α : Type} {entries : List (Token × α)} {token key : Token} {value put : α}

/-- The last entry with a token has the value. -/
def Latest (entries : List (Token × α)) (token : Token) (value : α) : Prop :=
  ∃ front back, entries = front ++ (token, value) :: back ∧ ∀ e ∈ back, e.1 ≠ token

theorem latest_snoc_iff :
    Latest (entries ++ [(key, put)]) token value ↔
      key = token ∧ put = value ∨ key ≠ token ∧ Latest entries token value := by
  constructor
  · rintro ⟨front, back, hentries, later⟩
    rcases List.eq_nil_or_concat' back with rfl | ⟨back, e, rfl⟩
    · obtain ⟨-, last⟩ := List.append_inj' hentries rfl
      cases last
      exact .inl ⟨rfl, rfl⟩
    · rw [← List.cons_append, ← List.append_assoc] at hentries
      obtain ⟨rfl, last⟩ := List.append_inj' hentries rfl
      cases last
      obtain ⟨later, other⟩ := List.forall_mem_append.1 later
      exact .inr ⟨other (key, put) List.mem_cons_self, front, back, rfl, later⟩
  · rintro (⟨rfl, rfl⟩ | ⟨other, front, back, rfl, later⟩)
    · exact ⟨entries, [], rfl, List.forall_mem_nil _⟩
    · refine ⟨front, back ++ [(key, put)], by simp, ?_⟩
      exact List.forall_mem_append.2 ⟨later, List.forall_mem_singleton.2 other⟩

/-- The answer about a token after some entries: the value of the last entry with the token, or the
fault that there is none. -/
structure Recalls (entries : List (Token × α)) (token : Token) (missing : TokenFault)
    (answer : Except Fault α) : Prop where
  latest : ∀ value, answer = .ok value ↔ Latest entries token value
  absent : ∀ fault, answer = .error fault ↔
    fault = .unresolved token missing ∧ ∀ e ∈ entries, e.1 ≠ token

theorem recalls_nil (token : Token) (missing : TokenFault) :
    Recalls ([] : List (Token × α)) token missing (.error (.unresolved token missing)) := by
  constructor
  · simp [Latest]
  · simp [eq_comm]

/-- One more entry counts for its own token only. -/
theorem Recalls.snoc {missing : TokenFault} {answer : Except Fault α}
    (recalls : Recalls entries token missing answer) (key : Token) (put : α) :
    Recalls (entries ++ [(key, put)]) token missing (if key = token then .ok put else answer) := by
  by_cases same : key = token
  · rw [if_pos same]
    constructor
    · intro value
      simp [latest_snoc_iff, same]
    · simp [same]
  · rw [if_neg same]
    constructor
    · intro value
      simp [latest_snoc_iff, same, recalls.latest]
    · intro fault
      rw [recalls.absent, List.forall_mem_append, List.forall_mem_singleton, and_iff_left same]

end Entries

/-! ## What each call does to the answers -/

variable (s : Store)

theorem member_addMemberAs (key : Token) (m : Member) (token : Token) :
    (s.addMemberAs key m).member token = if key = token then .ok m else s.member token := by
  simp only [member, addMemberAs, Std.HashMap.getElem?_insert, beq_iff_eq]
  by_cases same : key = token
  · simp only [if_pos same]
  · simp only [if_neg same]

theorem string_addString (key : Token) (value : String) (token : Token) :
    (s.addString key value).string token = if key = token then .ok value else s.string token := by
  simp only [string, addString, Std.HashMap.getElem?_insert, beq_iff_eq]
  by_cases same : key = token
  · simp only [if_pos same]
  · simp only [if_neg same]

theorem member_eq_error_iff {token : Token} {fault : Fault} :
    s.member token = .error fault ↔
      fault = .unresolved token .noMember ∧ token ∉ s.members := by
  rw [member, ← Std.HashMap.isSome_getElem?_iff_mem]
  cases s.members[token]? with
  | none => simp [eq_comm]
  | some m => simp

/-- No index points behind the heap. -/
def Sealed : Prop :=
  ∀ (token : Token) (index : Nat), s.signatureIndex[token]? = some index →
    index < s.signatureHeap.size

theorem signature_addSignature {s : Store} (kept : s.Sealed) (key : Token) (blob : List UInt8)
    (token : Token) :
    (s.addSignature key blob).signature token =
      if key = token then .ok blob else s.signature token := by
  simp only [signature, addSignature, Std.HashMap.getElem?_insert, beq_iff_eq]
  by_cases same : key = token
  · simp only [if_pos same, Array.getElem?_push_size]
  · simp only [if_neg same]
    cases hindex : s.signatureIndex[token]? with
    | none => rfl
    | some index =>
      have old := kept token index hindex
      have hne : index ≠ s.signatureHeap.size := by omega
      simp only [Array.getElem?_push, if_neg hne]

theorem Sealed.addSignature {s : Store} (kept : s.Sealed) (key : Token) (blob : List UInt8) :
    (s.addSignature key blob).Sealed := by
  intro token index hindex
  simp only [Store.addSignature, Std.HashMap.getElem?_insert] at hindex
  simp only [Store.addSignature, Array.size_push]
  split at hindex
  · cases hindex
    omega
  · have := kept token index hindex
    omega

/-! ## Runs -/

/-- What a store answers, by the entries that were put into it. -/
structure Records (s : Store) (members : List (Token × Member)) (strings : List (Token × String))
    (signatures : List (Token × List UInt8)) : Prop where
  member : ∀ token, Recalls members token .noMember (s.member token)
  size : s.size = (members.map Prod.fst).toFinset.card
  string : ∀ token, Recalls strings token .noString (s.string token)
  signature : ∀ token, Recalls signatures token .noSignature (s.signature token)
  kept : s.Sealed

namespace Records

variable {s : Store} {members : List (Token × Member)} {strings : List (Token × String)}
  {signatures : List (Token × List UInt8)}

theorem empty : Records {} [] [] [] where
  member token := by
    have missing : ({} : Store).member token = .error (.unresolved token .noMember) := by
      simp [Store.member]
    exact missing ▸ recalls_nil token _
  size := by simp [Store.size]
  string token := by
    have missing : ({} : Store).string token = .error (.unresolved token .noString) := by
      simp [Store.string]
    exact missing ▸ recalls_nil token _
  signature token := by
    have missing : ({} : Store).signature token = .error (.unresolved token .noSignature) := by
      simp [Store.signature]
    exact missing ▸ recalls_nil token _
  kept token index hindex := by simp at hindex

/-- A token stands for a member exactly if one was put under it. -/
theorem mem_members_iff (records : s.Records members strings signatures) (token : Token) :
    token ∈ s.members ↔ token ∈ (members.map Prod.fst).toFinset := by
  have absent := (records.member token).absent (.unresolved token .noMember)
  rw [member_eq_error_iff, and_iff_right rfl, and_iff_right rfl] at absent
  rw [List.mem_toFinset, List.mem_map, ← not_iff_not, absent]
  push Not
  rfl

theorem addMemberAs (records : s.Records members strings signatures) (key : Token) (m : Member) :
    (s.addMemberAs key m).Records (members ++ [(key, m)]) strings signatures where
  member token := by
    rw [member_addMemberAs]
    exact (records.member token).snoc key m
  size := by
    have distinct : ((members ++ [(key, m)]).map Prod.fst).toFinset =
        insert key (members.map Prod.fst).toFinset := by
      ext token
      simp
    simp only [distinct, Finset.card_insert_eq_ite, ← records.size, ← records.mem_members_iff]
    exact Std.HashMap.size_insert
  string := records.string
  signature := records.signature
  kept := records.kept

theorem addMembers (records : s.Records members strings signatures) (ms : List Member) :
    (ms.foldl addMember s).Records (members ++ ms.map fun m => (m.token, m)) strings
      signatures := by
  induction ms generalizing s members with
  | nil =>
    rw [List.map_nil, List.append_nil]
    exact records
  | cons m ms ih =>
    rw [List.map_cons, List.append_cons]
    exact ih (records.addMemberAs m.token m)

theorem addString (records : s.Records members strings signatures) (key : Token)
    (value : String) :
    (s.addString key value).Records members (strings ++ [(key, value)]) signatures where
  member := records.member
  size := records.size
  string token := by
    rw [string_addString]
    exact (records.string token).snoc key value
  signature := records.signature
  kept := records.kept

theorem addSignature (records : s.Records members strings signatures) (key : Token)
    (blob : List UInt8) :
    (s.addSignature key blob).Records members strings (signatures ++ [(key, blob)]) where
  member := records.member
  size := records.size
  string := records.string
  signature token := by
    rw [signature_addSignature records.kept]
    exact (records.signature token).snoc key blob
  kept := records.kept.addSignature key blob

theorem withhold (records : s.Records members strings signatures) (type : TypeDef) :
    (s.withhold type).Records members strings signatures :=
  ⟨records.member, records.size, records.string, records.signature, records.kept⟩

end Records

theorem Call.members_register (types : TypeTable) (type : TypeDef) :
    (Call.register types type).members =
      (.type type :: types.members type.id).map fun m => (m.token, m) := by
  rw [members, TypeTable.members, List.map_cons]
  cases types.get? type.id with
  | none => rfl
  | some e => simp [Member.token, Function.comp_def]

/-- One more call. -/
theorem Records.after {s : Store} {members : List (Token × Member)}
    {strings : List (Token × String)} {signatures : List (Token × List UInt8)}
    (records : s.Records members strings signatures) (call : Call) :
    (s.after call).Records (members ++ call.members) (strings ++ call.strings)
      (signatures ++ call.signatures) := by
  cases call with
  | register types type =>
    simp only [Call.members_register, Call.strings, Call.signatures, List.append_nil]
    exact records.addMembers (.type type :: types.members type.id)
  | addMember m =>
    simp only [Call.strings, Call.signatures, List.append_nil]
    exact records.addMemberAs m.token m
  | addMemberAs token m =>
    simp only [Call.strings, Call.signatures, List.append_nil]
    exact records.addMemberAs token m
  | addString token value =>
    simp only [Call.members, Call.signatures, List.append_nil]
    exact records.addString token value
  | addSignature token blob =>
    simp only [Call.members, Call.strings, List.append_nil]
    exact records.addSignature token blob
  | withhold type =>
    simp only [Call.members, Call.strings, Call.signatures, List.append_nil]
    exact records.withhold type

/-- All calls, one after the other. -/
theorem records_replay (calls : List Call) :
    (replay calls).Records (calls.flatMap Call.members) (calls.flatMap Call.strings)
      (calls.flatMap Call.signatures) := by
  induction calls using List.reverseRecOn with
  | nil => exact .empty
  | append_singleton calls call ih =>
    have last : replay (calls ++ [call]) = (replay calls).after call := by
      rw [replay, List.foldl_append]
      rfl
    simp only [last, List.flatMap_append, List.flatMap_singleton]
    exact ih.after call

/-- After any calls a store answers for a token with the member, the string and the signature that
were put last under it, and with a fault exactly if none was. Its size is the number of tokens that
stand for members. The index of a signature never points behind the heap. -/
theorem replay_recalls_latest (calls : List Call) (types : TypeTable) (token : Token)
    (args : GenericArgs) :
    Recalls (calls.flatMap Call.members) token .noMember
        (((replay calls).resolver types).member token args) ∧
      (replay calls).size = ((calls.flatMap Call.members).map Prod.fst).toFinset.card ∧
      Recalls (calls.flatMap Call.strings) token .noString
        (((replay calls).resolver types).string token) ∧
      Recalls (calls.flatMap Call.signatures) token .noSignature
        (((replay calls).resolver types).signature token) ∧
      ∀ index, ((replay calls).resolver types).signature token ≠
        .error (.unresolved token (.noSignatureAt index)) := by
  have records := records_replay calls
  refine ⟨records.member token, records.size, records.string token, records.signature token, ?_⟩
  intro index failed
  obtain ⟨other, -⟩ := ((records.signature token).absent _).1 failed
  cases other

end Cil.Store
