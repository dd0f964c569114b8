import Cil.Search.Basic
import Cil.Workspace.Basic

/-!
# Commands

Everything that changes a workspace: declaring types and members, filling the store, letting go of
names, and asking rules, which remember what they had to look up. A command that fails leaves the
workspace as it was.
-/

namespace Cil

/-- A change to a workspace. Members, types and rules are given by name. -/
inductive Command
  | newType (id : String) (token : Token) (space name : String) (flags : UInt32)
  | setBase (type base : String)
  | newField (id type : String) (token : Token) (name : String) (flags : UInt32)
  | newMethod (id type : String) (token : Token) (name : String) (flags : UInt32)
      (params : Array ParamRequest)
  | newProperty (id type : String) (token : Token) (name : String)
      (getter setter : Option String)
  | newUnknown (id : String) (token : Token)
  /-- Names the member as obtained through a type. -/
  | reflect (id member through : String)
  /-- Lists a member on a type once more. -/
  | attach (type member : String)
  | forget (id : String)
  | register (type : String)
  | addMember (member : String) (token : Option Token)
  | addString (token : Token) (value : String)
  | addSignature (token : Token) (blob : List UInt8)
  | withhold (type : String)
  | newRule (id target : String) (config : MatchConfig)
  | ask (rule : String) (candidates : List String) (via : ResolverChoice)
  | expand (rule : String) (via : ResolverChoice)
  /-- Searches a body for the target of a rule. -/
  | searchFor (rule : String) (body : BodyRequest)

inductive Answer
  | done
  | existed (before : Bool)
  | rule (rule : Rule)
  | verdicts (holds : List Bool)
  | expansion (expansion : Expansion)
  | found (found : Bool)

/-- The answer to a command, the events on the way, and the workspace afterwards. -/
structure Reply where
  answer : Except Fault Answer := .ok .done
  events : Array Event := #[]
  workspace : Workspace

namespace Rule

def queryAll (t : TypeTable) (r : Resolver) (rule : Rule) :
    List Member → List Bool × Rule × Array Event
  | [] => ([], rule, #[])
  | c :: cs =>
    let verdict := rule.query t r c
    let (holds, rule, events) := verdict.rule.queryAll t r cs
    (verdict.holds :: holds, rule, verdict.events ++ events)

end Rule

namespace Workspace

/-- Lists a new member on its declaring type and names it. -/
def declare (w : Workspace) (id : String) (type : TypeDef) (m : Member) : Workspace :=
  { w with types := w.types.attach type.id m }.bind id m

def run (w : Workspace) : Command → Except Refusal Reply
  | .newType id token space name flags => do
    let (type, types) := w.types.add token space name flags
    return { workspace := { w with types }.bind id (.type type) }
  | .setBase type base => do
    match w.types.setBase (← w.type type) (← w.type base) with
    | .ok types => return { workspace := { w with types } }
    | .error fault => return { answer := .error fault, workspace := w }
  | .newField id type token name flags => do
    let type ← w.type type
    let field : Field :=
      { token, name, declaring := type.id, reflected := type.id, modifiers := .ofFlags flags }
    return { workspace := w.declare id type (.field field) }
  | .newMethod id type token name flags params => do
    let type ← w.type type
    let params ← params.mapM w.param
    let method : Method :=
      { token, name, declaring := type.id, reflected := type.id, modifiers := .ofFlags flags
        params }
    return { workspace := w.declare id type (.method method) }
  | .newProperty id type token name getter setter => do
    let type ← w.type type
    let getter ← getter.mapM w.method
    let setter ← setter.mapM w.method
    let property : Property :=
      { token, name, declaring := type.id, reflected := type.id, getter, setter }
    return { workspace := w.declare id type (.property property) }
  | .newUnknown id token => return { workspace := w.bind id (.unknown token) }
  | .reflect id member through => do
    let member ← w.member member
    let through ← w.type through
    return { workspace := w.bind id (member.through through.id) }
  | .attach type member => do
    let type ← w.type type
    let member ← w.member member
    return { workspace := { w with types := w.types.attach type.id member } }
  | .forget id =>
    return { answer := .ok (.existed (w.members.contains id)), workspace := w.forget id }
  | .register type => do
    let type ← w.type type
    return { workspace := w.withStore (w.store.register w.types type) }
  | .addMember member token => do
    let member ← w.member member
    return { workspace := w.withStore (w.store.addMemberAs (token.getD member.token) member) }
  | .addString token value => return { workspace := w.withStore (w.store.addString token value) }
  | .addSignature token blob =>
    return { workspace := w.withStore (w.store.addSignature token blob) }
  | .withhold type => do
    let type ← w.type type
    return { workspace := w.withStore (w.store.withhold type) }
  | .newRule id target config => do
    let rule : Rule := { target := ← w.member target, config }
    return { answer := .ok (.rule rule), workspace := w.bindRule id rule }
  | .ask rule candidates via => do
    let asked ← w.rule rule
    let candidates ← candidates.mapM w.member
    let (holds, after, events) := asked.queryAll w.types (w.resolver via) candidates
    return { answer := .ok (.verdicts holds), events, workspace := w.bindRule rule after }
  | .expand rule via => do
    let asked ← w.rule rule
    let (expansion, events) := asked.force w.types (w.resolver via)
    let after := { asked with expansion := some expansion }
    return { answer := .ok (.expansion expansion), events, workspace := w.bindRule rule after }
  | .searchFor rule body => do
    let asked ← w.rule rule
    let ctx ← w.context body
    let outcome := Search.run w.types ctx .single [asked]
    let after := outcome.rules.headD asked
    return {
      answer := outcome.answer.map .found
      events := outcome.events
      workspace := w.bindRule rule after }

end Workspace

end Cil
