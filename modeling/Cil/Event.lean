import Cil.Fault

/-!
# Events

What decoding, searching and matching report on the way, beside their results. Traces are about
progress; debug events about something that was passed over.
-/

namespace Cil

/-- Something worth reporting. -/
inductive Event
  | decoded (instructions bytes deferred : Nat)
  /-- A search ended at a reference that stands in the code. -/
  | referenceFound (offset : Nat)
  /-- A search ended at the method that a constrained call lands on. -/
  | constrainedFound (offset : Nat)
  /-- The method that a constrained call lands on could not be determined. -/
  | constrainedSkipped (method : String) (offset : Nat) (fault : Fault)
  /-- The members of an ancestor could not be listed. -/
  | ancestorSkipped (ancestor : TypeDef) (target : String) (fault : Fault)
  deriving DecidableEq

namespace Event

def level : Event → String
  | decoded .. | referenceFound _ | constrainedFound _ => "TRACE"
  | constrainedSkipped .. | ancestorSkipped .. => "DEBUG"

def text : Event → String
  | decoded instructions bytes deferred =>
    "decoded " ++ Nat.repr instructions ++ " instructions from " ++ Nat.repr bytes ++
      " bytes, " ++ Nat.repr deferred ++ " deferred target(s)"
  | referenceFound offset => "reference found at offset " ++ Nat.repr offset
  | constrainedFound offset => "constrained reference found at offset " ++ Nat.repr offset
  | constrainedSkipped method offset fault =>
    "skipping constrained override of " ++ method ++ " at offset " ++ Nat.repr offset ++ ": " ++
      fault.message
  | ancestorSkipped ancestor target fault =>
    "skipping " ++ ancestor.fullName ++ " while collecting base members of " ++ target ++ ": " ++
      fault.message

def line (e : Event) : String := e.level ++ " " ++ e.text

end Event

end Cil
