/-! # Faults

A fault is what a refused call answers: the category of the problem and a
description of it.  Its message names the category first. -/

namespace FlowCadence

/-- The categories of faults. -/
inductive Fault.Kind where
  /-- The input is invalid or an invariant does not hold. -/
  | validation
  /-- The thing asked for does not exist. -/
  | notFound
  /-- The call conflicts with the present state. -/
  | conflict
  /-- A collaborator could not serve the call. -/
  | unavailable
  /-- Something unexpected happened. -/
  | internal
  deriving DecidableEq, Repr

/-- The words a message of this category begins with. -/
def Fault.Kind.title : Fault.Kind → String
  | .validation => "validation error"
  | .notFound => "not found"
  | .conflict => "conflict"
  | .unavailable => "unavailable"
  | .internal => "internal error"

/-- The answer of a call that was refused or failed. -/
structure Fault where
  kind : Fault.Kind
  /-- What went wrong, without the category. -/
  detail : String
  deriving DecidableEq, Repr

namespace Fault

/-- A fault in the input. -/
abbrev validation (detail : String) : Fault := ⟨.validation, detail⟩

/-- A missing thing. -/
abbrev notFound (detail : String) : Fault := ⟨.notFound, detail⟩

/-- A call at the wrong time. -/
abbrev conflict (detail : String) : Fault := ⟨.conflict, detail⟩

/-- A collaborator that does not serve. -/
abbrev unavailable (detail : String) : Fault := ⟨.unavailable, detail⟩

/-- An unexpected problem. -/
abbrev internal (detail : String) : Fault := ⟨.internal, detail⟩

/-- The category and the description, with a colon between them. -/
def message (f : Fault) : String := f.kind.title ++ ": " ++ f.detail

end Fault

/-- What the scheduler was doing when a collaborator failed it. -/
inductive Failure.Activity where
  /-- Installing or removing a trigger. -/
  | scheduling
  /-- Running a flow. -/
  | running
  /-- Sending a notice to the controller. -/
  | forwarding
  /-- Removing a deleted flow from the catalog. -/
  | catalogCleanup
  deriving DecidableEq, Repr

/-- A failure of the scheduler: what it was doing, for which flow or job, and
    the fault that stopped it. -/
structure Failure where
  activity : Failure.Activity
  /-- The name of the job or the uri of the flow concerned. -/
  subject : String
  cause : Fault
  deriving DecidableEq, Repr

/-- The message of a failure names its subject and leaves its cause out. -/
def Failure.message (f : Failure) : String :=
  match f.activity with
  | .scheduling => "failed to schedule job '" ++ f.subject ++ "'"
  | .running => "failed to run flow spec '" ++ f.subject ++ "'"
  | .forwarding => "failed to forward notice for flow '" ++ f.subject ++ "' to the controller"
  | .catalogCleanup => "flow '" ++ f.subject ++ "' was not removed from the catalog cleanly"

end FlowCadence
