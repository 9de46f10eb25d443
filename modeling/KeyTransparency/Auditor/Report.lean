import KeyTransparency.Audit.Error

/-!
# Reports

What a run of the auditor tells its user: the text it prints, and if it fails the
failure with its causes, the nearest one first.
-/

namespace KeyTransparency.Auditor

structure Failure where
  message : String
  causes : List String
deriving DecidableEq

namespace Failure

/-- The causes on lines of their own, numbered if there are several. -/
def causeLines : List String → String
  | [cause] => "    " ++ cause ++ "\n"
  | causes => String.join (causes.zipIdx.map fun (cause, i) =>
      String.ofList (List.replicate (5 - (toString i).length) ' ') ++ toString i ++ ": " ++ cause ++ "\n")

/-- The failure as it is shown. -/
def text (f : Failure) : String :=
  "Error: " ++ f.message ++ "\n" ++
    if f.causes.isEmpty then "" else "\nCaused by:\n" ++ causeLines f.causes

/-- The failure of an audit log, with what led to it. -/
def ofAudit (message : String) (e : AuditError) : Failure :=
  ⟨message, e.message :: match e with
    | .chain cause => [cause.message]
    | .response cause => [cause.message]
    | _ => []⟩

end Failure

/-- What is printed, and the failure that the run ends with, if any. -/
structure Report where
  printed : String
  failure : Option Failure
deriving DecidableEq

namespace Report

def success (printed : String) : Report := ⟨printed, none⟩

def failed (failure : Failure) : Report := ⟨"", some failure⟩

end Report

/-- How a run ends. -/
inductive Outcome where
  /-- The words after the name of the program are not understood. -/
  | misused
  | reported (report : Report)
deriving DecidableEq

/-- The number that the run leaves to the system. -/
def Outcome.exitCode : Outcome → Nat
  | misused => 2
  | reported ⟨_, some _⟩ => 1
  | reported ⟨_, none⟩ => 0

end KeyTransparency.Auditor
