import SourceTidy.Task.Basic

/-!
# Scripted tasks

A task can be written down as a list of steps. They are taken in order on the content that the task was given, and the
content that they leave is the answer, unless a step ends the task before.
-/

namespace SourceTidy.Task

/-- A step of a scripted task. -/
inductive ScriptStep where
  | report (notice : Notice)
  /-- Ends the task with a failure. -/
  | fail (fault : Fault)
  /-- Ends the task with an answer that is no text. -/
  | answer (kind : NonText)
  | set (text : Text)
  | append (text : Text)
  | replace (old new : Text)
  | record
  | remove (path : Text)
  deriving DecidableEq, Repr

/-- A response with one more act before the others. -/
def Response.after (act : Act) (r : Response) : Response := { r with acts := act :: r.acts }

namespace Script

/-- The name of a scripted task that has been given none. -/
def name : Text := "scripted_task"

/-- The response of a list of steps to a content. -/
def respond : List ScriptStep → Text → Response
  | [], t => ⟨[], .text t⟩
  | .report n :: rest, t => Response.after (.report n) (respond rest t)
  | .fail fault :: _, _ => ⟨[], .failed fault⟩
  | .answer kind :: _, _ => ⟨[], .nonText kind⟩
  | .set u :: rest, _ => respond rest u
  | .append u :: rest, t => respond rest (t ++ u)
  | .replace old new :: rest, t => respond rest (Text.replace t old new)
  | .record :: rest, t => Response.after (.record t) (respond rest t)
  | .remove p :: rest, t => Response.after (.remove p) (respond rest t)

/-- The task of a list of steps. -/
def handler (steps : List ScriptStep) : Handler := fun _ t => respond steps t

end Script
end SourceTidy.Task
