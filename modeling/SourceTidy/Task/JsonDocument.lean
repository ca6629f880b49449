import SourceTidy.Task.Basic
import SourceTidy.Json.Document

/-!
# The task for JSON documents

A document that breaks the grammar is reported with the line where the reading stopped. A number that JSON does not
know is reported without a line. What the reader cannot take in, for its length or its depth, makes the task fail.
-/

namespace SourceTidy.Task

/-- The response to a failed reading. -/
def jsonResponse (t : Text) : Json.Failure → Response
  | .broken problem rest =>
    ⟨[.report (.at .error ("Syntax error: " ++ Text.ofString problem.message) t (Json.offsetOf t rest))], .text t⟩
  | .constant name => ⟨[.report ⟨.error, "Syntax error: Invalid constant " ++ name, none⟩], .text t⟩
  | .tooManyDigits count => ⟨[], .failed (.tooManyDigits count)⟩
  | .tooDeep container => ⟨[], .failed (.tooDeep container.noun)⟩

/-- Reports a document that is not JSON, by a reader with room for a number of open containers. -/
def checkJsonWithin (depth : Nat) : Handler := fun _ t =>
  match Json.checkWithin depth t with
  | .ok () => ⟨[], .text t⟩
  | .error failure => jsonResponse t failure

/-- Reports a document that is not JSON. -/
def checkJson : Handler := checkJsonWithin Json.maxDepth

end SourceTidy.Task
