/-
  `Run` — extractors that are programs of the outer layer.
-/
import BoundaryTypes.Extraction
import BoundaryTypes.Outer.Command

namespace BoundaryTypes.Command

/-- How extractors are run: on the disk as it was read. -/
def runner : Extraction.Runner := fun d v => Extraction.printed v (run d v)

end BoundaryTypes.Command
