/-
What can be wrong with a document that can be told apart into nodes: a scalar has the form of a number or of a moment,
and there is no such number or moment; or something else than mappings is to be merged.
-/
import Chip8.Calendar
import Chip8.Text.Integer

namespace Chip8.Yaml

/-- why a node has no value -/
inductive Error where
  | integer (cause : Integer.Error)
  /-- more places of base 60 than a double has room for -/
  | tooManyPlaces
  | calendar (cause : Calendar.Error)
  | badMerge
  deriving DecidableEq, Repr

def Error.message : Error → String
  | .integer cause => cause.message
  | .tooManyPlaces => "int too large to convert to float"
  | .calendar cause => cause.message
  | .badMerge => "only mappings can be merged"

end Chip8.Yaml
