/-
Configuration files: a document as text, read as a configuration. This is where the program meets text: nothing is proved
of how text becomes a document, and what is proved of files is said of every document (`Config.ofDocument`).
-/
import Chip8.Config.Reader
import Chip8.Yaml.Document

namespace Chip8.Config

/-- the configuration in the text of a file, and what was reported -/
def ofText (text : String) : Except Error Config × List Notice :=
  match Yaml.parse text with
  | none => (.error .unreadable, [])
  | some document =>
    match document.value with
    | .ok v => ofDocument v
    | .error e => (.error (.badNode e), [])

end Chip8.Config
