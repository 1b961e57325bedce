/-
What a machine is built from. `Config.Valid` is what makes a configuration one that a machine can be built from;
`Config.validate` reports the first thing that is not.
-/
import Chip8.Dialect
import Chip8.Screen
import Chip8.Config.Value
import Chip8.Yaml.Error

namespace Chip8

/-- sizes, places, rates and choices -/
structure Config where
  memorySize : Int := Memory.standardSize
  programStart : Int := Memory.programStart
  fontStart : Int := Font.standardStart
  /-- instructions per second -/
  cpuHz : Int := 700
  /-- timer beats per second -/
  timerHz : Int := 60
  /-- the seed of the random generator, if random bytes are to be the same every time -/
  seed : Option Int := none
  width : Int := Screen.standardWidth
  height : Int := Screen.standardHeight
  dialect : Dialect := {}
  deriving DecidableEq, Repr

namespace Config

/-- why a document is no configuration -/
inductive Error where
  | rootNotMapping (found : Value)
  | sectionNotMapping (name : String) (found : Value)
  /-- a value that is neither a whole number nor text -/
  | notInteger (found : Value)
  /-- a whole number that cannot be read or shown -/
  | badInteger (cause : Integer.Error)
  /-- a part of a document without a value -/
  | badNode (cause : Yaml.Error)
  | notBoolean (key : String) (found : Value)
  | memorySize (found : Int)
  | programStart (found : Int)
  | fontStart (found : Int)
  | rates
  | dimensions
  /-- text that cannot be read as a document -/
  | unreadable
  deriving Repr

/-- a wording that ends in a text; if there is no text, the reason for that is all -/
def Error.ending (start : String) : Except Integer.Error String → String
  | .ok text => start ++ text
  | .error cause => cause.message

def Error.message : Error → String
  | .rootNotMapping found => "Config root must be a mapping, got " ++ found.kindName
  | .sectionNotMapping name found => name ++ " must be a mapping, got " ++ found.kindName
  | .notInteger found => ending "Invalid integer format: " found.shown
  | .badInteger cause => cause.message
  | .badNode cause => cause.message
  | .notBoolean key found => ending ("Quirk '" ++ key ++ "' must be a boolean: ") found.shown
  | .memorySize found => ending "memory_size must be positive: " (Integer.text found)
  | .programStart found => "program_start " ++ Hex.address found ++ " outside memory"
  | .fontStart found => "font_start " ++ Hex.address found ++ " does not leave room for the font set"
  | .rates => "cpu_hz and timer_hz must be positive"
  | .dimensions => "Screen dimensions must be positive"
  | .unreadable => "the document cannot be read"

/-- a machine can be built: programs start inside memory, the font fits, both clocks run and the screen has pixels -/
structure Valid (c : Config) : Prop where
  memory_pos : 0 < c.memorySize
  program_nonneg : 0 ≤ c.programStart
  program_lt : c.programStart < c.memorySize
  font_nonneg : 0 ≤ c.fontStart
  font_le : c.fontStart + Font.bytes.length ≤ c.memorySize
  cpu_pos : 0 < c.cpuHz
  timer_pos : 0 < c.timerHz
  width_pos : 0 < c.width
  height_pos : 0 < c.height

/-- the first thing that stands against building a machine -/
def validate (c : Config) : Except Error Unit := do
  if c.memorySize ≤ 0 then throw (.memorySize c.memorySize)
  if c.programStart < 0 ∨ c.memorySize ≤ c.programStart then throw (.programStart c.programStart)
  if c.fontStart < 0 ∨ c.memorySize < c.fontStart + Font.bytes.length then throw (.fontStart c.fontStart)
  if c.cpuHz ≤ 0 ∨ c.timerHz ≤ 0 then throw .rates
  if c.width ≤ 0 ∨ c.height ≤ 0 then throw .dimensions

def profile (c : Config) : Profile := { dialect := c.dialect, fontAddress := c.fontStart }

end Config

end Chip8
