/-
Reading a configuration from a document. Keys that are left out have their standard values, keys that mean nothing are
reported and ignored, and the first thing that is wrong ends the reading. Reports made before that are kept.
-/
import Chip8.Config.Basic
import Chip8.Notice

namespace Chip8.Config

/-- a reading step: it reports notices, and may end with an error -/
abbrev Reader (α : Type) := EStateM Error (List Notice) α

namespace Reader

def report (n : Notice) : Reader Unit := modify (· ++ [n])

def entries : Value → Option (List (Value × Value))
  | .map es => some es
  | _ => none

/-- the whole number that a text stands for, in base 16 if it starts with `0x` -/
def integerOfText (s : String) : Except Integer.Error Int :=
  match s.toList with
  | '0' :: x :: _ => if x = 'x' ∨ x = 'X' then Integer.parse 16 s else Integer.parse 10 s
  | _ => Integer.parse 10 s

/-- the whole number that a value stands for; a boolean is none -/
def integer : Value → Except Error Int
  | .int n => .ok n
  | .text s => (integerOfText s).mapError .badInteger
  | v => .error (.notInteger v)

/-- the whole number under a key, or the standard one if the key is left out -/
def integerAt (es : List (Value × Value)) (key : String) (standard : Int) : Reader Int :=
  match Value.get? es key with
  | none => pure standard
  | some v => ofExcept (integer v)

/-- the whole number under a key that may be left out or null -/
def optionalIntegerAt (es : List (Value × Value)) (key : String) : Reader (Option Int) :=
  match Value.get? es key with
  | none | some .null => pure none
  | some v => return some (← ofExcept (integer v))

/-- the mapping under a key; left out, null, false, zero or empty it is empty -/
def sectionAt (es : List (Value × Value)) (key : String) : Reader (List (Value × Value)) :=
  match Value.get? es key with
  | none => pure []
  | some v =>
    if v.isVoid then pure []
    else match entries v with
      | some inner => pure inner
      | none => throw (.sectionNotMapping key v)

def rootKeys : List String :=
  ["memory_size", "program_start", "font_start", "cpu_hz", "timer_hz", "seed", "screen", "quirks"]

def isRootKey : Value → Bool
  | .text s => rootKeys.contains s
  | _ => false

def keyText (key : Value) : Reader String := ofExcept (key.shown.mapError .badInteger)

/-- report the keys of a document that mean nothing -/
def reportUnknown (es : List (Value × Value)) : Reader Unit :=
  (es.filter fun e => !isRootKey e.1).forM fun e => report (.unknownKey e.1.shown.toOption)

/-- the choice that a key names, as a way to make it; nothing if it names none -/
def choice? (d : Dialect) : Value → Option (Bool → Dialect)
  | .text "shift_uses_vy" => some fun on => { d with shiftReadsVy := on }
  | .text "load_store_increments_i" => some fun on => { d with transferAdvancesI := on }
  | .text "jump_uses_vx" => some fun on => { d with jumpAddsVx := on }
  | .text "logic_resets_vf" => some fun on => { d with logicClearsFlag := on }
  | .text "clip_sprites" => some fun on => { d with spritesClip := on }
  | _ => none

/-- a dialect with the choices of a section made one after the other -/
def dialect (d : Dialect) : List (Value × Value) → Reader Dialect
  | [] => pure d
  | (key, v) :: rest =>
    match choice? d key, v with
    | some choose, .bool on => dialect (choose on) rest
    | some _, v => do throw (.notBoolean (← keyText key) v)
    | none, _ => do
      report (.unknownChoice key.shown.toOption)
      dialect d rest

def root (es : List (Value × Value)) : Reader Config := do
  reportUnknown es
  let standard : Config := {}
  let memorySize ← integerAt es "memory_size" standard.memorySize
  let programStart ← integerAt es "program_start" standard.programStart
  let fontStart ← integerAt es "font_start" standard.fontStart
  let cpuHz ← integerAt es "cpu_hz" standard.cpuHz
  let timerHz ← integerAt es "timer_hz" standard.timerHz
  let seed ← optionalIntegerAt es "seed"
  let screen ← sectionAt es "screen"
  let width ← integerAt screen "width" standard.width
  let height ← integerAt screen "height" standard.height
  let dialect ← dialect {} (← sectionAt es "quirks")
  let config : Config := { memorySize, programStart, fontStart, cpuHz, timerHz, seed, width, height, dialect }
  ofExcept config.validate
  return config

end Reader

/-- the configuration in a document, and what was reported -/
def ofValue (v : Value) : Except Error Config × List Notice :=
  match Reader.entries v with
  | none => (.error (.rootNotMapping v), [])
  | some es =>
    match (Reader.root es).run [] with
    | .ok config notices => (.ok config, notices)
    | .error e notices => (.error e, notices)

/-- the configuration in a document file, where a document with nothing in it counts as an empty mapping -/
def ofDocument (v : Value) : Except Error Config × List Notice := ofValue (if v.isVoid then .map [] else v)

end Chip8.Config
