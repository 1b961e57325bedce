/-
Plain scalars. A scalar without quotes is null, a boolean, a number, a day, a moment, or else text.
-/
import Chip8.Yaml.Stamp

namespace Chip8.Yaml

def nulls : List String := ["", "~", "null", "Null", "NULL"]

def trues : List String := ["yes", "Yes", "YES", "true", "True", "TRUE", "on", "On", "ON"]

def falses : List String := ["no", "No", "NO", "false", "False", "FALSE", "off", "Off", "OFF"]

def plain (cs : List Char) : Except Error Value :=
  let s := String.ofList cs
  if nulls.contains s then .ok .null
  else if trues.contains s then .ok (.bool true)
  else if falses.contains s then .ok (.bool false)
  else (number? cs <|> stamp? cs).getD (.ok (.text s))

end Chip8.Yaml
