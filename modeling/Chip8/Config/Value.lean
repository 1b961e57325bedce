/-
Values of configuration documents: null, booleans, numbers, text, days, moments, lists and mappings. `Value.shown` is
their text in messages, where text, days and moments stand as they are; inside lists and mappings they are written with
their kinds. A value with a whole number in it that is too large to be shown has no text.
-/
import Chip8.Calendar
import Chip8.Text.Decimal
import Chip8.Text.Integer

namespace Chip8

/-- a value; a mapping keeps its entries in order -/
inductive Value where
  | null
  | bool (b : Bool)
  | int (n : Int)
  | float (d : Double)
  | text (s : String)
  | day (d : Day)
  | moment (m : Moment)
  | list (items : List Value)
  | map (entries : List (Value × Value))
  deriving Inhabited, Repr

namespace Value

def kindName : Value → String
  | null => "NoneType"
  | bool _ => "bool"
  | int _ => "int"
  | float _ => "float"
  | text _ => "str"
  | day _ => "date"
  | moment _ => "datetime"
  | list _ => "list"
  | map _ => "dict"

/-- null, false, zero and everything empty -/
def isVoid : Value → Bool
  | null => true
  | bool b => !b
  | int n => n = 0
  | float d => d.isZero
  | text s => s.isEmpty
  | day _ | moment _ => false
  | list items => items.isEmpty
  | map entries => entries.isEmpty

mutual

/-- the text of a value inside another -/
def inner : Value → Except Integer.Error String
  | null => .ok "None"
  | bool b => .ok (if b then "True" else "False")
  | int n => Integer.text n
  | float d => .ok d.text
  | text s => .ok (Text.quoted s)
  | day d => .ok d.inner
  | moment m => .ok m.inner
  | list items => do return "[" ++ ", ".intercalate (← innerItems items) ++ "]"
  | map entries => do return "\x7b" ++ ", ".intercalate (← innerEntries entries) ++ "\x7d"

def innerItems : List Value → Except Integer.Error (List String)
  | [] => .ok []
  | v :: vs => do return (← inner v) :: (← innerItems vs)

def innerEntries : List (Value × Value) → Except Integer.Error (List String)
  | [] => .ok []
  | (k, v) :: es => do return ((← inner k) ++ ": " ++ (← inner v)) :: (← innerEntries es)

end

def shown : Value → Except Integer.Error String
  | text s => .ok s
  | day d => .ok d.text
  | moment m => .ok m.text
  | v => inner v

/-- the number a value is; false is 0 and true is 1 -/
def number? : Value → Option Rat
  | bool b => some (if b then 1 else 0)
  | int n => some n
  | float d => d.value?
  | _ => none

/-- two keys name the same entry; numbers do if they are equal, whatever their kinds, and so do any two doubles that are
no numbers -/
def sameKey : Value → Value → Bool
  | null, null => true
  | text s, text t => s == t
  | day d, day e => d == e
  | moment m, moment n => m.same n
  | float (.infinite a), float (.infinite b) => a == b
  | float .undefined, float .undefined => true
  | v, w =>
    match v.number?, w.number? with
    | some a, some b => a == b
    | _, _ => false

/-- the entries with one set; a key keeps its first place -/
def put (entries : List (Value × Value)) (key value : Value) : List (Value × Value) :=
  if entries.any fun e => sameKey e.1 key then entries.map fun e => if sameKey e.1 key then (e.1, value) else e
  else entries ++ [(key, value)]

/-- the mapping of entries set one after the other -/
def ofEntries (entries : List (Value × Value)) : Value := .map (entries.foldl (fun m e => put m e.1 e.2) [])

/-- the value under a text key -/
def get? (entries : List (Value × Value)) (key : String) : Option Value :=
  (entries.find? fun e => e.1.sameKey (.text key)).map (·.2)

end Value

end Chip8
