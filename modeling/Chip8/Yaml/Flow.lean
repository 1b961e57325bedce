/-
Values in brackets: lists and mappings whose items and entries are separated by commas, on one line or several. A
question mark may stand before a key. A reader takes a value off the front of a text and returns what follows it;
nothing means that no value stands there.
-/
import Chip8.Yaml.Place

namespace Chip8.Yaml

mutual

/-- take a value off the front -/
def flow : (fuel : Nat) → List Char → Option (Node × List Char)
  | 0, _ => none
  | fuel + 1, cs =>
    match skip cs with
    | '[' :: rest => (flowItems fuel rest).map fun (ns, rest) => (.list ns, rest)
    | '\x7b' :: rest => (flowEntries fuel rest).map fun (es, rest) => (.map es, rest)
    | cs => scalar? true 0 cs

/-- take a value off the front, or nothing where something else has to follow -/
def flowPart : (fuel : Nat) → List Char → Option (Node × List Char)
  | 0, _ => none
  | fuel + 1, cs =>
    match skip cs with
    | ':' :: _ | ',' :: _ | ']' :: _ | '\x7d' :: _ => some (.empty, skip cs)
    | cs => flow fuel cs

/-- take a key and its value off the front; a key without a question mark before it or a colon after it has no value,
not even an empty one -/
def flowEntry : (fuel : Nat) → List Char → Option (Node × Option Node × List Char)
  | 0, _ => none
  | fuel + 1, cs => do
    let (key, unset, rest) ← match skip cs with
      | '?' :: rest => (flowPart fuel rest).map fun (key, rest) => (key, some .empty, rest)
      | cs => (flow fuel cs).map fun (key, rest) => (key, none, rest)
    match skip rest with
    | ':' :: rest => (flowPart fuel rest).map fun (v, rest) => (key, some v, rest)
    | rest => some (key, unset, rest)

/-- take the items of a list off the front, with the closing bracket; a key and its value are a mapping of their own -/
def flowItems : (fuel : Nat) → List Char → Option (List Node × List Char)
  | 0, _ => none
  | fuel + 1, cs =>
    match skip cs with
    | ']' :: rest => some ([], rest)
    | cs => do
      let (key, v?, rest) ← flowEntry fuel cs
      let n := (v?.map fun v => .map [(key, v)]).getD key
      match skip rest with
      | ',' :: rest =>
        let (ns, rest) ← flowItems fuel rest
        return (n :: ns, rest)
      | ']' :: rest => return ([n], rest)
      | _ => none

/-- take the entries of a mapping off the front, with the closing brace; a key alone has an empty value -/
def flowEntries : (fuel : Nat) → List Char → Option (List (Node × Node) × List Char)
  | 0, _ => none
  | fuel + 1, cs =>
    match skip cs with
    | '\x7d' :: rest => some ([], rest)
    | cs => do
      let (key, v?, rest) ← flowEntry fuel cs
      let e := (key, v?.getD .empty)
      match skip rest with
      | ',' :: rest =>
        let (es, rest) ← flowEntries fuel rest
        return (e :: es, rest)
      | '\x7d' :: rest => return ([e], rest)
      | _ => none

end

/-- take what stands on a line off the front: a list or mapping in brackets, or a scalar -/
def inline? (fuel indent : Nat) (cs : List Char) : Option (Node × List Char) :=
  if cs.head?.any fun c => c = '[' || c = '\x7b' then flow fuel cs else scalar? false indent cs

end Chip8.Yaml
