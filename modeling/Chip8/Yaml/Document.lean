/-
Documents. Lists and mappings may be spread over lines, an item or entry on each, nested by indentation. A key of a
mapping stands before its colon, or a question mark stands before the key, and the colon with the value starts a line
of its own. What is left out here: escapes, block text, anchors and tags.
-/
import Chip8.Text.Lines
import Chip8.Yaml.Flow

namespace Chip8.Yaml

/-- what follows the colon after a key -/
def afterKey? (cs : List Char) : Option (List Char) :=
  match cs.dropWhile (· = ' ') with
  | ':' :: rest => if standsAlone rest then some rest else none
  | _ => none

mutual

/-- take what stands further in than `indent` off the front; there may be nothing. Under a key, the items of a list
may stand as far in as the key -/
def block : (fuel : Nat) → (indent : Int) → (underKey : Bool) → Place → Option (Node × Place)
  | 0, _, _, _ => none
  | fuel + 1, indent, underKey, p =>
    let p := p.skip
    if p.rest.isEmpty then some (.empty, p)
    else if marked '-' p.rest && (indent < p.column || (underKey && indent = p.column)) then
      if p.fresh then (items fuel p.column p).map fun (ns, p) => (.list ns, p) else none
    else if p.column ≤ indent then some (.empty, p)
    else if marked '?' p.rest then
      if p.fresh then (entries fuel p.column p).map fun (es, p) => (.map es, p) else none
    else do
      let (n, rest) ← inline? fuel (indent + 1).toNat p.rest
      if (afterKey? rest).isSome then
        if p.fresh then (entries fuel p.column p).map fun (es, p) => (.map es, p) else none
      else return (n, ⟨p.column + 1, false, rest⟩)

/-- take the items of a list off the front; all stand at the same column -/
def items : (fuel : Nat) → (column : Nat) → Place → Option (List Node × Place)
  | 0, _, _ => none
  | fuel + 1, column, p => do
    let (n, p) ← block fuel column false p.pastMark
    let p := p.skip
    if p.fresh && p.column = column && marked '-' p.rest then
      let (ns, p) ← items fuel column p
      return (n :: ns, p)
    else return ([n], p)

/-- take the entries of a mapping off the front; all stand at the same column -/
def entries : (fuel : Nat) → (column : Nat) → Place → Option (List (Node × Node) × Place)
  | 0, _, _ => none
  | fuel + 1, column, p => do
    let (e, p) ← entry fuel column p
    let p := p.skip
    if p.fresh && p.column = column && !p.rest.isEmpty then
      let (es, p) ← entries fuel column p
      return (e :: es, p)
    else return ([e], p)

/-- take a key and its value off the front; after a key with a question mark there may be no value -/
def entry : (fuel : Nat) → (column : Nat) → Place → Option ((Node × Node) × Place)
  | 0, _, _ => none
  | fuel + 1, column, p =>
    if marked '?' p.rest then do
      let (key, p) ← block fuel column true p.pastMark
      let p := p.skip
      if p.fresh && p.column = column && marked ':' p.rest then
        (block fuel column true p.pastMark).map fun (v, p) => ((key, v), p)
      else return ((key, .empty), p)
    else do
      let (key, rest) ← inline? fuel (column + 1) p.rest
      (block fuel column true ⟨column + 1, false, ← afterKey? rest⟩).map fun (v, p) => ((key, v), p)

end

/-- three characters that stand alone at the start of a line -/
def marks (c : Char) (cs : List Char) : Bool := cs.take 3 = [c, c, c] && standsAlone (cs.drop 3)

/-- a text up to the mark of the end of the document; `newLine`: the text starts with a line -/
def untilEnd (newLine : Bool) : List Char → List Char
  | [] => []
  | c :: cs => if newLine && marks '.' (c :: cs) then [] else c :: untilEnd (isBreak c) cs

/-- the place where a document starts: after the mark of its start, if there is one -/
def start (cs : List Char) : Place :=
  let p := placeAfter false 0 true cs
  if p.column = 0 && marks '-' p.rest then ⟨3, false, p.rest.drop 3⟩ else p

/-- the characters of a text; other line ends become newlines, and a byte order mark in front does not count -/
def characters (text : String) : List Char :=
  let cs := (Text.newlines text.toList).map fun c => if c = '\u0085' then '\n' else c
  if cs.head? = some '\ufeff' then cs.drop 1 else cs

/-- the node that a document is; nothing if it cannot be read -/
def parse (text : String) : Option Node := do
  let cs := untilEnd true (characters text)
  let (n, p) ← block (4 * cs.length + 8) (-1) false (start cs)
  if p.skip.rest.isEmpty then some n else none

end Chip8.Yaml
