/-
Nodes: what a document is made of before its scalars are read. A mapping may have a merge key, under which stand
mappings whose entries it takes over; `Node.merged` puts these entries in the mapping. `Node.value` then reads the
scalars. Of several things that are wrong, the one that is least deep inside lists and mappings is reported, and of
those equally deep the first.
-/
import Chip8.Yaml.Scalar

namespace Chip8.Yaml

inductive Node where
  /-- a scalar without quotes -/
  | plain (text : List Char)
  /-- a scalar between quotes -/
  | quoted (text : List Char)
  | list (items : List Node)
  | map (entries : List (Node × Node))
  /-- a mapping with something else than mappings under a merge key -/
  | badMerge
  deriving Inhabited, Repr

/-- where nothing stands -/
def Node.empty : Node := .plain []

/-- what is read from a node, or what is wrong and how deep it is -/
abbrev Reading (α : Type) := Except (Nat × Error) α

/-- two readings, one before the other; of two errors the less deep one -/
def Reading.pair {α β : Type} : Reading α → Reading β → Reading (α × β)
  | .ok a, .ok b => .ok (a, b)
  | .error e, .ok _ => .error e
  | .ok _, .error f => .error f
  | .error e, .error f => .error (if f.1 < e.1 then f else e)

namespace Node

def isMerge : Node → Bool
  | .plain text => text = ['<', '<']
  | _ => false

def entries? : Node → Option (List (Node × Node))
  | .map entries => some entries
  | _ => none

/-- the entries that stand under a merge key: those of a mapping, or those of the mappings in a list, of which the last
comes first -/
def taken? : Node → Option (List (Node × Node))
  | .list items => (items.reverse.mapM entries?).map List.flatten
  | n => n.entries?

/-- the mapping of entries without merge keys, after those that stand under merge keys -/
def ofEntries (entries : List (Node × Node)) : Node :=
  match (entries.filter (·.1.isMerge)).mapM (·.2.taken?) with
  | some taken => .map (taken.flatten ++ entries.filter (!·.1.isMerge))
  | none => .badMerge

mutual

/-- the node with all that its mappings take over -/
def merged : Node → Node
  | .list items => .list (mergedItems items)
  | .map entries => ofEntries (mergedEntries entries)
  | n => n

def mergedItems : List Node → List Node
  | [] => []
  | n :: ns => merged n :: mergedItems ns

def mergedEntries : List (Node × Node) → List (Node × Node)
  | [] => []
  | (k, n) :: es => (merged k, merged n) :: mergedEntries es

end

mutual

/-- read a node that is inside so many lists and mappings -/
def read (depth : Nat) : Node → Reading Value
  | .plain text => (Yaml.plain text).mapError (depth, ·)
  | .quoted text => .ok (.text (.ofList text))
  | .list items => (readItems (depth + 1) items).map .list
  | .map entries => (readEntries (depth + 1) entries).map Value.ofEntries
  | .badMerge => .error (depth + 1, .badMerge)

def readItems (depth : Nat) : List Node → Reading (List Value)
  | [] => .ok []
  | n :: ns => ((read depth n).pair (readItems depth ns)).map fun (v, vs) => v :: vs

def readEntries (depth : Nat) : List (Node × Node) → Reading (List (Value × Value))
  | [] => .ok []
  | (k, n) :: es => (((read depth k).pair (read depth n)).pair (readEntries depth es)).map fun (e, es) => e :: es

end

def value (n : Node) : Except Error Value := (read 0 n.merged).mapError (·.2)

end Node

end Chip8.Yaml
