import LiquidityPools.Yaml.Tag

/-!
The nodes of a YAML document, each with its tag, and the data that they stand for. Maps take in the
entries of the maps that they merge; an entry of their own counts more. Only a scalar can be a key.

Data is built level by level: the items of a collection, then the items of the collections among
them. So `Document.fault?`, which finds the first item that stands for no data, looks through a
document in this order. Every collection has a number, by which it is known again where it is
referred to, and is looked through once: written out in full, references to references can take
space without bound.
-/

namespace LiquidityPools.Yaml

inductive Node where
  | scalar (tag : Tag) (text : List Char)
  | sequence (tag : Tag) (number : Nat) (items : List Node)
  | map (tag : Tag) (number : Nat) (entries : List (Node × Node))

structure Document where
  root : Node
  collections : Nat

namespace Node

instance : Inhabited Node := ⟨.scalar .null []⟩

abbrev Entry := Node × Node

def empty : Node := .scalar .null []

def tag : Node → Tag
  | .scalar tag _ => tag
  | .sequence tag .. => tag
  | .map tag .. => tag

def number? : Node → Option Nat
  | .scalar .. => none
  | .sequence _ number _ => some number
  | .map _ number _ => some number

def isMerge (node : Node) : Bool := node.tag = .merge

/-- As a key of a map, what else would stand for the map's own value is a text. -/
def asKey : Node → Node
  | .scalar .ownValue text => .scalar .str text
  | node => node

mutual

def text? : Node → Option (List Char)
  | .scalar _ text => some text
  | .sequence .. => none
  | .map _ _ entries => ownText? entries

def ownText? : List Entry → Option (List Char)
  | [] => none
  | (key, value) :: rest => if key.tag = .ownValue then value.text? else ownText? rest

end

def readScalar (node : Node) : Except Fault Value :=
  match node.text? with
  | some text => node.tag.read text
  | none => .error .yaml

mutual

def splitEntries : List Entry → Option (List Entry × List Entry)
  | [] => some ([], [])
  | (key, value) :: rest => do
    let (merged, own) ← splitEntries rest
    if key.isMerge then
      let more ← merging value
      pure (more ++ merged, own)
    else pure (merged, (key.asKey, value) :: own)

def merging : Node → Option (List Entry)
  | .scalar .. => none
  | .map _ _ entries => (splitEntries entries).map fun (merged, own) => merged ++ own
  | .sequence _ _ items => mergingAll items

/-- Of several maps the first counts most, and so comes last. -/
def mergingAll : List Node → Option (List Entry)
  | [] => some []
  | .map _ _ entries :: rest => do
    let (merged, own) ← splitEntries entries
    let others ← mergingAll rest
    pure (others ++ (merged ++ own))
  | _ => none

end

def allEntries (entries : List Entry) : Option (List Entry) :=
  (splitEntries entries).map fun (merged, own) => merged ++ own

section Faults

structure Item where
  node : Node
  asKey : Bool

def Item.ofEntry (entry : Entry) : List Item := [⟨entry.1, true⟩, ⟨entry.2, false⟩]

def singleEntries : List Node → Option (List Entry)
  | [] => some []
  | .map _ _ [entry] :: rest => (singleEntries rest).map (entry :: ·)
  | _ => none

def parts? : Node → Option (List Item)
  | .sequence .seq _ items => some (items.map (⟨·, false⟩))
  | .sequence .orderedMap _ items | .sequence .pairs _ items =>
    (singleEntries items).map fun entries =>
      entries.flatMap fun (key, value) => [⟨key, false⟩, ⟨value, false⟩]
  | .map .map _ entries | .map .set _ entries =>
    (allEntries entries).map fun entries => entries.flatMap Item.ofEntry
  | _ => none

def Item.check : List Item → Except Fault (List Node)
  | [] => .ok []
  | item :: rest => do
    if item.node.tag.isCollection then
      if item.asKey then .error .yaml
      pure (item.node :: (← Item.check rest))
    else
      let _ ← item.node.readScalar
      Item.check rest

def unmet (met : List Nat) : List Node → List Node × List Nat
  | [] => ([], met)
  | node :: rest =>
    match node.number? with
    | some number =>
      if met.contains number then unmet met rest
      else
        let (others, met) := unmet (number :: met) rest
        (node :: others, met)
    | none =>
      let (others, met) := unmet met rest
      (node :: others, met)

/-- Looks through collections, the earliest first, and then through those among their parts that
have not been met. -/
def checkAll : (bound : Nat) → (met : List Nat) → List Node → Except Fault Unit
  | _, _, [] => .ok ()
  | 0, _, _ => .error .yaml
  | bound + 1, met, node :: rest =>
    match node.parts? with
    | none => .error .yaml
    | some parts => do
      let (inner, met) := unmet met (← Item.check parts)
      checkAll bound met (rest ++ inner)

end Faults

section Values

def scalarValue (node : Node) : Value :=
  match node.readScalar with
  | .ok value => value
  | .error _ => .null

/-- The data of a node. Sets and ordered maps come as lists; what nests deeper than the bound comes
as null. -/
def valueWithin : (bound : Nat) → Node → Value
  | 0, _ => .null
  | bound + 1, node =>
    if !node.tag.isCollection then node.scalarValue
    else match node with
      | .scalar .. => .null
      | .sequence _ _ items => .list (items.map (valueWithin bound))
      | .map tag _ entries =>
        let pairs := ((allEntries entries).getD []).map fun (key, item) =>
          (key.scalarValue, valueWithin bound item)
        if tag = .set then .list (pairs.map (·.1)) else .ofEntries pairs

end Values

end Node

namespace Document

def fault? (d : Document) : Option Fault :=
  let found : Except Fault Unit := do
    let (nodes, met) := Node.unmet [] (← Node.Item.check [⟨d.root, false⟩])
    Node.checkAll (d.collections + 1) met nodes
  match found with
  | .ok () => none
  | .error fault => some fault

def value (bound : Nat) (d : Document) : Except Fault Value :=
  match d.fault? with
  | some fault => .error fault
  | none => .ok (d.root.valueWithin bound)

end Document

end LiquidityPools.Yaml
