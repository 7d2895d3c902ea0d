import LiquidityPools.Action
import LiquidityPools.Yaml.Node
import LiquidityPools.Yaml.Token.Lexer

/-!
Building the one document of a YAML text from its tokens. A reference stands for the node that its
anchor marked before; inside that node itself it stands for an empty collection of the same kind. A
text with a second document is refused.
-/

namespace LiquidityPools.Yaml

structure Context where
  tokens : List Token
  anchors : List (String × Node) := []
  handles : List (String × String) := []
  collections : Nat := 0
  depth : Nat := 0

namespace Context

def depthLimit : Nat := 488

def usualHandles : List (String × String) := [("!", "!"), ("!!", Tag.stem)]

abbrev Step (α : Type) := Action Context α

def refuse {α : Type} : Step α := Action.fail .yaml

def next : Step Token := do
  match ← Action.read (·.tokens) with
  | .broken fault :: _ => Action.fail fault
  | token :: _ => pure token
  | [] => refuse

def drop : Step Unit := Action.modify fun r => { r with tokens := r.tokens.tail }

def isNext (marks : List Mark) : Step Bool := do
  match ← next with
  | .mark m => pure (marks.contains m)
  | _ => pure false

def take? (m : Mark) : Step Bool := do
  if ← isNext [m] then
    drop
    pure true
  else pure false

section Nodes

/-- Where a node stands. Behind a key or a value in a block, items may stand without indentation. -/
inductive Slot where
  | flow | block | entry
  deriving DecidableEq

def fullTag (t : WrittenTag) : Step String := do
  match t.handle with
  | none => pure t.suffix
  | some handle =>
    match (← Action.read (·.handles)).lookup handle with
    | some stem => pure (stem ++ t.suffix)
    | none => refuse

def takeTag : Step (Option String) := do
  match ← next with
  | .tag t =>
    drop
    some <$> fullTag t
  | _ => pure none

def takeAnchor : Step (Option String) := do
  match ← next with
  | .anchor name =>
    drop
    if (← Action.read (·.anchors)).any (·.1 == name) then refuse
    pure (some name)
  | _ => pure none

def takeProperties : Step (Option String × Option String) := do
  match ← takeAnchor with
  | some name => pure (some name, ← takeTag)
  | none =>
    let tag ← takeTag
    if tag.isSome then pure (← takeAnchor, tag) else pure (none, none)

def define (anchor : Option String) (node : Node) : Step Unit :=
  match anchor with
  | some name => Action.modify fun r => { r with anchors := (name, node) :: r.anchors }
  | none => pure ()

def collection {α : Type} (anchor : Option String) (make : (number : Nat) → List α → Node)
    (items : Step (List α)) : Step Node := do
  if (← Action.read (·.depth)) = depthLimit then Action.fail .tooDeep
  let number ← Action.read (·.collections)
  Action.modify fun r => { r with depth := r.depth + 1, collections := number + 1 }
  define anchor (make number [])
  let node := make number (← items)
  Action.modify fun r => { r with depth := r.depth - 1 }
  define anchor node
  pure node

/-- The tag of a scalar; an exclamation mark alone leaves it to the form of the text. -/
def scalarTag (written : Option String) (plain : Bool) (text : List Char) : Tag :=
  match written with
  | some "!" => .ofPlain text
  | some name => .ofName name
  | none => if plain then .ofPlain text else .str

def collectionTag (written : Option String) (usual : Tag) : Tag :=
  match written with
  | none | some "!" => usual
  | some name => .ofName name

mutual

def node : (bound : Nat) → Slot → Step Node
  | 0, _ => refuse
  | bound + 1, slot => do
    match ← next with
    | .reference name =>
      drop
      match (← Action.read (·.anchors)).lookup name with
      | some node => pure node
      | none => refuse
    | _ =>
      let (anchor, written) ← takeProperties
      let sequence := collection anchor (.sequence (collectionTag written .seq))
      let map := collection anchor (.map (collectionTag written .map))
      match ← next with
      | .scalar plain text =>
        drop
        let node := .scalar (scalarTag written plain text) text
        define anchor node
        pure node
      | .mark .flowSequence =>
        drop
        sequence (flowItems bound true)
      | .mark .flowMap =>
        drop
        map (flowEntries bound true)
      | token =>
        match token, slot with
        | .mark .item, .entry => sequence (looseItems bound)
        | .mark .blockSequence, .block | .mark .blockSequence, .entry =>
          drop
          sequence (blockItems bound)
        | .mark .blockMap, .block | .mark .blockMap, .entry =>
          drop
          map (blockEntries bound)
        | _, _ =>
          if anchor.isNone && written.isNone then refuse
          else
            let node := .scalar (scalarTag written true []) []
            define anchor node
            pure node

def nodeUnless : (bound : Nat) → List Mark → Slot → Step Node
  | 0, _, _ => refuse
  | bound + 1, marks, slot => do if ← isNext marks then pure .empty else node bound slot

def blockItems : (bound : Nat) → Step (List Node)
  | 0 => refuse
  | bound + 1 => do
    if ← take? .item then
      let item ← nodeUnless bound [.item, .blockEnd] .block
      let rest ← blockItems bound
      pure (item :: rest)
    else if ← take? .blockEnd then pure []
    else refuse

def looseItems : (bound : Nat) → Step (List Node)
  | 0 => refuse
  | bound + 1 => do
    if ← take? .item then
      let item ← nodeUnless bound [.item, .key, .value, .blockEnd] .block
      let rest ← looseItems bound
      pure (item :: rest)
    else pure []

def blockEntries : (bound : Nat) → Step (List (Node × Node))
  | 0 => refuse
  | bound + 1 => do
    if ← take? .key then
      let ends : List Mark := [.key, .value, .blockEnd]
      let key ← nodeUnless bound ends .entry
      let value ← if ← take? .value then nodeUnless bound ends .entry else pure .empty
      let rest ← blockEntries bound
      pure ((key, value) :: rest)
    else if ← take? .blockEnd then pure []
    else refuse

def flowEntry : (bound : Nat) → Mark → Step (Node × Node)
  | 0, _ => refuse
  | bound + 1, ending => do
    let key ← nodeUnless bound [.value, .comma, ending] .flow
    let value ← if ← take? .value then nodeUnless bound [.comma, ending] .flow else pure .empty
    pure (key, value)

/-- A key among the items stands for a map of its one entry. -/
def flowItems : (bound : Nat) → (first : Bool) → Step (List Node)
  | 0, _ => refuse
  | bound + 1, first => do
    if ← take? .flowSequenceEnd then pure []
    else
      if !first then
        if !(← take? .comma) then refuse
      if ← take? .key then
        let item ← collection none (.map .map) (List.singleton <$> flowEntry bound .flowSequenceEnd)
        let rest ← flowItems bound false
        pure (item :: rest)
      else if ← take? .flowSequenceEnd then pure []
      else
        let item ← node bound .flow
        let rest ← flowItems bound false
        pure (item :: rest)

def flowEntries : (bound : Nat) → (first : Bool) → Step (List (Node × Node))
  | 0, _ => refuse
  | bound + 1, first => do
    if ← take? .flowMapEnd then pure []
    else
      if !first then
        if !(← take? .comma) then refuse
      if ← take? .key then
        let entry ← flowEntry bound .flowMapEnd
        let rest ← flowEntries bound false
        pure (entry :: rest)
      else if ← take? .flowMapEnd then pure []
      else
        let key ← node bound .flow
        let rest ← flowEntries bound false
        pure ((key, .empty) :: rest)

end

end Nodes

section Documents

def addHandle (handle stem : String) : Step Unit := do
  if (← Action.read (·.handles)).any (·.1 == handle) then refuse
  Action.modify fun r => { r with handles := (handle, stem) :: r.handles }

/-- The directives of a document. Only one names a version, which has to begin with one. -/
def directives : (bound : Nat) → (versioned : Bool) → Step Unit
  | 0, _ => refuse
  | bound + 1, versioned => do
    match ← next with
    | .directive d =>
      drop
      match d with
      | .version major =>
        if versioned || major ≠ 1 then refuse
        directives bound true
      | .handle handle stem =>
        addHandle handle stem
        directives bound versioned
      | .other => directives bound versioned
    | _ => Action.modify fun r => { r with handles := r.handles ++ usualHandles }

def skipEnds : (bound : Nat) → Step Unit
  | 0 => refuse
  | bound + 1 => do if ← take? .documentEnd then skipEnds bound

def isAnnounced : Step Bool := do
  match ← next with
  | .directive _ | .mark .documentStart => pure true
  | _ => pure false

def announced (bound : Nat) : Step (Option Node) := do
  skipEnds bound
  if ← isNext [.textEnd] then pure none
  else
    directives bound false
    if !(← take? .documentStart) then refuse
    if (← isAnnounced) || (← isNext [.documentEnd, .textEnd]) then pure (some .empty)
    else some <$> node bound .block

def document (bound : Nat) : Step (Option Node) := do
  let found ← if (← isAnnounced) || (← isNext [.textEnd]) then announced bound
    else
      Action.modify fun r => { r with handles := usualHandles }
      some <$> node bound .block
  skipEnds bound
  if ← isNext [.textEnd] then pure found else refuse

end Documents

end Context

def Document.ofText? (text : List Char) : Except Fault (Option Document) :=
  let tokens := tokensOf text
  let (found, context) := Context.document (4 * tokens.length + 8) { tokens }
  found.map fun root? => root?.map (⟨·, context.collections⟩)

end LiquidityPools.Yaml
