import LiquidityPools.Fault

/-!
Canonical text: the one JSON text of a piece of data, for hashing. Data is first brought to a normal
form, a `Document`, in which lists and tuples are arrays and the members of an object stand in the
order of their keys; the document is then written without any blank. Floats, bytes and keys other
than texts have no canonical text.
-/

namespace LiquidityPools

inductive Document where
  | null
  | bool (b : Bool)
  | int (n : Int)
  | text (s : String)
  | array (items : List Document)
  | object (members : List (String × Document))
  deriving Inhabited, Repr, BEq

namespace Document

def byKey (a b : String × Document) : Bool := (compare a.1 b.1).isLE

mutual

def ofValue? : Value → Option Document
  | .null => some .null
  | .bool b => some (.bool b)
  | .int n => some (.int n)
  | .str s => some (.text s)
  | .list items => (ofItems? items).map .array
  | .tuple items => (ofItems? items).map .array
  | .map entries => (ofEntries? entries).map fun members => .object (members.mergeSort byKey)
  | .float _ | .date _ | .moment _ | .bytes _ => none

def ofItems? : List Value → Option (List Document)
  | [] => some []
  | item :: rest => do
    let d ← ofValue? item
    let ds ← ofItems? rest
    pure (d :: ds)

def ofEntries? : List (Value × Value) → Option (List (String × Document))
  | [] => some []
  | (.str key, value) :: rest => do
    let d ← ofValue? value
    let ds ← ofEntries? rest
    pure ((key, d) :: ds)
  | _ :: _ => none

end

/-- A quote, a backslash and the characters below the space are escaped, those with a short escape
by it; all others stand for themselves. -/
def escape (c : Char) : List Char :=
  if c = '"' ∨ c = '\\' then ['\\', c]
  else if c = '\n' then ['\\', 'n']
  else if c = '\r' then ['\\', 'r']
  else if c = '\t' then ['\\', 't']
  else if c.toNat = 0x08 then ['\\', 'b']
  else if c.toNat = 0x0C then ['\\', 'f']
  else if c.toNat < 0x20 then '\\' :: 'u' :: Text.hexFixed 4 c.toNat
  else [c]

def writeText (s : String) : List Char := '"' :: s.toList.flatMap escape ++ ['"']

mutual

def write : Document → List Char
  | .null => ['n', 'u', 'l', 'l']
  | .bool true => ['t', 'r', 'u', 'e']
  | .bool false => ['f', 'a', 'l', 's', 'e']
  | .int n => (toString n).toList
  | .text s => writeText s
  | .array [] => ['[', ']']
  | .array (item :: rest) => '[' :: write item ++ writeItems rest
  | .object [] => ['\x7b', '\x7d']
  | .object ((key, value) :: rest) =>
    '\x7b' :: writeText key ++ ':' :: write value ++ writeMembers rest

def writeItems : List Document → List Char
  | [] => [']']
  | item :: rest => ',' :: write item ++ writeItems rest

def writeMembers : List (String × Document) → List Char
  | [] => ['\x7d']
  | (key, value) :: rest => ',' :: writeText key ++ ':' :: write value ++ writeMembers rest

end

def toText (d : Document) : String := String.ofList d.write

end Document

namespace Canonical

mutual

/-- Finds the first float, or key that is no text, in reading order. -/
def check : Value → Except Fault Unit
  | .float _ => .error (.encoding .floatInside)
  | .list items => checkItems items
  | .tuple items => checkItems items
  | .map entries => checkEntries entries
  | _ => .ok ()

def checkItems : List Value → Except Fault Unit
  | [] => .ok ()
  | item :: rest => do
    check item
    checkItems rest

def checkEntries : List (Value × Value) → Except Fault Unit
  | [] => .ok ()
  | (.str _, value) :: rest => do
    check value
    checkEntries rest
  | _ :: _ => .error (.encoding .keyNotText)

end

/-- The normal form of data. Bytes are found only after all floats and keys. -/
def document (value : Value) : Except Fault Document := do
  check value
  match Document.ofValue? value with
  | some d => pure d
  | none => .error (.encoding .bytesInside)

def text (value : Value) : Except Fault String := do
  pure (← document value).toText

def bytes (value : Value) : Except Fault (List UInt8) := do
  pure (← text value).toUTF8.toList

end Canonical

end LiquidityPools
