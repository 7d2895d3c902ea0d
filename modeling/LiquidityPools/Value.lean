import LiquidityPools.Calendar
import LiquidityPools.Number.Decimal
import LiquidityPools.Number.Quantity
import LiquidityPools.Text.Quoted

/-!
Untyped data: what a caller, a configuration file or a stored snapshot hands over before it has
been checked. A value has two texts: the literal, which quotes strings, and the plain text, which
gives a string as it is. Two keys of a map are one key if they are equal as numbers, texts, bytes,
dates or moments, whatever kind of number each of them is.
-/

namespace LiquidityPools

inductive Value where
  | null
  | bool (b : Bool)
  | int (n : Int)
  | float (x : Number.Double)
  | date (d : Date)
  | moment (m : Moment)
  | str (s : String)
  | bytes (data : List UInt8)
  | list (items : List Value)
  | tuple (items : List Value)
  | map (entries : List (Value × Value))
  deriving Inhabited, Repr, BEq

namespace Value

def boolText (b : Bool) : String := if b then "True" else "False"

mutual

def literal : Value → String
  | .null => "None"
  | .bool b => boolText b
  | .int n => toString n
  | .float x => x.text
  | .date d => d.text
  | .moment m => m.text
  | .str s => Text.quoted s
  | .bytes data => Text.quotedBytes data
  | .list items => "[" ++ ", ".intercalate (literals items) ++ "]"
  | .tuple [] => "()"
  | .tuple [item] => "(" ++ literal item ++ ",)"
  | .tuple (first :: rest) => "(" ++ ", ".intercalate (literal first :: literals rest) ++ ")"
  | .map entries => "\x7b" ++ ", ".intercalate (entryLiterals entries) ++ "\x7d"

def literals : List Value → List String
  | [] => []
  | item :: rest => literal item :: literals rest

def entryLiterals : List (Value × Value) → List String
  | [] => []
  | (key, value) :: rest => (literal key ++ ": " ++ literal value) :: entryLiterals rest

end

def plain : Value → String
  | .str s => s
  | value => value.literal

def kindName : Value → String
  | .null => "NoneType"
  | .bool _ => "bool"
  | .int _ => "int"
  | .float _ => "float"
  | .date _ => "datetime.date"
  | .moment _ => "datetime.datetime"
  | .str _ => "str"
  | .bytes _ => "bytes"
  | .list _ => "list"
  | .tuple _ => "tuple"
  | .map _ => "dict"

/-- What a value is as a number, if it is one; a truth value counts as one or zero. -/
def quantity? : Value → Option Number.Quantity
  | .int n => some (.ofInt n)
  | .bool b => some (.ofInt (if b then 1 else 0))
  | .float x => some (.ofDouble x)
  | _ => none

def zero : Number.Quantity := .ofInt 0

def isZero (value : Value) : Bool := value.quantity?.any (·.eq zero)

mutual

def sameKey : Value → Value → Bool
  | .str s, .str t => s == t
  | .bytes s, .bytes t => s == t
  | .null, .null => true
  | .date d, .date e => d == e
  | .moment m, .moment n => m.same n
  | .tuple items, .tuple others => sameKeys items others
  | a, b =>
    match a.quantity?, b.quantity? with
    | some x, some y => x.eq y
    | _, _ => false

def sameKeys : List Value → List Value → Bool
  | [], [] => true
  | item :: rest, other :: others => sameKey item other && sameKeys rest others
  | _, _ => false

end

mutual

/-- The kind of what keeps a value from being a key: a list or a map, also inside a tuple. -/
def keyObstacle? : Value → Option String
  | .tuple items => keyObstacles? items
  | .list items => some (kindName (.list items))
  | .map entries => some (kindName (.map entries))
  | _ => none

def keyObstacles? : List Value → Option String
  | [] => none
  | item :: rest => (keyObstacle? item).or (keyObstacles? rest)

end

def withEntry (key value : Value) : List (Value × Value) → List (Value × Value)
  | [] => [(key, value)]
  | (k, v) :: rest =>
    if sameKey k key then (k, value) :: rest else (k, v) :: withEntry key value rest

def ofEntries (entries : List (Value × Value)) : Value :=
  .map (entries.foldl (fun known (key, value) => withEntry key value known) [])

def field? (key : String) : List (Value × Value) → Option Value
  | [] => none
  | (.str k, v) :: rest => if k = key then some v else field? key rest
  | _ :: rest => field? key rest

def fieldOrNull (key : String) (entries : List (Value × Value)) : Value :=
  (field? key entries).getD .null

example : sameKey (.tuple [.int 1, .str "x"]) (.tuple [.bool true, .str "x"]) = true := by decide
example : keyObstacle? (.tuple [.int 1, .map []]) = some "dict" := by decide
example : literal (.tuple [.int 0, .str "a"]) = "(0, 'a')" := by decide
example : literal (.map [(.str "a", .list [.null])]) = "\x7b'a': [None]\x7d" := by decide

end Value

end LiquidityPools
