import LiquidityPools.Fault

/-!
The tokens of a YAML text. Marks stand for punctuation, written or implied by indentation; the other
tokens carry a text.
-/

namespace LiquidityPools.Yaml

inductive Mark where
  | documentStart | documentEnd | textEnd
  | blockSequence | blockMap | blockEnd
  | flowSequence | flowSequenceEnd | flowMap | flowMapEnd
  | item | comma | key | value
  deriving DecidableEq, Repr

inductive Directive where
  | version (major : Nat)
  /-- Tags that begin with the handle begin with the stem in full. -/
  | handle (handle stem : String)
  | other
  deriving DecidableEq, Repr

structure WrittenTag where
  handle : Option String
  suffix : String
  deriving DecidableEq, Repr

inductive Token where
  | mark (m : Mark)
  | directive (d : Directive)
  | anchor (name : String)
  | reference (name : String)
  | tag (t : WrittenTag)
  | scalar (plain : Bool) (text : List Char)
  | broken (fault : Fault)

end LiquidityPools.Yaml
