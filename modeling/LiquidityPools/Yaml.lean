import LiquidityPools.Yaml.Node.OfTokens

/-!
Reading YAML 1.1. A text has tokens, its tokens make up at most one document, and the nodes of a
document stand for data. A text that is not well formed is told apart from one whose scalars name no
data, such as a date that does not exist.
-/

namespace LiquidityPools.Yaml

/-- The data of a text; null if there is no document. Of a collection inside a collection only the
kind and the keys are of use, so that its items come as null. -/
def read (text : String) : Except Fault Value := do
  let chars := unifyBreaks text.toList
  if !chars.all (Text.inRanges allowedRanges) then .error .yaml
  match ← Document.ofText? chars with
  | none => pure .null
  | some document => document.value 2

end LiquidityPools.Yaml
