import LiquidityPools.Config.Mapping
import LiquidityPools.Yaml

/-!
Building a configuration from the text of a YAML file. An empty file gives the usual configuration.
-/

namespace LiquidityPools.Config

def ofYaml (text : String) : Except Fault Config := do
  match ← Yaml.read text with
  | .null => pure .usual
  | .map settings => ofMapping (.map settings)
  | _ => .error (.setting .fileNotMap)

end LiquidityPools.Config
