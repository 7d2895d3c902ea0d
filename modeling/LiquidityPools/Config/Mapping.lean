import LiquidityPools.Config
import LiquidityPools.Value.Order

/-!
Building a configuration from a map of named settings. A setting that is left out has its usual
value. Unknown keys are refused, all of them in one message.
-/

namespace LiquidityPools.Config

def knownKeys : List String :=
  ["fee_numerator", "fee_denominator", "balance_bits", "pallet_id", "payout_page_size",
    "max_markets_per_payout"]

def isKnown : Value → Bool
  | .str key => knownKeys.contains key
  | _ => false

/-- The unknown keys, which are listed in order and so have to be comparable. -/
def unknownKeys (settings : List (Value × Value)) : Except Fault (List Value) :=
  Value.inOrder ((settings.map (·.1)).filter fun key => !isKnown key)

def integerSetting (name : String) : Value → Except Fault Value
  | .int n => .ok (.int n)
  | _ => .error (.setting (.notInt name))

/-- An identifier given as bytes or as ASCII text. -/
def idSetting : Value → Except Fault Value
  | .bytes id => .ok (.bytes id)
  | .str s =>
    if s.toList.all fun c => c.toNat < 128 then .ok (.bytes (Digest.ascii s))
    else .error (.setting .idNotAscii)
  | _ => .error (.setting .idNotText)

def batchSetting : Value → Except Fault Value
  | .null => .ok .null
  | other => integerSetting "max_markets_per_payout" other

def setting (name : String) (usual : Value) (settings : List (Value × Value)) : Value :=
  (Value.field? name settings).getD usual

def ofMapping : Value → Except Fault Config
  | .map settings => do
    let unknown ← unknownKeys settings
    if !unknown.isEmpty then .error (.setting (.unknownKeys unknown))
    let numerator ← integerSetting "fee_numerator" (setting "fee_numerator" (.int 1) settings)
    let denominator ←
      integerSetting "fee_denominator" (setting "fee_denominator" (.int 1000) settings)
    let feeRate ← FeeRate.ofValues numerator denominator
    let bits ← integerSetting "balance_bits" (setting "balance_bits" usualBits settings)
    let id ← idSetting (setting "pallet_id" usualId settings)
    let pageSize ←
      integerSetting "payout_page_size" (setting "payout_page_size" usualPageSize settings)
    let batch ← batchSetting (setting "max_markets_per_payout" .null settings)
    ofFields (some feeRate) bits id pageSize batch
  | _ => .error (.setting .notMap)

end LiquidityPools.Config
