import LiquidityPools.Config.Mapping
import LiquidityPools.Text.Blank
import LiquidityPools.Text.Integer

/-!
Building a configuration from environment variables. A variable that is unset or blank leaves its
setting at the usual value.
-/

namespace LiquidityPools.Config

abbrev Environment := List (String × String)

/-- An environment keeps texts that end at the first null character, so it takes none that has
one. -/
def Environment.ofVariables (given : List (String × String)) : Except Fault Environment :=
  if given.any fun (_, raw) => raw.toList.contains '\x00' then .error (.setting .nullInside)
  else .ok given

def integerVariables : List (String × String) :=
  [("fee_numerator", "CPAMM_FEE_NUMERATOR"), ("fee_denominator", "CPAMM_FEE_DENOMINATOR"),
    ("balance_bits", "CPAMM_BALANCE_BITS"), ("payout_page_size", "CPAMM_PAYOUT_PAGE_SIZE"),
    ("max_markets_per_payout", "CPAMM_MAX_MARKETS_PER_PAYOUT")]

def idVariable : String := "CPAMM_PALLET_ID"

/-- What a variable says, without the blanks around it; nothing if nothing is left. -/
def setting? (env : Environment) (name : String) : Option (List Char) :=
  ((env.lookup name).map fun raw => Text.strip raw.toList).filter fun text => !text.isEmpty

def integerOf (env : Environment) (name : String) : Except Fault (Option Int) :=
  match setting? env name with
  | none => .ok none
  | some text =>
    match Text.integer? text with
    | some n => .ok (some n)
    | none => .error (.setting (.variable name ((env.lookup name).getD "")))

def integerSettings (env : Environment) :
    List (String × String) → Except Fault (List (Value × Value))
  | [] => .ok []
  | (key, name) :: rest => do
    let given ← integerOf env name
    let others ← integerSettings env rest
    pure (match given with
      | some n => (.str key, .int n) :: others
      | none => others)

def ofEnvironment (env : Environment) : Except Fault Config := do
  let integers ← integerSettings env integerVariables
  let id := match setting? env idVariable with
    | some text => [(Value.str "pallet_id", Value.str (String.ofList text))]
    | none => []
  ofMapping (.map (integers ++ id))

end LiquidityPools.Config
