import LiquidityPools.Cap
import LiquidityPools.Market

/-!
Why an operation fails. A fault is a cause with the data that its message needs; `Fault.kind` sorts
faults into the kinds that a host tells apart, and `Fault.message` words them. Faults of the
exchange's own kinds carry a stable code; the others are errors in how the library was called.
-/

namespace LiquidityPools

inductive Fault.Kind where
  | marketExists | marketMissing | notEnoughBalance | arithmetic | transfer | invalidArgument
  | slippage | payoutRunning | wrongType | badValue | badKey | badIndex | badForm | tooLarge
  | noRoom | tooDeep | badYaml
  deriving DecidableEq, Repr

/-- The stable code of a kind; errors in calling the library have none. -/
def Fault.Kind.code? : Fault.Kind → Option String
  | .marketExists => some "market_exists"
  | .marketMissing => some "market_does_not_exist"
  | .notEnoughBalance => some "not_enough_balance"
  | .arithmetic => some "arithmetic"
  | .transfer => some "transfer"
  | .invalidArgument => some "invalid_argument"
  | .slippage => some "slippage"
  | .payoutRunning => some "distribution_in_progress"
  | .wrongType | .badValue | .badKey | .badIndex | .badForm | .tooLarge | .noRoom
  | .tooDeep | .badYaml => none

inductive Operation where
  | add | sub | mul | div | mulDiv
  deriving DecidableEq, Repr

def Operation.label : Operation → String
  | .add => "add"
  | .sub => "sub"
  | .mul => "mul"
  | .div => "div"
  | .mulDiv => "mul_div"

inductive ArithmeticFault where
  | negativeOperand (name : String) (value : Int)
  | underflow (operation : Operation) (value : Int)
  | overflow (operation : Operation) (value : Int) (cap : Cap)
  | divisionByZero
  | emptyReserve (reserveIn reserveOut : Int)
  | reservesNotPositive (base quote : Value)
  | negativeGross (amount : Int)
  | outputGrows (after before : Int)
  | productOutOfBounds (after before : Int)
  deriving Repr

def ArithmeticFault.message : ArithmeticFault → String
  | .negativeOperand name value => s!"{name} must be non-negative: {value}"
  | .underflow operation value => s!"{operation.label} underflow: {value} < 0"
  | .overflow operation value cap => s!"{operation.label} overflow: {value} > {cap.text}"
  | .divisionByZero => "division by zero"
  | .emptyReserve reserveIn reserveOut =>
    s!"cannot swap against an empty reserve: ({reserveIn}, {reserveOut})"
  | .reservesNotPositive base quote =>
    s!"reserves must be positive: ({base.plain}, {quote.plain})"
  | .negativeGross amount => s!"gross_amount must be non-negative: {amount}"
  | .outputGrows after before => s!"output reserve would grow: {after} > {before}"
  | .productOutOfBounds after before => s!"constant product out of bounds: {after} vs {before}"

inductive BalanceFault where
  | negative (amount : Int)
  | overWidth (amount : Int) (cap : Cap)
  | insufficient (current delta : Int)
  | negativeDelta (delta : Int)
  deriving DecidableEq, Repr

def BalanceFault.message : BalanceFault → String
  | .negative amount => s!"Balance cannot be negative: {amount}"
  | .overWidth amount cap => s!"Balance exceeds width: {amount} > {cap.text}"
  | .insufficient current delta =>
    s!"Insufficient balance: {current} + {delta} = {current + delta} < 0"
  | .negativeDelta delta => s!"Delta must be non-negative: {delta}"

inductive MarketFault where
  | notInt (role : String)
  | outOfRange (role : String) (asset : Int)
  | sameAsset (asset : Int)
  deriving DecidableEq, Repr

def MarketFault.message : MarketFault → String
  | .notInt role => s!"{role} must be an int"
  | .outOfRange role asset => s!"{role} must be in [0, {Market.assetLimit}]: {asset}"
  | .sameAsset asset => s!"base and quote must differ: {asset}"

inductive TransferFault where
  | invalidAmount (amount : Value)
  | insufficientFunds (asset : Asset) (source : Account) (available : Nat) (amount : Int)
  | creditRejected (cause : BalanceFault)
  | refused (asset : Asset) (source dest : Account) (amount : Value)
  | payoutFailed (failures : List (Market × String))
  | declared (message : String)
  deriving Repr

def TransferFault.message : TransferFault → String
  | .invalidAmount amount => s!"invalid transfer amount: {amount.literal}"
  | .insufficientFunds asset source available amount =>
    s!"insufficient funds: asset={asset} account={source} has {available} < {amount}"
  | .creditRejected cause => s!"credit rejected: {cause.message}"
  | .refused asset source dest amount => s!"refused: {asset} {source} -> {dest} {amount.plain}"
  | .payoutFailed failures =>
    let lines := failures.map fun (market, reason) => market.label ++ ": " ++ reason
    let summary := "; ".intercalate lines
    s!"fee payout failed for {failures.length} market(s): {summary}"
  | .declared message => message

inductive ArgumentFault where
  | notAPair (market : Value)
  | market (cause : MarketFault)
  | notInt (name : String)
  | outOfRange (name : String) (max : Nat) (value : Int)
  | noCaller
  | custodyCaller
  | zeroInitial (base quote : Nat)
  | callNotMap (call : Value)
  | unknownCall (name : Value)
  | callMarket
  deriving Repr

def ArgumentFault.message : ArgumentFault → String
  | .notAPair given => s!"market must be a (base, quote) pair: {given.literal}"
  | .market cause => cause.message
  | .notInt name => s!"{name} must be an int"
  | .outOfRange name max value => s!"{name} must be in [0, {max}]: {value}"
  | .noCaller => "caller must be a non-empty account id"
  | .custodyCaller => "custody accounts cannot act as callers"
  | .zeroInitial base quote => s!"initial amounts must be positive: ({base}, {quote})"
  | .callNotMap call => s!"call must be an object, got {call.kindName}"
  | .unknownCall name => s!"unknown call: {name.literal}"
  | .callMarket => "market must be a [base, quote] pair"

inductive SettingFault where
  | denominatorNotPositive (denominator : Int)
  | numeratorOutOfRange (numerator denominator : Int)
  | notARate
  | bits (value : Value)
  | tooWide (width : Nat)
  | notMap
  | fileNotMap
  | unknownKeys (keys : List Value)
  | notInt (name : String)
  | idNotText
  | idNotAscii
  | idLength
  | pageSizeNotPositive (size : Int)
  | batchNotInt
  | batchNotPositive
  | nullInside
  | variable (name raw : String)
  deriving Repr

def palletIdLength : Nat := 8

def SettingFault.message : SettingFault → String
  | .denominatorNotPositive denominator => s!"denominator must be positive: {denominator}"
  | .numeratorOutOfRange numerator denominator =>
    s!"numerator must be in [0, denominator): {numerator}/{denominator}"
  | .notARate => "fee_rate must be a FeeRate"
  | .bits value => s!"bits must be a positive int: {value.literal}"
  | .tooWide width => s!"no room for amounts of {width} bits"
  | .notMap => "config must be a mapping"
  | .fileNotMap => "config YAML must be a mapping"
  | .unknownKeys keys =>
    let names := ", ".intercalate (keys.map Value.plain)
    s!"unknown config keys: {names}"
  | .notInt name => s!"{name} must be an int"
  | .idNotText => "pallet_id must be a string"
  | .idNotAscii => "pallet_id must be ASCII"
  | .idLength => s!"pallet_id must be exactly {palletIdLength} bytes"
  | .pageSizeNotPositive size => s!"payout_page_size must be positive: {size}"
  | .batchNotInt => "max_markets_per_payout must be an int or None"
  | .batchNotPositive => "max_markets_per_payout must be positive"
  | .nullInside => "embedded null byte"
  | .variable name raw => s!"{name} must be an integer: {Text.quoted raw}"

/-- A number of this many bits does not even have a size. -/
def sizelessWidth : Nat := 30 * (1 <<< 61 - 8)

def SettingFault.kind : SettingFault → Fault.Kind
  | .tooWide width => if sizelessWidth < width then .tooLarge else .noRoom
  | .notARate | .notMap | .fileNotMap | .batchNotInt => .wrongType
  | _ => .badValue

inductive EncodingFault where
  | floatInside
  | keyNotText
  | bytesInside
  | labelEmpty
  | labelHasNul
  | labelNotAscii
  | versionNotPositive
  | hexNotText (name : String)
  | hexSize
  | hexShape (name : String) (size : Int)
  | hexDigits (name : String)
  | idEmpty
  | idTooLong
  deriving Repr

def EncodingFault.message : EncodingFault → String
  | .floatInside => "floats are not allowed in canonical encoding"
  | .keyNotText => "dict keys must be str for canonical encoding"
  | .bytesInside => "Object of type bytes is not JSON serializable"
  | .labelEmpty => "label must be a non-empty str"
  | .labelHasNul => "label must not contain NUL"
  | .labelNotAscii => "label must be ASCII"
  | .versionNotPositive => "version must be a positive int"
  | .hexNotText name => s!"{name} must be a str"
  | .hexSize => "nbytes must be a positive int"
  | .hexShape name size => s!"{name} must be a 0x-prefixed {size}-byte hex string"
  | .hexDigits name => s!"{name} must be valid hex"
  | .idEmpty => "pallet_id must be non-empty bytes"
  | .idTooLong => "pallet_id too long for a 32-byte account"

def EncodingFault.kind : EncodingFault → Fault.Kind
  | .floatInside | .keyNotText | .bytesInside | .labelEmpty | .hexNotText _ => .wrongType
  | _ => .badValue

inductive SnapshotFault where
  | notMap
  | boundNotPositive (name : String)
  | versionNotPositive
  | versionUnknown (version : Int)
  | notList (name : String)
  | tooMany (name : String) (count : Nat) (max : Int)
  | tooLarge
  | entryNotMap (name : String)
  | negative (name : String)
  | duplicatePool (market : Market)
  | unknownMarket (market : Market)
  | noProvider
  | providerTooLong
  | duplicatePosition (market : Market) (provider : Account)
  deriving Repr

def SnapshotFault.message : SnapshotFault → String
  | .notMap => "snapshot must be a mapping"
  | .boundNotPositive name => s!"{name} must be a positive int"
  | .versionNotPositive => "snapshot.version must be a positive int"
  | .versionUnknown version => s!"unsupported snapshot version: {version}"
  | .notList name => s!"{name} must be a list"
  | .tooMany name count max => s!"too many {name} entries: {count} > {max}"
  | .tooLarge => "snapshot too large"
  | .entryNotMap name => s!"snapshot.{name} entries must be objects"
  | .negative name => s!"{name} must be non-negative"
  | .duplicatePool market => s!"duplicate pool entry: {market.pairText}"
  | .unknownMarket market => s!"position for unknown market: {market.pairText}"
  | .noProvider => "position.provider must be a non-empty string"
  | .providerTooLong => "position.provider too large"
  | .duplicatePosition market provider => s!"duplicate position entry: {market.pairText} {provider}"

def SnapshotFault.kind : SnapshotFault → Fault.Kind
  | .notMap | .notList _ | .entryNotMap _ | .noProvider => .wrongType
  | _ => .badValue

inductive ScalarFault where
  | empty
  | notInt (base : Nat) (text : String)
  | notFloat (text : String)
  | notTruth (text : String)
  | notTimestamp (text : String)
  | calendar (cause : CalendarFault)
  | codePoint
  | codePointSize
  | outOfRange
  deriving Repr

def ScalarFault.message : ScalarFault → String
  | .empty => "a number without digits"
  | .notInt base text => s!"invalid literal for int() with base {base}: {Text.quoted text}"
  | .notFloat text => s!"could not convert string to float: {Text.quoted text}"
  | .notTruth text => text
  | .notTimestamp text => s!"neither a date nor a moment: {Text.quoted text}"
  | .calendar cause => cause.message
  | .codePoint => "chr() arg not in range(0x110000)"
  | .codePointSize => "code point out of range"
  | .outOfRange => "number out of range"

def ScalarFault.kind : ScalarFault → Fault.Kind
  | .empty => .badIndex
  | .notTruth _ => .badKey
  | .notTimestamp _ => .badForm
  | .codePointSize | .outOfRange => .tooLarge
  | _ => .badValue

inductive Relation where
  | lt | le | gt | ge
  deriving DecidableEq, Repr

def Relation.symbol : Relation → String
  | .lt => "<"
  | .le => "<="
  | .gt => ">"
  | .ge => ">="

def Relation.allows : Relation → Ordering → Bool
  | .lt, o => o.isLT
  | .le, o => o.isLE
  | .gt, o => o.isGT
  | .ge, o => o.isGE

inductive Fault where
  | notInt (name : String)
  | negativeField (name : String) (value : Int)
  | notASide (value : Value)
  | notOrdered (relation : Relation) (left right : String)
  | dateWithMoment
  | momentsMixed
  /-- Data of this kind is no key. -/
  | notAKey (kind : String)
  | pageLimit (limit : Value)
  | batchLimit (limit : Value)
  | arithmetic (cause : ArithmeticFault)
  | balance (cause : BalanceFault)
  | market (cause : MarketFault)
  | transfer (cause : TransferFault)
  | argument (cause : ArgumentFault)
  | setting (cause : SettingFault)
  | encoding (cause : EncodingFault)
  | snapshot (cause : SnapshotFault)
  | marketExists (market : Market)
  | marketMissing (market : Market)
  | shortBalance (account : Account) (available : Nat) (asset : Asset) (needed : Nat)
  | shortPosition (account : Account) (market : Market) (held wanted : Nat × Nat)
  | slippage (received least : Nat)
  | payoutRunning (markets : List Market)
  | poolTaken (market : Market)
  | poolAbsent (market : Market)
  | journalEmpty
  | scalar (cause : ScalarFault)
  | yaml
  | tooDeep
  deriving Repr

namespace Fault

def capNotOrdered (kind : String) : Fault := .notOrdered .gt "int" kind

def overflow (operation : Operation) (value : Int) : Cap → Fault
  | .other kind => capNotOrdered kind
  | cap => .arithmetic (.overflow operation value cap)

def ofBalance : BalanceFault → Fault
  | .overWidth _ (.other kind) => capNotOrdered kind
  | cause => .balance cause

def kind : Fault → Kind
  | .notInt _ | .notASide _ | .notOrdered .. | .dateWithMoment | .momentsMixed
  | .notAKey _ => .wrongType
  | .negativeField .. | .pageLimit _ | .batchLimit _ | .balance _ => .badValue
  | .arithmetic _ => .arithmetic
  | .market (.notInt _) => .wrongType
  | .market _ => .badValue
  | .transfer _ => .transfer
  | .argument _ => .invalidArgument
  | .setting cause => cause.kind
  | .encoding cause => cause.kind
  | .snapshot cause => cause.kind
  | .marketExists _ => .marketExists
  | .marketMissing _ => .marketMissing
  | .shortBalance .. | .shortPosition .. => .notEnoughBalance
  | .slippage .. => .slippage
  | .payoutRunning _ => .payoutRunning
  | .poolTaken _ | .poolAbsent _ => .badKey
  | .journalEmpty => .badIndex
  | .scalar cause => cause.kind
  | .yaml => .badYaml
  | .tooDeep => .tooDeep

def code? (fault : Fault) : Option String := fault.kind.code?

/-- Faults of the exchange's own kinds, which a call reports instead of failing itself. -/
def isOwn (fault : Fault) : Bool := fault.code?.isSome

def message : Fault → String
  | .notInt name => s!"{name} must be an int"
  | .negativeField name value => s!"{name} must be non-negative: {value}"
  | .notASide value => s!"side must be a Side, got {value.literal}"
  | .notOrdered relation left right =>
    s!"'{relation.symbol}' not supported between instances of '{left}' and '{right}'"
  | .dateWithMoment => "can't compare datetime.datetime to datetime.date"
  | .momentsMixed => "can't compare offset-naive and offset-aware datetimes"
  | .notAKey kind => s!"unhashable type: '{kind}'"
  | .pageLimit limit => s!"limit must be a positive int: {limit.literal}"
  | .batchLimit limit => s!"max_markets must be a positive int: {limit.literal}"
  | .arithmetic cause => cause.message
  | .balance cause => cause.message
  | .market cause => cause.message
  | .transfer cause => cause.message
  | .argument cause => cause.message
  | .setting cause => cause.message
  | .encoding cause => cause.message
  | .snapshot cause => cause.message
  | .marketExists m => s!"market {m.label} already has a pool"
  | .marketMissing m => s!"no pool for market {m.label}"
  | .shortBalance account available asset needed =>
    s!"account {account} holds {available} of asset {asset}, needs {needed}"
  | .shortPosition account m held wanted =>
    s!"position ({held.1}, {held.2}) of {account} in {m.label} " ++
      s!"cannot cover ({wanted.1}, {wanted.2})"
  | .slippage received least => s!"receive amount {received} < min_receive {least}"
  | .payoutRunning markets =>
    let names := ", ".intercalate (markets.map Market.label)
    s!"payout already running for {names}"
  | .poolTaken m => s!"pool already exists: {m.pairText}"
  | .poolAbsent m => s!"no pool for market: {m.pairText}"
  | .journalEmpty => "no entry left to undo"
  | .scalar cause => cause.message
  | .yaml => "the text is not valid YAML"
  | .tooDeep => "collections nest too deep"

end Fault

end LiquidityPools
