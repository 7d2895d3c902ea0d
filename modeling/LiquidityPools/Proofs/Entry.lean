import LiquidityPools.Proofs.Quote
import LiquidityPools.Proofs.Store
import LiquidityPools.Snapshot.Load

/-!
What the entries of a snapshot state. An entry is added exactly if it states a pool of a new market,
or a new position of a market with a pool; all other entries are refused for a type or for a value.
-/

namespace LiquidityPools

open Value (field? fieldOrNull)

theorem Value.fieldOrNull_eq_iff {key : String} {fields : List (Value × Value)} {value : Value}
    (present : value ≠ .null) :
    fieldOrNull key fields = value ↔ field? key fields = some value := by
  unfold fieldOrNull
  cases field? key fields with
  | none => simpa using present.symm
  | some held => simp

namespace Fault

def OfData (fault : Fault) : Prop := fault.kind = .wrongType ∨ fault.kind = .badValue

theorem ofData_notInt (name : String) : OfData (.notInt name) := .inl rfl

theorem ofData_market (cause : MarketFault) : OfData (.market cause) := by
  cases cause with
  | notInt => exact .inl rfl
  | outOfRange | sameAsset => exact .inr rfl

theorem ofData_snapshot (cause : SnapshotFault) : OfData (.snapshot cause) := by
  cases cause with
  | notMap | notList | entryNotMap | noProvider => exact .inl rfl
  | _ => exact .inr rfl

end Fault

namespace Snapshot

variable {fields : List (Value × Value)} {market : Market} {provider : Account} {textLength n : Nat}

section Fields

theorem natOf_eq_ok_iff {name : String} {value : Value} :
    natOf name value = .ok n ↔ value = .int n := by
  cases value with
  | int m =>
    show (if m < 0 then _ else _) = _ ↔ _
    split
    · simp only [reduceCtorEq, Value.int.injEq, false_iff]
      omega
    · simp only [pure, Except.pure, Except.ok.injEq, Value.int.injEq]
      omega
  | _ => exact ⟨nofun, nofun⟩

theorem failsOnly_natOf (name : String) (value : Value) :
    Except.FailsOnly (natOf name value) Fault.OfData := by
  cases value with
  | int m => exact .ite (.error (Fault.ofData_snapshot _)) (.ok m.toNat)
  | _ => exact .error (Fault.ofData_notInt name)

theorem natOf_fieldOrNull_eq_ok_iff {name key : String} :
    natOf name (fieldOrNull key fields) = .ok n ↔ field? key fields = some (.int n) :=
  natOf_eq_ok_iff.trans (Value.fieldOrNull_eq_iff nofun)

def CountOrZero (key : String) (fields : List (Value × Value)) (n : Nat) : Prop :=
  field? key fields = some (.int n) ∨ field? key fields = none ∧ n = 0

theorem natOf_getD_eq_ok_iff {name key : String} :
    natOf name ((field? key fields).getD (.int 0)) = .ok n ↔ CountOrZero key fields n := by
  rw [natOf_eq_ok_iff, CountOrZero]
  cases field? key fields with
  | none => simp [eq_comm]
  | some held => simp

theorem marketOf_eq_ok_iff :
    marketOf fields = .ok market ↔
      field? "base" fields = some (.int market.base) ∧
        field? "quote" fields = some (.int market.quote) ∧ market.Valid := by
  have read (key : String) (asset : Asset) :
      fieldOrNull key fields = .int asset ↔ field? key fields = some (.int asset) :=
    Value.fieldOrNull_eq_iff nofun
  rw [← read, ← read, ← Market.ofValues_eq_ok_iff, marketOf, Except.mapError_eq_ok_iff]

theorem failsOnly_marketOf (fields : List (Value × Value)) :
    Except.FailsOnly (marketOf fields) Fault.OfData := by
  unfold marketOf
  cases Market.ofValues (fieldOrNull "base" fields) (fieldOrNull "quote" fields) with
  | ok m => exact .ok m
  | error cause => exact .error (Fault.ofData_market cause)

theorem providerOf_eq_ok_iff {value : Value} :
    providerOf textLength value = .ok provider ↔
      value = .str provider ∧ provider ≠ "" ∧ provider.length ≤ textLength := by
  unfold providerOf
  split
  next text =>
    split
    · simp_all
    · split
      · simp only [reduceCtorEq, Value.str.injEq, false_iff]
        rintro ⟨rfl, -, short⟩
        omega
      · simp only [Except.ok.injEq, Value.str.injEq]
        constructor
        · rintro rfl
          refine ⟨rfl, ?_, by omega⟩
          simp_all
        · rintro ⟨rfl, -⟩
          rfl
  next other =>
    simp only [reduceCtorEq, false_iff]
    rintro ⟨rfl, -⟩
    exact other provider rfl

theorem failsOnly_providerOf (textLength : Nat) (value : Value) :
    Except.FailsOnly (providerOf textLength value) Fault.OfData := by
  unfold providerOf
  split
  next s =>
    exact .ite (.error (Fault.ofData_snapshot _))
      (.ite (.error (Fault.ofData_snapshot _)) (.ok s))
  next => exact .error (Fault.ofData_snapshot _)

end Fields

section Pools

variable {s t : Store} {pool : Pool}

structure PoolFields (fields : List (Value × Value)) (market : Market) (pool : Pool) : Prop where
  base : field? "base" fields = some (.int market.base)
  quote : field? "quote" fields = some (.int market.quote)
  valid : market.Valid
  baseReserve : field? "base_reserve" fields = some (.int pool.baseReserve)
  quoteReserve : field? "quote_reserve" fields = some (.int pool.quoteReserve)
  baseFees : CountOrZero "collected_base_fees" fields pool.baseFees
  quoteFees : CountOrZero "collected_quote_fees" fields pool.quoteFees

def StatesPool (entry : Value) (stated : Market × Pool) : Prop :=
  ∃ fields, entry = .map fields ∧ PoolFields fields stated.1 stated.2

theorem insertPool_eq_ok_iff :
    Store.insertPool market pool s = .ok t ↔
      s.pool? market = none ∧ t = s.writePool market pool none := by
  unfold Store.insertPool
  cases s.pool? market with
  | some held => exact ⟨nofun, nofun⟩
  | none => simp [eq_comm]

theorem addPool_eq_ok_iff {entry : Value} :
    addPool s entry = .ok t ↔
      ∃ stated, StatesPool entry stated ∧ s.pool? stated.1 = none ∧
        t = s.writePool stated.1 stated.2 none := by
  cases entry with
  | map fields =>
    simp only [addPool, Except.bind_eq_ok_iff, Except.refuse_eq_ok_iff, marketOf_eq_ok_iff,
      natOf_fieldOrNull_eq_ok_iff, natOf_getD_eq_ok_iff, insertPool_eq_ok_iff]
    constructor
    · rintro ⟨market, ⟨base, quote, valid⟩, -, baseReserve, hb, quoteReserve, hq, baseFees, hbf,
        quoteFees, hqf, fresh, rfl⟩
      exact ⟨⟨market, ⟨baseReserve, quoteReserve, baseFees, quoteFees⟩⟩,
        ⟨fields, rfl, base, quote, valid, hb, hq, hbf, hqf⟩, fresh, rfl⟩
    · rintro ⟨⟨market, pool⟩, ⟨_, ⟨⟩, stated⟩, fresh, rfl⟩
      exact ⟨market, ⟨stated.base, stated.quote, stated.valid⟩, by simp [Store.hasPool, fresh],
        pool.baseReserve, stated.baseReserve, pool.quoteReserve, stated.quoteReserve,
        pool.baseFees, stated.baseFees, pool.quoteFees, stated.quoteFees, fresh, rfl⟩
  | _ =>
    constructor
    · rintro ⟨⟩
    · rintro ⟨_, ⟨_, ⟨⟩, _⟩, _⟩

/-- The market is known to be new when its pool is inserted. -/
theorem failsOnly_addPool (s : Store) (entry : Value) :
    Except.FailsOnly (addPool s entry) Fault.OfData := by
  cases entry with
  | map fields =>
    refine (failsOnly_marketOf fields).bind fun market => ?_
    split
    next => exact .error (Fault.ofData_snapshot _)
    next absent =>
      refine (failsOnly_natOf _ _).bind fun baseReserve =>
        (failsOnly_natOf _ _).bind fun quoteReserve => ?_
      refine (failsOnly_natOf _ _).bind fun baseFees =>
        (failsOnly_natOf _ _).bind fun quoteFees => ?_
      have fresh : s.pool? market = none := by simpa [Store.hasPool] using absent
      rw [insertPool_eq_ok_iff.2 ⟨fresh, rfl⟩]
      exact .ok _
  | _ => exact .error (Fault.ofData_snapshot _)

end Pools

section Positions

variable {s t : Store}

structure PositionFields (textLength : Nat) (fields : List (Value × Value)) (market : Market)
    (provider : Account) (position : Position) : Prop where
  base : field? "base" fields = some (.int market.base)
  quote : field? "quote" fields = some (.int market.quote)
  valid : market.Valid
  named : provider ≠ ""
  short : provider.length ≤ textLength
  provider : field? "provider" fields = some (.str provider)
  baseContributed : field? "base_contributed" fields = some (.int position.base)
  quoteContributed : field? "quote_contributed" fields = some (.int position.quote)

def StatesPosition (textLength : Nat) (entry : Value)
    (stated : (Market × Account) × Position) : Prop :=
  ∃ fields, entry = .map fields ∧ PositionFields textLength fields stated.1.1 stated.1.2 stated.2

theorem addPosition_eq_ok_iff {entry : Value} :
    addPosition textLength s entry = .ok t ↔
      ∃ stated, StatesPosition textLength entry stated ∧ s.hasPool stated.1.1 = true ∧
        s.position? stated.1.1 stated.1.2 = none ∧
          t = s.putPosition stated.1.1 stated.1.2 stated.2 := by
  cases entry with
  | map fields =>
    have given {provider : Account} : fieldOrNull "provider" fields = .str provider ↔
        field? "provider" fields = some (.str provider) := Value.fieldOrNull_eq_iff nofun
    simp only [addPosition, Except.bind_eq_ok_iff, Except.refuse_eq_ok_iff, marketOf_eq_ok_iff,
      natOf_fieldOrNull_eq_ok_iff, providerOf_eq_ok_iff, given]
    constructor
    · rintro ⟨market, ⟨base, quote, valid⟩, pooled, provider, ⟨provided, named, short⟩, absent,
        baseContributed, hb, quoteContributed, hq, ⟨⟩⟩
      exact ⟨⟨⟨market, provider⟩, ⟨baseContributed, quoteContributed⟩⟩,
        ⟨fields, rfl, base, quote, valid, named, short, provided, hb, hq⟩, by simpa using pooled,
        by simpa [Store.hasPosition] using absent, rfl⟩
    · rintro ⟨⟨⟨market, provider⟩, position⟩, ⟨_, ⟨⟩, stated⟩, pooled, fresh, rfl⟩
      exact ⟨market, ⟨stated.base, stated.quote, stated.valid⟩, by simpa using pooled, provider,
        ⟨stated.provider, stated.named, stated.short⟩, by simp [Store.hasPosition, fresh],
        position.base, stated.baseContributed, position.quote, stated.quoteContributed, rfl⟩
  | _ =>
    constructor
    · rintro ⟨⟩
    · rintro ⟨_, ⟨_, ⟨⟩, _⟩, _⟩

theorem failsOnly_addPosition (textLength : Nat) (s : Store) (entry : Value) :
    Except.FailsOnly (addPosition textLength s entry) Fault.OfData := by
  cases entry with
  | map fields =>
    refine (failsOnly_marketOf fields).bind fun market => ?_
    split
    next => exact .error (Fault.ofData_snapshot _)
    next =>
      refine (failsOnly_providerOf _ _).bind fun provider => ?_
      split
      next => exact .error (Fault.ofData_snapshot _)
      next =>
        exact (failsOnly_natOf _ _).bind fun base =>
          (failsOnly_natOf _ _).bind fun quote => .ok _
  | _ => exact .error (Fault.ofData_snapshot _)

end Positions

end Snapshot

end LiquidityPools
