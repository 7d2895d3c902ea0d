import LiquidityPools.Amount

/-!
Building a market from two untyped values. The first fault found is reported: the base asset, then
the quote asset, then the two together.
-/

namespace LiquidityPools.Market

def assetOf (role : String) : Value → Except MarketFault Asset
  | .int n => if 0 ≤ n ∧ n ≤ assetLimit then .ok n else .error (.outOfRange role n)
  | _ => .error (.notInt role)

def ofValues (base quote : Value) : Except MarketFault Market := do
  let b ← assetOf "base_asset" base
  let q ← assetOf "quote_asset" quote
  if b = q then .error (.sameAsset b)
  pure ⟨b, q⟩

def Valid (m : Market) : Prop :=
  (0 ≤ m.base ∧ m.base ≤ assetLimit) ∧ (0 ≤ m.quote ∧ m.quote ≤ assetLimit) ∧ m.base ≠ m.quote

instance (m : Market) : Decidable m.Valid := inferInstanceAs (Decidable (_ ∧ _ ∧ _))

theorem assetOf_eq_ok_iff {role : String} {value : Value} {asset : Asset} :
    assetOf role value = .ok asset ↔ value = .int asset ∧ 0 ≤ asset ∧ asset ≤ assetLimit := by
  unfold assetOf
  split
  next n =>
    split
    · simp only [Except.ok.injEq, Value.int.injEq]
      exact ⟨fun h => by subst h; simp_all, fun h => h.1⟩
    next outside =>
      simp only [reduceCtorEq, false_iff, Value.int.injEq]
      rintro ⟨rfl, inside⟩
      exact outside inside
  next other =>
    simp only [reduceCtorEq, false_iff]
    rintro ⟨rfl, -⟩
    exact other asset rfl

theorem ofValues_eq_ok_iff {base quote : Value} {m : Market} :
    ofValues base quote = .ok m ↔ base = .int m.base ∧ quote = .int m.quote ∧ m.Valid := by
  simp only [ofValues, Valid]
  cases hb : assetOf "base_asset" base with
  | error fault =>
    simp only [bind, Except.bind, reduceCtorEq, false_iff]
    rintro ⟨rfl, -, inside, -⟩
    simp [assetOf_eq_ok_iff.2 ⟨rfl, inside⟩] at hb
  | ok b =>
    obtain ⟨rfl, insideBase⟩ := assetOf_eq_ok_iff.1 hb
    simp only [bind, Except.bind]
    cases hq : assetOf "quote_asset" quote with
    | error fault =>
      simp only [reduceCtorEq, false_iff]
      rintro ⟨-, rfl, -, inside, -⟩
      simp [assetOf_eq_ok_iff.2 ⟨rfl, inside⟩] at hq
    | ok q =>
      obtain ⟨rfl, insideQuote⟩ := assetOf_eq_ok_iff.1 hq
      obtain ⟨mb, mq⟩ := m
      simp only [Value.int.injEq]
      split
      next same =>
        simp only [reduceCtorEq, false_iff]
        rintro ⟨rfl, rfl, -, -, differ⟩
        exact differ same
      next differ =>
        simp only [pure, Except.pure, Except.ok.injEq, Market.mk.injEq]
        constructor
        · rintro ⟨rfl, rfl⟩
          exact ⟨rfl, rfl, insideBase, insideQuote, differ⟩
        · rintro ⟨rfl, rfl, -⟩
          exact ⟨rfl, rfl⟩

end LiquidityPools.Market
