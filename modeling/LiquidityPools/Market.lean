/-!
Assets, accounts and markets. A market is an ordered pair: exchanging its two assets names another
market, with a pool of its own.
-/

namespace LiquidityPools

/-- An asset's number. Ledgers hold assets of any number, markets only those that
`Market.assetLimit` allows. -/
abbrev Asset := Int

abbrev Account := String

structure Market where
  base : Asset
  quote : Asset
  deriving DecidableEq, Repr, Inhabited

namespace Market

def assetLimit : Asset := 255

instance : Ord Market := ⟨compareLex (compareOn base) (compareOn quote)⟩

instance : Std.TransOrd Market :=
  inferInstanceAs (Std.TransCmp (compareLex (compareOn base) (compareOn quote)))

instance : Std.LawfulEqOrd Market where
  compare_self := Std.ReflCmp.compare_self
  eq_of_compare {a b} h := by
    obtain ⟨hb, hq⟩ := Ordering.then_eq_eq.1 h
    cases a; cases b
    simp only [compareOn] at hb hq
    cases Std.LawfulEqCmp.eq_of_compare hb
    cases Std.LawfulEqCmp.eq_of_compare hq
    rfl

def label (m : Market) : String := toString m.base ++ "/" ++ toString m.quote

def pairText (m : Market) : String := "(" ++ toString m.base ++ ", " ++ toString m.quote ++ ")"

def flip (m : Market) : Market := ⟨m.quote, m.base⟩

@[simp] theorem flip_flip (m : Market) : m.flip.flip = m := rfl

end Market

instance : Ord (Market × Account) := ⟨compareLex (compareOn Prod.fst) (compareOn Prod.snd)⟩

instance : Std.TransOrd (Market × Account) :=
  inferInstanceAs (Std.TransCmp (compareLex (compareOn Prod.fst) (compareOn Prod.snd)))

instance : Std.LawfulEqOrd (Market × Account) where
  compare_self := Std.ReflCmp.compare_self
  eq_of_compare {a b} h := by
    obtain ⟨hm, hp⟩ := Ordering.then_eq_eq.1 h
    exact Prod.ext (Std.LawfulEqCmp.eq_of_compare hm) (Std.LawfulEqCmp.eq_of_compare hp)

instance : Ord (Account × Asset) := ⟨compareLex (compareOn Prod.fst) (compareOn Prod.snd)⟩

instance : Std.TransOrd (Account × Asset) :=
  inferInstanceAs (Std.TransCmp (compareLex (compareOn Prod.fst) (compareOn Prod.snd)))

instance : Std.LawfulEqOrd (Account × Asset) where
  compare_self := Std.ReflCmp.compare_self
  eq_of_compare {a b} h := by
    obtain ⟨ha, hs⟩ := Ordering.then_eq_eq.1 h
    exact Prod.ext (Std.LawfulEqCmp.eq_of_compare ha) (Std.LawfulEqCmp.eq_of_compare hs)

end LiquidityPools
