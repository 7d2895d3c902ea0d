import LiquidityPools.Proofs.Solvency

/-!
What an operation comes to, read off the books before it runs. Over the exchange's own ledger,
without a cap on balances, a solvent exchange carries out whatever its checks let through, so the
checks alone say which kind of fault an operation ends with, or what it answers. They are made in a
fixed order: first whether there is a pool, then what the caller holds, then the amounts.
-/

namespace LiquidityPools

variable {ρ : Type}

theorem Amount.sub_of_fits {cap : Int} {a : Nat} (fits : (a : Int) ≤ cap) (b : Nat) :
    sub cap a b = if a < b then .error (.arithmetic (.underflow .sub (a - b)))
      else .ok (a - b) := by
  split
  next short => rw [sub, bounded, if_pos (by omega)]
  next enough => exact sub_eq_ok_iff.2 ⟨by omega, rfl, by omega⟩

def Store.withdrawal (s : Store) (caller : Account) (market : Market) (base quote : Nat) :
    Except Fault Position :=
  let held := s.position market caller
  match s.pool? market with
  | none => .error (.marketMissing market)
  | some pool =>
    if held.base < base ∨ held.quote < quote then
      .error (.shortPosition caller market (held.base, held.quote) (base, quote))
    else if pool.baseReserve < base then
      .error (.arithmetic (.underflow .sub (pool.baseReserve - base)))
    else if pool.quoteReserve < quote then
      .error (.arithmetic (.underflow .sub (pool.quoteReserve - quote)))
    else .ok ⟨held.base - base, held.quote - quote⟩

namespace Books

variable (c : Config) (b : Books) (caller : Account) (market : Market) (base quote : Nat)

def Short : Prop :=
  b.balances.get caller market.base < base ∨ b.balances.get caller market.quote < quote

instance : Decidable (b.Short caller market base quote) := inferInstanceAs (Decidable (_ ∨ _))

def opening : Except Fault.Kind Pool :=
  if b.store.hasPool market then .error .marketExists
  else if b.Short caller market base quote then .error .notEnoughBalance
  else .ok { baseReserve := base, quoteReserve := quote }

def adding : Except Fault.Kind Position :=
  let held := b.store.position market caller
  match b.store.pool? market with
  | none => .error .marketMissing
  | some pool =>
    if b.Short caller market base quote then .error .notEnoughBalance
    else if (pool.baseReserve + base ≤ c.cap ∧ pool.quoteReserve + quote ≤ c.cap) ∧
        held.base + base ≤ c.cap ∧ held.quote + quote ≤ c.cap then
      .ok ⟨held.base + base, held.quote + quote⟩
    else .error .arithmetic

def trading (side : Side) (amount least : Nat) : Except Fault.Kind Quote :=
  match b.store.pool? market with
  | none => .error .marketMissing
  | some pool =>
    if b.balances.get caller (side.orient market.base market.quote).1 < amount then
      .error .notEnoughBalance
    else
      match (Quote.price c.cap pool side amount c.feeRate).toOption with
      | none => .error .arithmetic
      | some quote =>
        if quote.receiveAmount < least then .error .slippage
        else if Exchange.spentFees side pool + quote.fee ≤ c.cap then .ok quote
        else .error .arithmetic

end Books

namespace Exchange

variable {x : Exchange ρ} {caller : Account} {market : Market} {base quote : Nat}

theorem Ends.payBoth {β : Type} {f : Unit → Action (Exchange ρ) β} {source dest : Account}
    {fails : Fault → Prop} {last : β → Exchange ρ → Prop} (roomy : x.Roomy)
    (apart : market.base ≠ market.quote) (baseHeld : base ≤ x.balance market.base source)
    (quoteHeld : quote ≤ x.balance market.quote source)
    (later : ∀ y : Exchange ρ, y.Roomy → y.store = x.store → Ends (f ()) y fails last) :
    Ends (Carrier.direct.transfer market.base source dest base >>= fun _ =>
      Carrier.direct.transfer market.quote source dest quote >>= f) x fails last := by
  refine .direct roomy baseHeld fun y roomy store _ changes => ?_
  have quoteKept := changes market.quote source
  rw [Movement.change_of_ne_asset apart.symm] at quoteKept
  refine .direct roomy (by omega) fun z roomy store' _ _ => ?_
  exact later z roomy (store'.trans store)

/-- Whoever holds what a trade spends can pay the net amount and then the fee; who pays out the
other asset holds as much of it after that as before. -/
theorem Ends.payTrade {β : Type} {f : Unit → Action (Exchange ρ) β} {pool fees : Account}
    {spent received : Asset} {net fee out : Nat} {fails : Fault → Prop}
    {last : β → Exchange ρ → Prop}
    (roomy : x.Roomy) (apart : received ≠ spent) (enough : net + fee ≤ x.balance spent caller)
    (held : out ≤ x.balance received pool)
    (later : ∀ y : Exchange ρ, y.Roomy → y.store = x.store → Ends (f ()) y fails last) :
    Ends (Carrier.direct.transfer spent caller pool net >>= fun _ =>
      Carrier.direct.transfer spent caller fees fee >>= fun _ =>
        Carrier.direct.transfer received pool caller out >>= f) x fails last := by
  refine .direct roomy (by omega) fun y roomy store _ changes => ?_
  have left := changes spent caller
  have taken := Movement.neg_le_change spent caller pool net spent caller
  have kept := changes received pool
  rw [Movement.change_of_ne_asset apart] at kept
  refine .direct roomy (by omega) fun z roomy store' _ changes' => ?_
  have kept' := changes' received pool
  rw [Movement.change_of_ne_asset apart] at kept'
  refine .direct roomy (by omega) fun w roomy store'' _ _ => ?_
  exact later w roomy (store''.trans (store'.trans store))

abbrev Foreseen {α : Type} (m : Action (Exchange ρ) α) (x : Exchange ρ)
    (spec : Except Fault.Kind α) :
    Prop :=
  Ends m x (fun fault => spec = .error fault.kind) fun a _ => spec = .ok a

theorem foreseen_openPool (roomy : x.Roomy) (apart : market.base ≠ market.quote) :
    Foreseen (openPool .direct caller market base quote) x
      (x.books.opening caller market base quote) := by
  refine .read ?_
  dsimp only
  split
  next taken => exact .inl ⟨_, _, rfl, if_pos taken⟩
  next absent =>
    have spec : x.books.opening caller market base quote =
        if x.books.Short caller market base quote then .error .notEnoughBalance
        else .ok { baseReserve := base, quoteReserve := quote } := if_neg absent
    refine .requireBalance (fun short => spec.trans (if_pos (.inl short))) fun baseHeld => ?_
    refine .requireBalance (fun short => spec.trans (if_pos (.inr short))) fun quoteHeld => ?_
    refine .read (.payBoth roomy apart baseHeld quoteHeld fun y _ store => ?_)
    have free : y.store.pool? market = none := by
      rw [store]
      simpa [Store.hasPool] using absent
    have held : ¬ x.books.Short caller market base quote :=
      not_or.2 ⟨Nat.not_lt.2 baseHeld, Nat.not_lt.2 quoteHeld⟩
    refine .insertPool free (.step (Action.modify_apply ..) (.step (emit_eq ..) ?_))
    exact .pure (spec.trans (if_neg held))

theorem foreseen_addLiquidity (roomy : x.Roomy) (apart : market.base ≠ market.quote) :
    Foreseen (addLiquidity .direct caller market base quote) x
      (x.books.adding x.config caller market base quote) := by
  have missing (absent : x.store.pool? market = none) :
      x.books.adding x.config caller market base quote = .error .marketMissing := by
    have absent : x.books.store.pool? market = none := absent
    rw [Books.adding, absent]
  refine .requirePool missing fun pool held => ?_
  have spec : x.books.adding x.config caller market base quote =
      if x.books.Short caller market base quote then .error .notEnoughBalance
      else if (pool.baseReserve + base ≤ x.cap ∧ pool.quoteReserve + quote ≤ x.cap) ∧
          (x.store.position market caller).base + base ≤ x.cap ∧
          (x.store.position market caller).quote + quote ≤ x.cap then
        .ok ⟨(x.store.position market caller).base + base,
          (x.store.position market caller).quote + quote⟩
      else .error .arithmetic := by
    have held : x.books.store.pool? market = some pool := held
    rw [Books.adding, held]
    rfl
  refine .requireBalance (fun short => spec.trans (if_pos (.inl short))) fun baseHeld => ?_
  refine .requireBalance (fun short => spec.trans (if_pos (.inr short))) fun quoteHeld => ?_
  have enough : ¬ x.books.Short caller market base quote :=
    not_or.2 ⟨Nat.not_lt.2 baseHeld, Nat.not_lt.2 quoteHeld⟩
  rw [if_neg enough] at spec
  have overflow {fault : Fault} (arithmetic : fault.IsArithmetic)
      (unfit : ¬ ((pool.baseReserve + base ≤ x.cap ∧ pool.quoteReserve + quote ≤ x.cap) ∧
        (x.store.position market caller).base + base ≤ x.cap ∧
        (x.store.position market caller).quote + quote ≤ x.cap)) :
      x.books.adding x.config caller market base quote = .error fault.kind := by
    rw [spec, if_neg unfit, arithmetic.kind]
  refine .read (.add (fun large fault told => overflow told (by omega)) fun baseFits => ?_)
  refine .add (fun large fault told => overflow told (by omega)) fun quoteFits => .read ?_
  refine .add (fun large fault told => overflow told (by omega)) fun baseRoom => ?_
  refine .add (fun large fault told => overflow told (by omega)) fun quoteRoom => .read ?_
  refine .payBoth roomy apart baseHeld quoteHeld fun y _ store => ?_
  have held' : y.store.pool? market = some pool := by rw [store]; exact held
  refine .putPool held' (.step (putPosition_eq ..) (.step (emit_eq ..) (.pure ?_)))
  exact spec.trans (if_pos (by omega))

theorem ends_removeLiquidity (solvent : x.Solvent) :
    let spec := x.store.withdrawal caller market base quote
    Ends (removeLiquidity .direct caller market base quote) x (fun fault => spec = .error fault)
      fun position _ => spec = .ok position := by
  refine .requirePool (fun absent => by simp only [Store.withdrawal, absent]) fun pool held => ?_
  obtain ⟨valid, fits⟩ := solvent.books.wellFormed.pools market pool held
  have heldFits := solvent.books.wellFormed.position_fits market caller
  have covers := solvent.covers held
  have room {n : Nat} (fits : x.config.Fits n) : (n : Int) ≤ x.cap :=
    Int.ofNat_le.2 (Config.fits_iff.1 fits)
  simp only [Store.withdrawal, held]
  refine .read ?_
  split
  next short => exact .inl ⟨_, _, rfl, rfl⟩
  next covered =>
    obtain ⟨baseCovered, quoteCovered⟩ := not_or.1 covered
    refine .read ?_
    refine .computed ((Amount.sub_of_fits (room heldFits.base) _).trans (if_neg baseCovered)) ?_
    refine .computed ((Amount.sub_of_fits (room heldFits.quote) _).trans (if_neg quoteCovered)) ?_
    rw [Amount.sub_of_fits (room fits.baseReserve), Amount.sub_of_fits (room fits.quoteReserve)]
    by_cases baseShort : pool.baseReserve < base
    · simp only [if_pos baseShort]
      exact .inl ⟨_, _, rfl, rfl⟩
    by_cases quoteShort : pool.quoteReserve < quote
    · simp only [if_neg baseShort, if_pos quoteShort]
      exact .inl ⟨_, _, rfl, rfl⟩
    simp only [if_neg baseShort, if_neg quoteShort]
    refine .computed rfl (.computed rfl (.read ?_))
    have baseHeld := covers.baseReserve
    have quoteHeld := covers.quoteReserve
    refine .payBoth solvent.roomy valid.2.2 (by omega) (by omega) fun y _ store => ?_
    have held' : y.store.pool? market = some pool := by rw [store]; exact held
    refine .step (putPool_eq held' _) (.step (putPosition_eq ..) (.step (emit_eq ..) ?_))
    exact .pure rfl

theorem foreseen_swap (solvent : x.Solvent) {side : Side} {amount least : Nat} :
    Foreseen (swap .direct side caller market amount least) x
      (x.books.trading x.config caller market side amount least) := by
  have missing (absent : x.store.pool? market = none) :
      x.books.trading x.config caller market side amount least = .error .marketMissing := by
    have absent : x.books.store.pool? market = none := absent
    rw [Books.trading, absent]
  refine .requirePool missing fun pool held => ?_
  obtain ⟨valid, -⟩ := solvent.books.wellFormed.pools market pool held
  have covers := solvent.covers held
  have spec : x.books.trading x.config caller market side amount least =
      if x.balance (side.orient market.base market.quote).1 caller < amount then
        .error .notEnoughBalance
      else
        match (Quote.price x.config.cap pool side amount x.config.feeRate).toOption with
        | none => .error .arithmetic
        | some quote =>
          if quote.receiveAmount < least then .error .slippage
          else if spentFees side pool + quote.fee ≤ x.config.cap then .ok quote
          else .error .arithmetic := by
    have held : x.books.store.pool? market = some pool := held
    rw [Books.trading, held]
    rfl
  refine .requireBalance (fun short => spec.trans (if_pos short)) fun enough => .read ?_
  have affords : ¬ x.balance (side.orient market.base market.quote).1 caller < amount :=
    Nat.not_lt.2 enough
  rw [if_neg affords] at spec
  refine .lift (fun fault failed => ?_) fun quote priced => ?_
  · rw [spec, failed, (Quote.failsOnly_price fault failed).kind]
    rfl
  rw [priced] at spec
  have spec : x.books.trading x.config caller market side amount least =
      if quote.receiveAmount < least then .error .slippage
      else if spentFees side pool + quote.fee ≤ x.config.cap then .ok quote
      else .error .arithmetic := spec
  dsimp only
  split
  next slipped => exact .inl ⟨_, _, rfl, spec.trans (if_pos slipped)⟩
  next fair =>
    rw [if_neg fair] at spec
    refine .add (fun large fault told => ?_) fun room => ?_
    · rw [spec, if_neg (by omega), told.kind]
    rw [if_pos (by omega)] at spec
    obtain ⟨rfl, spent, -, shrinks⟩ := Quote.balanced_of_price priced
    have apart : (quote.side.orient market.base market.quote).2 ≠
        (quote.side.orient market.base market.quote).1 := by
      cases quote.side with
      | buy => exact valid.2.2
      | sell => exact valid.2.2.symm
    have received : quote.receiveAmount ≤
        x.balance (quote.side.orient market.base market.quote).2 x.config.poolAccount := by
      refine Nat.le_trans (Nat.le.intro ((Nat.add_comm ..).trans shrinks)) ?_
      cases quote.side with
      | buy => exact covers.baseReserve
      | sell => exact covers.quoteReserve
    refine .payTrade solvent.roomy apart (by rw [spent]; exact enough) received fun y _ store => ?_
    have held' : y.store.pool? market = some pool := by rw [store]; exact held
    exact .putPool held' (.step (emit_eq ..) (.pure spec))

end Exchange

end LiquidityPools
