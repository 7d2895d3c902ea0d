import LiquidityPools.Proofs.Carrier
import LiquidityPools.Proofs.Body

/-!
Steps that cannot see how many units are open around them. The bodies of the operations are such
steps, over a carrier that follows a policy, and so a unit around an outermost one makes no
difference.
-/

namespace LiquidityPools

variable {ρ α β : Type}

namespace Carrier

/-- A rule by which a carrier refuses transfers. It sees the ledger, and may remember what it has
seen. -/
abbrev Policy (ρ : Type) := ρ → Ledger → Movement → Option TransferFault × ρ

def following (policy : Policy ρ) : Carrier ρ where
  transfer asset source dest amount := fun x =>
    match policy x.host x.ledger ⟨asset, source, dest, amount⟩ with
    | (some cause, host) => (.error (.transfer cause), { x with host })
    | (none, host) => direct.transfer asset source dest amount { x with host }

theorem plain_following (policy : Policy ρ) : (following policy).Plain := by
  intro asset source dest amount x
  refine ⟨(policy x.host x.ledger ⟨asset, source, dest, amount⟩).2, ?_⟩
  simp only [following]
  split
  next cause host decided => exact .inl ⟨cause, by rw [decided]⟩
  next host decided => exact .inr (by rw [decided])

end Carrier

namespace Exchange

def enclosed (x : Exchange ρ) : Exchange ρ :=
  { x with
    store := { x.store with depth := x.store.depth + 1 }
    openUnits := x.openUnits ++ [[]] }

/-- A journaled step that, inside a unit, does the same whether or not one more unit is open
around. -/
structure Unaware (m : Action (Exchange ρ) α) : Prop where
  journaled : Journaled m
  same : ∀ x : Exchange ρ, x.Sound → x.Inside → m x.enclosed = ((m x).1, (m x).2.enclosed)

namespace Unaware

variable {m : Action (Exchange ρ) α} {f : α → Action (Exchange ρ) β}

theorem pure (a : α) : Unaware (Pure.pure a : Action (Exchange ρ) α) :=
  ⟨journaled_pure a, fun _ _ _ => rfl⟩

theorem fail (fault : Fault) : Unaware (Action.fail fault : Action (Exchange ρ) α) :=
  ⟨journaled_fail fault, fun _ _ _ => rfl⟩

theorem read {g : Exchange ρ → α} (same : ∀ x : Exchange ρ, g x.enclosed = g x) :
    Unaware (Action.read g) :=
  ⟨journaled_read g, fun x _ _ => by simp only [Action.read_apply, same]⟩

theorem lift (outcome : Except Fault α) : Unaware (liftM outcome : Action (Exchange ρ) α) :=
  ⟨journaled_lift outcome, fun _ _ _ => rfl⟩

theorem bind (first : Unaware m) (next : ∀ a, Unaware (f a)) : Unaware (m >>= f) where
  journaled := first.journaled.bind fun a => (next a).journaled
  same := by
    intro x sound inside
    obtain ⟨events, above⟩ := first.journaled x sound inside
    rw [Action.bind_apply, Action.bind_apply, first.same x sound inside]
    cases h : m x with
    | mk outcome z =>
      rw [h] at above
      cases outcome with
      | error fault => rfl
      | ok a => exact (next a).same z above.sound (above.inside inside)

theorem map (unaware : Unaware m) (g : α → β) : Unaware (g <$> m) :=
  unaware.bind fun a => .pure (g a)

section Requirements

variable {market : Market} {asset : Asset} {account source dest : Account} {amount : Nat}

theorem requirePool : Unaware (requirePool market : Action (Exchange ρ) Pool) where
  journaled := journaled_requirePool market
  same x _ _ := by
    have same : x.enclosed.store.pool? market = x.store.pool? market := rfl
    simp only [Exchange.requirePool, same]
    split <;> rfl

theorem requireBalance :
    Unaware (requireBalance asset account amount : Action (Exchange ρ) Unit) where
  journaled := journaled_requireBalance asset account amount
  same x _ _ := by
    have same : x.enclosed.balance asset account = x.balance asset account := rfl
    simp only [Exchange.requireBalance, same]
    split <;> rfl

theorem insertPool (pool : Pool) : Unaware (insertPool market pool : Action (Exchange ρ) Unit) where
  journaled := journaled_insertPool market pool
  same x _ _ := by
    have same : x.enclosed.store.pool? market = x.store.pool? market := rfl
    simp only [Exchange.insertPool, Lens.change, storePlace, Store.insertPool, same]
    cases x.store.pool? market <;> rfl

theorem putPool (pool : Pool) : Unaware (putPool market pool : Action (Exchange ρ) Unit) where
  journaled := journaled_putPool market pool
  same x _ _ := by
    have same : x.enclosed.store.pool? market = x.store.pool? market := rfl
    simp only [Exchange.putPool, Lens.change, storePlace, Store.putPool, same]
    cases x.store.pool? market <;> rfl

theorem recordPosition (position : Position) :
    Unaware (Action.modify (storePlace.modify (Store.putPosition market account position)) :
      Action (Exchange ρ) Unit) :=
  ⟨journaled_recordPosition market account position, fun _ _ _ => rfl⟩

theorem putPosition (position : Position) :
    Unaware (putPosition market account position : Action (Exchange ρ) Unit) where
  journaled := journaled_putPosition market account position
  same x _ _ := by
    have same : x.enclosed.store.hasPosition market account =
        x.store.hasPosition market account := rfl
    simp only [Exchange.putPosition, Action.modify_apply, same]
    split <;> rfl

theorem emit (event : Event) : Unaware (emit event : Action (Exchange ρ) Unit) where
  journaled := journaled_emit event
  same x _ inside := by
    obtain ⟨innermost, outer, units⟩ := List.exists_cons_of_ne_nil inside.openUnits
    simp only [emit_eq, enclosed, units, List.cons_append, List.modifyHead_cons]

theorem transfer (policy : Carrier.Policy ρ) :
    Unaware ((Carrier.following policy).transfer asset source dest amount) where
  journaled := (Carrier.plain_following policy).journaled asset source dest amount
  same x _ _ := by
    simp only [Carrier.following, Carrier.direct, Lens.change, ledgerPlace, enclosed]
    split
    next => rfl
    next => split <;> rfl

end Requirements

section Bodies

variable (policy : Carrier.Policy ρ) (caller : Account) (market : Market) (base quote : Nat)

theorem openPool : Unaware (openPool (.following policy) caller market base quote) := by
  refine .bind (.read fun _ => rfl) fun taken => ?_
  dsimp only
  split
  · exact .fail _
  refine .bind .requireBalance fun _ => .bind .requireBalance fun _ => ?_
  refine .bind (.read fun _ => rfl) fun custody => ?_
  refine .bind (.transfer policy) fun _ => .bind (.transfer policy) fun _ => ?_
  refine .bind (.insertPool _) fun _ => .bind (.recordPosition _) fun _ => ?_
  exact .bind (.emit _) fun _ => .pure _

theorem addLiquidity : Unaware (addLiquidity (.following policy) caller market base quote) := by
  refine .bind .requirePool fun pool => ?_
  refine .bind .requireBalance fun _ => .bind .requireBalance fun _ => ?_
  refine .bind (.read fun _ => rfl) fun cap => .bind (.lift _) fun _ => .bind (.lift _) fun _ => ?_
  refine .bind (.read fun _ => rfl) fun held => .bind (.lift _) fun _ => .bind (.lift _) fun _ => ?_
  refine .bind (.read fun _ => rfl) fun custody => ?_
  refine .bind (.transfer policy) fun _ => .bind (.transfer policy) fun _ => ?_
  refine .bind (.putPool _) fun _ => .bind (.putPosition _) fun _ => ?_
  exact .bind (.emit _) fun _ => .pure _

theorem removeLiquidity :
    Unaware (removeLiquidity (.following policy) caller market base quote) := by
  refine .bind .requirePool fun pool => .bind (.read fun _ => rfl) fun held => ?_
  dsimp only
  split
  · exact .fail _
  refine .bind (.read fun _ => rfl) fun cap => .bind (.lift _) fun _ => .bind (.lift _) fun _ => ?_
  refine .bind (.lift _) fun _ => .bind (.lift _) fun _ => ?_
  refine .bind (.read fun _ => rfl) fun custody => ?_
  refine .bind (.transfer policy) fun _ => .bind (.transfer policy) fun _ => ?_
  refine .bind (.putPool _) fun _ => .bind (.putPosition _) fun _ => ?_
  exact .bind (.emit _) fun _ => .pure _

theorem swap (side : Side) (amount least : Nat) :
    Unaware (swap (.following policy) side caller market amount least) := by
  refine .bind .requirePool fun pool => .bind .requireBalance fun _ => ?_
  refine .bind (.read fun _ => rfl) fun config => .bind (.lift _) fun quote => ?_
  dsimp only
  split
  · exact .fail _
  refine .bind (.lift _) fun collected => ?_
  refine .bind (.transfer policy) fun _ => .bind (.transfer policy) fun _ => ?_
  refine .bind (.transfer policy) fun _ => .bind (.putPool _) fun _ => ?_
  exact .bind (.emit _) fun _ => .pure _

end Bodies

end Unaware

section Nesting

variable {x y : Exchange ρ} {events : List Event}

theorem openUnits_above (above : x.opened.Above events y) (outermost : x.openUnits = []) :
    y.openUnits = [events] := by
  rw [above.openUnits, opened, outermost]
  rfl

theorem closed_enclosed (above : x.opened.Above events y) (outermost : x.openUnits = []) :
    x.opened.closed y.enclosed events = y := by
  have around : x.opened.openUnits = [[]] := by rw [opened, outermost]
  have deep : x.opened.store.depth ≠ 0 := Nat.succ_ne_zero _
  have depth : x.opened.store.depth = y.store.depth := above.store.depth.symm
  rw [closed, if_neg deep]
  simp only [deliver, around, enclosed, List.nil_append, depth, ← openUnits_above above outermost]

theorem Unaware.collect_unit {body : Action (Exchange ρ) α} (unaware : Unaware body)
    (sound : x.Sound) (outermost : x.openUnits = []) : collect (unit body) x = collect body x := by
  have nested : x.opened.enclosed = x.opened.opened := by
    simp only [opened, enclosed, outermost, List.cons_append, List.nil_append]
  have twice := unaware.same x.opened sound.opened (inside_opened x)
  obtain ⟨events, above⟩ := unaware.journaled x.opened sound.opened (inside_opened x)
  obtain ⟨events', above'⟩ :=
    unaware.journaled x.opened.opened sound.opened.opened (inside_opened x.opened)
  rw [nested] at twice
  rw [collect_eq, collect_eq]
  cases ran : body x.opened with
  | mk outcome y =>
    rw [ran] at above twice
    rw [twice] at above'
    cases outcome with
    | error fault =>
      have inner : unit body x.opened = (.error fault, { x.opened with host := y.host }) := by
        refine Action.bind_error ?_ _
        rw [collect_eq, twice]
        exact leave_error above' fault
      rw [inner, leave_error ((Above.refl sound.opened).withHost _), leave_error above]
    | ok a =>
      have same : events' = events := by
        have units : y.openUnits ++ [[]] = events' :: x.opened.openUnits := above'.openUnits
        rw [openUnits_above above outermost] at units
        exact (List.cons.inj units).1.symm
      have inner : unit body x.opened = (.ok a, y) := by
        refine (Action.bind_ok (a := (a, events)) (t := y) ?_ _).trans rfl
        rw [collect_eq, twice, leave_ok above', same, closed_enclosed above outermost]
      rw [inner]

end Nesting

end Exchange

end LiquidityPools
