import LiquidityPools.Ledger
import LiquidityPools.Proofs.Table

/-!
What a ledger's transfers do, and that its journal takes them back. A sound ledger keeps no zero and
no balance above its cap; every transfer leaves it sound. A ledger stands above another if rolling
it back to the other's mark gives the other again, journal and all.
-/

namespace LiquidityPools

namespace Balances

def Sound (b : Balances) : Prop :=
  ∀ k n, b.table.get? k = some n → 0 < n ∧ b.exceeded? n = none

theorem exceeded?_eq_none_iff {b : Balances} {n : Int} :
    b.exceeded? n = none ↔ ∀ cap ∈ b.cap, n ≤ cap.largest := by
  simp only [exceeded?, Option.filter_eq_none_iff, decide_eq_true_eq, Int.not_lt]
  exact Iff.rfl

theorem exceeded?_of_uncapped {b : Balances} (uncapped : b.cap = none) (n : Int) :
    b.exceeded? n = none := by
  rw [exceeded?, uncapped]
  rfl

theorem exceeded?_eq_none_of_le {b : Balances} {m n : Int} (h : m ≤ n)
    (fits : b.exceeded? n = none) :
    b.exceeded? m = none := by
  rw [exceeded?_eq_none_iff] at fits ⊢
  exact fun cap held => Int.le_trans h (fits cap held)

@[simp] theorem exceeded?_put (b : Balances) (a : Account) (x : Asset) (n : Nat) (m : Int) :
    (b.put a x n).exceeded? m = b.exceeded? m := rfl

theorem set_eq_ok_iff {b c : Balances} {a : Account} {x : Asset} {n : Int} :
    b.set a x n = .ok c ↔ 0 ≤ n ∧ b.exceeded? n = none ∧ c = b.put a x n.toNat := by
  unfold set
  split
  next negative => simp only [reduceCtorEq, false_iff]; omega
  next =>
    split
    next exceeded => simp [exceeded]
    next fits =>
      have : 0 ≤ n := by omega
      simp only [Except.ok.injEq, fits, this, true_and]
      exact eq_comm

theorem add_eq_ok_iff {b c : Balances} {a : Account} {x : Asset} {d : Int} :
    b.add a x d = .ok c ↔
      0 ≤ b.get a x + d ∧ b.exceeded? (b.get a x + d) = none ∧
        c = b.put a x (b.get a x + d).toNat := by
  simp only [add]
  split
  next negative => simp only [reduceCtorEq, false_iff]; omega
  next => exact set_eq_ok_iff

theorem subtract_eq_ok_iff {b c : Balances} {a : Account} {x : Asset} {d : Int} :
    b.subtract a x d = .ok c ↔
      0 ≤ d ∧ d ≤ b.get a x ∧ b.exceeded? (b.get a x - d) = none ∧
        c = b.put a x (b.get a x - d).toNat := by
  unfold subtract
  split
  next negative => simp only [reduceCtorEq, false_iff]; omega
  next nonneg =>
    rw [add_eq_ok_iff, ← Int.sub_eq_add_neg, Int.sub_nonneg]
    exact ⟨fun h => ⟨Int.not_lt.1 nonneg, h⟩, fun h => h.2⟩

def countFor (asset : Asset) (k : Account × Asset) (n : Nat) : Int := if k.2 = asset then n else 0

theorem total_eq_sum (b : Balances) (asset : Asset) :
    (b.total asset : Int) = b.table.sum (countFor asset) := by
  unfold total Table.sum countFor
  induction b.table.entries with
  | nil => rfl
  | cons e rest ih =>
    simp only [List.foldr_cons, List.map_cons, List.sum_cons]
    split <;> omega

theorem weight_countFor (b : Balances) (a : Account) (x asset : Asset) :
    b.table.weight (countFor asset) (a, x) = if x = asset then (b.get a x : Int) else 0 := by
  unfold Table.weight get countFor
  cases b.table.get? (a, x) <;> simp

theorem total_put (b : Balances) (a : Account) (x asset : Asset) (n : Nat) :
    ((b.put a x n).total asset : Int) =
      b.total asset + if x = asset then (n : Int) - b.get a x else 0 := by
  rw [total_eq_sum, total_eq_sum]
  unfold put
  split
  next zero =>
    subst zero
    rw [Table.sum_erase, weight_countFor]
    split <;> omega
  next =>
    rw [Table.sum_insert, weight_countFor, countFor]
    split <;> omega

namespace Sound

theorem put {b : Balances} (sound : b.Sound) (a : Account) (x : Asset) {n : Nat}
    (fits : b.exceeded? n = none) : (b.put a x n).Sound := by
  intro k m held
  rw [exceeded?_put]
  unfold Balances.put at held
  simp only at held
  split at held
  next =>
    rw [Table.get?_erase] at held
    split at held
    · simp at held
    · exact sound k m held
  next nonzero =>
    rw [Table.get?_insert] at held
    split at held
    · cases held
      exact ⟨Nat.pos_of_ne_zero nonzero, fits⟩
    · exact sound k m held

theorem empty (cap : Option Cap) : ({ cap } : Balances).Sound :=
  fun k n held => by simp at held

/-- Minting keeps balances sound, and so does whatever else goes through `add`. -/
theorem add {b c : Balances} (sound : b.Sound) {a : Account} {x : Asset} {d : Int}
    (done : b.add a x d = .ok c) : c.Sound := by
  obtain ⟨nonneg, fits, rfl⟩ := add_eq_ok_iff.1 done
  exact sound.put a x (by rw [Int.toNat_of_nonneg nonneg]; exact fits)

theorem subtract {b c : Balances} (sound : b.Sound) {a : Account} {x : Asset} {d : Int}
    (done : b.subtract a x d = .ok c) : c.Sound := by
  unfold Balances.subtract at done
  split at done
  · cases done
  · exact sound.add done

theorem fits {b : Balances} (sound : b.Sound) {a : Account} {x : Asset} (nonzero : b.get a x ≠ 0) :
    b.exceeded? (b.get a x) = none := by
  unfold get at nonzero ⊢
  cases held : b.table.get? (a, x) with
  | none => simp [held] at nonzero
  | some n => exact (sound _ n held).2

theorem ext {b c : Balances} (hb : b.Sound) (hc : c.Sound) (cap : b.cap = c.cap)
    (same : ∀ a x, b.get a x = c.get a x) : b = c := by
  have tables : b.table = c.table := by
    refine Table.ext_get? fun k => ?_
    have same := same k.1 k.2
    unfold get at same
    cases left : b.table.get? k with
    | none =>
      cases right : c.table.get? k with
      | none => rfl
      | some n =>
        have := (hc k n right).1
        simp only [left, right, Option.getD_none, Option.getD_some] at same
        omega
    | some m =>
      have := (hb k m left).1
      cases right : c.table.get? k with
      | none =>
        simp only [left, right, Option.getD_none, Option.getD_some] at same
        omega
      | some n =>
        simp only [left, right, Option.getD_some] at same
        rw [same]
  cases b; cases c
  simp only at tables cap
  rw [tables, cap]

end Sound

end Balances

def Movement.change (m : Movement) (asset : Asset) (account : Account) : Int :=
  (if asset = m.asset ∧ account = m.dest then (m.amount : Int) else 0) -
    if asset = m.asset ∧ account = m.source then (m.amount : Int) else 0

def Balances.changeOf (movements : List Movement) (asset : Asset) (account : Account) : Int :=
  (movements.map (·.change asset account)).sum

theorem Balances.changeOf_cons (m : Movement) (rest : List Movement) (asset : Asset)
    (account : Account) :
    changeOf (m :: rest) asset account = m.change asset account + changeOf rest asset account := by
  rw [changeOf, changeOf, List.map_cons, List.sum_cons]

@[simp] theorem Balances.changeOf_nil (asset : Asset) (account : Account) :
    changeOf [] asset account = 0 := rfl

theorem Balances.changeOf_append (first second : List Movement) (asset : Asset)
    (account : Account) :
    changeOf (first ++ second) asset account =
      changeOf first asset account + changeOf second asset account := by
  rw [changeOf, List.map_append, List.sum_append, changeOf, changeOf]

namespace Ledger

def Sound (l : Ledger) : Prop := l.balances.Sound

def Allows (l : Ledger) (m : Movement) : Prop :=
  m.amount ≤ l.balance m.asset m.source ∧
    l.balances.exceeded? ((l.balance m.asset m.dest : Int) + m.amount) = none

def carry (m : Movement) (l : Ledger) : Ledger :=
  let credited := l.balances.put m.dest m.asset (l.balance m.asset m.dest + m.amount)
  ⟨credited.put m.source m.asset (l.balance m.asset m.source - m.amount), m :: l.journal⟩

variable {l k : Ledger} {m : Movement} {asset : Asset} {source dest : Account} {amount : Nat}

theorem balances_of_mint {amount : Int} {account : Account}
    (minted : l.mint asset account amount = .ok k) :
    ∃ balances, l.balances.add account asset amount = .ok balances ∧ k = { l with balances } := by
  unfold mint at minted
  split at minted
  next balances added =>
    cases minted
    exact ⟨balances, added, rfl⟩
  next => cases minted

theorem move_of_idle (idle : amount = 0 ∨ source = dest) :
    l.move asset source dest amount = .ok l := if_pos idle

theorem move_of_moving (sound : l.Sound) (asset : Asset) (moving : amount ≠ 0 ∧ source ≠ dest) :
    (l.Allows ⟨asset, source, dest, amount⟩ ∧
        l.move asset source dest amount = .ok (l.carry ⟨asset, source, dest, amount⟩)) ∨
      (¬ l.Allows ⟨asset, source, dest, amount⟩ ∧
        ∃ cause, l.move asset source dest amount = .error (.transfer cause)) := by
  obtain ⟨nonzero, apart⟩ := moving
  simp only [move, nonzero, apart, or_self, if_false, Allows]
  split
  next short => exact .inr ⟨by omega, _, rfl⟩
  next enough =>
    cases credit : l.balances.add dest asset amount with
    | error cause =>
      refine .inr ⟨fun allowed => ?_, _, rfl⟩
      have done : l.balances.add dest asset amount = .ok _ :=
        Balances.add_eq_ok_iff.2 ⟨by omega, allowed.2, rfl⟩
      simp [credit] at done
    | ok credited =>
      obtain ⟨-, fits, rfl⟩ := Balances.add_eq_ok_iff.1 credit
      have paid : (l.balances.put dest asset (l.balance asset dest + amount)).get source asset =
          l.balance asset source := by
        rw [Balances.get_put, if_neg (by simp [apart])]
        rfl
      have debit : (l.balances.put dest asset (l.balance asset dest + amount)).subtract source asset
          amount = .ok (l.carry ⟨asset, source, dest, amount⟩).balances := by
        refine Balances.subtract_eq_ok_iff.2 ⟨by omega, by rw [paid]; omega, ?_, ?_⟩
        · rw [paid, Balances.exceeded?_put]
          refine Balances.exceeded?_eq_none_of_le (n := l.balance asset source) (by omega) ?_
          exact sound.fits (by unfold balance at enough; omega)
        · rw [paid]
          simp only [carry]
          congr 1
          omega
      have total : ((l.balances.get dest asset : Int) + amount).toNat =
          l.balance asset dest + amount := by
        unfold balance
        omega
      simp only [total, debit]
      exact .inl ⟨⟨by omega, fits⟩, rfl⟩

theorem move_eq_ok_iff (sound : l.Sound) :
    l.move asset source dest amount = .ok k ↔
      (amount = 0 ∨ source = dest) ∧ k = l ∨
        (amount ≠ 0 ∧ source ≠ dest) ∧ l.Allows ⟨asset, source, dest, amount⟩ ∧
          k = l.carry ⟨asset, source, dest, amount⟩ := by
  by_cases idle : amount = 0 ∨ source = dest
  · have still : ¬ (amount ≠ 0 ∧ source ≠ dest) := fun moving => idle.elim moving.1 moving.2
    simp only [move_of_idle idle, Except.ok.injEq, idle, still, true_and, false_and, or_false]
    exact eq_comm
  · have moving := not_or.1 idle
    rw [or_iff_right fun h => idle h.1, and_iff_right moving]
    rcases move_of_moving sound asset moving with ⟨allowed, done⟩ | ⟨refused, cause, done⟩
    · simp only [done, Except.ok.injEq, allowed, true_and]
      exact eq_comm
    · simp only [done, refused, reduceCtorEq, false_and]

theorem fault_of_move (sound : l.Sound) {fault : Fault}
    (failed : l.move asset source dest amount = .error fault) :
    ∃ cause, fault = .transfer cause := by
  by_cases idle : amount = 0 ∨ source = dest
  · simp [move_of_idle idle] at failed
  · rcases move_of_moving sound asset (not_or.1 idle) with
      ⟨-, done⟩ | ⟨-, cause, done⟩
    · simp [done] at failed
    · rw [done] at failed
      cases failed
      exact ⟨cause, rfl⟩

theorem move_of_transfer {amount : Value} (done : l.transfer asset source dest amount = .ok k) :
    ∃ n : Nat, l.move asset source dest n = .ok k := by
  cases amount with
  | int n =>
    rw [transfer] at done
    split at done
    · cases done
    · exact ⟨n.toNat, done⟩
  | _ => cases done

section Carry

variable (sound : l.Sound) (moving : m.amount ≠ 0 ∧ m.source ≠ m.dest) (allowed : l.Allows m)

include moving in
theorem balance_carry (paid : m.amount ≤ l.balance m.asset m.source) (asset : Asset)
    (account : Account) :
    ((l.carry m).balance asset account : Int) =
      l.balance asset account + m.change asset account := by
  have apart := moving.2
  unfold balance at paid ⊢
  unfold Movement.change
  simp only [carry, Balances.get_put, Prod.mk.injEq]
  by_cases here : asset = m.asset
  · subst here
    by_cases fromSource : account = m.source
    · have : account ≠ m.dest := fromSource ▸ apart
      simp only [fromSource, apart, and_self, if_true, if_false, and_true, and_false, balance]
      omega
    · by_cases toDest : account = m.dest
      · have : ¬ m.dest = m.source := fun h => apart h.symm
        simp only [toDest, this, and_self, and_true, and_false, if_true, if_false, balance]
        omega
      · simp only [fromSource, toDest, and_true, if_false]
        omega
  · simp only [here, and_false, false_and, if_false]
    omega

include sound allowed in
theorem sound_carry : (l.carry m).Sound := by
  have credited := Balances.Sound.put sound m.dest m.asset
    (n := l.balance m.asset m.dest + m.amount) (by simpa using allowed.2)
  refine credited.put m.source m.asset ?_
  rw [Balances.exceeded?_put]
  by_cases nothing : l.balance m.asset m.source = 0
  · refine Balances.exceeded?_eq_none_of_le ?_ allowed.2
    omega
  · refine Balances.exceeded?_eq_none_of_le (n := l.balance m.asset m.source) (by omega) ?_
    exact Balances.Sound.fits sound nothing

include moving in
theorem total_carry (paid : m.amount ≤ l.balance m.asset m.source) (asset : Asset) :
    (l.carry m).total asset = l.total asset := by
  have apart : ¬ m.source = m.dest := moving.2
  have total : ((l.carry m).total asset : Int) = l.total asset := by
    unfold balance at paid
    simp only [total, carry, Balances.total_put, Balances.get_put, Prod.mk.injEq, apart, false_and,
      if_false, balance]
    split <;> omega
  exact Int.ofNat.inj total

def debited (m : Movement) (l : Ledger) : Balances :=
  (l.carry m).balances.put m.dest m.asset (l.balance m.asset m.dest)

include moving allowed in
theorem subtract_carry :
    (l.carry m).balances.subtract m.dest m.asset m.amount = .ok (l.debited m) := by
  have apart : ¬ m.dest = m.source := fun h => moving.2 h.symm
  have held : (l.carry m).balances.get m.dest m.asset = l.balance m.asset m.dest + m.amount := by
    simp only [carry, Balances.get_put, Prod.mk.injEq, apart, false_and, if_false, if_true]
  refine Balances.subtract_eq_ok_iff.2 ⟨by omega, by omega, ?_, ?_⟩
  · rw [held]
    exact Balances.exceeded?_eq_none_of_le (by omega) allowed.2
  · rw [held, debited]
    congr 1
    omega

include sound moving allowed in
theorem add_debited : (l.debited m).add m.source m.asset m.amount = .ok l.balances := by
  have apart : ¬ m.dest = m.source := fun h => moving.2 h.symm
  have nonzero := moving.1
  have paid := allowed.1
  unfold balance at paid
  have held : (l.debited m).get m.source m.asset = l.balance m.asset m.source - m.amount := by
    simp only [debited, carry, Balances.get_put, Prod.mk.injEq, moving.2, false_and, if_false,
      if_true]
  have whole : (((l.balance m.asset m.source - m.amount : Nat) : Int) + m.amount).toNat =
      l.balance m.asset m.source := by
    unfold balance
    omega
  have fits : l.balances.exceeded? (l.balance m.asset m.source) = none :=
    Balances.Sound.fits sound (a := m.source) (x := m.asset) (by omega)
  have room : l.balances.exceeded? (l.balance m.asset m.dest) = none :=
    Balances.exceeded?_eq_none_of_le (by omega) allowed.2
  refine Balances.add_eq_ok_iff.2 ⟨by omega, ?_, ?_⟩
  · rw [held]
    refine Balances.exceeded?_eq_none_of_le (n := l.balance m.asset m.source) ?_ fits
    unfold balance
    omega
  · rw [held, whole]
    have restored := ((sound_carry sound allowed).put m.dest m.asset room).put m.source m.asset fits
    refine Balances.Sound.ext sound restored rfl fun a x => ?_
    simp only [debited, carry, Balances.get_put, Prod.mk.injEq, balance]
    by_cases atSource : a = m.source ∧ x = m.asset
    · simp [atSource]
    · by_cases atDest : a = m.dest ∧ x = m.asset
      · simp [atDest, apart]
      · simp [atSource, atDest]

include sound moving allowed in
theorem undo_carry (n : Nat) : undo (n + 1) (l.carry m) = undo n l := by
  have debit := subtract_carry moving allowed
  have credit := add_debited sound moving allowed
  have newest : (l.carry m).journal = m :: l.journal := rfl
  rw [undo]
  simp only [newest, debit, credit]

end Carry

section Journal

/-- Rolling back to this ledger's mark gives this ledger again. -/
structure Above (l k : Ledger) : Prop where
  le : l.checkpoint ≤ k.checkpoint
  rollback : k.rollback l.checkpoint = (.ok (), l)

theorem undo_empty (n : Nat) (b : Balances) : undo n ⟨b, []⟩ = (.ok (), ⟨b, []⟩) := by
  cases n <;> rfl

theorem undo_add (a b : Nat) : undo (a + b) = undo a >>= fun _ => undo b := by
  induction a with
  | zero => rw [Nat.zero_add]; rfl
  | succ a ih =>
    funext l
    obtain ⟨balances, journal⟩ := l
    rw [Nat.add_right_comm, Action.bind_apply]
    cases journal with
    | nil => rw [undo_empty, undo_empty]; exact (undo_empty b balances).symm
    | cons m journal =>
      simp only [undo]
      cases balances.subtract m.dest m.asset m.amount with
      | error cause => rfl
      | ok debited =>
        simp only
        cases debited.add m.source m.asset m.amount with
        | error cause => rfl
        | ok restored => simp only [ih, Action.bind_apply]

theorem journal_of_undo {n : Nat} (done : undo n k = (.ok (), l)) :
    l.journal = k.journal.drop n := by
  induction n generalizing k with
  | zero => cases done; rfl
  | succ n ih =>
    obtain ⟨balances, journal⟩ := k
    cases journal with
    | nil => rw [undo_empty] at done; cases done; rfl
    | cons m journal =>
      simp only [undo] at done
      split at done
      · cases done
      · split at done
        · cases done
        · exact ih done

namespace Above

theorem refl (l : Ledger) : l.Above l where
  le := Nat.le_refl _
  rollback := by
    rw [Ledger.rollback, checkpoint, Nat.sub_self]
    rfl

theorem trans {j : Ledger} (lower : l.Above k) (upper : k.Above j) : l.Above j where
  le := Nat.le_trans lower.le upper.le
  rollback := by
    have split : j.journal.length - l.checkpoint =
        (j.journal.length - k.checkpoint) + (k.journal.length - l.checkpoint) := by
      have := lower.le
      have := upper.le
      simp only [checkpoint] at *
      omega
    rw [Ledger.rollback, split, undo_add]
    exact (Action.bind_ok upper.rollback _).trans lower.rollback

theorem carry (sound : l.Sound) (moving : m.amount ≠ 0 ∧ m.source ≠ m.dest) (allowed : l.Allows m) :
    l.Above (l.carry m) where
  le := Nat.le_succ _
  rollback := by
    have one : (l.carry m).journal.length - l.checkpoint = 0 + 1 := by
      simp [Ledger.carry, checkpoint]
    rw [Ledger.rollback, one, undo_carry sound moving allowed]
    rfl

theorem commit (above : l.Above k) : k.commit l.checkpoint = { k with journal := l.journal } := by
  rw [Ledger.commit, journal_of_undo above.rollback]

end Above

theorem move_effect (sound : l.Sound) (done : l.move asset source dest amount = .ok k) :
    k.Sound ∧ l.Above k ∧ (∀ x, k.total x = l.total x) ∧
      ∀ x a, (k.balance x a : Int) =
        l.balance x a + Movement.change ⟨asset, source, dest, amount⟩ x a := by
  rcases (move_eq_ok_iff sound).1 done with ⟨idle, rfl⟩ | ⟨moving, allowed, rfl⟩
  · refine ⟨sound, .refl k, fun _ => rfl, fun x a => ?_⟩
    simp only [Movement.change]
    rcases idle with rfl | rfl
    · simp
    · omega
  · exact ⟨sound_carry sound allowed, .carry sound moving allowed,
      total_carry moving allowed.1, balance_carry moving allowed.1⟩

end Journal

end Ledger

end LiquidityPools
