import LiquidityPools.Proofs.Ledger

/-!
Rolling back past mints. A mint is not journaled: what it credits stays when the transfers around it
are taken back. To take a transfer back, its receiver has to have the amount still, and its source
has to have room for it. Nothing but transfers takes from a balance, so that the first is always so;
but on a ledger with a cap, mints can use up the room. Wherever they have not, a rollback to a mark
returns, every account has what it had at the mark and what was minted to it since, and every total
has grown by what was minted of its asset.
-/

namespace LiquidityPools

namespace Movement

def reverse (m : Movement) : Movement := ⟨m.asset, m.dest, m.source, m.amount⟩

theorem change_reverse (m : Movement) (asset : Asset) (account : Account) :
    m.reverse.change asset account = -m.change asset account := by
  rw [change, change, Int.neg_sub]
  rfl

theorem change_dest {m : Movement} (apart : m.source ≠ m.dest) :
    m.change m.asset m.dest = m.amount := by
  simp [change, apart.symm]

theorem change_source {m : Movement} (apart : m.source ≠ m.dest) :
    m.change m.asset m.source = -m.amount := by
  simp [change, apart]

end Movement

namespace Ledger

variable {l k : Ledger} {m : Movement} {older : List Movement} {n : Nat}

section Retracting

def without (n : Nat) (l : Ledger) (asset : Asset) (account : Account) : Int :=
  l.balance asset account - Balances.changeOf (l.journal.take n) asset account

/-- Taken back one after another, each of the newest `n` transfers finds room where it came from. -/
def RoomFor (n : Nat) (l : Ledger) : Prop :=
  ∀ i < n, ∀ m ∈ l.journal[i]?, l.balances.exceeded? (l.without (i + 1) m.asset m.source) = none

instance (n : Nat) (l : Ledger) : Decidable (l.RoomFor n) :=
  inferInstanceAs (Decidable (∀ i < n, ∀ m ∈ l.journal[i]?, _))

theorem without_zero (l : Ledger) (asset : Asset) (account : Account) :
    l.without 0 asset account = l.balance asset account := by
  rw [without, List.take_zero, Balances.changeOf_nil, Int.sub_zero]

theorem without_succ (newest : l.journal = m :: older) (n : Nat) (asset : Asset)
    (account : Account) :
    l.without (n + 1) asset account =
      l.balance asset account - m.change asset account -
        Balances.changeOf (older.take n) asset account := by
  rw [without, newest, List.take_succ_cons, Balances.changeOf_cons]
  omega

theorem without_carry (moving : m.amount ≠ 0 ∧ m.source ≠ m.dest)
    (paid : m.amount ≤ l.balance m.asset m.source) (n : Nat) (asset : Asset) (account : Account) :
    (l.carry m).without (n + 1) asset account = l.without n asset account := by
  rw [without_succ rfl, balance_carry moving paid, without]
  omega

theorem roomFor_of_uncapped (uncapped : l.balances.cap = none) (n : Nat) : l.RoomFor n :=
  fun _ _ _ _ => Balances.exceeded?_of_uncapped uncapped _

theorem RoomFor.mono {i : Nat} (room : l.RoomFor n) (le : i ≤ n) : l.RoomFor i :=
  fun j lt => room j (Nat.lt_of_lt_of_le lt le)

/-- `k` is `l` with its newest `n` transfers taken back. -/
structure TakenBack (n : Nat) (l k : Ledger) : Prop where
  sound : k.Sound
  cap : k.balances.cap = l.balances.cap
  journal : k.journal = l.journal.drop n
  balance : ∀ asset account, (k.balance asset account : Int) = l.without n asset account
  total : ∀ asset, k.total asset = l.total asset

namespace TakenBack

variable {j : Ledger} {i : Nat}

theorem refl (sound : l.Sound) : TakenBack 0 l l where
  sound := sound
  cap := rfl
  journal := rfl
  balance asset account := (without_zero l asset account).symm
  total _ := rfl

theorem without (taken : TakenBack n l k) (i : Nat) (asset : Asset) (account : Account) :
    k.without i asset account = l.without (n + i) asset account := by
  rw [Ledger.without, taken.balance, taken.journal, Ledger.without, Ledger.without, List.take_add,
    Balances.changeOf_append]
  omega

theorem trans (first : TakenBack n l k) (second : TakenBack i k j) : TakenBack (n + i) l j where
  sound := second.sound
  cap := second.cap.trans first.cap
  journal := by rw [second.journal, first.journal, List.drop_drop]
  balance asset account := (second.balance asset account).trans (first.without i asset account)
  total asset := (second.total asset).trans (first.total asset)

theorem roomFor (taken : TakenBack n l k) (room : l.RoomFor (n + i)) : k.RoomFor i := by
  intro j lt m entry
  rw [taken.journal, List.getElem?_drop] at entry
  have fits := room (n + j) (by omega) m entry
  rw [Balances.exceeded?, taken.cap, taken.without, ← Nat.add_assoc]
  exact fits

end TakenBack

def sendBack (m : Movement) (older : List Movement) (l : Ledger) : Ledger :=
  ⟨(l.carry m.reverse).balances, older⟩

variable (sound : l.Sound) (moving : m.amount ≠ 0 ∧ m.source ≠ m.dest)
    (newest : l.journal = m :: older)
  (allowed : l.Allows m.reverse)

include moving allowed in
theorem balance_sendBack (older : List Movement) (asset : Asset) (account : Account) :
    ((l.sendBack m older).balance asset account : Int) =
      l.balance asset account - m.change asset account := by
  have sent := balance_carry (m := m.reverse) ⟨moving.1, moving.2.symm⟩ allowed.1 asset account
  rw [Movement.change_reverse] at sent
  exact sent

include sound moving newest allowed

theorem takenBack_sendBack : TakenBack 1 l (l.sendBack m older) where
  sound := sound_carry sound allowed
  cap := rfl
  journal := by rw [newest, List.drop_succ_cons, List.drop_zero]; rfl
  balance asset account := by
    rw [balance_sendBack moving allowed, without_succ newest, List.take_zero, Balances.changeOf_nil,
      Int.sub_zero]
  total asset := total_carry (m := m.reverse) ⟨moving.1, moving.2.symm⟩ allowed.1 asset

omit newest in
theorem allows_sendBack (older : List Movement) : (l.sendBack m older).Allows m := by
  have atSource := balance_sendBack moving allowed older m.asset m.source
  have atDest := balance_sendBack moving allowed older m.asset m.dest
  rw [Movement.change_source moving.2] at atSource
  rw [Movement.change_dest moving.2] at atDest
  refine ⟨by omega, ?_⟩
  have enough : m.amount ≤ l.balance m.asset m.dest := allowed.1
  have whole : ((l.sendBack m older).balance m.asset m.dest : Int) + m.amount =
      l.balances.get m.dest m.asset := by
    unfold balance at atDest ⊢
    omega
  rw [whole]
  exact Balances.Sound.fits sound (by have := moving.1; unfold balance at enough; omega)

theorem carry_sendBack : (l.sendBack m older).carry m = l := by
  have again := allows_sendBack sound moving allowed older
  have soundBefore : (l.sendBack m older).Sound := sound_carry sound allowed
  have balances : ((l.sendBack m older).carry m).balances = l.balances := by
    refine Balances.Sound.ext (sound_carry soundBefore again) sound rfl fun account asset => ?_
    have forth := balance_carry moving again.1 asset account
    rw [balance_sendBack moving allowed] at forth
    unfold balance at forth
    omega
  obtain ⟨table, journal⟩ := l
  simp only at newest balances
  subst newest
  exact congrArg (Ledger.mk · (m :: older)) balances

theorem undo_sendBack (n : Nat) : undo (n + 1) l = undo n (l.sendBack m older) := by
  have undone := undo_carry (takenBack_sendBack sound moving newest allowed).sound moving
    (allows_sendBack sound moving allowed older) n
  rwa [carry_sendBack sound moving newest allowed] at undone

end Retracting

section Backing

/-- The newest `n` transfers moved something, and those who got it have it still. -/
structure Backed (n : Nat) (l : Ledger) : Prop where
  moving : ∀ m ∈ l.journal.take n, m.amount ≠ 0 ∧ m.source ≠ m.dest
  nonneg : ∀ i ≤ n, ∀ asset account, 0 ≤ l.without i asset account

theorem Backed.mono {i : Nat} (backed : l.Backed n) (le : i ≤ n) : l.Backed i where
  moving m member := backed.moving m (List.take_subset_take_left _ le member)
  nonneg j below := backed.nonneg j (Nat.le_trans below le)

theorem TakenBack.backed {i : Nat} (taken : TakenBack n l k) (backed : l.Backed (n + i)) :
    k.Backed i where
  moving m member := by
    rw [taken.journal] at member
    refine backed.moving m ?_
    rw [List.take_add]
    exact List.mem_append_right _ member
  nonneg j le asset account := by
    rw [taken.without]
    exact backed.nonneg (n + j) (by omega) asset account

theorem Backed.allows_reverse (backed : l.Backed (n + 1)) (room : l.RoomFor (n + 1))
    (newest : l.journal = m :: older) :
    (m.amount ≠ 0 ∧ m.source ≠ m.dest) ∧ l.Allows m.reverse := by
  have moving := backed.moving m (by simp [newest])
  refine ⟨moving, ?_, ?_⟩
  · have held := backed.nonneg 1 (by omega) m.asset m.dest
    rw [without_succ newest, Movement.change_dest moving.2, List.take_zero,
      Balances.changeOf_nil] at held
    show m.amount ≤ l.balance m.asset m.dest
    omega
  · have fits := room 0 (by omega) m (by simp [newest])
    rw [without_succ newest, Movement.change_source moving.2, List.take_zero, Balances.changeOf_nil,
      Int.sub_zero, Int.sub_neg] at fits
    exact fits

/-- As long as there is room, backed transfers can be undone. -/
theorem undo_takenBack (sound : l.Sound) (backed : l.Backed n) (room : l.RoomFor n) :
    ∃ k, undo n l = (.ok (), k) ∧ TakenBack n l k := by
  induction n generalizing l with
  | zero => exact ⟨l, rfl, .refl sound⟩
  | succ n ih =>
    cases newest : l.journal with
    | nil =>
      obtain ⟨balances, journal⟩ := l
      cases newest
      refine ⟨_, undo_empty (n + 1) balances, sound, rfl, rfl, fun asset account => ?_,
        fun _ => rfl⟩
      rw [without, List.take_nil, Balances.changeOf_nil, Int.sub_zero]
    | cons m older =>
      obtain ⟨moving, allowed⟩ := backed.allows_reverse room newest
      have first := takenBack_sendBack sound moving newest allowed
      rw [Nat.add_comm] at backed room
      obtain ⟨k, undone, rest⟩ := ih first.sound (first.backed backed) (first.roomFor room)
      refine ⟨k, (undo_sendBack sound moving newest allowed n).trans undone, ?_⟩
      rw [Nat.add_comm]
      exact first.trans rest

end Backing

section Reaching

/-- What can be made of an empty ledger. A rollback that fails keeps what it has undone. -/
inductive Reached : Ledger → Prop
  | withCap (cap : Option Cap) : Reached (withCap cap)
  | mint {l k : Ledger} {asset : Asset} {account : Account} {amount : Int} (reached : Reached l)
    (done : l.mint asset account amount = .ok k) : Reached k
  | transfer {l k : Ledger} {asset : Asset} {source dest : Account} {amount : Value}
      (reached : Reached l)
    (done : l.transfer asset source dest amount = .ok k) : Reached k
  | rollback {l : Ledger} (reached : Reached l) (mark : Int) : Reached (rollbackTo mark l).2
  | commit {l : Ledger} (reached : Reached l) (mark : Int) : Reached (l.commitTo mark)

theorem sound_undo (sound : l.Sound) (n : Nat) : (undo n l).2.Sound := by
  induction n generalizing l with
  | zero => exact sound
  | succ n ih =>
    obtain ⟨balances, journal⟩ := l
    cases journal with
    | nil => rwa [undo_empty]
    | cons m older =>
      simp only [undo]
      cases debit : balances.subtract m.dest m.asset m.amount with
      | error cause => exact sound
      | ok debited =>
        have debitedSound : debited.Sound := Balances.Sound.subtract sound debit
        simp only
        cases credit : debited.add m.source m.asset m.amount with
        | error cause => exact debitedSound
        | ok restored => exact ih (debitedSound.add credit)

theorem Sound.mint {asset : Asset} {account : Account} {amount : Int} (sound : l.Sound)
    (done : l.mint asset account amount = .ok k) : k.Sound := by
  obtain ⟨balances, added, rfl⟩ := balances_of_mint done
  exact Balances.Sound.add sound added

theorem rollbackTo_snd (mark : Int) (l : Ledger) :
    (rollbackTo mark l).2 = (rollback mark.toNat l).2 := by
  rw [rollbackTo, Action.bind_apply]
  split
  next done =>
    rw [done]
    split <;> rfl
  next failed => rw [failed]

theorem Reached.sound (reached : l.Reached) : l.Sound := by
  induction reached with
  | withCap cap => exact .empty cap
  | mint _ done ih => exact ih.mint done
  | transfer _ done ih =>
    obtain ⟨n, moved⟩ := move_of_transfer done
    exact (move_effect ih moved).1
  | rollback _ mark ih =>
    rw [rollbackTo_snd]
    exact sound_undo ih _
  | commit _ mark ih => exact ih

end Reaching

section Editing

inductive Edit where
  | mint (asset : Asset) (account : Account) (amount : Int)
  | transfer (asset : Asset) (source dest : Account) (amount : Value)
  | rollback (mark : Nat)
  deriving Repr

structure Minting where
  asset : Asset
  account : Account
  amount : Int
  deriving DecidableEq, Repr

def credited (minted : List Minting) (asset : Asset) (account : Account) : Int :=
  (minted.map fun m => if (m.account, m.asset) = (account, asset) then m.amount else 0).sum

def issued (minted : List Minting) (asset : Asset) : Int :=
  (minted.map fun m => if m.asset = asset then m.amount else 0).sum

namespace Edit

def run : Edit → Action Ledger Unit
  | .mint asset account amount => Lens.whole.change (Ledger.mint asset account amount)
  | .transfer asset source dest amount =>
    Lens.whole.change (Ledger.transfer asset source dest amount)
  | .rollback mark => Ledger.rollback mark

def runAll (edits : List Edit) (l : Ledger) : Ledger := edits.foldl (fun l e => (e.run l).2) l

def minted (l : Ledger) : Edit → List Minting
  | .mint asset account amount =>
    match l.mint asset account amount with
    | .ok _ => [⟨asset, account, amount⟩]
    | .error _ => []
  | _ => []

def mintedAll : List Edit → Ledger → List Minting
  | [], _ => []
  | e :: rest, l => e.minted l ++ mintedAll rest (e.run l).2

/-- The edit does not go back behind a mark, and takes no units away by minting fewer than none. -/
def Keeps (mark : Nat) : Edit → Prop
  | .mint _ _ amount => 0 ≤ amount
  | .transfer .. => True
  | .rollback low => mark ≤ low

def HasRoom (l : Ledger) : Edit → Prop
  | .rollback mark => l.RoomFor (l.checkpoint - mark)
  | _ => True

instance (l : Ledger) : (e : Edit) → Decidable (e.HasRoom l)
  | .rollback mark => inferInstanceAs (Decidable (l.RoomFor (l.checkpoint - mark)))
  | .mint .. | .transfer .. => .isTrue trivial

def AllHaveRoom : List Edit → Ledger → Prop
  | [], _ => True
  | e :: rest, l => e.HasRoom l ∧ AllHaveRoom rest (e.run l).2

instance : (edits : List Edit) → (l : Ledger) → Decidable (AllHaveRoom edits l)
  | [], _ => .isTrue trivial
  | e :: rest, l =>
    have := instDecidableAllHaveRoom rest (e.run l).2
    inferInstanceAs (Decidable (e.HasRoom l ∧ AllHaveRoom rest (e.run l).2))

end Edit

theorem Edit.allHaveRoom_append (first second : List Edit) (l : Ledger) :
    AllHaveRoom (first ++ second) l ↔
      AllHaveRoom first l ∧ AllHaveRoom second (runAll first l) := by
  induction first generalizing l with
  | nil => exact ⟨fun room => ⟨trivial, room⟩, And.right⟩
  | cons e rest ih => rw [List.cons_append, AllHaveRoom, ih, AllHaveRoom, and_assoc]; rfl

theorem Reached.run (reached : l.Reached) (e : Edit) : (e.run l).2.Reached := by
  cases e with
  | mint asset account amount =>
    simp only [Edit.run, Lens.change, Lens.whole, id]
    cases done : l.mint asset account amount with
    | error fault => exact reached
    | ok k => exact reached.mint done
  | transfer asset source dest amount =>
    simp only [Edit.run, Lens.change, Lens.whole, id]
    cases done : l.transfer asset source dest amount with
    | error fault => exact reached
    | ok k => exact reached.transfer done
  | rollback mark =>
    have undone := reached.rollback mark
    rwa [rollbackTo_snd, Int.toNat_natCast] at undone

theorem Reached.runAll (reached : l.Reached) (edits : List Edit) :
    (Edit.runAll edits l).Reached := by
  induction edits generalizing l with
  | nil => exact reached
  | cons e rest ih => exact ih (reached.run e)

end Editing

section Minted

theorem credited_append (first second : List Minting) (asset : Asset) (account : Account) :
    credited (first ++ second) asset account =
      credited first asset account + credited second asset account := by
  rw [credited, List.map_append, List.sum_append, credited, credited]

theorem issued_append (first second : List Minting) (asset : Asset) :
    issued (first ++ second) asset = issued first asset + issued second asset := by
  rw [issued, List.map_append, List.sum_append, issued, issued]

variable {asset : Asset} {account : Account} {amount : Int}

theorem balance_mint (done : l.mint asset account amount = .ok k) (x : Asset) (a : Account) :
    (k.balance x a : Int) = l.balance x a + credited [⟨asset, account, amount⟩] x a := by
  obtain ⟨balances, added, rfl⟩ := balances_of_mint done
  obtain ⟨nonneg, -, rfl⟩ := Balances.add_eq_ok_iff.1 added
  simp only [balance, Balances.get_put, credited, List.map_cons, List.map_nil, List.sum_cons,
    List.sum_nil]
  by_cases here : (a, x) = (account, asset)
  · cases here
    simp only [if_true]
    omega
  · rw [if_neg here, if_neg fun same => here same.symm]
    omega

theorem total_mint (done : l.mint asset account amount = .ok k) (x : Asset) :
    (k.total x : Int) = l.total x + issued [⟨asset, account, amount⟩] x := by
  obtain ⟨balances, added, rfl⟩ := balances_of_mint done
  obtain ⟨nonneg, -, rfl⟩ := Balances.add_eq_ok_iff.1 added
  simp only [total, Balances.total_put, issued, List.map_cons, List.map_nil, List.sum_cons,
    List.sum_nil]
  split <;> omega

theorem journal_mint (done : l.mint asset account amount = .ok k) : k.journal = l.journal := by
  obtain ⟨balances, -, rfl⟩ := balances_of_mint done
  rfl

theorem cap_mint (done : l.mint asset account amount = .ok k) :
    k.balances.cap = l.balances.cap := by
  obtain ⟨balances, added, rfl⟩ := balances_of_mint done
  obtain ⟨-, -, rfl⟩ := Balances.add_eq_ok_iff.1 added
  rfl

theorem without_mint (done : l.mint asset account amount = .ok k) (n : Nat) (x : Asset)
    (a : Account) :
    k.without n x a = l.without n x a + credited [⟨asset, account, amount⟩] x a := by
  rw [without, balance_mint done, journal_mint done, without]
  omega

theorem credited_nonneg (credit : 0 ≤ amount) (x : Asset) (a : Account) :
    0 ≤ credited [⟨asset, account, amount⟩] x a := by
  simp only [credited, List.map_cons, List.map_nil, List.sum_cons, List.sum_nil]
  split <;> omega

end Minted

section Marking

/-- How a ledger stands to an earlier one: `n` transfers are on top of its journal, and were they
taken back, only the minted units would make the difference. -/
structure Since (l : Ledger) (minted : List Minting) (n : Nat) (k : Ledger) : Prop where
  sound : k.Sound
  cap : k.balances.cap = l.balances.cap
  mark : k.checkpoint = l.checkpoint + n
  journal : k.journal.drop n = l.journal
  backed : k.Backed n
  balance : ∀ asset account,
    k.without n asset account = l.balance asset account + credited minted asset account
  total : ∀ asset, (k.total asset : Int) = l.total asset + issued minted asset
  room : minted = [] → k.RoomFor n

namespace Since

variable {j : Ledger} {minted : List Minting}

theorem refl (sound : l.Sound) : Since l [] 0 l where
  sound := sound
  cap := rfl
  mark := rfl
  journal := rfl
  backed :=
    { moving := fun m member => by simp at member
      nonneg := fun i le asset account => by
        rw [Nat.le_zero.1 le, without_zero]
        exact Int.natCast_nonneg _ }
  balance asset account := by rw [without_zero, credited, List.map_nil, List.sum_nil, Int.add_zero]
  total asset := by rw [issued, List.map_nil, List.sum_nil, Int.add_zero]
  room _ := fun i lt => absurd lt (Nat.not_lt_zero i)

theorem mint {asset : Asset} {account : Account} {amount : Int} (since : Since l minted n k)
    (credit : 0 ≤ amount) (done : k.mint asset account amount = .ok j) :
    Since l (minted ++ [⟨asset, account, amount⟩]) n j where
  sound := since.sound.mint done
  cap := (cap_mint done).trans since.cap
  mark := by rw [checkpoint, journal_mint done, ← checkpoint, since.mark]
  journal := by rw [journal_mint done, since.journal]
  backed :=
    { moving := by
        rw [journal_mint done]
        exact since.backed.moving
      nonneg := fun i le x a => by
        rw [without_mint done]
        exact Int.add_nonneg (since.backed.nonneg i le x a) (credited_nonneg credit x a) }
  balance x a := by
    rw [without_mint done, since.balance, credited_append]
    omega
  total x := by
    rw [total_mint done, since.total, issued_append]
    omega
  room := fun nothing => by simp at nothing

theorem carry (since : Since l minted n k) (moving : m.amount ≠ 0 ∧ m.source ≠ m.dest)
    (allowed : k.Allows m) : Since l minted (n + 1) (k.carry m) where
  sound := sound_carry since.sound allowed
  cap := since.cap
  mark := congrArg (· + 1) since.mark
  journal := since.journal
  backed :=
    { moving := fun other member => by
        rcases List.mem_cons.1 member with rfl | member
        · exact moving
        · exact since.backed.moving other member
      nonneg := fun i le x a => by
        cases i with
        | zero =>
          rw [without_zero]
          exact Int.natCast_nonneg _
        | succ i =>
          rw [without_carry moving allowed.1]
          exact since.backed.nonneg i (Nat.le_of_succ_le_succ le) x a }
  balance x a := by rw [without_carry moving allowed.1, since.balance]
  total x := by rw [total_carry moving allowed.1, since.total]
  room nothing i lt other entry := by
    rw [without_carry moving allowed.1]
    cases i with
    | zero =>
      -- The source itself had this much before it paid.
      cases entry
      have paid : m.amount ≤ k.balances.get m.source m.asset := allowed.1
      rw [without_zero]
      exact Balances.Sound.fits since.sound (by have := moving.1; omega)
    | succ i => exact since.room nothing i (Nat.lt_of_succ_lt_succ lt) other entry

theorem takenBack {i : Nat} (since : Since l minted (n + i) k) (taken : TakenBack n k j) :
    Since l minted i j where
  sound := taken.sound
  cap := taken.cap.trans since.cap
  mark := by
    have mark := since.mark
    rw [checkpoint] at mark ⊢
    rw [taken.journal, List.length_drop]
    omega
  journal := by rw [taken.journal, List.drop_drop, since.journal]
  backed := taken.backed since.backed
  balance x a := by rw [taken.without, since.balance]
  total x := by rw [taken.total, since.total]
  room nothing := taken.roomFor (since.room nothing)

theorem rollback {low : Nat} (since : Since l minted n k) (le : l.checkpoint ≤ low)
    (room : k.RoomFor (k.checkpoint - low)) :
    ∃ i j, k.rollback low = (.ok (), j) ∧ Since l minted i j := by
  have mark := since.mark
  have split : n = (k.checkpoint - low) + (n - (k.checkpoint - low)) := by omega
  obtain ⟨j, undone, taken⟩ := undo_takenBack since.sound (since.backed.mono (by omega)) room
  rw [split] at since
  exact ⟨_, j, undone, since.takenBack taken⟩

theorem hasRoom {e : Edit} (since : Since l minted n k) (keeps : e.Keeps l.checkpoint)
    (wide : l.balances.cap = none ∨ minted = []) : e.HasRoom k := by
  cases e with
  | rollback low =>
    have mark := since.mark
    have le : l.checkpoint ≤ low := keeps
    rcases wide with uncapped | nothing
    · exact roomFor_of_uncapped (since.cap.trans uncapped) _
    · exact (since.room nothing).mono (by omega)
  | _ => trivial

theorem run {e : Edit} (since : Since l minted n k) (keeps : e.Keeps l.checkpoint)
    (room : e.HasRoom k) :
    ∃ i, Since l (minted ++ e.minted k) i (e.run k).2 := by
  cases e with
  | mint asset account amount =>
    simp only [Edit.run, Edit.minted, Lens.change, Lens.whole, id]
    cases done : k.mint asset account amount with
    | error fault => exact ⟨n, by rwa [List.append_nil]⟩
    | ok j => exact ⟨n, since.mint keeps done⟩
  | transfer asset source dest amount =>
    simp only [Edit.run, Edit.minted, Lens.change, Lens.whole, id, List.append_nil]
    cases done : k.transfer asset source dest amount with
    | error fault => exact ⟨n, since⟩
    | ok j =>
      obtain ⟨units, moved⟩ := move_of_transfer done
      rcases (move_eq_ok_iff since.sound).1 moved with ⟨-, rfl⟩ | ⟨moving, allowed, rfl⟩
      · exact ⟨n, since⟩
      · exact ⟨n + 1, since.carry moving allowed⟩
  | rollback low =>
    obtain ⟨i, j, done, after⟩ := since.rollback keeps room
    simp only [Edit.run, Edit.minted, List.append_nil, done]
    exact ⟨i, after⟩

theorem runAll {edits : List Edit} (since : Since l minted n k)
    (keeps : ∀ e ∈ edits, e.Keeps l.checkpoint) (room : Edit.AllHaveRoom edits k) :
    ∃ i, Since l (minted ++ Edit.mintedAll edits k) i (Edit.runAll edits k) := by
  induction edits generalizing minted n k with
  | nil => exact ⟨n, by rwa [Edit.mintedAll, List.append_nil]⟩
  | cons e rest ih =>
    obtain ⟨i, next⟩ := since.run (keeps e List.mem_cons_self) room.1
    obtain ⟨i, last⟩ := ih next (fun e member => keeps e (List.mem_cons_of_mem _ member)) room.2
    rw [List.append_assoc] at last
    exact ⟨i, last⟩

theorem allHaveRoom {edits : List Edit} (since : Since l minted n k)
    (keeps : ∀ e ∈ edits, e.Keeps l.checkpoint)
    (wide : l.balances.cap = none ∨ minted ++ Edit.mintedAll edits k = []) :
    Edit.AllHaveRoom edits k := by
  induction edits generalizing minted n k with
  | nil => trivial
  | cons e rest ih =>
    have first : e.HasRoom k :=
      since.hasRoom (keeps e List.mem_cons_self)
        (wide.imp_right fun nothing => (List.append_eq_nil_iff.1 nothing).1)
    obtain ⟨i, next⟩ := since.run (keeps e List.mem_cons_self) first
    refine ⟨first, ih next (fun e member => keeps e (List.mem_cons_of_mem _ member)) ?_⟩
    rwa [Edit.mintedAll, ← List.append_assoc] at wide

end Since

/-- Transfers, mints and rollbacks follow a mark in any order, refused ones included; none goes back
behind the mark, and none takes units away by minting. If there is no cap, or nothing was minted,
then all rollbacks find room, the one to the mark among them. If they find room, the one to the mark
returns; every balance is then what it was at the mark and what was minted to it since, and so is
every total. -/
theorem Edit.rollback_exact (reached : l.Reached) {edits : List Edit}
    (keeps : ∀ e ∈ edits, e.Keeps l.checkpoint) :
    (l.balances.cap = none ∨ mintedAll edits l = [] →
      AllHaveRoom (edits ++ [.rollback l.checkpoint]) l) ∧
      (AllHaveRoom (edits ++ [.rollback l.checkpoint]) l →
        ∃ k, (Edit.rollback l.checkpoint).run (runAll edits l) = (.ok (), k) ∧
          k.journal = l.journal ∧
          (∀ asset account, (k.balance asset account : Int) =
            l.balance asset account + credited (mintedAll edits l) asset account) ∧
          ∀ asset, (k.total asset : Int) = l.total asset + issued (mintedAll edits l) asset) := by
  have start := Since.refl reached.sound
  rw [allHaveRoom_append]
  refine ⟨fun wide => ?_, fun ⟨room, last, _⟩ => ?_⟩
  · have room := start.allHaveRoom keeps wide
    obtain ⟨n, since⟩ := start.runAll keeps room
    exact ⟨room, since.hasRoom (Nat.le_refl l.checkpoint) wide, trivial⟩
  · obtain ⟨n, since⟩ := start.runAll keeps room
    have whole : (runAll edits l).checkpoint - l.checkpoint = n := by
      rw [since.mark]
      omega
    have last : (runAll edits l).RoomFor ((runAll edits l).checkpoint - l.checkpoint) := last
    rw [whole] at last
    obtain ⟨k, undone, taken⟩ := undo_takenBack since.sound since.backed last
    have after := Since.takenBack (i := 0) since taken
    refine ⟨k, ?_, after.journal, fun asset account => ?_, after.total⟩
    · rw [← whole] at undone
      exact undone
    · rw [taken.balance]
      exact since.balance asset account

def paidOnce : Ledger :=
  Edit.runAll [.mint 0 "alice" 60, .transfer 0 "alice" "dave" (.int 5)] (withCap (some (.int 100)))

def roomyUse : List Edit :=
  [.transfer 0 "alice" "bob" (.int 30), .transfer 0 "bob" "carol" (.int 10), .mint 0 "alice" 20,
    .rollback 2, .transfer 0 "bob" "alice" (.int 99)]

theorem paidOnce_restored :
    paidOnce.Reached ∧ (∀ e ∈ roomyUse, e.Keeps paidOnce.checkpoint) ∧
      Edit.AllHaveRoom (roomyUse ++ [.rollback paidOnce.checkpoint]) paidOnce ∧
      ∃ k, (Edit.rollback paidOnce.checkpoint).run (Edit.runAll roomyUse paidOnce) = (.ok (), k) ∧
        (k.balance 0 "alice" : Int) = 75 ∧ (k.balance 0 "bob" : Int) = 0 ∧
          (k.total 0 : Int) = 80 := by
  have reached : paidOnce.Reached := (Reached.withCap _).runAll _
  have mark : paidOnce.checkpoint = 1 := by decide +kernel
  have keeps : ∀ e ∈ roomyUse, e.Keeps paidOnce.checkpoint := by
    rw [mark]
    simp [roomyUse, Edit.Keeps]
  have room : Edit.AllHaveRoom (roomyUse ++ [.rollback paidOnce.checkpoint]) paidOnce := by
    decide +kernel
  obtain ⟨k, done, -, balances, totals⟩ := (Edit.rollback_exact reached keeps).2 room
  refine ⟨reached, keeps, room, k, done, ?_, ?_, ?_⟩
  · rw [balances]
    decide +kernel
  · rw [balances]
    decide +kernel
  · rw [totals]
    decide +kernel

/-- What Alice paid away cannot come back to her once she is minted up to the cap again. -/
def crowding : List Edit :=
  [.mint 0 "alice" 100, .transfer 0 "alice" "bob" (.int 100), .mint 0 "alice" 100]

/-- Bob loses what Alice paid him to a minting of fewer than no units. -/
def draining : List Edit :=
  [.mint 0 "alice" 10, .transfer 0 "alice" "bob" (.int 10), .mint 0 "bob" (-10)]

theorem rollback_hindered :
    (Edit.mintedAll crowding (withCap (some (.int 100)))).length = 2 ∧
      ((Edit.rollback 0).run (Edit.runAll crowding (withCap (some (.int 100))))).1 =
        .error (.balance (.overWidth 200 (.int 100))) ∧
      (Edit.mintedAll draining (withCap none)).length = 2 ∧
      ((Edit.rollback 0).run (Edit.runAll draining (withCap none))).1 =
        .error (.balance (.insufficient 0 (-10))) := by
  refine ⟨by decide +kernel, by rfl, by decide +kernel, by rfl⟩

end Marking

end Ledger

end LiquidityPools
