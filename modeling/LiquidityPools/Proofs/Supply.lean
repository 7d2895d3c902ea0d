import LiquidityPools.Proofs.Headroom
import LiquidityPools.Proofs.Nesting

/-!
What is on a ledger at any moment of its use. Units are minted while the journal is empty, transfers
are made, and nested atomic blocks ask for marks, roll back to them and commit. Below the marks of
the blocks that are open there is always a ledger that rolling back would lead to without fail; so
the rollbacks of the blocks succeed, and they move units back without losing any. Hence at every
moment, also in the midst of blocks, no balance is zero or above the cap, every asset has as many
units as were minted, and a transfer moves exactly its amount or is refused and leaves everything as
it is.
-/

namespace LiquidityPools

namespace Ledger

variable {l k base : Ledger}

section Undoing

theorem Above.rolledBack {mark : Nat} (above : base.Above l) (le : base.checkpoint ≤ mark) :
    ∃ k, l.rollback mark = (.ok (), k) ∧ base.Above k := by
  by_cases within : mark ≤ l.journal.length
  · have split : l.journal.length - base.checkpoint =
        (l.journal.length - mark) + (mark - base.checkpoint) := by omega
    have whole := above.rollback
    rw [Ledger.rollback, split, undo_add, Action.bind_apply] at whole
    cases undone : undo (l.journal.length - mark) l with
    | mk outcome k =>
      rw [undone] at whole
      cases outcome with
      | error fault => cases whole
      | ok _ =>
        have length : k.journal.length = mark := by
          rw [journal_of_undo undone, List.length_drop]
          omega
        refine ⟨k, undone, le.trans_eq length.symm, ?_⟩
        rw [Ledger.rollback, length]
        exact whole
  · refine ⟨l, ?_, above⟩
    rw [Ledger.rollback, Nat.sub_eq_zero_of_le (Nat.le_of_not_le within)]
    rfl

theorem kept_of_undo {n : Nat} (done : undo n l = (.ok (), k)) :
    k.balances.cap = l.balances.cap ∧ ∀ asset, k.total asset = l.total asset := by
  induction n generalizing l with
  | zero =>
    cases done
    exact ⟨rfl, fun _ => rfl⟩
  | succ n ih =>
    obtain ⟨balances, journal⟩ := l
    cases journal with
    | nil =>
      rw [undo_empty] at done
      cases done
      exact ⟨rfl, fun _ => rfl⟩
    | cons m older =>
      simp only [undo] at done
      split at done
      · cases done
      next debited debit =>
        split at done
        · cases done
        next restored credit =>
          obtain ⟨cap, total⟩ := ih done
          obtain ⟨-, enough, -, rfl⟩ := Balances.subtract_eq_ok_iff.1 debit
          obtain ⟨-, -, rfl⟩ := Balances.add_eq_ok_iff.1 credit
          refine ⟨cap, fun asset => (total asset).trans (Int.ofNat.inj ?_)⟩
          show ((Balances.total _ asset : Nat) : Int) = Balances.total balances asset
          rw [Balances.total_put, Balances.total_put]
          split <;> omega

end Undoing

section Refusing

def Refuses (l : Ledger) (asset : Asset) (source dest : Account) : Value → Prop
  | .int n => n < 0 ∨ 0 < n ∧ source ≠ dest ∧
      (l.balance asset source < n ∨ ∃ cap ∈ l.balances.cap, cap.largest < l.balance asset dest + n)
  | _ => True

variable {asset : Asset} {source dest : Account} {n : Nat}

theorem allows_iff (l : Ledger) (m : Movement) :
    l.Allows m ↔ ¬ ((l.balance m.asset m.source : Int) < m.amount ∨
      ∃ cap ∈ l.balances.cap, cap.largest < l.balance m.asset m.dest + m.amount) := by
  rw [Allows, Balances.exceeded?_eq_none_iff]
  simp only [not_or, not_exists, not_and, Int.not_lt, Int.ofNat_le]

theorem refuses_natCast :
    l.Refuses asset source dest (.int n) ↔
      (n ≠ 0 ∧ source ≠ dest) ∧ ¬ l.Allows ⟨asset, source, dest, n⟩ := by
  rw [allows_iff, not_not, Refuses]
  constructor
  · rintro (negative | ⟨positive, apart, short⟩)
    · omega
    · exact ⟨⟨by omega, apart⟩, short⟩
  · rintro ⟨⟨nonzero, apart⟩, short⟩
    exact .inr ⟨by omega, apart, short⟩

theorem transfer_natCast :
    l.transfer asset source dest (.int n) = l.move asset source dest n := by
  rw [transfer, if_neg (Int.not_lt.2 (Int.natCast_nonneg n)), Int.toNat_natCast]

theorem transfer_of_refuses (sound : l.Sound) {amount : Value}
    (refuses : l.Refuses asset source dest amount) :
    ∃ fault, l.transfer asset source dest amount = .error fault ∧ fault.kind = .transfer := by
  cases amount with
  | int n =>
    by_cases negative : n < 0
    · exact ⟨_, if_pos negative, rfl⟩
    · obtain ⟨n, rfl⟩ := Int.eq_ofNat_of_zero_le (Int.not_lt.1 negative)
      obtain ⟨moving, refused⟩ := refuses_natCast.1 refuses
      rcases move_of_moving sound asset moving with ⟨allowed, -⟩ | ⟨-, cause, done⟩
      · exact absurd allowed refused
      · exact ⟨_, transfer_natCast.trans done, rfl⟩
  | _ => exact ⟨_, rfl, rfl⟩

theorem transfer_of_not_refuses (sound : l.Sound) {amount : Value}
    (accepts : ¬ l.Refuses asset source dest amount) :
    ∃ (n : Nat) (k : Ledger), amount = .int n ∧ l.transfer asset source dest amount = .ok k ∧
      l.move asset source dest n = .ok k := by
  cases amount with
  | int n =>
    have nonneg : ¬ n < 0 := fun negative => accepts (.inl negative)
    obtain ⟨n, rfl⟩ := Int.eq_ofNat_of_zero_le (Int.not_lt.1 nonneg)
    have moved : ∃ k, l.move asset source dest n = .ok k := by
      by_cases idle : n = 0 ∨ source = dest
      · exact ⟨l, move_of_idle idle⟩
      · rcases move_of_moving sound asset (not_or.1 idle) with ⟨-, done⟩ | ⟨refused, -⟩
        · exact ⟨_, done⟩
        · exact absurd (refuses_natCast.2 ⟨not_or.1 idle, refused⟩) accepts
    obtain ⟨k, done⟩ := moved
    exact ⟨n, k, rfl, transfer_natCast.trans done, done⟩
  | _ => exact absurd trivial accepts

end Refusing

end Ledger

structure Treasury (ρ : Type) where
  ledger : Ledger
  minted : List Ledger.Minting := []
  other : ρ

namespace Treasury

open Ledger

variable {ρ : Type} {cap : Option Cap} {base : Ledger} {w v : World (Treasury ρ)} {depth : Nat}

def place : Lens (World (Treasury ρ)) Ledger where
  get w := w.rest.ledger
  set w l := { w with rest := { w.rest with ledger := l } }

def elsewhere : Lens (World (Treasury ρ)) ρ where
  get w := w.rest.other
  set w r := { w with rest := { w.rest with other := r } }

def afterMinting (m : Minting) (l : Ledger) (w : World (Treasury ρ)) : World (Treasury ρ) :=
  { w with rest := { w.rest with ledger := l, minted := w.rest.minted ++ [m] } }

/-- What a block takes in beside the store. -/
inductive Participant (ρ : Type) where
  | ledger
  | other (m : Member ρ)

def Participant.member : Participant ρ → Member (World (Treasury ρ))
  | .ledger => Ledger.member place
  | .other m => {
    checkpoint w := ((m.checkpoint w.rest.other).1, elsewhere.set w (m.checkpoint w.rest.other).2)
    rollback n := elsewhere.zoom (m.rollback n)
    commit n := elsewhere.modify (m.commit n) }

def marksOf (marked : List (Participant ρ × Nat)) : Atomic.Marks (World (Treasury ρ)) :=
  marked.map fun p => (p.1.member, p.2)

def opened (participants : List (Participant ρ)) (w : World (Treasury ρ)) :
    Atomic.Marks (World (Treasury ρ)) × World (Treasury ρ) :=
  Atomic.enter (Store.depthOf World.storePlace)
    (Store.member World.storePlace :: participants.map Participant.member) w

/-- The use of a ledger, with the marks of the blocks that are open, the innermost first. What is
done beside the ledger may be anything that leaves the store's depth. -/
inductive Used (cap : Option Cap) :
    World (Treasury ρ) → List (Atomic.Marks (World (Treasury ρ))) → Prop
  | withCap (other : ρ) : Used cap ⟨{}, { ledger := .withCap cap, other }⟩ []
  | mint {w : World (Treasury ρ)} {blocks : List (Atomic.Marks (World (Treasury ρ)))}
      {asset : Asset}
    {account : Account} {amount : Int} {l : Ledger} (used : Used cap w blocks)
    (empty : w.rest.ledger.journal = []) (done : w.rest.ledger.mint asset account amount = .ok l) :
    Used cap (afterMinting ⟨asset, account, amount⟩ l w) blocks
  | transfer {w : World (Treasury ρ)} {blocks : List (Atomic.Marks (World (Treasury ρ)))}
    (used : Used cap w blocks) (asset : Asset) (source dest : Account) (amount : Value) :
    Used cap (place.change (Ledger.transfer asset source dest amount) w).2 blocks
  | beside {w : World (Treasury ρ)} {blocks : List (Atomic.Marks (World (Treasury ρ)))}
    (used : Used cap w blocks) (store : Store) (same : store.depth = w.store.depth) (other : ρ) :
    Used cap ⟨store, { w.rest with other }⟩ blocks
  | enter {w : World (Treasury ρ)} {blocks : List (Atomic.Marks (World (Treasury ρ)))}
    (used : Used cap w blocks) (participants : List (Participant ρ)) :
    Used cap (opened participants w).2 ((opened participants w).1 :: blocks)
  | leave {α : Type} {w : World (Treasury ρ)} {marks : Atomic.Marks (World (Treasury ρ))}
    {blocks : List (Atomic.Marks (World (Treasury ρ)))} (used : Used cap w (marks :: blocks))
    (outcome : Except Fault α) :
    Used cap (Atomic.leave (Store.depthOf World.storePlace) marks outcome w).2 blocks

/-- What all use keeps, the base being a ledger that can be rolled back to. -/
structure Kept (cap : Option Cap) (base : Ledger) (depth : Nat)
    (w : World (Treasury ρ)) : Prop where
  above : base.Above w.rest.ledger
  sound : w.rest.ledger.Sound
  cap : w.rest.ledger.balances.cap = cap
  total : ∀ asset, (w.rest.ledger.total asset : Int) = issued w.rest.minted asset
  depth : w.store.depth = depth

def StayAbove (mark : Nat) (marks : Atomic.Marks (World (Treasury ρ))) : Prop :=
  ∃ n marked, marks = (Store.member World.storePlace, n) :: marksOf marked ∧
    ∀ m, (.ledger, m) ∈ marked → mark ≤ m

namespace Kept

theorem elsewhere (kept : Kept cap base depth w) (other : ρ) :
    Kept cap base depth (elsewhere.set w other) :=
  ⟨kept.above, kept.sound, kept.cap, kept.total, kept.depth⟩

theorem withStore {d : Nat} (kept : Kept cap base depth w) (store : Store)
    (same : store.depth = d) :
    Kept cap base d { w with store } :=
  ⟨kept.above, kept.sound, kept.cap, kept.total, same⟩

theorem mint {asset : Asset} {account : Account} {amount : Int} {l : Ledger}
    (kept : Kept cap base depth w) (done : w.rest.ledger.mint asset account amount = .ok l) :
    Kept cap l depth (afterMinting ⟨asset, account, amount⟩ l w) where
  above := .refl l
  sound := kept.sound.mint done
  cap := (cap_mint done).trans kept.cap
  total x := by
    rw [afterMinting, issued_append, ← kept.total]
    exact total_mint done x
  depth := kept.depth

theorem transfer (kept : Kept cap base depth w) (asset : Asset) (source dest : Account)
    (amount : Value) :
    Kept cap base depth (place.change (Ledger.transfer asset source dest amount) w).2 := by
  rw [Lens.change]
  cases done : Ledger.transfer asset source dest amount (place.get w) with
  | error fault => exact kept
  | ok l =>
    obtain ⟨n, moved⟩ := move_of_transfer done
    obtain ⟨sound, above, total, -⟩ := move_effect kept.sound moved
    refine ⟨kept.above.trans above, sound, ?_, fun x => ?_, kept.depth⟩
    · rcases (move_eq_ok_iff kept.sound).1 moved with ⟨-, rfl⟩ | ⟨-, -, rfl⟩
      · exact kept.cap
      · exact kept.cap
    · show (l.total x : Int) = _
      rw [total]
      exact kept.total x

theorem rollback {mark : Nat} (kept : Kept cap base depth w) (le : base.checkpoint ≤ mark) :
    ∃ v, place.zoom (Ledger.rollback mark) w = (.ok (), v) ∧ Kept cap base depth v := by
  obtain ⟨l, done, above⟩ := kept.above.rolledBack le
  obtain ⟨cap, total⟩ := kept_of_undo done
  refine ⟨place.set w l, ?_, above, ?_, cap.trans kept.cap, fun x => ?_, kept.depth⟩
  · exact congrArg (fun r : Except Fault Unit × Ledger => (r.1, place.set w r.2)) done
  · have sound := sound_undo kept.sound (w.rest.ledger.journal.length - mark)
    rw [Ledger.rollback] at done
    rwa [done] at sound
  · show (l.total x : Int) = _
    rw [total]
    exact kept.total x

theorem rollbackOne {participant : Participant ρ} {mark : Nat} (kept : Kept cap base depth w)
    (low : participant = .ledger → base.checkpoint ≤ mark) :
    Kept cap base depth (participant.member.rollback mark w).2 := by
  cases participant with
  | ledger =>
    obtain ⟨v, done, after⟩ := kept.rollback (low rfl)
    simp only [Participant.member, Ledger.member, done]
    exact after
  | other m => exact kept.elsewhere _

/-- Some other participant may fail to roll back; what comes before it is then not rolled back at
all. -/
theorem rollbackAll {marked : List (Participant ρ × Nat)} (kept : Kept cap base depth w)
    (low : ∀ m, (.ledger, m) ∈ marked → base.checkpoint ≤ m) :
    Kept cap base depth (Atomic.rollbackAll (marksOf marked) w).2 := by
  induction marked generalizing w with
  | nil => exact kept
  | cons first rest ih =>
    have ih := fun {v} (kept : Kept cap base depth v) =>
      ih kept fun m member => low m (List.mem_cons_of_mem _ member)
    obtain ⟨participant, mark⟩ := first
    have after := kept.rollbackOne fun own => low mark (own ▸ List.mem_cons_self)
    rw [marksOf, List.map_cons, Atomic.rollbackAll, Action.bind_apply]
    rcases done : participant.member.rollback mark w with ⟨_ | _, v⟩
    · rw [done] at after
      exact after
    · rw [done] at after
      exact ih after

end Kept

theorem mark_participants (participants : List (Participant ρ)) (w : World (Treasury ρ)) :
    ∃ marked other, Atomic.mark (participants.map Participant.member) w =
        (marksOf marked, elsewhere.set w other) ∧
      ∀ m, (.ledger, m) ∈ marked → m = w.rest.ledger.checkpoint := by
  induction participants generalizing w with
  | nil => exact ⟨[], w.rest.other, rfl, fun _ member => absurd member List.not_mem_nil⟩
  | cons first rest ih =>
    have stamped : ∃ n r, first.member.checkpoint w = (n, elsewhere.set w r) ∧
        (first = .ledger → n = w.rest.ledger.checkpoint) := by
      cases first with
      | ledger => exact ⟨_, w.rest.other, rfl, fun _ => rfl⟩
      | other m => exact ⟨_, _, rfl, fun same => by cases same⟩
    obtain ⟨n, r, checkpoint, own⟩ := stamped
    obtain ⟨marked, other, marks, low⟩ := ih (elsewhere.set w r)
    refine ⟨(first, n) :: marked, other, ?_, fun m member => ?_⟩
    · rw [List.map_cons, Atomic.mark, checkpoint]
      simp only [marks]
      rfl
    · rcases List.mem_cons.1 member with same | later
      · cases same
        exact own rfl
      · exact low m later

theorem commitAll_participants (marked : List (Participant ρ × Nat)) (w : World (Treasury ρ)) :
    ∃ journal other, Atomic.commitAll (marksOf marked) w =
      place.set (elsewhere.set w other) { w.rest.ledger with journal } := by
  induction marked generalizing w with
  | nil => exact ⟨w.rest.ledger.journal, w.rest.other, rfl⟩
  | cons first rest ih =>
    obtain ⟨journal, other, done⟩ := ih (first.1.member.commit first.2 w)
    refine ⟨journal, other, done.trans ?_⟩
    obtain ⟨_ | m, mark⟩ := first <;> rfl

namespace Kept

theorem enter (kept : Kept cap base depth w) (participants : List (Participant ρ)) :
    Kept cap base (depth + 1) (opened participants w).2 ∧
      StayAbove base.checkpoint (opened participants w).1 := by
  obtain ⟨marked, other, marks, own⟩ := mark_participants participants w
  have entered : opened participants w =
      ((Store.member World.storePlace, w.store.checkpoint) :: marksOf marked,
        (Treasury.elsewhere.set w other).withDepth (w.store.depth + 1)) := by
    rw [opened, Atomic.enter, Atomic.mark]
    simp only [Store.member, World.storePlace, marks]
    rfl
  rw [entered]
  refine ⟨(kept.elsewhere other).withStore _ (congrArg (· + 1) kept.depth), _, marked, rfl, ?_⟩
  intro m asked
  rw [own m asked]
  exact kept.above.le

variable {α : Type} {marks : Atomic.Marks (World (Treasury ρ))}

theorem leave_ok (kept : Kept cap base (depth + 1) w)
    (stay : StayAbove base.checkpoint marks) (a : α) :
    ∃ later, Kept cap later depth
        (Atomic.leave (Store.depthOf World.storePlace) marks (.ok a) w).2 ∧
      (depth ≠ 0 → later = base) := by
  obtain ⟨n, marked, rfl, -⟩ := stay
  have opened : w.store.depth = depth + 1 := kept.depth
  rw [World.leave_ok]
  split
  next outermost =>
    obtain ⟨journal, other, committed⟩ :=
      commitAll_participants marked { w with store := w.store.commit n }
    simp only [committed]
    refine ⟨{ w.rest.ledger with journal },
      ⟨.refl _, kept.sound, kept.cap, kept.total, ?_⟩, fun nested => ?_⟩
    · exact congrArg (· - 1) opened
    · omega
  next => exact ⟨base, kept.withStore _ (congrArg (· - 1) opened), fun _ => rfl⟩

theorem leave_error (kept : Kept cap base (depth + 1) w) (stay : StayAbove base.checkpoint marks)
    (fault : Fault) :
    Kept cap base depth
      (Atomic.leave (Store.depthOf World.storePlace) marks
        (.error fault : Except Fault α) w).2 := by
  obtain ⟨n, marked, rfl, low⟩ := stay
  have back : Kept cap base _ (Atomic.rollbackAll (marksOf marked.reverse) w).2 :=
    kept.rollbackAll fun m member => low m (List.mem_reverse.1 member)
  have reverse : marksOf marked.reverse = (marksOf marked).reverse := List.map_reverse
  rw [reverse] at back
  rw [World.leave_error]
  generalize Atomic.rollbackAll (marksOf marked).reverse w = left at back
  obtain ⟨_ | _, v⟩ := left
  · exact back.withStore _ (congrArg (· - 1) back.depth)
  · exact back.withStore _ (congrArg (· - 1) back.depth)

end Kept

namespace Used

theorem kept {blocks : List (Atomic.Marks (World (Treasury ρ)))} (used : Used cap w blocks) :
    ∃ base, Kept cap base blocks.length w ∧ ∀ marks ∈ blocks, StayAbove base.checkpoint marks := by
  induction used with
  | withCap other =>
    refine ⟨.withCap cap, ⟨.refl _, .empty cap, rfl, fun _ => rfl, rfl⟩, ?_⟩
    exact fun _ member => absurd member List.not_mem_nil
  | @mint w blocks asset account amount l used empty done ih =>
    obtain ⟨base, kept, low⟩ := ih
    refine ⟨l, kept.mint done, fun marks member => ?_⟩
    obtain ⟨n, marked, rfl, -⟩ := low marks member
    refine ⟨n, marked, rfl, fun m _ => ?_⟩
    rw [checkpoint, journal_mint done, empty]
    exact Nat.zero_le m
  | transfer _ asset source dest amount ih =>
    obtain ⟨base, kept, low⟩ := ih
    exact ⟨base, kept.transfer asset source dest amount, low⟩
  | beside _ store same other ih =>
    obtain ⟨base, kept, low⟩ := ih
    exact ⟨base, (kept.elsewhere other).withStore store (same.trans kept.depth), low⟩
  | enter _ participants ih =>
    obtain ⟨base, kept, low⟩ := ih
    obtain ⟨entered, inner⟩ := kept.enter participants
    exact ⟨base, entered, List.forall_mem_cons.2 ⟨inner, low⟩⟩
  | @leave α w marks blocks used outcome ih =>
    obtain ⟨base, kept, low⟩ := ih
    obtain ⟨inner, outer⟩ := List.forall_mem_cons.1 low
    cases outcome with
    | ok a =>
      obtain ⟨later, after, same⟩ := kept.leave_ok inner a
      refine ⟨later, after, fun marks member => ?_⟩
      rw [same (List.length_pos_of_mem member).ne']
      exact outer marks member
    | error fault => exact ⟨base, kept.leave_error inner fault, outer⟩

end Used

/-- A transfer is refused exactly when the amount is no number of units, or when it would move some
and they are more than the source has, or than fit under the cap. It is then refused as a transfer
and changes nothing. Otherwise the amount is moved and journaled, and nothing is if there is nothing
to move. Every balance that is kept is positive and fits under the cap, and the total of every asset
is what was minted of it. -/
theorem transfer_exact {blocks : List (Atomic.Marks (World (Treasury ρ)))}
    (used : Used cap w blocks) (asset : Asset) (source dest : Account) (amount : Value) :
    let l := w.rest.ledger
    l.balances.cap = cap ∧
      (l.Refuses asset source dest amount →
        ∃ fault, place.change (Ledger.transfer asset source dest amount) w = (.error fault, w) ∧
          fault.kind = .transfer) ∧
      (¬ l.Refuses asset source dest amount →
        ∃ (n : Nat) (k : Ledger), amount = .int n ∧
          place.change (Ledger.transfer asset source dest amount) w = (.ok (), place.set w k) ∧
          (∀ x a, (k.balance x a : Int) =
            l.balance x a + Movement.change ⟨asset, source, dest, n⟩ x a) ∧
          (n = 0 ∨ source = dest → k = l) ∧
          (n ≠ 0 ∧ source ≠ dest → k.journal = ⟨asset, source, dest, n⟩ :: l.journal)) ∧
      (∀ a x n, l.balances.table.get? (a, x) = some n → 0 < n ∧ ∀ c ∈ cap, (n : Int) ≤ c.largest) ∧
      ∀ x, (l.total x : Int) = issued w.rest.minted x := by
  obtain ⟨base, kept, -⟩ := used.kept
  refine ⟨kept.cap, fun refuses => ?_, fun accepts => ?_, fun a x n held => ?_, kept.total⟩
  · obtain ⟨fault, refused, kind⟩ := transfer_of_refuses kept.sound refuses
    refine ⟨fault, ?_, kind⟩
    simp only [Lens.change, place, refused]
  · obtain ⟨n, k, rfl, done, moved⟩ := transfer_of_not_refuses kept.sound accepts
    refine ⟨n, k, rfl, ?_, (move_effect kept.sound moved).2.2.2, fun idle => ?_, fun moving => ?_⟩
    · simp only [Lens.change, place, done]
    · rw [move_of_idle idle] at moved
      cases moved
      rfl
    · rcases (move_eq_ok_iff kept.sound).1 moved with ⟨idle, -⟩ | ⟨-, -, rfl⟩
      · exact absurd idle (not_or.2 moving)
      · rfl
  · obtain ⟨positive, fits⟩ := kept.sound (a, x) n held
    refine ⟨positive, ?_⟩
    rw [← kept.cap]
    exact Balances.exceeded?_eq_none_iff.1 fits

def funded : World (Treasury Unit) :=
  afterMinting ⟨0, "alice", 60⟩ (Edit.runAll [.mint 0 "alice" 60] (.withCap (some (.int 100))))
    ⟨{}, { ledger := .withCap (some (.int 100)), other := () }⟩

def paid : World (Treasury Unit) :=
  (place.change (Ledger.transfer 0 "alice" "bob" (.int 20)) (opened [.ledger] funded).2).2

def midway : World (Treasury Unit) :=
  (Atomic.leave (Store.depthOf World.storePlace) (opened [.ledger] paid).1
    (.error .journalEmpty : Except Fault Unit)
    (place.change (Ledger.transfer 0 "alice" "bob" (.int 40)) (opened [.ledger] paid).2).2).2

theorem transfer_midway :
    Used (some (.int 100)) midway [(opened [.ledger] funded).1] ∧
      (∃ fault, place.change (Ledger.transfer 0 "alice" "bob" (.int 41)) midway =
        (.error fault, midway) ∧ fault.kind = .transfer) ∧
      (∃ k, place.change (Ledger.transfer 0 "alice" "bob" (.int 30)) midway =
          (.ok (), place.set midway k) ∧ (k.balance 0 "bob" : Int) = 50 ∧ k.journal.length = 2) ∧
      (midway.rest.ledger.total 0 : Int) = 60 := by
  have used : Used (some (.int 100)) midway [(opened [.ledger] funded).1] :=
    have start : Used (some (.int 100)) funded [] := .mint (.withCap ()) rfl rfl
    have inner := (start.enter [.ledger]).transfer 0 "alice" "bob" (.int 20) |>.enter [.ledger]
    (inner.transfer 0 "alice" "bob" (.int 40)).leave _
  have tooMuch := (transfer_exact used 0 "alice" "bob" (.int 41)).2.1
    (.inr ⟨by decide, by decide, .inl (by decide +kernel)⟩)
  obtain ⟨n, k, amount, done, balances, -, journal⟩ :=
    (transfer_exact used 0 "alice" "bob" (.int 30)).2.2.1 fun refuses =>
      (refuses_natCast.1 refuses).2 ⟨by decide +kernel, by decide +kernel⟩
  cases Int.ofNat.inj (Value.int.inj amount)
  refine ⟨used, tooMuch, ⟨k, done, ?_, ?_⟩, ?_⟩
  · rw [balances]
    decide +kernel
  · rw [journal ⟨by decide, by decide⟩]
    decide +kernel
  · rw [(transfer_exact used 0 "alice" "bob" (.int 30)).2.2.2.2]
    decide +kernel

end Treasury

end LiquidityPools
