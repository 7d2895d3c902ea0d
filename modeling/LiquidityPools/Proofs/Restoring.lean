import LiquidityPools.Proofs.Ending
import LiquidityPools.Proofs.Routine
import LiquidityPools.Proofs.Snapshot

/-!
Journals against copies. A vault that undoes what a failing block wrote, entry by entry, cannot be
told from a sheet that puts back a copy: every read along the way and at the end is answered alike,
and routines end alike. Inside blocks the journals always lead back to where the innermost block was
opened; once the outermost one has ended they are what they were before it.
-/

namespace LiquidityPools

open Routine (Query Answer Write)

variable {α β : Type}

namespace Ledger

theorem balances_of_transfer (asset : Asset) (source dest : Account) (amount : Value) (l : Ledger) :
    (transfer asset source dest amount { balances := l.balances }).map (·.balances) =
      (transfer asset source dest amount l).map (·.balances) := by
  cases amount with
  | int n =>
    unfold transfer move balance
    dsimp only
    split
    · rfl
    · split
      · rfl
      · split
        · rfl
        · cases l.balances.add dest asset n.toNat with
          | error cause => rfl
          | ok credited =>
            dsimp only
            cases credited.subtract source asset n.toNat <;> rfl
  | _ => rfl

theorem transfer_effect {asset : Asset} {source dest : Account} {amount : Value} {l k : Ledger}
    (sound : l.Sound) (done : l.transfer asset source dest amount = .ok k) :
    l.Above k ∧ k.Sound := by
  obtain ⟨n, moved⟩ := move_of_transfer done
  obtain ⟨kept, above, -⟩ := move_effect sound moved
  exact ⟨above, kept⟩

end Ledger

namespace Vault

structure Sound (v : Vault) : Prop where
  store : v.store.Coherent
  ledger : v.ledger.Sound

/-- The tables of a vault, without what its journals and its index keep. -/
def sheet (v : Vault) : Sheet := ⟨v.store.pools, v.store.positions, v.ledger.balances, v.seen⟩

variable {u v w : Vault}

section Reads

theorem positionsOf_sheet (coherent : v.store.Coherent) (market : Market) :
    v.sheet.positionsOf market = v.store.positionsOf market := by
  refine Table.entries_ext ?_ ?_ ?_
  · refine List.pairwise_map.2 (List.Pairwise.imp_of_mem ?_ (v.store.positions.sorted.filter _))
    rintro ⟨⟨m, a⟩, p⟩ ⟨⟨n, b⟩, q⟩ first second below
    obtain rfl : m = market := by simpa using (List.mem_filter.1 first).2
    obtain rfl : n = m := by simpa using (List.mem_filter.1 second).2
    have self : compare n n = .eq := Std.ReflCmp.compare_self
    have lexicographic : (compare n n).then (compare a b) = .lt := below
    rwa [self] at lexicographic
  · have sorted := coherent.sorted market
    rwa [← Walk.map_fst_positionsOf, List.pairwise_map] at sorted
  · rintro ⟨account, position⟩
    rw [Store.mem_positionsOf coherent, Store.position?, Table.get?_eq_some_iff]
    simp [Sheet.positionsOf, sheet]

theorem answer_sheet (coherent : v.store.Coherent) (query : Query) :
    v.sheet.answer query = v.answer query := by
  cases query with
  | markets after =>
    cases after with
    | none => simp [Sheet.answer, answer, Store.markets, sheet]
    | some cursor =>
      simp only [Sheet.answer, answer, Store.markets,
        Table.dropWhile_eq_filter v.store.pools.sorted_keys, Option.all_some]
      rfl
  | count market =>
    rw [Sheet.answer, answer, positionsOf_sheet coherent, Store.positionCount, Store.positionsOf,
      List.length_map]
  | page market after limit =>
    simp only [Sheet.answer, answer, positionsOf_sheet coherent, coherent.page_eq]
  | _ => rfl

end Reads

structure Reaches (v w : Vault) : Prop where
  store : v.store.Above w.store
  ledger : v.ledger.Above w.ledger
  sound : w.Sound

namespace Reaches

theorem refl (sound : v.Sound) : v.Reaches v := ⟨.refl _, .refl _, sound⟩

theorem trans (lower : u.Reaches v) (upper : v.Reaches w) : u.Reaches w :=
  ⟨lower.store.trans upper.store, lower.ledger.trans upper.ledger, upper.sound⟩

theorem ofStore (sound : v.Sound) {s : Store} (above : v.store.Above s) (coherent : s.Coherent) :
    v.Reaches { v with store := s } :=
  ⟨above, .refl _, coherent, sound.ledger⟩

theorem ofLedger (sound : v.Sound) {l : Ledger} (above : v.ledger.Above l) (kept : l.Sound) :
    v.Reaches { v with ledger := l } :=
  ⟨.refl _, above, sound.store, kept⟩

theorem depth (reaches : v.Reaches w) : w.store.depth = v.store.depth := reaches.store.depth

end Reaches

/-- On a vault inside some block and on its sheet, the two steps end alike, on a vault and its sheet
again, and the journals lead back. -/
def Mirrored (m : Action Vault α) (n : Action Sheet α) : Prop :=
  ∀ v : Vault, v.Sound → 0 < v.store.depth →
    ∃ outcome w, m v = (outcome, w) ∧ n v.sheet = (outcome, w.sheet) ∧ v.Reaches w

namespace Mirrored

theorem pure (a : α) : Mirrored (pure a) (pure a) := fun v sound _ => ⟨_, v, rfl, rfl, .refl sound⟩

theorem fail (fault : Fault) : Mirrored (Action.fail fault : Action Vault α) (Action.fail fault) :=
  fun v sound _ => ⟨_, v, rfl, rfl, .refl sound⟩

theorem attempt {m : Action Vault α} {n : Action Sheet α} (mirrored : Mirrored m n) :
    Mirrored (Action.attempt m) (Action.attempt n) := by
  intro v sound inside
  obtain ⟨outcome, w, onVault, onSheet, reaches⟩ := mirrored v sound inside
  refine ⟨.ok outcome, w, ?_, ?_, reaches⟩
  · rw [Action.attempt, onVault]
  · rw [Action.attempt, onSheet]

theorem bind {m : Action Vault α} {n : Action Sheet α} {f : α → Action Vault β}
    {g : α → Action Sheet β}
    (first : Mirrored m n) (next : ∀ a, Mirrored (f a) (g a)) : Mirrored (m >>= f) (n >>= g) := by
  intro v sound inside
  obtain ⟨outcome, w, onVault, onSheet, reaches⟩ := first v sound inside
  cases outcome with
  | error fault => exact ⟨_, w, Action.bind_error onVault f, Action.bind_error onSheet g, reaches⟩
  | ok a =>
    have inside' : 0 < w.store.depth := by rwa [reaches.depth]
    obtain ⟨last, u, onVault', onSheet', onward⟩ := next a w reaches.sound inside'
    refine ⟨last, u, ?_, ?_, reaches.trans onward⟩
    · rw [Action.bind_ok onVault, onVault']
    · rw [Action.bind_ok onSheet, onSheet']

theorem ask (query : Query) : Mirrored (Vault.ask query) (Sheet.ask query) := by
  intro v sound _
  refine ⟨_, _, rfl, ?_, .refl _, .refl _, sound.store, sound.ledger⟩
  rw [Sheet.ask, answer_sheet sound.store]
  rfl

theorem insertPool (market : Market) (pool : Pool) :
    Mirrored (Vault.write (.insertPool market pool)) (Sheet.write (.insertPool market pool)) := by
  intro v sound _
  cases held : v.store.pool? market with
  | some before =>
    have known : v.sheet.pools.get? market = some before := held
    exact ⟨.error (.poolTaken market), v,
      by simp only [Vault.write, Lens.change, storePlace, Store.insertPool, held],
      by simp [Sheet.write, Table.contains, known], .refl sound⟩
  | none =>
    have unknown : v.sheet.pools.get? market = none := held
    have above := Store.Above.writePool v.store market pool
    rw [held] at above
    exact ⟨.ok (), _, by simp only [Vault.write, Lens.change, storePlace, Store.insertPool, held],
      by simp only [Sheet.write, Table.contains, unknown]; rfl,
      .ofStore sound above (sound.store.writePool pool none)⟩

theorem putPool (market : Market) (pool : Pool) :
    Mirrored (Vault.write (.putPool market pool)) (Sheet.write (.putPool market pool)) := by
  intro v sound _
  cases held : v.store.pool? market with
  | none =>
    have unknown : v.sheet.pools.get? market = none := held
    exact ⟨.error (.poolAbsent market), v,
      by simp only [Vault.write, Lens.change, storePlace, Store.putPool, held],
      by simp [Sheet.write, Table.contains, unknown], .refl sound⟩
  | some before =>
    have known : v.sheet.pools.get? market = some before := held
    have above := Store.Above.writePool v.store market pool
    rw [held] at above
    exact ⟨.ok (), _, by simp only [Vault.write, Lens.change, storePlace, Store.putPool, held],
      by simp only [Sheet.write, Table.contains, known]; rfl,
      .ofStore sound above (sound.store.writePool pool (some before))⟩

theorem transfer (asset : Asset) (source dest : Account) (amount : Value) :
    Mirrored (Vault.write (.transfer asset source dest amount))
      (Sheet.write (.transfer asset source dest amount)) := by
  intro v sound _
  have bare := Ledger.balances_of_transfer asset source dest amount v.ledger
  cases moved : v.ledger.transfer asset source dest amount with
  | error fault =>
    rw [moved] at bare
    exact ⟨.error fault, v, by simp only [Vault.write, Lens.change, ledgerPlace, moved],
      by simp only [Sheet.write, sheet, bare]; rfl, .refl sound⟩
  | ok l =>
    obtain ⟨above, kept⟩ := Ledger.transfer_effect sound.ledger moved
    rw [moved] at bare
    exact ⟨.ok (), _, by simp only [Vault.write, Lens.change, ledgerPlace, moved],
      by simp only [Sheet.write, sheet, bare]; rfl, .ofLedger sound above kept⟩

theorem write (change : Write) : Mirrored (Vault.write change) (Sheet.write change) := by
  cases change with
  | insertPool market pool => exact insertPool market pool
  | putPool market pool => exact putPool market pool
  | putPosition market provider position =>
    exact fun v sound _ => ⟨.ok (), _, rfl, rfl,
      .ofStore sound (.putPosition sound.store market provider position)
        (sound.store.putPosition position)⟩
  | transfer asset source dest amount => exact transfer asset source dest amount

end Mirrored

section Blocks

def opened (v : Vault) : Vault := { v with store := { v.store with depth := v.store.depth + 1 } }

def closed (v w : Vault) : Vault :=
  let journals : Store × Ledger :=
    if v.store.depth = 0 then
      (w.store.withJournal v.store.journal, { w.ledger with journal := v.ledger.journal })
    else (w.store, w.ledger)
  ⟨{ journals.1 with depth := v.store.depth }, journals.2, w.seen⟩

def marks (v : Vault) : Atomic.Marks Vault :=
  [(Store.member storePlace, v.store.checkpoint), (Ledger.member ledgerPlace, v.ledger.checkpoint)]

theorem atomic_apply (body : Action Vault α) (v : Vault) :
    atomic body v =
      Atomic.leave (Store.depthOf storePlace) v.marks (body v.opened).1 (body v.opened).2 := rfl

theorem Sound.opened (sound : v.Sound) : v.opened.Sound := ⟨sound.store.congr rfl rfl, sound.ledger⟩

theorem lawful_storePlace : storePlace.Lawful := ⟨fun _ _ => rfl, fun _ _ _ => rfl⟩

theorem leave_error (reaches : v.opened.Reaches w) (fault : Fault) :
    Atomic.leave (Store.depthOf storePlace) v.marks (.error fault : Except Fault α) w =
      (.error fault, { v with seen := w.seen }) :=
  Store.leave_error_restores storePlace reaches.store lawful_storePlace fault
    (Ledger.rollbackAll_alone ledgerPlace reaches.ledger) rfl

theorem leave_ok (reaches : v.opened.Reaches w) (a : α) :
    Atomic.leave (Store.depthOf storePlace) v.marks (.ok a) w = (.ok a, v.closed w) := by
  unfold closed
  split
  next outermost =>
    refine (Store.leave_ok_outermost storePlace reaches.store outermost a
      (Ledger.commitAll_alone ledgerPlace reaches.ledger) rfl).trans ?_
    rw [outermost]
    rfl
  next within => exact Store.leave_ok_within storePlace _ reaches.store within a

theorem Sound.closed (sound : w.Sound) (v : Vault) : (v.closed w).Sound := by
  unfold Vault.closed
  split
  · exact ⟨sound.store.congr rfl rfl, sound.ledger⟩
  · exact ⟨sound.store.congr rfl rfl, sound.ledger⟩

theorem sheet_closed (v w : Vault) : (v.closed w).sheet = w.sheet := by
  unfold closed
  split <;> rfl

theorem Reaches.closed (nested : 0 < v.store.depth) (reaches : v.opened.Reaches w) :
    v.Reaches (v.closed w) := by
  rw [Vault.closed, if_neg (Nat.ne_of_gt nested)]
  have sound := reaches.sound.closed v
  rw [Vault.closed, if_neg (Nat.ne_of_gt nested)] at sound
  exact ⟨reaches.store.withDepth v.store.depth, reaches.ledger, sound⟩

variable {m : Action Vault α} {n : Action Sheet α}

theorem Mirrored.cases_atomic (mirrored : Mirrored m n) (sound : v.Sound) :
    ∃ w, v.opened.Reaches w ∧
      ((∃ fault, atomic m v = (.error fault, { v with seen := w.seen }) ∧
          Sheet.atomic n v.sheet = (.error fault, { v.sheet with seen := w.seen })) ∨
        ∃ a, atomic m v = (.ok a, v.closed w) ∧ Sheet.atomic n v.sheet = (.ok a, w.sheet)) := by
  obtain ⟨outcome, w, onVault, onSheet, reaches⟩ := mirrored v.opened sound.opened (Nat.succ_pos _)
  have onSheet : n v.sheet = (outcome, w.sheet) := onSheet
  refine ⟨w, reaches, ?_⟩
  rw [atomic_apply, onVault, Sheet.atomic, onSheet]
  cases outcome with
  | error fault => exact .inl ⟨fault, leave_error reaches fault, rfl⟩
  | ok a => exact .inr ⟨a, leave_ok reaches a, rfl⟩

theorem Mirrored.atomic (mirrored : Mirrored m n) : Mirrored (Vault.atomic m) (Sheet.atomic n) := by
  intro v sound inside
  obtain ⟨w, reaches, ⟨fault, onVault, onSheet⟩ | ⟨a, onVault, onSheet⟩⟩ :=
    mirrored.cases_atomic sound
  · exact ⟨_, _, onVault, onSheet, .refl _, .refl _, sound.store, sound.ledger⟩
  · exact ⟨_, _, onVault, by rw [onSheet, sheet_closed], reaches.closed inside⟩

end Blocks

end Vault

namespace Routine

theorem mirrored (r : Routine α) : Vault.Mirrored r.onVault r.onSheet := by
  induction r with
  | give a => exact .pure a
  | fail fault => exact .fail fault
  | ask query next ih => exact (Vault.Mirrored.ask query).bind ih
  | write change next ih => exact (Vault.Mirrored.write change).attempt.bind ih
  | block body next ihBody ih => exact ihBody.atomic.attempt.bind ih

/-- Run as an outermost block, a routine cannot tell undoing from putting back a copy, and neither
can who reads the store and the ledger afterwards; the journals are what they were before. -/
theorem atomic_restores (r : Routine α) {v : Vault} (sound : v.Sound)
    (outermost : v.store.depth = 0) :
    ∃ outcome w t, Vault.atomic r.onVault v = (outcome, w) ∧
      Sheet.atomic r.onSheet v.sheet = (outcome, t) ∧ w.seen = t.seen ∧
      (∀ query, w.answer query = t.answer query) ∧
      w.store.journal = v.store.journal ∧ w.ledger.journal = v.ledger.journal := by
  obtain ⟨w, reaches, ⟨fault, onVault, onSheet⟩ | ⟨a, onVault, onSheet⟩⟩ :=
    r.mirrored.cases_atomic sound
  · exact ⟨_, _, _, onVault, onSheet, rfl, fun query => (Vault.answer_sheet sound.store query).symm,
      rfl, rfl⟩
  · have journals : (v.closed w).store.journal = v.store.journal ∧
        (v.closed w).ledger.journal = v.ledger.journal := by
      rw [Vault.closed, if_pos outermost]
      exact ⟨rfl, rfl⟩
    have tables := Vault.sheet_closed v w
    refine ⟨_, _, _, onVault, onSheet, congrArg Sheet.seen tables, fun query => ?_, journals⟩
    rw [← tables, Vault.answer_sheet (reaches.sound.closed v).store]

def stocked : Vault where
  store := ({} : Store).putPosition ⟨1, 2⟩ "bob" ⟨4, 4⟩
  ledger := Ledger.carry ⟨1, "bank", "alice", 3⟩ { balances := ({} : Balances).put "bank" 1 9 }

def nested : Routine Nat :=
  .write (.putPosition ⟨1, 2⟩ "bob" ⟨5, 5⟩) fun _ =>
  .block (.write (.putPosition ⟨1, 2⟩ "alice" ⟨2, 0⟩) fun _ =>
    .write (.transfer 1 "alice" "bank" (.int 3)) fun _ =>
    .block (.write (.putPosition ⟨1, 2⟩ "alice" ⟨2, 7⟩) fun _ => .give ()) fun _ =>
    .ask (.page ⟨1, 2⟩ none (.int 9)) fun _ => .ask (.balance 1 "alice") fun _ =>
    (.fail .journalEmpty : Routine Unit)) fun _ =>
  .ask (.page ⟨1, 2⟩ none (.int 9)) fun _ => .ask (.balance 1 "alice") fun _ => .give 0

theorem sound_stocked : stocked.Sound where
  store := Store.coherent_empty.putPosition _
  ledger := Ledger.sound_carry ((Balances.Sound.empty none).put _ _ rfl) ⟨by decide, rfl⟩

theorem atomic_restores_nested :
    (∃ outcome w t, Vault.atomic nested.onVault stocked = (outcome, w) ∧
      Sheet.atomic nested.onSheet stocked.sheet = (outcome, t) ∧ w.seen = t.seen ∧
      (∀ query, w.answer query = t.answer query) ∧
      w.store.journal = stocked.store.journal ∧ w.ledger.journal = stocked.ledger.journal) ∧
    (Vault.atomic nested.onVault stocked).2.seen.map (·.toOption) =
      [some (.positions [("alice", ⟨2, 7⟩), ("bob", ⟨5, 5⟩)]), some (.amount 0),
        some (.positions [("bob", ⟨5, 5⟩)]), some (.amount 3)] :=
  ⟨atomic_restores nested sound_stocked rfl, by decide +kernel⟩

end Routine

end LiquidityPools
