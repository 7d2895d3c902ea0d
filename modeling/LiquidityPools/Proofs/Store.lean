import LiquidityPools.Store

/-!
What a store's writes do, and that its journal takes them back. In a coherent store the index of
providers matches the recorded positions; every write leaves it coherent. A store stands above
another if rolling it back to the other's mark gives the other again, index and journal included.
-/

namespace LiquidityPools.Store

/-- The index of providers names exactly those with a recorded position, in order, and keeps no
empty list. -/
structure Coherent (s : Store) : Prop where
  mem_iff : ∀ market provider, provider ∈ s.providersOf market ↔
    s.hasPosition market provider = true
  sorted : ∀ market, (s.providersOf market).Pairwise fun a b => compare a b = .lt
  kept : ∀ market, s.providers.get? market ≠ some []

def bare (s : Store) : Store := { s with journal := [], depth := 0 }

theorem coherent_empty : Coherent {} where
  mem_iff _ _ := ⟨nofun, nofun⟩
  sorted _ := .nil
  kept _ := nofun

variable {s t : Store}

theorem Coherent.congr (coherent : s.Coherent) (positions : t.positions = s.positions)
    (providers : t.providers = s.providers) : t.Coherent := by
  cases s; cases t; cases positions; cases providers
  exact ⟨coherent.mem_iff, coherent.sorted, coherent.kept⟩

section Index

theorem mem_insertAccount {a b : Account} {l : List Account} :
    b ∈ insertAccount a l ↔ b = a ∨ b ∈ l := by
  induction l with
  | nil => simp [insertAccount]
  | cons c rest ih =>
    rw [insertAccount]
    split
    · exact List.mem_cons
    · rw [List.mem_cons, List.mem_cons, ih]
      exact or_left_comm

theorem erase_insertAccount {a : Account} {l : List Account} (fresh : a ∉ l) :
    (insertAccount a l).erase a = l := by
  induction l with
  | nil => simp [insertAccount]
  | cons c rest ih =>
    obtain ⟨apart, fresh⟩ := not_or.1 (mt List.mem_cons.2 fresh)
    rw [insertAccount]
    split
    · rw [List.erase_cons_head]
    · rw [List.erase_cons_tail (by simpa using fun h => apart h.symm), ih fresh]

theorem sorted_insertAccount {a : Account} {l : List Account} (fresh : a ∉ l)
    (sorted : l.Pairwise fun a b => compare a b = .lt) :
    (insertAccount a l).Pairwise fun a b => compare a b = .lt := by
  induction l with
  | nil => simp [insertAccount]
  | cons c rest ih =>
    obtain ⟨first, others⟩ := List.pairwise_cons.1 sorted
    obtain ⟨apart, fresh⟩ := not_or.1 (mt List.mem_cons.2 fresh)
    rw [insertAccount]
    split
    next lt =>
      have below : compare a c = .lt := Ordering.isLT_iff_eq_lt.1 lt
      refine List.pairwise_cons.2 ⟨fun b member => ?_, sorted⟩
      rcases List.mem_cons.1 member with rfl | member
      · exact below
      · exact Std.TransCmp.lt_trans below (first b member)
    next notLt =>
      have above : compare c a = .lt := by
        refine Std.OrientedCmp.gt_iff_lt.1 ?_
        cases order : compare a c with
        | lt => simp [order] at notLt
        | eq => exact absurd (Std.LawfulEqCmp.eq_of_compare order) apart
        | gt => rfl
      refine List.pairwise_cons.2 ⟨fun b member => ?_, ih fresh others⟩
      rcases mem_insertAccount.1 member with rfl | member
      · exact above
      · exact first b member

theorem insertAccount_ne_nil (a : Account) (l : List Account) : insertAccount a l ≠ [] := by
  cases l with
  | nil => simp [insertAccount]
  | cons c rest => rw [insertAccount]; split <;> simp

end Index

section Pools

variable {market : Market}

theorem hasPool_iff : s.hasPool market = true ↔ ∃ pool, (market, pool) ∈ s.pools.entries := by
  rw [hasPool, pool?, Option.isSome_iff_exists]
  exact exists_congr fun _ => Table.get?_eq_some_iff

theorem mem_keys_pools : market ∈ s.pools.keys ↔ s.hasPool market = true := by
  rw [hasPool_iff, Table.keys, List.mem_map]
  constructor
  · rintro ⟨⟨_, pool⟩, member, rfl⟩
    exact ⟨pool, member⟩
  · rintro ⟨pool, member⟩
    exact ⟨(market, pool), member, rfl⟩

end Pools

section Writes

theorem pool?_writePool (s : Store) (market other : Market) (pool : Pool) (before : Option Pool) :
    (s.writePool market pool before).pool? other =
      if other = market then some pool else s.pool? other :=
  Table.get?_insert ..

variable (s) (market : Market) (provider : Account)

@[simp] theorem position?_putPosition (other : Market) (account : Account) (position : Position) :
    (s.putPosition market provider position).position? other account =
      if (other, account) = (market, provider) then some position else s.position? other account :=
  Table.get?_insert ..

theorem providersOf_putPosition (other : Market) (position : Position) :
    (s.putPosition market provider position).providersOf other =
      if other = market ∧ s.position? market provider = none then
        insertAccount provider (s.providersOf market)
      else s.providersOf other := by
  unfold providersOf putPosition
  cases held : s.position? market provider with
  | some before => simp
  | none =>
    simp only [Table.get?_insert, and_true]
    split <;> rfl

variable {s market provider}

theorem Coherent.not_mem (coherent : s.Coherent) (fresh : s.position? market provider = none) :
    provider ∉ s.providersOf market := by
  rw [coherent.mem_iff, hasPosition, fresh]
  simp

theorem Coherent.writePool (coherent : s.Coherent) (pool : Pool) (before : Option Pool) :
    (s.writePool market pool before).Coherent :=
  coherent.congr rfl rfl

theorem Coherent.putPosition (coherent : s.Coherent) (position : Position) :
    (s.putPosition market provider position).Coherent where
  mem_iff other account := by
    rw [providersOf_putPosition, hasPosition, position?_putPosition]
    by_cases fresh : other = market ∧ s.position? market provider = none
    · obtain ⟨rfl, fresh⟩ := fresh
      rw [if_pos ⟨rfl, fresh⟩, mem_insertAccount, coherent.mem_iff, hasPosition]
      by_cases same : account = provider <;> simp [same]
    · rw [if_neg fresh, coherent.mem_iff, hasPosition]
      by_cases same : (other, account) = (market, provider)
      · cases same
        have held : s.position? market provider ≠ none := fun h => fresh ⟨rfl, h⟩
        simp [Option.isSome_iff_ne_none, held]
      · rw [if_neg same]
  sorted other := by
    rw [providersOf_putPosition]
    split
    next fresh => exact sorted_insertAccount (coherent.not_mem fresh.2) (coherent.sorted market)
    next => exact coherent.sorted other
  kept other := by
    unfold Store.putPosition
    cases held : s.position? market provider with
    | some before => exact coherent.kept other
    | none =>
      simp only [Table.get?_insert]
      split
      · simp [insertAccount_ne_nil]
      · exact coherent.kept other

end Writes

section Journal

/-- Rolling back to the mark of `s` gives `s` again. -/
structure Above (s t : Store) : Prop where
  le : s.checkpoint ≤ t.checkpoint
  rollback : t.rollback s.checkpoint = s

def withJournal (s : Store) (journal : List Undo) : Store := { s with journal }

theorem undo_withJournal (s : Store) (u : Undo) (journal : List Undo) :
    (s.withJournal journal).undo u = (s.undo u).withJournal journal := by
  cases u with
  | pool market before => cases before <;> rfl
  | position market provider before => cases before <;> rfl

theorem foldl_undo_withJournal (us : List Undo) (s : Store) (journal : List Undo) :
    us.foldl undo (s.withJournal journal) = (us.foldl undo s).withJournal journal := by
  induction us generalizing s with
  | nil => rfl
  | cons u us ih => rw [List.foldl_cons, List.foldl_cons, undo_withJournal, ih]

theorem foldl_undo_withDepth (us : List Undo) (s : Store) (depth : Nat) :
    us.foldl undo { s with depth } = { us.foldl undo s with depth } := by
  induction us generalizing s with
  | nil => rfl
  | cons u us ih =>
    rw [List.foldl_cons, List.foldl_cons, ← ih]
    congr 1
    cases u with
    | pool market before => cases before <;> rfl
    | position market provider before => cases before <;> rfl

theorem depth_foldl_undo (us : List Undo) (s : Store) : (us.foldl undo s).depth = s.depth := by
  show (us.foldl undo { s with depth := s.depth }).depth = s.depth
  rw [foldl_undo_withDepth]

@[simp] theorem depth_rollback (s : Store) (mark : Nat) : (s.rollback mark).depth = s.depth :=
  depth_foldl_undo ..

theorem rollback_eq (s : Store) (mark : Nat) :
    s.rollback mark =
      ((s.journal.take (s.journal.length - mark)).foldl undo s).withJournal
        (s.journal.drop (s.journal.length - mark)) := rfl

theorem rollback_rollback {s : Store} {low high : Nat} (le : low ≤ high)
    (within : high ≤ s.journal.length) : (s.rollback high).rollback low = s.rollback low := by
  have length : (s.rollback high).journal.length = high := by
    rw [rollback_eq]
    simp only [withJournal, List.length_drop]
    omega
  have split : s.journal.length - low = (s.journal.length - high) + (high - low) := by omega
  rw [rollback_eq (s.rollback high), length, rollback_eq s high, rollback_eq s low, split,
    List.take_add, List.foldl_append, foldl_undo_withJournal]
  simp only [withJournal, List.drop_drop]

namespace Above

theorem refl (s : Store) : s.Above s where
  le := Nat.le_refl _
  rollback := by
    rw [rollback_eq, checkpoint, Nat.sub_self]
    rfl

theorem trans {u : Store} (lower : s.Above t) (upper : t.Above u) : s.Above u where
  le := Nat.le_trans lower.le upper.le
  rollback := by
    have joined := rollback_rollback (s := u) lower.le upper.le
    rw [upper.rollback, lower.rollback] at joined
    exact joined.symm

theorem depth (above : s.Above t) : t.depth = s.depth := by
  rw [← above.rollback, depth_rollback]

theorem commit (above : s.Above t) : t.commit s.checkpoint = t.withJournal s.journal := by
  have journal : s.journal = t.journal.drop (t.journal.length - s.checkpoint) := by
    conv => lhs; rw [← above.rollback]
    rfl
  rw [Store.commit, withJournal, ← journal]

theorem withDepth (above : s.Above t) (depth : Nat) :
    { s with depth }.Above { t with depth } where
  le := above.le
  rollback := by
    have rolled := above.rollback
    rw [rollback_eq] at rolled ⊢
    rw [foldl_undo_withDepth]
    exact congrArg (fun s : Store => { s with depth }) rolled

theorem of_journal (s : Store) {t : Store} {u : Undo} (journal : t.journal = u :: s.journal)
    (undone : t.undo u = { s with journal := t.journal }) : s.Above t where
  le := by simp [checkpoint, journal]
  rollback := by
    have one : t.journal.length - s.checkpoint = 1 := by simp [checkpoint, journal]
    rw [rollback_eq, one, journal]
    simp only [List.take_succ_cons, List.take_zero, List.foldl_cons, List.foldl_nil, undone,
      List.drop_succ_cons, List.drop_zero]
    rfl

theorem writePool (s : Store) (market : Market) (pool : Pool) :
    s.Above (s.writePool market pool (s.pool? market)) := by
  refine of_journal s (u := .pool market (s.pool? market)) rfl ?_
  cases held : s.pool? market with
  | none =>
    simp only [Store.writePool, undo]
    rw [Table.erase_insert held]
  | some before =>
    simp only [Store.writePool, undo]
    rw [Table.insert_insert held]

theorem putPosition (coherent : s.Coherent) (market : Market) (provider : Account)
    (position : Position) : s.Above (s.putPosition market provider position) := by
  refine of_journal s (u := .position market provider (s.position? market provider)) rfl ?_
  cases held : s.position? market provider with
  | some before =>
    simp only [Store.putPosition, held, undo]
    rw [Table.insert_insert held]
  | none =>
    have listed : (s.putPosition market provider position).providersOf market =
        insertAccount provider (s.providersOf market) := by
      rw [providersOf_putPosition, if_pos ⟨rfl, held⟩]
    simp only [undo, listed, erase_insertAccount (coherent.not_mem held)]
    simp only [Store.putPosition, held, Table.erase_insert held]
    congr 1
    -- an absent list of providers and an empty one are told apart by `kept`
    cases known : s.providers.get? market with
    | none =>
      have none : s.providersOf market = [] := by rw [providersOf, known]; rfl
      rw [none, List.isEmpty_nil, if_pos rfl, Table.erase_insert known]
    | some providers =>
      have some : s.providersOf market = providers := by rw [providersOf, known]; rfl
      have nonempty : providers.isEmpty = false := by
        cases providers with
        | nil => exact absurd known (coherent.kept market)
        | cons => rfl
      rw [some, nonempty, if_neg (by simp), Table.insert_insert known]

end Above

end Journal

end LiquidityPools.Store
