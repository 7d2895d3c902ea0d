import LiquidityPools.Proofs.Search
import LiquidityPools.Proofs.Snapshot

/-!
Raw use of a store's journal. Writes, rollbacks and commits may follow each other in any order, with
any marks, and some of them may fail. Undoing never misses what it takes out, and a mark that was
neither committed nor rolled back over leads back to the store that gave it.

Undoing is spelled out here as it is done: entries are popped one by one, what a first write put in
has to be there to be taken out, and the index is searched by halving.
-/

namespace LiquidityPools

namespace Store

variable {s t : Store}

section Undoing

def undo? (s : Store) : Undo → Option Store
  | .pool market none =>
    if s.hasPool market then some { s with pools := s.pools.erase market } else none
  | .pool market (some before) => some { s with pools := s.pools.insert market before }
  | .position market provider (some before) =>
    some { s with positions := s.positions.insert (market, provider) before }
  | .position market provider none =>
    if s.hasPosition market provider then
      (s.providers.get? market).bind fun listed =>
        if placeOf provider listed < listed.length then
          let rest := listed.eraseIdx (placeOf provider listed)
          some { s with
            positions := s.positions.erase (market, provider)
            providers := if rest.isEmpty then s.providers.erase market
              else s.providers.insert market rest }
        else none
    else none

def retrace (mark : Nat) : List Undo → Store → Option Store
  | [], s => some s
  | u :: older, s =>
    if mark < older.length + 1 then (undo? (s.withJournal older) u).bind (retrace mark older)
    else some s

def rollback? (mark : Nat) (s : Store) : Option Store := retrace mark s.journal s

def recordPosition (market : Market) (provider : Account) (position : Position)
    (s : Store) : Store :=
  let before := s.position? market provider
  let listed := s.providersOf market
  { s with
    positions := s.positions.insert (market, provider) position
    providers := match before with
      | some _ => s.providers
      | none => s.providers.insert market (listed.insertIdx (placeAfter provider listed) provider)
    journal := .position market provider before :: s.journal }

/-- A page read from where the search for the cursor ends; a listed provider has to have a
position. -/
def page? (s : Store) (market : Market) (after : Option Account) (limit : Nat) :
    Option (List (Account × Position)) :=
  let listed := s.providersOf market
  let start := match after with
    | none => 0
    | some cursor => placeAfter cursor listed
  ((listed.drop start).take limit).mapM fun p => (s.position? market p).map (Prod.mk p)

end Undoing

inductive Edit where
  | insertPool (market : Market) (pool : Pool)
  | putPool (market : Market) (pool : Pool)
  | putPosition (market : Market) (provider : Account) (position : Position)
  | rollback (mark : Nat)
  | commit (mark : Nat)
  deriving DecidableEq, Repr

namespace Edit

def run : Edit → Action Store Unit
  | .insertPool market pool => Lens.whole.change (Store.insertPool market pool)
  | .putPool market pool => Lens.whole.change (Store.putPool market pool)
  | .putPosition market provider position =>
    Action.modify (Store.putPosition market provider position)
  | .rollback mark => Action.modify (Store.rollback mark)
  | .commit mark => Action.modify (Store.commit mark)

def run? (s : Store) : Edit → Option (Except Fault Unit × Store)
  | .putPosition market provider position =>
    some (.ok (), s.recordPosition market provider position)
  | .rollback mark => (s.rollback? mark).map (.ok (), ·)
  | e => some (e.run s)

def runAll (edits : List Edit) (s : Store) : Store := edits.foldl (fun s e => (e.run s).2) s

def runAll? (edits : List Edit) (s : Store) : Option Store :=
  edits.foldlM (fun s e => (e.run? s).map Prod.snd) s

def Keeps (mark : Nat) : Edit → Prop
  | .rollback low => mark ≤ low
  | .commit _ => False
  | _ => True

end Edit

section Searching

theorem Sound.undo?_eq (sound : s.Sound) {u : Undo} {older : List Undo}
    (journal : s.journal = u :: older) :
    (s.withJournal older).undo? u = some ((s.undo u).withJournal older) := by
  have held : s.Holds u.key := sound.undoable.held u (by simp [journal])
  cases u with
  | pool market before =>
    cases before with
    | some before => rfl
    | none =>
      have there : (s.withJournal older).hasPool market = true := held
      rw [undo?, if_pos there]
      rfl
  | position market provider before =>
    cases before with
    | some before => rfl
    | none =>
      have there : (s.withJournal older).hasPosition market provider = true := held
      have member : provider ∈ s.providersOf market :=
        (sound.coherent.mem_iff market provider).2 held
      rw [undo?, if_pos there]
      cases known : s.providers.get? market with
      | none => simp [providersOf, known] at member
      | some listed =>
        have listing : s.providersOf market = listed := by rw [providersOf, known]; rfl
        have sorted := sound.coherent.sorted market
        rw [listing] at member sorted
        obtain ⟨inside, popped⟩ := placeOf_member sorted member
        have known' : (s.withJournal older).providers.get? market = some listed := known
        simp only [known', Option.bind_some, if_pos inside, popped, undo, listing]
        rfl

theorem Sound.rollback?_eq (sound : s.Sound) (mark : Nat) :
    s.rollback? mark = some (s.rollback mark) := by
  rw [rollback?]
  induction journal : s.journal generalizing s with
  | nil => rw [retrace, rollback_of_le (by simp [journal])]
  | cons u older ih =>
    rw [retrace]
    by_cases lt : mark < older.length + 1
    · rw [if_pos lt, sound.undo?_eq journal, Option.bind_some, rollback_of_lt journal lt]
      exact ih (sound.pop journal) rfl
    · rw [if_neg lt, rollback_of_le (by rw [journal, List.length_cons]; omega)]

theorem Coherent.recordPosition_eq (coherent : s.Coherent) (market : Market) (provider : Account)
    (position : Position) :
    s.recordPosition market provider position = s.putPosition market provider position := by
  simp only [recordPosition, insertIdx_placeAfter (coherent.sorted market)]
  rfl

theorem Coherent.mapM_position? (coherent : s.Coherent) {market : Market} {listed : List Account}
    (known : ∀ p ∈ listed, p ∈ s.providersOf market) :
    (listed.mapM fun p => (s.position? market p).map (Prod.mk p)) =
      some (listed.map (s.withPosition market)) := by
  induction listed with
  | nil => rfl
  | cons p rest ih =>
    have has : s.hasPosition market p = true :=
      (coherent.mem_iff market p).1 (known p List.mem_cons_self)
    obtain ⟨position, held⟩ := Option.isSome_iff_exists.1 has
    rw [List.mapM_cons, ih fun q member => known q (List.mem_cons_of_mem _ member), held]
    simp [withPosition, Store.position, held]

theorem Coherent.page?_eq (coherent : s.Coherent) (market : Market) (after : Option Account)
    (limit : Nat) :
    s.page? market after limit = some (s.page market after limit) := by
  have start : (s.providersOf market).drop (match after with
        | none => 0
        | some cursor => placeAfter cursor (s.providersOf market)) =
      match after with
      | none => s.providersOf market
      | some cursor => (s.providersOf market).dropWhile fun p => (compare p cursor).isLE := by
    cases after with
    | none => rfl
    | some cursor => exact drop_placeAfter (coherent.sorted market) cursor
  refine (coherent.mapM_position? fun p member =>
    List.mem_of_mem_drop (List.mem_of_mem_take member)).trans ?_
  exact congrArg (fun listed => some ((listed.take limit).map (s.withPosition market))) start

theorem Edit.run?_eq (sound : s.Sound) (e : Edit) : e.run? s = some (e.run s) := by
  cases e with
  | putPosition market provider position =>
    rw [run?, sound.coherent.recordPosition_eq]
    rfl
  | rollback mark =>
    rw [run?, sound.rollback?_eq]
    rfl
  | _ => rfl

end Searching

/-- What the reads of a market make of its recorded positions. -/
structure Reads (s : Store) (market : Market) (recorded : List (Account × Position)) : Prop where
  sorted : recorded.Pairwise fun a b => compare a.1 b.1 = .lt
  mem_iff : ∀ provider position, (provider, position) ∈ recorded ↔
    s.position? market provider = some position
  hasPosition : ∀ provider, s.hasPosition market provider = true ↔ provider ∈ recorded.map Prod.fst
  count : s.positionCount market = recorded.length
  page : ∀ after limit, s.page? market after limit =
    some ((recorded.filter fun e => after.all fun cursor => compare cursor e.1 = .lt).take limit)

theorem Coherent.reads (coherent : s.Coherent) (market : Market) :
    s.Reads market (s.positionsOf market) where
  sorted := by
    have sorted := coherent.sorted market
    rwa [← Walk.map_fst_positionsOf, List.pairwise_map] at sorted
  mem_iff provider position := mem_positionsOf coherent
  hasPosition provider := by rw [Walk.map_fst_positionsOf, coherent.mem_iff]
  count := by rw [positionCount, positionsOf, List.length_map]
  page after limit := by rw [coherent.page?_eq, coherent.page_eq]

section Histories

theorem Edit.cases_run (e : Edit) (s : Store) :
    (e.run s).2 = s ∨
      (∃ market pool, (e.run s).2 = s.writePool market pool (s.pool? market)) ∨
      (∃ market provider position, (e.run s).2 = s.putPosition market provider position) ∨
      (∃ mark, e = .rollback mark ∧ (e.run s).2 = s.rollback mark) ∨
      ∃ mark, e = .commit mark ∧ (e.run s).2 = s.commit mark := by
  cases e with
  | insertPool market pool =>
    cases held : s.pool? market with
    | some before => exact .inl (by simp [run, Lens.change, Lens.whole, Store.insertPool, held])
    | none =>
      exact .inr
        (.inl ⟨market, pool, by simp [run, Lens.change, Lens.whole, Store.insertPool, held]⟩)
  | putPool market pool =>
    cases held : s.pool? market with
    | none => exact .inl (by simp [run, Lens.change, Lens.whole, Store.putPool, held])
    | some before =>
      exact .inr (.inl ⟨market, pool, by simp [run, Lens.change, Lens.whole, Store.putPool, held]⟩)
  | putPosition market provider position =>
    exact .inr (.inr (.inl ⟨market, provider, position, rfl⟩))
  | rollback mark => exact .inr (.inr (.inr (.inl ⟨mark, rfl, rfl⟩)))
  | commit mark => exact .inr (.inr (.inr (.inr ⟨mark, rfl, rfl⟩)))

theorem Sound.run (sound : s.Sound) (e : Edit) : (e.run s).2.Sound := by
  obtain same | ⟨market, pool, done⟩ | ⟨market, provider, position, done⟩ | ⟨mark, -, done⟩ |
    ⟨mark, -, done⟩ :=
    e.cases_run s
  · rwa [same]
  · rw [done]
    exact sound.writePool pool
  · rw [done]
    exact sound.putPosition position
  · rw [done]
    exact sound.rollback mark
  · rw [done]
    exact sound.commit mark

theorem Sound.runAll (sound : s.Sound) (edits : List Edit) : (Edit.runAll edits s).Sound := by
  induction edits generalizing s with
  | nil => exact sound
  | cons e rest ih => exact ih (sound.run e)

theorem Edit.runAll?_eq (sound : s.Sound) (edits : List Edit) :
    runAll? edits s = some (runAll edits s) := by
  induction edits generalizing s with
  | nil => rfl
  | cons e rest ih =>
    rw [runAll?, List.foldlM_cons, run?_eq sound, Option.map_some]
    exact ih (sound.run e)

theorem Above.rolledBack (above : s.Above t) {low : Nat} (le : s.checkpoint ≤ low) :
    s.Above (t.rollback low) := by
  by_cases within : low ≤ t.journal.length
  · refine ⟨?_, ?_⟩
    · have length : (t.rollback low).checkpoint = low := by
        rw [checkpoint, rollback_eq]
        simp only [withJournal, List.length_drop]
        omega
      rwa [length]
    · rw [rollback_rollback le within, above.rollback]
  · rw [rollback_of_le (by omega)]
    exact above

theorem Above.run (above : s.Above t) (sound : t.Sound) {e : Edit} (keeps : e.Keeps s.checkpoint) :
    s.Above (e.run t).2 := by
  obtain same | ⟨market, pool, done⟩ | ⟨market, provider, position, done⟩ | ⟨low, rfl, done⟩ |
    ⟨mark, rfl, -⟩ :=
    e.cases_run t
  · rwa [same]
  · rw [done]
    exact above.trans (.writePool t market pool)
  · rw [done]
    exact above.trans (.putPosition sound.coherent market provider position)
  · rw [done]
    exact above.rolledBack keeps
  · exact keeps.elim

theorem Above.runAll (above : s.Above t) (sound : t.Sound) {edits : List Edit}
    (keeps : ∀ e ∈ edits, e.Keeps s.checkpoint) : s.Above (Edit.runAll edits t) := by
  induction edits generalizing t with
  | nil => exact above
  | cons e rest ih =>
    refine ih (above.run sound (keeps e List.mem_cons_self)) (sound.run e) fun e member => ?_
    exact keeps e (List.mem_cons_of_mem _ member)

/-- After any raw operations on an empty store, failed ones included, no rollback has missed what it
took out: the operations as they are done on the index all end, and where their plain descriptions
end. The index of each market lists those with a recorded position, in strict order and never as an
empty list, and the count, the pages and the look-ups agree on them. A mark leads back to exactly
the store that gave it, unless it was committed, or rolled back over. -/
theorem Edit.history_accounted (edits : List Edit) :
    runAll? edits {} = some (runAll edits {}) ∧
      (runAll edits {}).Coherent ∧
      (∀ market, (runAll edits {}).Reads market ((runAll edits {}).positionsOf market)) ∧
      ∀ since : List Edit, (∀ e ∈ since, e.Keeps (runAll edits {}).checkpoint) →
        (Edit.rollback (runAll edits {}).checkpoint).run? (runAll since (runAll edits {})) =
          some (.ok (), runAll edits {}) := by
  have sound := sound_empty.runAll edits
  refine ⟨runAll?_eq sound_empty edits, sound.coherent, sound.coherent.reads, fun since keeps => ?_⟩
  have above := (Above.refl (runAll edits {})).runAll sound keeps
  rw [run?, (sound.runAll since).rollback?_eq, above.rollback]
  rfl

/-- Bob's second position is committed before Alice's first one is rolled back. -/
def mixedUse : List Edit :=
  [.insertPool ⟨0, 1⟩ ⟨5, 5, 0, 0⟩, .putPosition ⟨0, 1⟩ "bob" ⟨1, 1⟩,
    .putPosition ⟨0, 1⟩ "alice" ⟨2, 2⟩, .putPosition ⟨0, 1⟩ "bob" ⟨3, 3⟩, .commit 3,
    .insertPool ⟨0, 1⟩ ⟨9, 9, 0, 0⟩, .rollback 2]

def laterUse : List Edit :=
  [.putPosition ⟨0, 1⟩ "carol" ⟨4, 4⟩, .putPosition ⟨0, 1⟩ "alice" ⟨7, 7⟩, .rollback 3,
    .putPool ⟨0, 1⟩ ⟨6, 6, 0, 0⟩, .putPosition ⟨0, 1⟩ "bob" ⟨8, 8⟩]

theorem mixedUse_accounted :
    (∀ e ∈ laterUse, e.Keeps (Edit.runAll mixedUse {}).checkpoint) ∧
      (Edit.rollback (Edit.runAll mixedUse {}).checkpoint).run?
          (Edit.runAll laterUse (Edit.runAll mixedUse {})) =
            some (.ok (), Edit.runAll mixedUse {}) ∧
      (Edit.runAll mixedUse {}).positionsOf ⟨0, 1⟩ = [("bob", ⟨3, 3⟩)] ∧
      (Edit.runAll laterUse (Edit.runAll mixedUse {})).positionsOf ⟨0, 1⟩ =
        [("bob", ⟨8, 8⟩), ("carol", ⟨4, 4⟩)] := by
  have mark : (Edit.runAll mixedUse {}).checkpoint = 2 := by decide +kernel
  have keeps : ∀ e ∈ laterUse, e.Keeps (Edit.runAll mixedUse {}).checkpoint := by
    rw [mark]
    simp [laterUse, Edit.Keeps]
  exact ⟨keeps, (Edit.history_accounted mixedUse).2.2.2 laterUse keeps, by decide +kernel,
    by decide +kernel⟩

end Histories

end Store

end LiquidityPools
