import LiquidityPools.Proofs.Length
import LiquidityPools.Proofs.Table

/-!
Snapshots and back. A store's own snapshot is well formed and states what the store has, so it loads
as the store it was made of, less what could be undone. What is loaded from other data, in another
order or without the counters of fees, is a store of this kind, and its own snapshot loads as it
again, unless that one is too long: it names every counter, so it outgrows data that leaves them
out.
-/

namespace LiquidityPools

/-- What a snapshot can be loaded from: markets are valid, and positions belong to a market with a
pool and to a provider with a name. -/
structure Store.Regular (s : Store) : Prop where
  valid : ∀ market, s.hasPool market = true → market.Valid
  placed : ∀ market provider, s.hasPosition market provider = true → s.hasPool market = true
  named : ∀ market provider, s.hasPosition market provider = true → provider ≠ ""

namespace Snapshot

structure Limits.Admits (l : Limits) (s : Store) : Prop where
  positive : l.Positive
  pools : (poolEntries s).length ≤ l.pools
  positions : (positionEntries s).length ≤ l.positions
  textLength : ∀ market provider, s.hasPosition market provider = true →
    provider.length ≤ l.textLength
  bytes : ∀ data, Canonical.bytes (ofStore s).data = .ok data → data.length ≤ l.bytes

variable {s t : Store} {l : Limits}

theorem describes_ofStore (coherent : s.Coherent) (regular : s.Regular) (admits : l.Admits s) :
    Describes l
      [(.str "version", .int currentVersion), (.str "pools", .list (poolEntries s)),
        (.str "positions", .list (positionEntries s))] s.pools.entries s.positions.entries := by
  have table := Store.entries_positions coherent regular.placed
  have known {e : (Market × Account) × Position} (member : e ∈ s.positions.entries) :
      s.hasPosition e.1.1 e.1.2 = true :=
    Store.hasPosition_iff.2 ⟨e.2, member⟩
  have pools : List.Forall₂ StatesPool (poolEntries s) s.pools.entries := by
    refine List.forall₂_map_left_iff.2 (List.forall₂_same.2 fun e member => ?_)
    have valid := regular.valid e.1 (Store.hasPool_iff.2 ⟨e.2, member⟩)
    exact ⟨_, rfl, rfl, rfl, valid, rfl, rfl, .inl rfl, .inl rfl⟩
  have positions : List.Forall₂ (StatesPosition l.textLength) (positionEntries s)
      s.positions.entries := by
    rw [positionEntries_eq coherent, ← table]
    refine List.forall₂_map_left_iff.2 (List.forall₂_same.2 fun e member => ?_)
    have valid := regular.valid _ (regular.placed _ _ (known member))
    exact ⟨_, rfl, rfl, rfl, valid, regular.named _ _ (known member),
      admits.textLength _ _ (known member), rfl, rfl, rfl⟩
  exact
    { version := .inr rfl
      encodable := Canonical.exists_bytes_iff.1 ⟨_, bytes_ofStore coherent _⟩
      bytes := admits.bytes
      statesPools := ⟨_, .inl rfl, admits.pools, pools⟩
      statesPositions := ⟨_, .inl rfl, admits.positions, positions⟩
      marketsOnce := Table.nodup_of_sorted s.pools.sorted_keys
      providersOnce := Table.nodup_of_sorted s.positions.sorted_keys
      placed := fun e member => Store.mem_keys_pools.2 (regular.placed _ _ (known member)) }

theorem Holds.eq_bare (holds : Holds t s.pools.entries s.positions.entries) (coherent : s.Coherent)
    (committed : t.journal = []) : t = s.bare := by
  have pools : t.pools = s.pools := Table.ext_get? fun market =>
    Option.ext fun pool => (holds.pool? market pool).trans Table.get?_eq_some_iff.symm
  have positions : t.positions = s.positions := Table.ext_get? fun key =>
    Option.ext fun position => (holds.position? key.1 key.2 position).trans
      Table.get?_eq_some_iff.symm
  have same : t.bare = s.bare := Store.bare_eq holds.coherent coherent pools positions
  exact Store.ext_bare same committed holds.depth

theorem load_admitted (coherent : s.Coherent) (regular : s.Regular) (admits : l.Admits s) :
    load (ofStore s).data l.bounds = .ok s.bare := by
  obtain ⟨t, loaded, holds, committed⟩ :=
    load_of_describes admits.positive (describes_ofStore coherent regular admits)
  exact loaded.trans (congrArg Except.ok (holds.eq_bare coherent committed))

theorem foldlM_invariant {σ α ε : Type} {f : σ → α → Except ε σ} (holds : Nat → σ → Prop)
    (step : ∀ {n s a t}, holds n s → f s a = .ok t → holds (n + 1) t) {l : List α} {n : Nat}
    {s t : σ} (start : holds n s) (done : l.foldlM f s = .ok t) : holds (n + l.length) t := by
  induction l generalizing n s with
  | nil =>
    cases done
    exact start
  | cons a rest ih =>
    rw [List.foldlM_cons] at done
    obtain ⟨u, taken, done⟩ := Except.bind_eq_ok done
    rw [List.length_cons, Nat.add_comm rest.length, ← Nat.add_assoc]
    exact ih (step start taken) done

/-- A store that a snapshot is loaded into, after so many of its pools and positions. -/
structure Loading (textLength pools positions : Nat) (s : Store) : Prop where
  reached : s.Reached
  regular : s.Regular
  depth : s.depth = 0
  pools : s.pools.size = pools
  positions : s.positions.size = positions
  textLength : ∀ market provider, s.hasPosition market provider = true →
    provider.length ≤ textLength

namespace Loading

variable {textLength pools positions : Nat} {entry : Value}

theorem addPool (loading : Loading textLength pools positions s)
    (added : addPool s entry = .ok t) : Loading textLength (pools + 1) positions t := by
  obtain ⟨⟨market, pool⟩, ⟨_, -, stated⟩, fresh, rfl⟩ := addPool_eq_ok_iff.1 added
  have pooled (other : Market) : (s.writePool market pool none).hasPool other = true ↔
      other = market ∨ s.hasPool other = true := by
    rw [Store.hasPool, Store.pool?, Store.writePool, Table.get?_insert]
    split <;> simp_all [Store.hasPool, Store.pool?]
  refine ⟨loading.reached.newPool fresh pool, ⟨?_, ?_, loading.regular.named⟩, loading.depth, ?_,
    loading.positions, loading.textLength⟩
  · intro other there
    rcases (pooled other).1 there with rfl | there
    · exact stated.valid
    · exact loading.regular.valid other there
  · exact fun other provider held => (pooled other).2
      (.inr (loading.regular.placed other provider held))
  · rw [Store.writePool, Table.size_insert_fresh fresh, loading.pools]

theorem addPosition (loading : Loading textLength pools positions s)
    (added : addPosition textLength s entry = .ok t) :
    Loading textLength pools (positions + 1) t := by
  obtain ⟨⟨⟨market, provider⟩, position⟩, ⟨_, -, stated⟩, pooled, fresh, rfl⟩ :=
    addPosition_eq_ok_iff.1 added
  have recorded (other : Market) (account : Account) :
      (s.putPosition market provider position).hasPosition other account = true ↔
        (other, account) = (market, provider) ∨ s.hasPosition other account = true := by
    rw [Store.hasPosition, Store.position?_putPosition]
    split <;> simp_all [Store.hasPosition]
  refine ⟨loading.reached.putPosition market provider position, ⟨loading.regular.valid, ?_, ?_⟩,
    loading.depth, loading.pools, ?_, ?_⟩
  · intro other account held
    rcases (recorded other account).1 held with same | held
    · cases same
      exact pooled
    · exact loading.regular.placed other account held
  · intro other account held
    rcases (recorded other account).1 held with same | held
    · cases same
      exact stated.named
    · exact loading.regular.named other account held
  · rw [Store.putPosition, Table.size_insert_fresh fresh, loading.positions]
  · intro other account held
    rcases (recorded other account).1 held with same | held
    · cases same
      exact stated.short
    · exact loading.textLength other account held

end Loading

theorem length_of_entriesOf {name : String} {most : Nat} {value : Value} {items : List Value}
    (listed : entriesOf name most value = .ok items) : items.length ≤ most := by
  unfold entriesOf at listed
  split at listed
  · cases listed
    exact Nat.zero_le most
  · split at listed
    · cases listed
    · cases listed
      omega
  · cases listed

theorem load_loaded {v : Value} {b : Bounds} (done : load v b = .ok t) :
    ∃ l : Limits, b = l.bounds ∧ l.Positive ∧ t.Reached ∧ t.Regular ∧ t.bare = t ∧
      ∀ bytes, 0 < bytes → (bytesOf t currentVersion).length ≤ bytes →
        { l with bytes }.Admits t := by
  obtain ⟨l, fields, poolItems, positionItems, s, u, rfl, rfl, parts, first, second, rfl⟩ :=
    load_eq_ok done
  have start : Loading l.textLength 0 0 {} :=
    { reached := .empty, regular := ⟨nofun, nofun, nofun⟩, depth := rfl, pools := rfl
      positions := rfl, textLength := nofun }
  have pooled := foldlM_invariant (fun n => Loading l.textLength n 0)
    (fun loading added => loading.addPool added) start first
  have full := foldlM_invariant (fun n => Loading l.textLength (0 + poolItems.length) n)
    (fun loading added => loading.addPosition added) pooled second
  have reached : (u.commit 0).Reached := full.reached.commit 0
  have regular : (u.commit 0).Regular :=
    ⟨full.regular.valid, full.regular.placed, full.regular.named⟩
  refine ⟨l, rfl, parts.positive, reached, regular, ?_, fun bytes positive small => ?_⟩
  · rw [Store.bare, Store.commit, Nat.sub_zero, List.drop_length, ← full.depth]
  · have fewPools := length_of_entriesOf parts.pools
    have fewPositions := length_of_entriesOf parts.positions
    have table := Store.entries_positions reached.coherent regular.placed
    have sizes : u.pools.size = 0 + poolItems.length ∧
        u.positions.size = 0 + positionItems.length :=
      ⟨full.pools, full.positions⟩
    refine ⟨⟨positive, parts.positive.pools, parts.positive.positions, parts.positive.textLength⟩,
      ?_, ?_, full.textLength, ?_⟩
    · show (poolEntries (u.commit 0)).length ≤ l.pools
      rw [poolEntries, List.length_map]
      exact Nat.le_trans (Nat.le_of_eq sizes.1) (by omega)
    · show (positionEntries (u.commit 0)).length ≤ l.positions
      rw [positionEntries_eq reached.coherent, List.length_map, ← table]
      exact Nat.le_trans (Nat.le_of_eq sizes.2) (by omega)
    · intro data encoded
      rw [bytes_ofStore reached.coherent] at encoded
      cases encoded
      exact small

theorem ofStore_bare (coherent : s.Coherent) : ofStore s.bare = ofStore s := by
  have bare : s.bare.Coherent := coherent.congr rfl rfl
  have positions : positionEntries s.bare = positionEntries s := by
    rw [positionEntries_eq bare, positionEntries_eq coherent]
    rfl
  rw [ofStore, ofStore, positions]
  rfl

theorem load_tooLarge {fields : List (Value × Value)} {pools : List (Market × Pool)}
    {positions : List ((Market × Account) × Position)} {data : List UInt8} {bytes : Nat}
    (positive : l.Positive) (describes : Describes { l with bytes } fields pools positions)
    (encoded : Canonical.bytes (.map fields) = .ok data) (large : l.bytes < data.length) :
    load (.map fields) l.bounds = .error (.snapshot .tooLarge) := by
  obtain ⟨poolItems, poolsListed, poolsBound, -⟩ := describes.statesPools
  obtain ⟨positionItems, positionsListed, positionsBound, -⟩ := describes.statesPositions
  simp only [load, Limits.bounds, boundOf_eq_ok_iff.2 ⟨rfl, positive.bytes⟩,
    boundOf_eq_ok_iff.2 ⟨rfl, positive.pools⟩, boundOf_eq_ok_iff.2 ⟨rfl, positive.positions⟩,
    boundOf_eq_ok_iff.2 ⟨rfl, positive.textLength⟩, checkVersion_eq_ok_iff.2 describes.version,
    entriesOf_eq_ok_iff.2 ⟨poolsListed, poolsBound⟩,
    entriesOf_eq_ok_iff.2 ⟨positionsListed, positionsBound⟩, encoded, if_pos large, bind,
    Except.bind]

/-- Under other bounds of its length, and else those that its store was loaded under, a store's own
snapshot loads as that store if it keeps the bound, and is refused for its length if not. -/
theorem load_again {v : Value} {b : Bounds} (done : load v b = .ok t) :
    ∃ l : Limits, b = l.bounds ∧ l.Positive ∧ t.Reached ∧ t.Regular ∧ t.bare = t ∧
      ∀ bytes, 0 < bytes → load (ofStore t).data { l with bytes }.bounds =
        if (bytesOf t currentVersion).length ≤ bytes then .ok t
        else .error (.snapshot .tooLarge) := by
  obtain ⟨l, rfl, positive, reached, regular, bare, admits⟩ := load_loaded done
  have encoded := bytes_ofStore reached.coherent currentVersion
  refine ⟨l, rfl, positive, reached, regular, bare, fun bytes some => ?_⟩
  split
  next small =>
    rw [load_admitted reached.coherent regular (admits bytes some small), bare]
  next large =>
    have large := Nat.lt_of_not_le large
    have most := admits _ (Nat.lt_trans some large) (Nat.le_refl _)
    exact load_tooLarge ⟨some, positive.pools, positive.positions, positive.textLength⟩
      (describes_ofStore reached.coherent regular most) encoded large

theorem length_bytesOf_loaded {fields : List (Value × Value)} (complete : Complete fields)
    (done : load (.map fields) l.bounds = .ok t) :
    (bytesOf t currentVersion).length ≤ l.bytes := by
  obtain ⟨pools, positions, describes⟩ := describes_of_load done
  obtain ⟨l', same, positive, -⟩ := load_loaded done
  obtain rfl := bounds_injective same
  obtain ⟨s, loaded, holds, -⟩ := load_of_describes positive describes
  obtain rfl := Except.ok.inj (loaded.symm.trans done)
  obtain ⟨data, encoded⟩ := Canonical.exists_bytes_iff.2 describes.encodable
  exact (length_bytesOf_le describes holds complete encoded).trans (describes.bytes data encoded)

/-- Snapshots and back. (1) A store that edits have led to loads from its snapshot, within any
limits that the snapshot keeps: with the same pools, the same positions, recorded empty ones
included, the same providers and nothing to undo, so that its own snapshot is the same one. (2)
Whatever a store was loaded from, it loads again from its own snapshot within any limits that this
one keeps. Under the bounds of the first time, and under any other bound of the length, it loads
again exactly if its own snapshot is not longer than the bound, and is refused for its length if it
is; if nothing was left out of what the store was loaded from, it is not. -/
theorem loads_back :
    (∀ (s : Store) (l : Limits), s.Reached → s.Regular → l.Admits s →
      ∃ t, load (ofStore s).data l.bounds = .ok t ∧
        (∀ market, t.pool? market = s.pool? market) ∧
        (∀ market provider, t.position? market provider = s.position? market provider) ∧
        (∀ market, t.providersOf market = s.providersOf market ∧
          t.positionCount market = s.positionCount market) ∧
        t.journal = [] ∧ (ofStore t).data = (ofStore s).data ∧
        Canonical.bytes (ofStore t).data = Canonical.bytes (ofStore s).data ∧
        (ofStore t).commitment = (ofStore s).commitment) ∧
    ∀ (v : Value) (b : Bounds) (t : Store), load v b = .ok t →
      (∀ l : Limits, l.Admits t → load (ofStore t).data l.bounds = .ok t) ∧
      ∃ (l : Limits) (own : List UInt8), b = l.bounds ∧ 0 < l.bytes ∧
        Canonical.bytes (ofStore t).data = .ok own ∧
        (∀ bytes, 0 < bytes → load (ofStore t).data { l with bytes }.bounds =
          if own.length ≤ bytes then .ok t else .error (.snapshot .tooLarge)) ∧
        ∀ fields, v = .map fields → Complete fields →
          own.length ≤ l.bytes ∧ load (ofStore t).data b = .ok t := by
  refine ⟨fun s l reached regular admits => ?_, fun v b t done => ?_⟩
  · have coherent := reached.coherent
    have same := ofStore_bare coherent
    refine ⟨s.bare, load_admitted coherent regular admits, fun _ => rfl, fun _ _ => rfl,
      fun _ => ⟨rfl, rfl⟩, rfl, ?_⟩
    rw [same]
    exact ⟨rfl, rfl, rfl⟩
  · obtain ⟨l, rfl, positive, reached, regular, bare, again⟩ := load_again done
    refine ⟨fun l' admits => ?_, l, _, rfl, positive.bytes, bytes_ofStore reached.coherent _,
      again, ?_⟩
    · rw [load_admitted reached.coherent regular admits, bare]
    · rintro fields rfl complete
      have small := length_bytesOf_loaded complete done
      exact ⟨small, (again l.bytes positive.bytes).trans (if_pos small)⟩

def twoProviders : Store :=
  let pooled := Store.writePool {} ⟨1, 2⟩ ⟨50, 60, 0, 7⟩ none
  let alice := pooled.putPosition ⟨1, 2⟩ "alice" ⟨50, 60⟩
  let bob := alice.putPosition ⟨1, 2⟩ "bob" ⟨0, 0⟩
  (Store.rollbackTo 3 (bob.putPosition ⟨1, 2⟩ "carol" ⟨1, 1⟩)).2

def tightLimits : Limits := ⟨(bytesOf twoProviders currentVersion).length + 1, 1, 2, 5⟩

theorem reached_twoProviders : twoProviders.Reached :=
  ((((Store.Reached.empty.newPool rfl _).putPosition ..).putPosition ..).putPosition ..).rollback 3

theorem regular_twoProviders : twoProviders.Regular ∧ ∀ market provider,
    twoProviders.hasPosition market provider = true → provider.length ≤ 5 := by
  have pools : twoProviders.pools.entries = [(⟨1, 2⟩, ⟨50, 60, 0, 7⟩)] := by decide +kernel
  have positions : twoProviders.positions.entries =
      [((⟨1, 2⟩, "alice"), ⟨50, 60⟩), ((⟨1, 2⟩, "bob"), ⟨0, 0⟩)] := by decide +kernel
  have recorded (market : Market) (provider : Account)
      (held : twoProviders.hasPosition market provider = true) :
      market = ⟨1, 2⟩ ∧ (provider = "alice" ∨ provider = "bob") := by
    obtain ⟨position, member⟩ := Store.hasPosition_iff.1 held
    rw [positions] at member
    simp only [List.mem_cons, Prod.mk.injEq, List.not_mem_nil, or_false] at member
    rcases member with ⟨⟨rfl, rfl⟩, -⟩ | ⟨⟨rfl, rfl⟩, -⟩
    · exact ⟨rfl, .inl rfl⟩
    · exact ⟨rfl, .inr rfl⟩
  refine ⟨⟨fun market held => ?_, fun market provider held => ?_, fun market provider held => ?_⟩,
    fun market provider held => ?_⟩
  · obtain ⟨pool, member⟩ := Store.hasPool_iff.1 held
    rw [pools] at member
    cases List.mem_singleton.1 member
    decide
  · rw [(recorded market provider held).1]
    decide +kernel
  · rcases (recorded market provider held).2 with rfl | rfl <;> decide
  · rcases (recorded market provider held).2 with rfl | rfl <;> decide

theorem loads_back_twoProviders : ∃ t, load (ofStore twoProviders).data tightLimits.bounds = .ok t ∧
    t.position? ⟨1, 2⟩ "bob" = some ⟨0, 0⟩ ∧ t.position? ⟨1, 2⟩ "carol" = none ∧
    load (ofStore t).data tightLimits.bounds = .ok t := by
  have small (data : List UInt8)
      (encoded : Canonical.bytes (ofStore twoProviders).data = .ok data) :
      data.length ≤ tightLimits.bytes := by
    rw [bytes_ofStore reached_twoProviders.coherent] at encoded
    cases encoded
    exact Nat.le_succ _
  have admits : tightLimits.Admits twoProviders :=
    { positive := ⟨Nat.succ_pos _, by decide, by decide, by decide⟩
      pools := by decide +kernel
      positions := by decide +kernel
      textLength := regular_twoProviders.2
      bytes := small }
  obtain ⟨t, loaded, -, positions, -⟩ :=
    loads_back.1 twoProviders tightLimits reached_twoProviders regular_twoProviders.1 admits
  obtain ⟨l, own, -, -, -, -, complete⟩ := (loads_back.2 _ _ t loaded).2
  refine ⟨t, loaded, ?_, ?_, ?_⟩
  · rw [positions]
    decide +kernel
  · rw [positions]
    decide +kernel
  · exact (complete _ rfl (complete_ofStore twoProviders)).2

def feeless : List (Value × Value) :=
  [(.str "pools", .list [object [("base", .int 0), ("quote", .int 1), ("base_reserve", .int 1),
    ("quote_reserve", .int 1)]])]

section Feeless

open Document (memberSize itemSize size_array)

theorem bytes_feeless {data : List UInt8} (encoded : Canonical.bytes (.map feeless) = .ok data) :
    data.length = 67 := by
  obtain ⟨d, formed, encoded'⟩ :=
    Canonical.exists_form ((Canonical.formed_iff (.map feeless)).1 ⟨rfl, rfl⟩)
  cases encoded.symm.trans encoded'
  let entry := fieldsDocument
    [("base", .int 0), ("quote", .int 1), ("base_reserve", .int 1), ("quote_reserve", .int 1)]
  have sized : entry.size = 55 := by
    rw [size_fieldsDocument]
    decide +kernel
  obtain rfl : fieldsDocument [("pools", .array [entry])] = d := Option.some.inj formed
  rw [Document.length_toText, size_fieldsDocument]
  simp only [List.map, memberSize, size_array, itemSize, sized]
  decide +kernel

theorem length_feelessStore {t : Store} (holds : Holds t [(⟨0, 1⟩, ⟨1, 1, 0, 0⟩)] []) :
    (bytesOf t currentVersion).length = 143 := by
  have entry : (poolDocument ⟨0, 1⟩ ⟨1, 1, 0, 0⟩).size = 104 := by
    rw [poolDocument, size_fieldsDocument]
    decide +kernel
  have pools := List.perm_singleton.1 (holds.perm_pools (by simp))
  have listed : t.listed = [] := by
    rw [← Store.entries_positions holds.coherent fun market provider held => ?_]
    · exact List.perm_nil.1 (holds.perm_positions .nil)
    · obtain ⟨position, known⟩ := Option.isSome_iff_exists.1 held
      cases (holds.position? market provider position).1 known
  rw [bytesOf, Document.length_toText, document, size_fieldsDocument, pools, listed]
  simp only [List.map, memberSize, size_array, itemSize, entry]
  decide +kernel

def feelessLimits : Limits := ⟨67, 50000, 200000, 512⟩

theorem describes_feeless : Describes feelessLimits feeless [(⟨0, 1⟩, ⟨1, 1, 0, 0⟩)] [] where
  version := .inl rfl
  encodable := (Canonical.formed_iff (.map feeless)).1 ⟨rfl, rfl⟩
  bytes _ encoded := Nat.le_of_eq (bytes_feeless encoded)
  statesPools := ⟨_, .inl rfl, by decide,
    .cons ⟨_, rfl, rfl, rfl, by decide, rfl, rfl, .inr ⟨rfl, rfl⟩, .inr ⟨rfl, rfl⟩⟩ .nil⟩
  statesPositions := ⟨[], .inr ⟨.inl rfl, rfl⟩, by decide, .nil⟩
  marketsOnce := by decide
  providersOnce := by decide
  placed := by decide

/-- It loads under a bound that its store's own snapshot does not keep. -/
theorem feeless_outgrown : ∃ t,
    load (.map feeless) { bytes := .int 67 } = .ok t ∧ t.pool? ⟨0, 1⟩ = some ⟨1, 1, 0, 0⟩ ∧
      load (ofStore t).data { bytes := .int 67 } = .error (.snapshot .tooLarge) := by
  obtain ⟨t, loaded, holds, -⟩ :=
    load_of_describes ⟨by decide, by decide, by decide, by decide⟩ describes_feeless
  obtain ⟨l, same, -, -, -, -, again⟩ := load_again loaded
  obtain rfl := bounds_injective same
  have long : ¬(bytesOf t currentVersion).length ≤ 67 := by
    rw [length_feelessStore holds]
    decide
  exact ⟨t, loaded, (holds.pool? _ _).2 (by simp), (again 67 (by decide)).trans (if_neg long)⟩

end Feeless

end Snapshot

end LiquidityPools
