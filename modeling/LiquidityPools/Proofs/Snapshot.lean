import LiquidityPools.Proofs.Editing
import LiquidityPools.Proofs.Walk
import LiquidityPools.Snapshot

/-!
What a snapshot holds of a store: each pool once, in market order, and each position of these
markets once, in provider order, whatever the pages they were fetched in. If every position belongs
to a market with a pool, these are the entries of the two tables. A snapshot always has a canonical
text.
-/

namespace LiquidityPools

theorem Table.sorted_keys {κ α : Type} [Ord κ] (t : Table κ α) :
    t.keys.Pairwise fun a b => compare a b = .lt :=
  List.pairwise_map.2 t.sorted

namespace Store

variable {s t : Store} {market : Market} {account : Account} {position : Position}

theorem hasPosition_iff : s.hasPosition market account = true ↔
    ∃ position, ((market, account), position) ∈ s.positions.entries := by
  rw [hasPosition, position?, Option.isSome_iff_exists]
  exact exists_congr fun _ => Table.get?_eq_some_iff

theorem mem_positionsOf (coherent : s.Coherent) :
    (account, position) ∈ s.positionsOf market ↔ s.position? market account = some position := by
  have listed := coherent.mem_iff market account
  rw [hasPosition, Option.isSome_iff_exists] at listed
  simp only [positionsOf, withPosition, List.mem_map, Prod.mk.injEq]
  constructor
  · rintro ⟨provider, member, rfl, rfl⟩
    obtain ⟨held, known⟩ :=
      (coherent.mem_iff market provider).1 member |> Option.isSome_iff_exists.1
    rw [Store.position, known, Option.getD_some]
  · intro known
    exact ⟨account, listed.2 ⟨position, known⟩, rfl,
      by rw [Store.position, known, Option.getD_some]⟩

theorem Coherent.page_eq (coherent : s.Coherent) (market : Market) (after : Option Account)
    (limit : Nat) :
    s.page market after limit =
      ((s.positionsOf market).filter fun e => after.all fun cursor =>
        compare cursor e.1 = .lt).take limit := by
  rw [page.eq_def, positionsOf, List.filter_map, ← List.map_take]
  cases after with
  | none =>
    have all : (s.providersOf market).filter _ = s.providersOf market :=
      List.filter_eq_self.2 fun _ _ => rfl
    exact congrArg (fun l => (l.take limit).map (s.withPosition market)) all.symm
  | some cursor =>
    simp only [Table.dropWhile_eq_filter (coherent.sorted market)]
    rfl

theorem providersOf_eq (coherent : s.Coherent) (coherent' : t.Coherent)
    (same : ∀ account, s.position? market account = t.position? market account) :
    s.providersOf market = t.providersOf market := by
  refine Table.eq_of_sorted (coherent.sorted market) (coherent'.sorted market) fun account => ?_
  rw [coherent.mem_iff, coherent'.mem_iff, hasPosition, hasPosition, same]

theorem positionsOf_eq (coherent : s.Coherent) (coherent' : t.Coherent)
    (same : ∀ account, s.position? market account = t.position? market account) :
    s.positionsOf market = t.positionsOf market := by
  rw [positionsOf, positionsOf, providersOf_eq coherent coherent' same]
  refine List.map_congr_left fun account _ => ?_
  rw [withPosition, withPosition, Store.position, Store.position, same]

theorem bare_eq (coherent : s.Coherent) (coherent' : t.Coherent) (pools : s.pools = t.pools)
    (positions : s.positions = t.positions) : s.bare = t.bare := by
  have providers : s.providers = t.providers := by
    refine Table.ext_get? fun market => ?_
    have listed : s.providersOf market = t.providersOf market :=
      providersOf_eq coherent coherent' fun account => by rw [position?, position?, positions]
    have kept := coherent.kept market
    have kept' := coherent'.kept market
    rw [providersOf, providersOf] at listed
    cases h : s.providers.get? market <;> cases h' : t.providers.get? market <;> simp_all
  rw [bare, bare, pools, positions, providers]

theorem ext_bare (same : s.bare = t.bare) (journal : s.journal = t.journal)
    (depth : s.depth = t.depth) :
    s = t := by
  have whole (u : Store) : u = { u.bare with journal := u.journal, depth := u.depth } := rfl
  rw [whole s, same, journal, depth, ← whole t]

theorem compare_provider {a b : Account} (below : compare a b = .lt) (market : Market) :
    compare (market, a) (market, b) = .lt := by
  have self : compare market market = .eq := Std.ReflCmp.compare_self
  show (compare market market).then (compare a b) = .lt
  rw [self, below]
  rfl

theorem compare_market {m n : Market} (below : compare m n = .lt) (a b : Account) :
    compare (m, a) (n, b) = .lt := by
  show (compare m n).then (compare a b) = .lt
  rw [below]
  rfl

def listed (s : Store) : List ((Market × Account) × Position) :=
  s.pools.keys.flatMap fun market => (s.positionsOf market).map fun e => ((market, e.1), e.2)

theorem mem_listed (coherent : s.Coherent) :
    ((market, account), position) ∈ s.listed ↔
      s.hasPool market = true ∧ s.position? market account = some position := by
  simp only [listed, List.mem_flatMap, List.mem_map, Prod.mk.injEq, Prod.exists]
  constructor
  · rintro ⟨m, pooled, a, p, member, ⟨rfl, rfl⟩, rfl⟩
    exact ⟨mem_keys_pools.1 pooled, (mem_positionsOf coherent).1 member⟩
  · rintro ⟨pooled, known⟩
    exact ⟨market, mem_keys_pools.2 pooled, account, position, (mem_positionsOf coherent).2 known,
      ⟨rfl, rfl⟩, rfl⟩

theorem sorted_listed (coherent : s.Coherent) :
    s.listed.Pairwise fun a b => compare a.1 b.1 = .lt := by
  refine List.pairwise_flatMap.2 ⟨fun market _ => ?_, ?_⟩
  · rw [positionsOf, List.map_map, List.pairwise_map]
    exact (coherent.sorted market).imp fun below => compare_provider below market
  · refine s.pools.sorted_keys.imp fun {m n} below => ?_
    intro x first y second
    obtain ⟨e, -, rfl⟩ := List.mem_map.1 first
    obtain ⟨e', -, rfl⟩ := List.mem_map.1 second
    exact compare_market below ..

/-- If all positions belong to such markets, they are read in the order of the table. -/
theorem entries_positions (coherent : s.Coherent)
    (placed : ∀ market provider, s.hasPosition market provider = true → s.hasPool market = true) :
    s.positions.entries = s.listed := by
  refine Table.entries_ext s.positions.sorted (sorted_listed coherent) ?_
  rintro ⟨⟨market, account⟩, position⟩
  have held : ((market, account), position) ∈ s.positions.entries ↔
      s.position? market account = some position := Table.get?_eq_some_iff.symm
  rw [held, mem_listed coherent]
  refine ⟨fun known => ⟨placed market account ?_, known⟩, And.right⟩
  rw [hasPosition, known]
  rfl

theorem listed_eq_iff (coherent : s.Coherent) (coherent' : t.Coherent) (pools : s.pools = t.pools) :
    s.listed = t.listed ↔ ∀ market, s.hasPool market = true → ∀ account,
      s.position? market account = t.position? market account := by
  constructor
  · intro same market pooled account
    have pooled' : t.hasPool market = true := by rwa [hasPool, pool?, ← pools]
    refine Option.ext fun position => ?_
    have member := congrArg (((market, account), position) ∈ ·) same
    simpa [mem_listed coherent, mem_listed coherent', pooled, pooled'] using member
  · intro same
    rw [listed, listed, ← pools, List.flatMap_def, List.flatMap_def]
    refine congrArg List.flatten (List.map_congr_left fun market member => ?_)
    rw [positionsOf_eq coherent coherent' (same market (mem_keys_pools.1 member))]

end Store

namespace Snapshot

open Document (ofValue? ofItems? ofEntries? byKey)
open Canonical (check checkItems)

variable {s : Store}

theorem positionEntries_eq (coherent : s.Coherent) :
    positionEntries s = s.listed.map fun e => positionEntry e.1.1 e.1.2 e.2 := by
  rw [positionEntries, Store.listed, List.map_flatMap]
  refine congrArg (List.flatMap · s.pools.keys) (funext fun market => ?_)
  rw [Walk.rest_start coherent market (by decide), List.map_map]
  rfl

def fieldsDocument (fields : List (String × Document)) : Document :=
  .object (fields.mergeSort byKey)

def poolDocument (market : Market) (pool : Pool) : Document :=
  fieldsDocument
    [("base", .int market.base), ("quote", .int market.quote),
      ("base_reserve", .int pool.baseReserve), ("quote_reserve", .int pool.quoteReserve),
      ("collected_base_fees", .int pool.baseFees), ("collected_quote_fees", .int pool.quoteFees)]

def positionDocument (market : Market) (provider : Account) (position : Position) : Document :=
  fieldsDocument
    [("base", .int market.base), ("quote", .int market.quote), ("provider", .text provider),
      ("base_contributed", .int position.base), ("quote_contributed", .int position.quote)]

def document (s : Store) (version : Nat) : Document :=
  fieldsDocument
    [("version", .int version),
      ("pools", .array (s.pools.entries.map fun e => poolDocument e.1 e.2)),
      ("positions", .array (s.listed.map fun e => positionDocument e.1.1 e.1.2 e.2))]

section Items

variable {α : Type} {entry : α → Value} {form : α → Document}

theorem ofItems?_map (forms : ∀ a, ofValue? (entry a) = some (form a)) (l : List α) :
    ofItems? (l.map entry) = some (l.map form) := by
  induction l with
  | nil => rfl
  | cons a rest ih => rw [List.map_cons, ofItems?, forms, ih]; rfl

theorem checkItems_map (checked : ∀ a, check (entry a) = .ok ()) (l : List α) :
    checkItems (l.map entry) = .ok () := by
  induction l with
  | nil => rfl
  | cons a rest ih => rw [List.map_cons, checkItems, checked]; exact ih

end Items

theorem document_ofStore (coherent : s.Coherent) (version : Nat) :
    Canonical.document (ofStore s version).data = .ok (document s version) := by
  have pools : ofItems? (poolEntries s) =
      some (s.pools.entries.map fun e => poolDocument e.1 e.2) :=
    ofItems?_map (fun _ => rfl) s.pools.entries
  have positions : ofItems? (positionEntries s) =
      some (s.listed.map fun e => positionDocument e.1.1 e.1.2 e.2) := by
    rw [positionEntries_eq coherent]
    exact ofItems?_map (fun _ => rfl) s.listed
  have poolsChecked : checkItems (poolEntries s) = .ok () :=
    checkItems_map (fun _ => rfl) s.pools.entries
  have positionsChecked : checkItems (positionEntries s) = .ok () := by
    rw [positionEntries_eq coherent]
    exact checkItems_map (fun _ => rfl) s.listed
  have checked : check (ofStore s version).data = .ok () := by
    simp only [ofStore, object, List.map_cons, List.map_nil, check, Canonical.checkEntries,
      poolsChecked, positionsChecked]
    rfl
  have formed : ofValue? (ofStore s version).data = some (document s version) := by
    simp only [ofStore, object, List.map_cons, List.map_nil, ofValue?, ofEntries?, pools, positions]
    rfl
  rw [Canonical.document, checked, formed]
  rfl

def bytesOf (s : Store) (version : Nat) : List UInt8 := (document s version).toText.toUTF8.toList

theorem bytes_ofStore (coherent : s.Coherent) (version : Nat) :
    Canonical.bytes (ofStore s version).data = .ok (bytesOf s version) := by
  rw [Canonical.bytes, Canonical.text, document_ofStore coherent]
  rfl

end Snapshot

end LiquidityPools
