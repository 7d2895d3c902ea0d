import Mathlib.Data.List.Forall2
import LiquidityPools.Proofs.Encoding
import LiquidityPools.Proofs.Entry

/-!
Which snapshots load. A snapshot loads exactly if it is well formed: it has a canonical text, its
parts are of their forms and within their bounds, its entries state pools and positions, each at
most once, and each position is in a market with a pool. The store then holds what was stated and
nothing else. All other data is refused for a type or for a value.
-/

namespace LiquidityPools

/-- A part of a state that entries are filed in under keys, and what else has to hold of an entry to
be filed. -/
structure Filing (σ κ β : Type) [DecidableEq κ] where
  lookup : σ → κ → Option β
  write : σ → κ × β → σ
  may : σ → κ → Prop
  lookup_write : ∀ s e k, lookup (write s e) k = if k = e.1 then some e.2 else lookup s k
  may_write : ∀ s e k, may (write s e) k ↔ may s k

namespace Filing

variable {σ κ α β ε : Type} [DecidableEq κ] (d : Filing σ κ β) {s t : σ} {entries : List (κ × β)}

def Fits : σ → List (κ × β) → Prop
  | _, [] => True
  | s, e :: rest => (d.lookup s e.1 = none ∧ d.may s e.1) ∧ Fits (d.write s e) rest

theorem foldlM_eq_ok_iff {f : σ → α → Except ε σ} {states : α → κ × β → Prop}
    (step : ∀ s a t, f s a = .ok t ↔
      ∃ e, states a e ∧ d.lookup s e.1 = none ∧ d.may s e.1 ∧ t = d.write s e) {items : List α} :
    items.foldlM f s = .ok t ↔
      ∃ entries, List.Forall₂ states items entries ∧ d.Fits s entries ∧
        t = entries.foldl d.write s := by
  induction items generalizing s with
  | nil =>
    constructor
    · rintro ⟨⟩
      exact ⟨[], .nil, trivial, rfl⟩
    · rintro ⟨_, ⟨⟩, -, rfl⟩
      rfl
  | cons a rest ih =>
    simp only [List.foldlM_cons, Except.bind_eq_ok_iff, step, ih]
    constructor
    · rintro ⟨_, ⟨e, stated, fresh, may, rfl⟩, more, others, fits, rfl⟩
      exact ⟨e :: more, .cons stated others, ⟨⟨fresh, may⟩, fits⟩, rfl⟩
    · rintro ⟨_, _ | ⟨stated, others⟩, ⟨⟨fresh, may⟩, fits⟩, rfl⟩
      exact ⟨_, ⟨_, stated, fresh, may, rfl⟩, _, others, fits, rfl⟩

theorem fits_iff :
    d.Fits s entries ↔
      (entries.map Prod.fst).Nodup ∧ ∀ e ∈ entries, d.lookup s e.1 = none ∧ d.may s e.1 := by
  induction entries generalizing s with
  | nil => simp [Fits]
  | cons e rest ih =>
    have apart (k : κ) : d.lookup (d.write s e) k = none ↔ k ≠ e.1 ∧ d.lookup s k = none := by
      rw [d.lookup_write]
      split <;> simp_all
    simp only [Fits, ih, apart, d.may_write, List.map_cons, List.nodup_cons, List.mem_map,
      List.forall_mem_cons]
    constructor
    · rintro ⟨first, once, others⟩
      refine ⟨⟨?_, once⟩, first, fun e' member => ⟨(others e' member).1.2, (others e' member).2⟩⟩
      rintro ⟨e', member, same⟩
      exact (others e' member).1.1 same
    · rintro ⟨⟨fresh, once⟩, first, others⟩
      exact ⟨first, once, fun e' member =>
        ⟨⟨fun same => fresh ⟨e', member, same⟩, (others e' member).1⟩, (others e' member).2⟩⟩

theorem lookup_foldl (fits : d.Fits s entries) (k : κ) (b : β) :
    d.lookup (entries.foldl d.write s) k = some b ↔ (k, b) ∈ entries ∨ d.lookup s k = some b := by
  induction entries generalizing s with
  | nil => simp
  | cons e rest ih =>
    obtain ⟨⟨fresh, -⟩, fits⟩ := fits
    rw [List.foldl_cons, ih fits, d.lookup_write, List.mem_cons, or_comm (a := (k, b) = e),
      or_assoc]
    refine or_congr_right ?_
    split
    next here => simp [here, fresh, Prod.ext_iff, eq_comm]
    next there => simp [there, Prod.ext_iff]

end Filing

namespace Snapshot

open Value (field? fieldOrNull)

structure Limits where
  bytes : Nat
  pools : Nat
  positions : Nat
  textLength : Nat

def Limits.bounds (l : Limits) : Bounds :=
  ⟨.int l.bytes, .int l.pools, .int l.positions, .int l.textLength⟩

structure Limits.Positive (l : Limits) : Prop where
  bytes : 0 < l.bytes
  pools : 0 < l.pools
  positions : 0 < l.positions
  textLength : 0 < l.textLength

theorem boundOf_eq_ok_iff {name : String} {value : Value} {n : Nat} :
    boundOf name value = .ok n ↔ value = .int n ∧ 0 < n := by
  unfold boundOf
  split
  next m =>
    split
    next positive =>
      simp only [Except.ok.injEq, Value.int.injEq]
      omega
    next =>
      simp only [reduceCtorEq, Value.int.injEq, false_iff]
      omega
  next other =>
    simp only [reduceCtorEq, false_iff]
    rintro ⟨rfl, -⟩
    exact other n rfl

variable {l : Limits} {fields : List (Value × Value)} {pools : List (Market × Pool)}
  {positions : List ((Market × Account) × Position)} {s t : Store}

section Parts

def Lists (key : String) (fields : List (Value × Value)) (items : List Value) : Prop :=
  field? key fields = some (.list items) ∨
    (field? key fields = none ∨ field? key fields = some .null) ∧ items = []

theorem entriesOf_eq_ok_iff {name key : String} {most : Nat} {items : List Value} :
    entriesOf name most (fieldOrNull key fields) = .ok items ↔
      Lists key fields items ∧ items.length ≤ most := by
  unfold fieldOrNull Lists
  cases field? key fields with
  | none => simp +contextual [entriesOf, eq_comm]
  | some value =>
    cases value with
    | null => simp +contextual [entriesOf, eq_comm]
    | list listed =>
      show (if most < listed.length then _ else _) = _ ↔ _
      split
      next many =>
        simp only [reduceCtorEq, Option.some.injEq, Value.list.injEq, false_and, or_false,
          false_iff]
        rintro ⟨rfl, few⟩
        omega
      next few =>
        simp only [Except.ok.injEq, reduceCtorEq, Option.some.injEq, Value.list.injEq, false_and,
          or_false]
        exact ⟨fun same => ⟨same, same ▸ Nat.le_of_not_lt few⟩, And.left⟩
    | _ => simp [entriesOf]

theorem failsOnly_entriesOf (name : String) (most : Nat) (value : Value) :
    Except.FailsOnly (entriesOf name most value) Fault.OfData := by
  unfold entriesOf
  split
  next => exact .ok []
  next items => exact .ite (.error (Fault.ofData_snapshot _)) (.ok items)
  next => exact .error (Fault.ofData_snapshot _)

theorem checkVersion_eq_ok_iff :
    checkVersion ((field? "version" fields).getD (.int currentVersion)) = .ok () ↔
      field? "version" fields = none ∨ field? "version" fields = some (.int 1) := by
  cases field? "version" fields with
  | none => exact ⟨fun _ => .inl rfl, fun _ => rfl⟩
  | some value =>
    cases value with
    | int n =>
      show (if n ≤ 0 then _ else if n = (1 : Nat) then _ else _) = _ ↔ _
      simp only [reduceCtorEq, false_or, Option.some.injEq, Value.int.injEq]
      split
      · simp only [reduceCtorEq, false_iff]
        omega
      · split
        · simpa
        · simpa
    | _ => simp [checkVersion]

theorem failsOnly_checkVersion (value : Value) :
    Except.FailsOnly (checkVersion value) Fault.OfData := by
  unfold checkVersion
  split
  next =>
    exact .ite (.error (Fault.ofData_snapshot _))
      (.ite (.ok ()) (.error (Fault.ofData_snapshot _)))
  next => exact .error (Fault.ofData_snapshot _)

theorem failsOnly_boundOf (name : String) (value : Value) :
    Except.FailsOnly (boundOf name value) Fault.OfData := by
  unfold boundOf
  split
  next n => exact .ite (.ok n.toNat) (.error (Fault.ofData_snapshot _))
  next => exact .error (Fault.ofData_snapshot _)

end Parts

section Filings

def poolFiling : Filing Store Market Pool where
  lookup := Store.pool?
  write s e := s.writePool e.1 e.2 none
  may _ _ := True
  lookup_write _ _ _ := Store.pool?_writePool ..
  may_write _ _ _ := Iff.rfl

def positionFiling : Filing Store (Market × Account) Position where
  lookup s k := s.position? k.1 k.2
  write s e := s.putPosition e.1.1 e.1.2 e.2
  may s k := s.hasPool k.1 = true
  lookup_write _ _ _ := Store.position?_putPosition ..
  may_write _ _ _ := Iff.rfl

theorem foldlM_addPool_eq_ok_iff {items : List Value} :
    items.foldlM addPool s = .ok t ↔
      ∃ pools, List.Forall₂ StatesPool items pools ∧ poolFiling.Fits s pools ∧
        t = pools.foldl poolFiling.write s := by
  refine poolFiling.foldlM_eq_ok_iff fun s entry t => ?_
  simp only [addPool_eq_ok_iff, poolFiling, true_and]

theorem foldlM_addPosition_eq_ok_iff {textLength : Nat} {items : List Value} :
    items.foldlM (addPosition textLength) s = .ok t ↔
      ∃ positions, List.Forall₂ (StatesPosition textLength) items positions ∧
        positionFiling.Fits s positions ∧ t = positions.foldl positionFiling.write s := by
  refine positionFiling.foldlM_eq_ok_iff fun s entry t => ?_
  simp only [addPosition_eq_ok_iff, positionFiling, and_left_comm]

structure Holds (s : Store) (pools : List (Market × Pool))
    (positions : List ((Market × Account) × Position)) :
    Prop where
  pool? : ∀ market pool, s.pool? market = some pool ↔ (market, pool) ∈ pools
  position? : ∀ market provider position,
    s.position? market provider = some position ↔ ((market, provider), position) ∈ positions
  coherent : s.Coherent
  depth : s.depth = 0

theorem holds_pools (fits : poolFiling.Fits {} pools) :
    Holds (pools.foldl poolFiling.write {}) pools [] := by
  have kept (s : Store) (before : s.positions = ∅ ∧ s.Coherent ∧ s.depth = 0) (e : Market × Pool)
      (_ : e ∈ pools) :
      (poolFiling.write s e).positions = ∅ ∧ (poolFiling.write s e).Coherent ∧
        (poolFiling.write s e).depth = 0 :=
    ⟨before.1, before.2.1.writePool _ _, before.2.2⟩
  obtain ⟨empty, coherent, depth⟩ :=
    List.foldlRecOn pools poolFiling.write ⟨rfl, Store.coherent_empty, rfl⟩ kept
  refine ⟨fun market pool => ?_, fun market provider position => ?_, coherent, depth⟩
  · refine (poolFiling.lookup_foldl fits market pool).trans (or_iff_left ?_)
    rintro ⟨⟩
  · rw [Store.position?, empty, Table.get?_empty]
    exact iff_of_false (Option.some_ne_none position).symm List.not_mem_nil

theorem holds_positions (holds : Holds s pools []) (fits : positionFiling.Fits s positions) :
    Holds (positions.foldl positionFiling.write s) pools positions := by
  have kept (t : Store) (before : t.pools = s.pools ∧ t.Coherent ∧ t.depth = 0)
      (e : (Market × Account) × Position)
      (_ : e ∈ positions) : (positionFiling.write t e).pools = s.pools ∧
        (positionFiling.write t e).Coherent ∧
        (positionFiling.write t e).depth = 0 :=
    ⟨before.1, before.2.1.putPosition _, before.2.2⟩
  obtain ⟨same, coherent, depth⟩ :=
    List.foldlRecOn positions positionFiling.write ⟨rfl, holds.coherent, holds.depth⟩ kept
  refine ⟨fun market pool => ?_, fun market provider position => ?_, coherent, depth⟩
  · rw [Store.pool?, same]
    exact holds.pool? market pool
  · refine (positionFiling.lookup_foldl fits (market, provider) position).trans (or_iff_left ?_)
    exact fun held => List.not_mem_nil ((holds.position? market provider position).1 held)

theorem Holds.hasPool_iff (holds : Holds s pools positions) {market : Market} :
    s.hasPool market = true ↔ market ∈ pools.map Prod.fst := by
  simp [Store.hasPool, Option.isSome_iff_exists, holds.pool?]

theorem Holds.commit (holds : Holds s pools positions) :
    Holds (s.commit 0) pools positions ∧ (s.commit 0).journal = [] := by
  refine ⟨⟨holds.pool?, holds.position?, holds.coherent.congr rfl rfl, holds.depth⟩, ?_⟩
  rw [Store.commit, Nat.sub_zero, List.drop_length]

theorem fits_pools_iff : poolFiling.Fits {} pools ↔ (pools.map Prod.fst).Nodup := by
  rw [poolFiling.fits_iff, and_iff_left]
  exact fun e _ => ⟨rfl, trivial⟩

theorem fits_positions_iff (holds : Holds s pools []) :
    positionFiling.Fits s positions ↔
      (positions.map Prod.fst).Nodup ∧ ∀ e ∈ positions, e.1.1 ∈ pools.map Prod.fst := by
  have fresh (market : Market) (provider : Account) : s.position? market provider = none := by
    rw [Option.eq_none_iff_forall_ne_some]
    exact fun position held => List.not_mem_nil ((holds.position? market provider position).1 held)
  rw [positionFiling.fits_iff]
  refine and_congr_right fun _ => forall₂_congr fun e _ => ?_
  rw [← holds.hasPool_iff]
  exact and_iff_right (fresh e.1.1 e.1.2)

end Filings

section Load

variable {poolItems positionItems : List Value}

/-- The parts of a snapshot that is loaded under these limits. -/
structure Parts (l : Limits) (fields : List (Value × Value))
    (poolItems positionItems : List Value) :
    Prop where
  positive : l.Positive
  version : checkVersion ((Value.field? "version" fields).getD (.int currentVersion)) = .ok ()
  pools : entriesOf "pools" l.pools (Value.fieldOrNull "pools" fields) = .ok poolItems
  positions : entriesOf "positions" l.positions (Value.fieldOrNull "positions" fields) =
    .ok positionItems
  bytes : ∃ data, Canonical.bytes (.map fields) = .ok data ∧ data.length ≤ l.bytes

theorem load_eq_ok {v : Value} {b : Bounds} (done : load v b = .ok t) :
    ∃ l fields poolItems positionItems s u, v = .map fields ∧ b = l.bounds ∧
      Parts l fields poolItems positionItems ∧ poolItems.foldlM addPool {} = .ok s ∧
      positionItems.foldlM (addPosition l.textLength) s = .ok u ∧ t = u.commit 0 := by
  unfold load at done
  split at done
  next fields =>
    obtain ⟨bytes, mostBytes, done⟩ := Except.bind_eq_ok done
    obtain ⟨pools, mostPools, done⟩ := Except.bind_eq_ok done
    obtain ⟨positions, mostPositions, done⟩ := Except.bind_eq_ok done
    obtain ⟨textLength, longest, done⟩ := Except.bind_eq_ok done
    obtain ⟨⟨⟩, version, done⟩ := Except.bind_eq_ok done
    obtain ⟨poolItems, poolList, done⟩ := Except.bind_eq_ok done
    obtain ⟨positionItems, positionList, done⟩ := Except.bind_eq_ok done
    obtain ⟨data, encoded, done⟩ := Except.bind_eq_ok done
    split at done
    · obtain ⟨_, refused, -⟩ := Except.bind_eq_ok done
      cases refused
    next small =>
      obtain ⟨s, first, done⟩ := Except.bind_eq_ok done
      obtain ⟨u, second, done⟩ := Except.bind_eq_ok done
      cases done
      obtain ⟨isBytes, bytesPos⟩ := boundOf_eq_ok_iff.1 mostBytes
      obtain ⟨isPools, poolsPos⟩ := boundOf_eq_ok_iff.1 mostPools
      obtain ⟨isPositions, positionsPos⟩ := boundOf_eq_ok_iff.1 mostPositions
      obtain ⟨isText, textPos⟩ := boundOf_eq_ok_iff.1 longest
      refine ⟨⟨bytes, pools, positions, textLength⟩, fields, poolItems, positionItems, s, u, rfl,
        ?_, ⟨⟨bytesPos, poolsPos, positionsPos, textPos⟩, version, poolList, positionList, data,
          encoded, Nat.le_of_not_lt small⟩, first, second, rfl⟩
      cases b
      simp_all [Limits.bounds]
  next => cases done

theorem load_of_parts {u : Store} (parts : Parts l fields poolItems positionItems)
    (first : poolItems.foldlM addPool {} = .ok s)
    (second : positionItems.foldlM (addPosition l.textLength) s = .ok u) :
    load (.map fields) l.bounds = .ok (u.commit 0) := by
  obtain ⟨data, encoded, small⟩ := parts.bytes
  have notLarge : ¬l.bytes < data.length := by omega
  simp only [load, Limits.bounds, boundOf_eq_ok_iff.2 ⟨rfl, parts.positive.bytes⟩,
    boundOf_eq_ok_iff.2 ⟨rfl, parts.positive.pools⟩,
    boundOf_eq_ok_iff.2 ⟨rfl, parts.positive.positions⟩,
    boundOf_eq_ok_iff.2 ⟨rfl, parts.positive.textLength⟩, parts.version, parts.pools,
    parts.positions, encoded, if_neg notLarge, first, second, bind, Except.bind]
  rfl

/-- A well-formed snapshot, with the pools and positions that it states. -/
structure Describes (l : Limits) (fields : List (Value × Value)) (pools : List (Market × Pool))
    (positions : List ((Market × Account) × Position)) : Prop where
  version : field? "version" fields = none ∨ field? "version" fields = some (.int 1)
  encodable : Canonical.Encodable (.map fields)
  bytes : ∀ data, Canonical.bytes (.map fields) = .ok data → data.length ≤ l.bytes
  statesPools : ∃ items, Lists "pools" fields items ∧ items.length ≤ l.pools ∧
    List.Forall₂ StatesPool items pools
  statesPositions : ∃ items, Lists "positions" fields items ∧ items.length ≤ l.positions ∧
    List.Forall₂ (StatesPosition l.textLength) items positions
  marketsOnce : (pools.map Prod.fst).Nodup
  providersOnce : (positions.map Prod.fst).Nodup
  placed : ∀ e ∈ positions, e.1.1 ∈ pools.map Prod.fst

theorem bounds_injective : Function.Injective Limits.bounds := by
  rintro ⟨bytes, pools, positions, textLength⟩ ⟨bytes', pools', positions', textLength'⟩ same
  simpa [Limits.bounds, Int.ofNat_inj] using same

theorem describes_of_load (loaded : load (.map fields) l.bounds = .ok s) :
    ∃ pools positions, Describes l fields pools positions := by
  obtain ⟨l', fields', poolItems, positionItems, t, u, ⟨⟩, same, parts, first, second, -⟩ :=
    load_eq_ok loaded
  obtain rfl := bounds_injective same
  obtain ⟨pools, statesPools, fits, rfl⟩ := foldlM_addPool_eq_ok_iff.1 first
  obtain ⟨positions, statesPositions, fits', -⟩ := foldlM_addPosition_eq_ok_iff.1 second
  obtain ⟨providersOnce, placed⟩ := (fits_positions_iff (holds_pools fits)).1 fits'
  obtain ⟨data, encoded, small⟩ := parts.bytes
  obtain ⟨poolsListed, poolsBound⟩ := entriesOf_eq_ok_iff.1 parts.pools
  obtain ⟨positionsListed, positionsBound⟩ := entriesOf_eq_ok_iff.1 parts.positions
  exact ⟨pools, positions,
    { version := checkVersion_eq_ok_iff.1 parts.version
      encodable := Canonical.exists_bytes_iff.1 ⟨data, encoded⟩
      bytes := fun other same => by
        cases encoded.symm.trans same
        exact small
      statesPools := ⟨poolItems, poolsListed, poolsBound, statesPools⟩
      statesPositions := ⟨positionItems, positionsListed, positionsBound, statesPositions⟩
      marketsOnce := fits_pools_iff.1 fits
      providersOnce
      placed }⟩

theorem load_of_describes (positive : l.Positive) (describes : Describes l fields pools positions) :
    ∃ s, load (.map fields) l.bounds = .ok s ∧ Holds s pools positions ∧ s.journal = [] := by
  obtain ⟨poolItems, poolsListed, poolsBound, statesPools⟩ := describes.statesPools
  obtain ⟨positionItems, positionsListed, positionsBound, statesPositions⟩ :=
    describes.statesPositions
  obtain ⟨data, encoded⟩ := Canonical.exists_bytes_iff.2 describes.encodable
  have fits := fits_pools_iff.2 describes.marketsOnce
  have holds := holds_pools fits
  have fits' := (fits_positions_iff holds).2 ⟨describes.providersOnce, describes.placed⟩
  have parts : Parts l fields poolItems positionItems :=
    { positive
      version := checkVersion_eq_ok_iff.2 describes.version
      pools := entriesOf_eq_ok_iff.2 ⟨poolsListed, poolsBound⟩
      positions := entriesOf_eq_ok_iff.2 ⟨positionsListed, positionsBound⟩
      bytes := ⟨data, encoded, describes.bytes data encoded⟩ }
  have first : poolItems.foldlM addPool {} = .ok _ :=
    foldlM_addPool_eq_ok_iff.2 ⟨pools, statesPools, fits, rfl⟩
  have second : positionItems.foldlM (addPosition l.textLength) _ = .ok _ :=
    foldlM_addPosition_eq_ok_iff.2 ⟨positions, statesPositions, fits', rfl⟩
  exact ⟨_, load_of_parts parts first second, (holds_positions holds fits').commit⟩

theorem failsOnly_load (v : Value) (b : Bounds) : Except.FailsOnly (load v b) Fault.OfData := by
  unfold load
  split
  next fields =>
    refine (failsOnly_boundOf _ _).bind fun mostBytes =>
      (failsOnly_boundOf _ _).bind fun mostPools => ?_
    refine (failsOnly_boundOf _ _).bind fun mostPositions =>
      (failsOnly_boundOf _ _).bind fun textLength => ?_
    refine (failsOnly_checkVersion _).bind fun _ => (failsOnly_entriesOf _ _ _).bind fun pools => ?_
    have encoding (v : Value) : Except.FailsOnly (Canonical.bytes v) Fault.OfData :=
      fun fault failed => .inl (Canonical.failsOnly_bytes v fault failed)
    refine (failsOnly_entriesOf _ _ _).bind fun positions => (encoding _).bind fun bytes => ?_
    refine .ite (.error (Fault.ofData_snapshot _)) ?_
    refine (Except.FailsOnly.foldlM failsOnly_addPool pools {}).bind fun s => ?_
    exact (Except.FailsOnly.foldlM (failsOnly_addPosition textLength) positions s).bind fun t =>
      .ok (t.commit 0)
  next => exact .error (Fault.ofData_snapshot _)

end Load

def WellFormed (l : Limits) (v : Value) : Prop :=
  ∃ fields pools positions, v = .map fields ∧ Describes l fields pools positions

/-- A snapshot loads exactly if it is well formed. The store then has the pools and positions that
the snapshot states and no others, with nothing to undo. What does not load is of a wrong type or
has a bad value. -/
theorem loads_iff_wellFormed (positive : l.Positive) (v : Value) :
    ((∃ s, load v l.bounds = .ok s) ↔ WellFormed l v) ∧
      (∀ fields pools positions, v = .map fields → Describes l fields pools positions →
        ∃ s, load v l.bounds = .ok s ∧ Holds s pools positions ∧ s.journal = []) ∧
      ∀ fault, load v l.bounds = .error fault →
        fault.kind = .wrongType ∨ fault.kind = .badValue := by
  refine ⟨⟨?_, ?_⟩, ?_, failsOnly_load v l.bounds⟩
  · rintro ⟨s, loaded⟩
    obtain ⟨-, fields, -, -, -, -, rfl, -⟩ := load_eq_ok loaded
    obtain ⟨pools, positions, describes⟩ := describes_of_load loaded
    exact ⟨fields, pools, positions, rfl, describes⟩
  · rintro ⟨fields, pools, positions, rfl, describes⟩
    obtain ⟨s, loaded, -⟩ := load_of_describes positive describes
    exact ⟨s, loaded⟩
  · rintro fields pools positions rfl describes
    exact load_of_describes positive describes

/-- A snapshot without a version, with a note beside the lists; the pool's entry leaves out a
fee. -/
def annotated : List (Value × Value) :=
  [(.str "note", .tuple [.bool true, .null]),
    (.str "pools", .list [object [("base", .int 0), ("quote", .int 255), ("base_reserve", .int 7),
      ("quote_reserve", .int 0), ("collected_quote_fees", .int 2)]]),
    (.str "positions", .list [object [("base", .int 0), ("quote", .int 255),
      ("provider", .str "bob"), ("base_contributed", .int 7), ("quote_contributed", .int 0)]])]

def annotatedLimits : Limits :=
  ⟨((Canonical.bytes (.map annotated)).toOption.getD []).length + 1, 1, 1, 3⟩

theorem describes_annotated :
    Describes annotatedLimits annotated [(⟨0, 255⟩, ⟨7, 0, 0, 2⟩)]
      [((⟨0, 255⟩, "bob"), ⟨7, 0⟩)] where
  version := .inl rfl
  encodable := (Canonical.formed_iff (.map annotated)).1 ⟨rfl, rfl⟩
  bytes data encoded := by
    show data.length ≤ ((Canonical.bytes (.map annotated)).toOption.getD []).length + 1
    rw [encoded]
    exact Nat.le_succ _
  statesPools := ⟨_, .inl rfl, Nat.le_refl 1,
    .cons ⟨_, rfl, rfl, rfl, by decide, rfl, rfl, .inr ⟨rfl, rfl⟩, .inl rfl⟩ .nil⟩
  statesPositions := ⟨_, .inl rfl, Nat.le_refl 1,
    .cons ⟨_, rfl, rfl, rfl, by decide, by decide, by decide, rfl, rfl, rfl⟩ .nil⟩
  marketsOnce := by decide
  providersOnce := by decide
  placed := by decide

theorem loads_annotated :
    ∃ s, load (.map annotated) annotatedLimits.bounds = .ok s ∧
      s.pool? ⟨0, 255⟩ = some ⟨7, 0, 0, 2⟩ ∧
      s.position? ⟨0, 255⟩ "bob" = some ⟨7, 0⟩ ∧ s.pool? ⟨255, 0⟩ = none ∧ s.journal = [] := by
  have positive : annotatedLimits.Positive := ⟨Nat.succ_pos _, by decide, by decide, by decide⟩
  obtain ⟨-, loads, -⟩ := loads_iff_wellFormed positive (.map annotated)
  obtain ⟨s, loaded, holds, nothing⟩ := loads annotated _ _ rfl describes_annotated
  refine ⟨s, loaded, (holds.pool? _ _).2 (by decide), (holds.position? _ _ _).2 (by decide), ?_,
    nothing⟩
  rw [Option.eq_none_iff_forall_ne_some]
  exact fun pool held => absurd ((holds.pool? _ pool).1 held) (by simp)

end Snapshot

end LiquidityPools
