import Mathlib.Data.List.Nodup
import LiquidityPools.Proofs.Journal
import LiquidityPools.Proofs.Nesting

/-!
Walks among other steps. Between the positions that a walk hands out the store may change in any
way: by raw operations, by rolling back and committing, by whole nests of atomic blocks, on any
market. To the store each of these is a run of raw operations, so the walk always finds a sound
store. What it hands out rises strictly, each position is the one that its page was fetched with,
and a walk that ends has not missed a provider that was there all along.
-/

namespace LiquidityPools

namespace Store.Edit

variable {s : Store}

theorem run_withDepth (e : Edit) (s : Store) (depth : Nat) :
    (e.run { s with depth }).2 = { (e.run s).2 with depth } := by
  cases e with
  | insertPool market pool =>
    have same : ({ s with depth } : Store).pool? market = s.pool? market := rfl
    simp only [run, Lens.change, Lens.whole, Store.insertPool, id, same]
    cases s.pool? market <;> rfl
  | putPool market pool =>
    have same : ({ s with depth } : Store).pool? market = s.pool? market := rfl
    simp only [run, Lens.change, Lens.whole, Store.putPool, id, same]
    cases s.pool? market <;> rfl
  | putPosition market provider position => rfl
  | rollback mark =>
    simp only [run, Action.modify_apply, rollback_eq, foldl_undo_withDepth]
    rfl
  | commit mark => rfl

theorem runAll_withDepth (edits : List Edit) (s : Store) (depth : Nat) :
    runAll edits { s with depth } = { runAll edits s with depth } := by
  induction edits generalizing s with
  | nil => rfl
  | cons e rest ih =>
    rw [runAll, List.foldl_cons, run_withDepth]
    exact ih (e.run s).2

end Store.Edit

open Store (Edit)

def Store.Edited (s t : Store) : Prop := ∃ edits, t = Edit.runAll edits s

namespace Store.Edited

variable {s t u : Store}

theorem refl (s : Store) : s.Edited s := ⟨[], rfl⟩

theorem run (e : Edit) (s : Store) : s.Edited (e.run s).2 := ⟨[e], rfl⟩

theorem trans (first : s.Edited t) (later : t.Edited u) : s.Edited u := by
  obtain ⟨edits, rfl⟩ := first
  obtain ⟨more, rfl⟩ := later
  exact ⟨edits ++ more, (List.foldl_append ..).symm⟩

theorem withDepth (edited : s.Edited t) (depth : Nat) :
    { s with depth }.Edited { t with depth } := by
  obtain ⟨edits, rfl⟩ := edited
  exact ⟨edits, (Edit.runAll_withDepth edits s depth).symm⟩

theorem depth (edited : s.Edited t) : t.depth = s.depth := by
  obtain ⟨edits, rfl⟩ := edited
  show (Edit.runAll edits { s with depth := s.depth }).depth = s.depth
  rw [Edit.runAll_withDepth]

theorem sound (edited : s.Edited t) (sound : s.Sound) : t.Sound := by
  obtain ⟨edits, rfl⟩ := edited
  exact sound.runAll edits

end Store.Edited

section Blocks

variable {ρ κ α β : Type}

def World.Edits (m : Action (World ρ) α) : Prop := ∀ w : World ρ, w.store.Edited (m w).2.store

structure Member.Edits (m : Member (World ρ)) : Prop where
  checkpoint : ∀ w : World ρ, w.store.Edited (m.checkpoint w).2.store
  rollback : ∀ mark, World.Edits (m.rollback mark)
  commit : ∀ mark, ∀ w : World ρ, w.store.Edited (m.commit mark w).store

namespace World

def edit (e : Edit) : Action (World ρ) Unit := storePlace.zoom e.run

variable {others : List (Member (World ρ))} {marks : Atomic.Marks (World ρ)}

theorem edits_edit (e : Edit) : Edits (ρ := ρ) (edit e) := fun w => .run e w.store

theorem Edits.bind {m : Action (World ρ) α} {f : α → Action (World ρ) β} (first : Edits m)
    (next : ∀ a, Edits (f a)) : Edits (m >>= f) := by
  intro w
  have earlier := first w
  rw [Action.bind_apply]
  cases ran : m w with
  | mk outcome v =>
    rw [ran] at earlier
    cases outcome with
    | error fault => exact earlier
    | ok a => exact earlier.trans (next a v)

theorem Edits.attempt {m : Action (World ρ) α} (edits : Edits m) : Edits (Action.attempt m) := edits

theorem edited_mark (members : ∀ m ∈ others, m.Edits) (w : World ρ) :
    w.store.Edited (Atomic.mark others w).2.store ∧
      ∀ entry ∈ (Atomic.mark others w).1, entry.1.Edits := by
  induction others generalizing w with
  | nil => exact ⟨.refl _, nofun⟩
  | cons m rest ih =>
    obtain ⟨first, others⟩ := List.forall_mem_cons.1 members
    obtain ⟨edited, entries⟩ := ih others (m.checkpoint w).2
    exact ⟨(first.checkpoint w).trans edited, List.forall_mem_cons.2 ⟨first, entries⟩⟩

theorem edits_rollbackAll (members : ∀ entry ∈ marks, entry.1.Edits) :
    Edits (Atomic.rollbackAll marks) := by
  induction marks with
  | nil => exact fun w => .refl _
  | cons m rest ih =>
    obtain ⟨first, others⟩ := List.forall_mem_cons.1 members
    exact (first.rollback m.2).bind fun _ => ih others

theorem edited_commitAll (members : ∀ entry ∈ marks, entry.1.Edits) (w : World ρ) :
    w.store.Edited (Atomic.commitAll marks w).store := by
  induction marks generalizing w with
  | nil => exact .refl _
  | cons m rest ih =>
    obtain ⟨first, others⟩ := List.forall_mem_cons.1 members
    exact (first.commit m.2 w).trans (ih others _)

theorem Edits.atomic (members : ∀ m ∈ others, m.Edits) {body : Action (World ρ) α}
    (inner : Edits body) :
    Edits (World.atomic others body) := by
  intro w
  obtain ⟨marked, entries⟩ := edited_mark members w
  have opened : (w.entered others).store.depth = (Atomic.mark others w).2.store.depth + 1 := rfl
  -- the number of open units is put back at the end, and nothing in between depends on it
  have closes {v : World ρ} (edited : (w.entered others).store.Edited v.store) :
      w.store.Edited (v.withDepth (v.store.depth - 1)).store := by
    rw [edited.depth, opened, Nat.add_sub_cancel]
    exact marked.trans (edited.withDepth (Atomic.mark others w).2.store.depth)
  have left := inner (w.entered others)
  rw [atomic_apply]
  cases (body (w.entered others)).1 with
  | ok a =>
    rw [leave_ok]
    dsimp only
    split
    · exact closes
        (left.trans ((Store.Edited.run (.commit _) _).trans (edited_commitAll entries _)))
    · exact closes left
  | error fault =>
    have reversed : ∀ entry ∈ (Atomic.mark others w).1.reverse, entry.1.Edits :=
      fun entry member => entries entry (List.mem_reverse.1 member)
    have undone := left.trans (edits_rollbackAll reversed (body (w.entered others)).2)
    rw [leave_error]
    cases rolled : Atomic.rollbackAll (Atomic.mark others w).1.reverse
      (body (w.entered others)).2 with
    | mk outcome v =>
      rw [rolled] at undone
      cases outcome with
      | error other => exact closes undone
      | ok =>
        have last := closes (v := { v with store := v.store.rollback w.store.checkpoint })
          (undone.trans (Store.Edited.run (.rollback _) _))
        simpa only [Store.depth_rollback] using last

end World

theorem Nesting.edits {members : κ → List (Member (World ρ))}
    (parties : ∀ names, ∀ m ∈ members names, m.Edits)
    (n : Nesting ρ κ α) (steps : n.Steps World.Edits) : World.Edits (n.run members) := by
  induction n with
  | give a => exact fun _ => .refl _
  | fail fault => exact fun _ => .refl _
  | step m next ih => exact steps.1.attempt.bind fun outcome => ih outcome (steps.2 outcome)
  | block names body next ihBody ih =>
    exact ((ihBody steps.1).atomic (parties names)).attempt.bind fun outcome =>
      ih outcome (steps.2 outcome)

def World.storesAlong (members : κ → List (Member (World ρ))) (w : World ρ) :
    List (Nesting ρ κ Unit) → List Store
  | [] => [w.store]
  | n :: rest => w.store :: storesAlong members (n.run members w).2 rest

theorem Store.Sound.along {members : κ → List (Member (World ρ))}
    (parties : ∀ names, ∀ m ∈ members names, m.Edits) {w : World ρ} (sound : w.store.Sound)
    {nests : List (Nesting ρ κ Unit)} (steps : ∀ n ∈ nests, n.Steps World.Edits) :
    ∀ s ∈ w.storesAlong members nests, s.Sound := by
  induction nests generalizing w with
  | nil => exact List.forall_mem_singleton.2 sound
  | cons n rest ih =>
    have left := (n.edits parties (steps n List.mem_cons_self) w).sound sound
    exact List.forall_mem_cons.2 ⟨sound, ih left fun n member =>
      steps n (List.mem_cons_of_mem _ member)⟩

end Blocks

namespace Walk

/-- A position that was handed out, and the store that its page was fetched from. -/
structure Handed where
  item : Account × Position
  page : Store

/-- How a walk went: the stores that it found when it was asked, what it handed out, and whether it
came to its end. -/
structure Journey where
  found : List Store := []
  handed : List Handed := []
  ended : Bool := false

/-- The store that the next position comes from, if what is left of the page fetched last came from
`page`: a page is fetched only when nothing is left. -/
def origin (w : Walk) (page s : Store) : Store := if w.pending.isEmpty then s else page

def Journey.prepend (s page : Store) (item : Account × Position) (j : Journey) : Journey :=
  { found := s :: j.found, handed := ⟨item, page⟩ :: j.handed, ended := j.ended }

def along (w : Walk) (page : Store) : List Store → Journey
  | [] => {}
  | s :: later =>
    match w.next s with
    | none => { found := [s], ended := true }
    | some (item, onward) => (onward.along (w.origin page s) later).prepend s (w.origin page s) item

variable {s page : Store} {w : Walk} {a : Account} {item : Account × Position}
  {rest : List (Account × Position)}

def Beyond (w : Walk) (a : Account) : Prop := ∀ cursor ∈ w.cursor, compare cursor a = .lt

def behind (w : Walk) (e : Account × Position) : Bool :=
  w.cursor.all fun cursor => compare cursor e.1 = .lt

theorem behind_iff (w : Walk) (e : Account × Position) : w.behind e = true ↔ w.Beyond e.1 := by
  simp only [behind, Beyond, Option.all_eq_true, decide_eq_true_eq, Option.mem_def]

theorem page_eq_take (coherent : s.Coherent) (w : Walk) :
    s.page w.market w.cursor w.pageSize =
      ((s.positionsOf w.market).filter w.behind).take w.pageSize :=
  coherent.page_eq w.market w.cursor w.pageSize

/-- What is left of a page is in order, comes behind the cursor, and was recorded when it was
fetched. -/
structure Ordered (w : Walk) (page : Store) : Prop where
  positive : 0 < w.pageSize
  rising : w.pending.Pairwise fun a b => compare a.1 b.1 = .lt
  beyond : ∀ e ∈ w.pending, w.Beyond e.1
  recorded : ∀ e ∈ w.pending, page.position? w.market e.1 = some e.2

/-- The account has not been passed, and the page fetched last has not left it out. -/
structure Due (w : Walk) (a : Account) : Prop where
  beyond : w.Beyond a
  pending : a ∈ w.pending.map Prod.fst ∨ ∀ e ∈ w.pending, compare e.1 a = .lt

def refilled (s : Store) (w : Walk) : Walk :=
  if w.pending.isEmpty then { w with pending := s.page w.market w.cursor w.pageSize } else w

def advanced (w : Walk) (item : Account × Position) (rest : List (Account × Position)) : Walk :=
  { w with pending := rest, cursor := some item.1 }

theorem cursor_refilled (s : Store) (w : Walk) : (w.refilled s).cursor = w.cursor := by
  unfold refilled
  split <;> rfl

theorem market_refilled (s : Store) (w : Walk) : (w.refilled s).market = w.market := by
  unfold refilled
  split <;> rfl

theorem advanced_refilled (s : Store) (w : Walk) (item : Account × Position)
    (rest : List (Account × Position)) :
    (w.refilled s).advanced item rest = w.advanced item rest := by
  unfold refilled
  split <;> rfl

theorem next_of_refilled_nil (empty : (w.refilled s).pending = []) : w.next s = none := by
  unfold refilled at empty
  unfold next
  split at empty <;> simp_all

theorem next_of_refilled_cons (pending : (w.refilled s).pending = item :: rest) :
    w.next s = some (item, w.advanced item rest) := by
  unfold refilled at pending
  unfold next advanced
  split at pending <;> simp_all

theorem along_cons_nil {later : List Store} (empty : (w.refilled s).pending = []) :
    w.along page (s :: later) = { found := [s], ended := true } := by
  simp only [along, next_of_refilled_nil empty]

theorem along_cons_cons {later : List Store} (pending : (w.refilled s).pending = item :: rest) :
    w.along page (s :: later) =
      ((w.advanced item rest).along (w.origin page s) later).prepend s (w.origin page s) item := by
  simp only [along, next_of_refilled_cons pending]

theorem Beyond.advance (ahead : w.Beyond item.1) (beyond : (w.advanced item rest).Beyond a) :
    w.Beyond a :=
  fun cursor current => Std.TransCmp.lt_trans (ahead cursor current) (beyond item.1 rfl)

theorem Ordered.refill (ordered : w.Ordered page) (coherent : s.Coherent) :
    (w.refilled s).Ordered (w.origin page s) := by
  unfold refilled origin
  split
  · have reads := coherent.reads w.market
    have sorted :=
      reads.sorted.sublist
        ((List.take_sublist w.pageSize _).trans (List.filter_sublist (p := w.behind)))
    have found {e} (member : e ∈ s.page w.market w.cursor w.pageSize) :
        e ∈ s.positionsOf w.market ∧ w.behind e = true := by
      rw [page_eq_take coherent] at member
      exact List.mem_filter.1 (List.mem_of_mem_take member)
    refine ⟨ordered.positive, ?_, fun e member => ?_, fun e member => ?_⟩
    · rwa [← page_eq_take coherent] at sorted
    · exact (w.behind_iff e).1 (found member).2
    · exact (reads.mem_iff e.1 e.2).1 (found member).1
  · exact ordered

theorem Ordered.advance (ordered : w.Ordered page) (pending : w.pending = item :: rest) :
    (w.advanced item rest).Ordered page := by
  have rising := ordered.rising
  have recorded := ordered.recorded
  rw [pending] at rising recorded
  obtain ⟨first, others⟩ := List.pairwise_cons.1 rising
  refine ⟨ordered.positive, others, fun e member cursor current => ?_, fun e member => ?_⟩
  · obtain rfl : item.1 = cursor := Option.some.inj current
    exact first e member
  · exact recorded e (List.mem_cons_of_mem _ member)

/-- A page that is cut short holds everything that comes before the providers it leaves out. -/
theorem Due.refill (due : w.Due a) (coherent : s.Coherent) (positive : 0 < w.pageSize)
    (has : s.hasPosition w.market a = true) :
    (w.refilled s).Due a ∧ (w.refilled s).pending ≠ [] := by
  unfold refilled
  split
  next empty =>
    have reads := coherent.reads w.market
    obtain ⟨e, recorded, rfl⟩ := List.mem_map.1 ((reads.hasPosition a).1 has)
    have member : e ∈ (s.positionsOf w.market).filter w.behind :=
      List.mem_filter.2 ⟨recorded, (w.behind_iff e).2 due.beyond⟩
    have sorted := reads.sorted.sublist (List.filter_sublist (p := w.behind))
    rw [page_eq_take coherent]
    -- the page has the account, or it is full before it comes to it
    refine ⟨⟨due.beyond, ?_⟩, fun none => ?_⟩
    · rw [← List.take_append_drop w.pageSize (List.filter _ _)] at member sorted
      rcases List.mem_append.1 member with early | late
      · exact .inl (List.mem_map_of_mem early)
      · exact .inr fun other earlier => (List.pairwise_append.1 sorted).2.2 other earlier e late
    · exact List.ne_nil_of_mem member ((List.take_eq_nil_iff.1 none).resolve_left positive.ne')
  next filled => exact ⟨due, fun none => filled (by simp [none])⟩

theorem Due.advance (due : w.Due a) (pending : w.pending = item :: rest) (apart : item.1 ≠ a)
    (rising : w.pending.Pairwise fun a b => compare a.1 b.1 = .lt) :
    (w.advanced item rest).Due a := by
  have left := due.pending
  rw [pending] at left rising
  obtain ⟨first, -⟩ := List.pairwise_cons.1 rising
  have cases : a ∈ rest.map Prod.fst ∨ ∀ e ∈ item :: rest, compare e.1 a = .lt := by
    refine left.imp_left fun member => ?_
    exact (List.mem_cons.1 member).resolve_left fun same => apart same.symm
  refine ⟨fun cursor current => ?_, cases.imp_right fun all e member =>
    all e (List.mem_cons_of_mem _ member)⟩
  obtain rfl : item.1 = cursor := Option.some.inj current
  rcases cases with member | all
  · obtain ⟨e, later, rfl⟩ := List.mem_map.1 member
    exact first e later
  · exact all item List.mem_cons_self

structure Journey.Accounted (w : Walk) (page : Store) (j : Journey) : Prop where
  rising : j.handed.Pairwise fun h k => compare h.item.1 k.item.1 = .lt
  beyond : ∀ h ∈ j.handed, w.Beyond h.item.1
  recorded : ∀ h ∈ j.handed, h.page.position? w.market h.item.1 = some h.item.2
  fetched : ∀ h ∈ j.handed, h.page ∈ j.found ∨ w.pending ≠ [] ∧ h.page = page
  complete : j.ended = true → ∀ a, w.Due a → (∀ s ∈ j.found, s.hasPosition w.market a = true) →
    a ∈ j.handed.map fun h => h.item.1

theorem Journey.Accounted.prepend {j : Journey} (ordered : w.Ordered page) (coherent : s.Coherent)
    (pending : (w.refilled s).pending = item :: rest)
    (onward : j.Accounted (w.advanced item rest) (w.origin page s)) :
    (j.prepend s (w.origin page s) item).Accounted w page := by
  have filled := ordered.refill coherent
  have member : item ∈ (w.refilled s).pending := by simp [pending]
  have here : w.Beyond item.1 := fun cursor current =>
    filled.beyond item member cursor (by rwa [cursor_refilled])
  have fetched (found : List Store) :
      w.origin page s ∈ s :: found ∨ w.pending ≠ [] ∧ w.origin page s = page := by
    unfold origin
    split
    next => exact .inl List.mem_cons_self
    next left => exact .inr ⟨fun none => left (by simp [none]), rfl⟩
  refine ⟨List.pairwise_cons.2 ⟨fun h later => onward.beyond h later item.1 rfl, onward.rising⟩,
    List.forall_mem_cons.2 ⟨here, fun h later => here.advance (onward.beyond h later)⟩,
    List.forall_mem_cons.2 ⟨?_, onward.recorded⟩,
    List.forall_mem_cons.2 ⟨fetched _, fun h later => ?_⟩,
    fun ended a due has => ?_⟩
  · rw [← market_refilled s w]
    exact filled.recorded item member
  · rcases onward.fetched h later with found | ⟨-, same⟩
    · exact .inl (List.mem_cons_of_mem _ found)
    · rw [same]
      exact fetched _
  · -- an account that is due is this one, or it is still due after it
    by_cases same : item.1 = a
    · exact List.mem_cons.2 (.inl same.symm)
    · have due := (due.refill coherent ordered.positive (has s List.mem_cons_self)).1
      have due := advanced_refilled s w item rest ▸ due.advance pending same filled.rising
      exact List.mem_cons_of_mem _
        (onward.complete ended a due fun s later => has s (List.mem_cons_of_mem _ later))

theorem along_accounted {stores : List Store} (ordered : w.Ordered page)
    (coherent : ∀ s ∈ stores, s.Coherent) :
    (w.along page stores).Accounted w page := by
  induction stores generalizing w page with
  | nil => exact ⟨.nil, nofun, nofun, nofun, nofun⟩
  | cons s later ih =>
    have here := coherent s List.mem_cons_self
    have filled := ordered.refill here
    cases pending : (w.refilled s).pending with
    | nil =>
      rw [along_cons_nil pending]
      -- a walk that ends has found an empty page, so nobody whom it owes a position was recorded
      refine ⟨.nil, nofun, nofun, nofun, fun _ a due has => ?_⟩
      exact ((due.refill here ordered.positive (has s List.mem_cons_self)).2 pending).elim
    | cons item rest =>
      have stands : (w.advanced item rest).Ordered (w.origin page s) :=
        advanced_refilled s w item rest ▸ filled.advance pending
      rw [along_cons_cons pending]
      exact (ih stands fun s member => coherent s (List.mem_cons_of_mem _ member)).prepend ordered
        here pending

theorem found_isPrefix {stores : List Store} : (w.along page stores).found <+: stores := by
  induction stores generalizing w page with
  | nil => exact List.nil_prefix
  | cons s later ih =>
    rw [along]
    cases w.next s with
    | none => exact List.cons_prefix_cons.2 ⟨rfl, List.nil_prefix⟩
    | some ahead => exact List.cons_prefix_cons.2 ⟨rfl, ih⟩

theorem along_replicate (before : Before s w rest) (coherent : s.Coherent) (n : Nat) :
    w.along s (List.replicate (rest.length + 1 + n) s) =
      { found := List.replicate (rest.length + 1) s
        handed := rest.map fun item => ⟨item, s⟩
        ended := true } := by
  induction rest generalizing w with
  | nil =>
    rw [List.length_nil, Nat.add_comm, Nat.zero_add, List.replicate_succ, along,
      next_eq_none before coherent]
    rfl
  | cons item rest ih =>
    obtain ⟨onward, ahead, standing⟩ := next_eq_some before coherent
    have same : w.origin s s = s := ite_self s
    have count : (item :: rest).length + 1 + n = rest.length + 1 + n + 1 := by
      rw [List.length_cons]
      omega
    rw [count, List.replicate_succ, along, ahead]
    simp only [same, ih standing]
    rfl

/-- A walk asked for its positions while nests of atomic blocks and raw operations, on any market,
run in between never hands out a provider twice, nor anything but what was recorded when its page
was fetched. If it ends, it has handed out once each provider that it found recorded whenever it was
asked. If nothing is done in between it does end, and has handed out all positions of its market in
order, whatever the page size. -/
theorem walked_among_others {ρ κ : Type} {members : κ → List (Member (World ρ))}
    (parties : ∀ names, ∀ m ∈ members names, m.Edits) {w : World ρ} (sound : w.store.Sound)
    (market : Market) {pageSize : Nat} (positive : 0 < pageSize) {nests : List (Nesting ρ κ Unit)}
    (steps : ∀ n ∈ nests, n.Steps World.Edits) :
    let journey := along { market, pageSize } w.store (w.storesAlong members nests)
    journey.found <+: w.storesAlong members nests ∧
      (journey.handed.map fun h => h.item.1).Pairwise (fun a b => compare a b = .lt) ∧
      (∀ h ∈ journey.handed, h.page ∈ journey.found ∧
        h.page.position? market h.item.1 = some h.item.2) ∧
      (journey.ended = true →
        ∀ provider, (∀ s ∈ journey.found, s.hasPosition market provider = true) →
        (journey.handed.map fun h => h.item.1).count provider = 1) ∧
      w.store.Reads market (w.store.positionsOf market) ∧
      ∀ n, along { market, pageSize } w.store
          (List.replicate (w.store.positionCount market + 1 + n) w.store) =
        { found := List.replicate (w.store.positionCount market + 1) w.store
          handed := (w.store.positionsOf market).map fun item => ⟨item, w.store⟩
          ended := true } := by
  have coherent := sound.coherent
  have start : Ordered { market, pageSize } w.store := ⟨positive, .nil, nofun, nofun⟩
  have accounted :=
    along_accounted start fun s member => (sound.along parties steps s member).coherent
  have rising : (_ : List Account).Pairwise fun a b => compare a b = .lt :=
    List.pairwise_map.2 accounted.rising
  refine ⟨found_isPrefix, rising, fun h member => ⟨?_, accounted.recorded h member⟩,
    fun ended provider has => ?_, coherent.reads market, fun n => ?_⟩
  · exact (accounted.fetched h member).resolve_right fun left => left.1 rfl
  · have due : Due { market, pageSize } provider := ⟨nofun, .inr nofun⟩
    exact List.count_eq_one_of_mem (Table.nodup_of_sorted rising)
      (accounted.complete ended provider due has)
  · have length : (w.store.positionsOf market).length = w.store.positionCount market :=
      ((coherent.reads market).count).symm
    rw [← length]
    exact along_replicate (before_start w.store market positive) coherent n

section Example

open Nesting World

def visited : World Nat :=
  { store := Edit.runAll [.putPosition ⟨0, 1⟩ "bob" ⟨1, 1⟩, .commit 0,
    .putPosition ⟨0, 1⟩ "dave" ⟨4, 4⟩] {}
    rest := 0 }

def record (provider : Account) (amount : Nat) : Action (World Nat) Unit :=
  edit (.putPosition ⟨0, 1⟩ provider ⟨amount, amount⟩)

def afterBob : Nesting Nat Unit Unit :=
  .block (β := Unit) ()
    (.block (β := Unit) ()
      (.step (record "erin" 9) fun _ => .step (record "alice" 9) fun _ => .fail .journalEmpty)
      fun _ => .step (record "dave" 7) fun _ => .give ())
    fun _ => .give ()

def afterDave : Nesting Nat Unit Unit :=
  .step (edit (.rollback 0)) fun _ => .step (record "erin" 5) fun _ => .give ()

theorem visited_among_others :
    let journey := along { market := ⟨0, 1⟩, pageSize := 2 } visited.store
      (visited.storesAlong (fun _ => [teller]) [afterBob, afterDave, .give ()])
    (∀ m ∈ [teller], m.Edits) ∧ visited.store.Sound ∧ 0 < 2 ∧
      (∀ n ∈ [afterBob, afterDave, .give ()], n.Steps World.Edits) ∧
      journey.handed.map Handed.item = [("bob", ⟨1, 1⟩), ("dave", ⟨4, 4⟩), ("erin", ⟨5, 5⟩)] ∧
      journey.ended = true ∧ (journey.handed.map fun h => h.item.1).count "bob" = 1 := by
  intro journey
  have parties : ∀ m ∈ [teller], m.Edits :=
    List.forall_mem_singleton.2 ⟨fun _ => .refl _, fun _ _ => .refl _, fun _ _ => .refl _⟩
  have sound : visited.store.Sound := Store.sound_empty.runAll _
  have positive : 0 < 2 := by decide
  have steps : ∀ n ∈ [afterBob, afterDave, .give ()], n.Steps World.Edits := by
    simp [afterBob, afterDave, record, Steps, edits_edit]
  have ended : journey.ended = true := by decide +kernel
  obtain ⟨-, -, -, once, -⟩ := walked_among_others (fun _ => parties) sound ⟨0, 1⟩ positive steps
  have throughout : ∀ s ∈ journey.found, s.hasPosition ⟨0, 1⟩ "bob" = true := by decide +kernel
  exact ⟨parties, sound, positive, steps, by decide +kernel, ended, once ended "bob" throughout⟩

end Example

end Walk

end LiquidityPools
