import LiquidityPools.Proofs.Snapshot
import LiquidityPools.Proofs.Tag

/-!
What a commitment commits to. The hashed bytes of two snapshots are the same exactly if their
versions are, and the stores have the same pools and in their markets the same positions: the tag
ends at its only zero byte, the text behind it tells documents apart, and the document holds every
field of every entry.
-/

namespace LiquidityPools

namespace Snapshot

theorem fieldsDocument_inj {l l' : List (String × Document)}
    (same : fieldsDocument l = fieldsDocument l') (keys : l.map Prod.fst = l'.map Prod.fst)
    (nodup : (l.map Prod.fst).Nodup) : l = l' :=
  Document.sorted_inj keys nodup (Document.object.inj same)

theorem poolDocument_inj {e e' : Market × Pool}
    (same : poolDocument e.1 e.2 = poolDocument e'.1 e'.2) : e = e' := by
  obtain ⟨⟨base, quote⟩, baseReserve, quoteReserve, baseFees, quoteFees⟩ := e
  obtain ⟨⟨base', quote'⟩, baseReserve', quoteReserve', baseFees', quoteFees'⟩ := e'
  have fields := fieldsDocument_inj same rfl (by simp)
  simp only [List.cons.injEq, Prod.mk.injEq, Document.int.injEq, Int.natCast_inj, true_and,
    and_true] at fields
  obtain ⟨rfl, rfl, rfl, rfl, rfl, rfl⟩ := fields
  rfl

theorem positionDocument_inj {e e' : (Market × Account) × Position}
    (same : positionDocument e.1.1 e.1.2 e.2 = positionDocument e'.1.1 e'.1.2 e'.2) : e = e' := by
  obtain ⟨⟨⟨base, quote⟩, provider⟩, baseContributed, quoteContributed⟩ := e
  obtain ⟨⟨⟨base', quote'⟩, provider'⟩, baseContributed', quoteContributed'⟩ := e'
  have fields := fieldsDocument_inj same rfl (by simp)
  simp only [List.cons.injEq, Prod.mk.injEq, Document.int.injEq, Document.text.injEq,
    Int.natCast_inj, true_and, and_true] at fields
  obtain ⟨rfl, rfl, rfl, rfl, rfl⟩ := fields
  rfl

variable {s t : Store} {v w : Nat}

theorem document_inj (same : document s v = document t w) :
    v = w ∧ s.pools.entries = t.pools.entries ∧ s.listed = t.listed := by
  have fields := fieldsDocument_inj same rfl (by simp)
  simp only [List.cons.injEq, Prod.mk.injEq, Document.int.injEq, Document.array.injEq,
    Int.natCast_inj, true_and, and_true] at fields
  obtain ⟨versions, pools, positions⟩ := fields
  exact ⟨versions, List.map_injective_iff.2 (fun _ _ => poolDocument_inj) pools,
    List.map_injective_iff.2 (fun _ _ => positionDocument_inj) positions⟩

theorem payload_ofStore (coherent : s.Coherent) (version : Nat) :
    (ofStore s version).payload = .ok (Digest.tag "amm_snapshot" version ++ bytesOf s version) := by
  rw [payload, bytes_ofStore coherent]
  rfl

theorem document_of_payload
    (same : Digest.tag "amm_snapshot" v ++ bytesOf s v =
      Digest.tag "amm_snapshot" w ++ bytesOf t w) :
    document s v = document t w := by
  have accepted : Digest.labelOf (.str "amm_snapshot") = .ok "amm_snapshot" := rfl
  have isLabel : Digest.IsLabel "amm_snapshot" := (Digest.labelOf_eq_ok_iff.1 accepted).2
  obtain ⟨-, -, bytes⟩ := Digest.tag_inj isLabel isLabel same
  exact Document.toText_inj (Document.utf8_inj bytes)

theorem payload_ofStoreAt (coherent : s.Coherent) (positive : 0 < v) :
    (ofStoreAt s (.int v)).bind payload = .ok (Digest.tag "amm_snapshot" v ++ bytesOf s v) := by
  have checked : Digest.versionOf (.int v) = .ok v := by
    rw [Digest.versionOf, if_pos (by omega), Int.toNat_natCast]
  rw [ofStoreAt, checked]
  exact payload_ofStore coherent v

/-- The hashed bytes identify the state: two snapshots agree in them exactly if they have the same
version and the stores, however they came about, have the same pools and in each market that has one
the same providers with the same positions. -/
theorem payload_eq_iff (reached : s.Reached) (reached' : t.Reached) (positive : 0 < v)
    (positive' : 0 < w) :
    ∃ p q, (ofStoreAt s (.int v)).bind payload = .ok p ∧
      (ofStoreAt t (.int w)).bind payload = .ok q ∧
      (p = q ↔ v = w ∧ (∀ market, s.pool? market = t.pool? market) ∧
        ∀ market, s.hasPool market = true → ∀ provider,
          s.position? market provider = t.position? market provider) := by
  have coherent := reached.coherent
  have coherent' := reached'.coherent
  refine ⟨_, _, payload_ofStoreAt coherent positive, payload_ofStoreAt coherent' positive', ?_, ?_⟩
  · intro same
    obtain ⟨versions, entries, listed⟩ := document_inj (document_of_payload same)
    have pools : s.pools = t.pools := Table.ext entries
    exact ⟨versions, fun market => by rw [Store.pool?, Store.pool?, pools],
      (Store.listed_eq_iff coherent coherent' pools).1 listed⟩
  · rintro ⟨rfl, known, positions⟩
    have pools : s.pools = t.pools := Table.ext_get? known
    have listed := (Store.listed_eq_iff coherent coherent' pools).2 positions
    rw [bytesOf, bytesOf, document, document, pools, listed]

def poolsFirst : Store :=
  let pools :=
    Store.writePool (Store.writePool {} ⟨1, 2⟩ ⟨50, 60, 0, 7⟩ none) ⟨0, 5⟩ ⟨8, 9, 1, 0⟩ none
  (pools.putPosition ⟨1, 2⟩ "alice" ⟨50, 60⟩).putPosition ⟨1, 2⟩ "bob" ⟨0, 0⟩

def providersFirst : Store :=
  let pooled := Store.writePool {} ⟨0, 5⟩ ⟨8, 9, 1, 0⟩ none
  let carol := (pooled.putPosition ⟨1, 2⟩ "bob" ⟨0, 0⟩).putPosition ⟨1, 2⟩ "carol" ⟨1, 1⟩
  let bob := (Store.rollbackTo 2 carol).2
  (bob.putPosition ⟨1, 2⟩ "alice" ⟨50, 60⟩).writePool ⟨1, 2⟩ ⟨50, 60, 0, 7⟩ none

/-- Bob is missing from this one: it lacks nothing but an empty position. -/
def withoutBob : Store := (Store.rollbackTo 3 poolsFirst).2

theorem reached_poolsFirst : poolsFirst.Reached :=
  (((Store.Reached.empty.newPool rfl _).newPool (by decide) _).putPosition ..).putPosition ..

theorem reached_providersFirst : providersFirst.Reached :=
  (((((Store.Reached.empty.newPool rfl _).putPosition ..).putPosition ..).rollback 2).putPosition
    ..).newPool (by decide +kernel) _

theorem payload_ignores_order : ∃ p q, (ofStoreAt poolsFirst (.int 1)).bind payload = .ok p ∧
    (ofStoreAt providersFirst (.int 1)).bind payload = .ok p ∧
    (ofStoreAt withoutBob (.int 1)).bind payload = .ok q ∧ p ≠ q := by
  obtain ⟨p, p', hashed, hashed', same⟩ :=
    payload_eq_iff reached_poolsFirst reached_providersFirst (v := 1) (w := 1)
      (by decide) (by decide)
  obtain ⟨r, q, again, other, differ⟩ :=
    payload_eq_iff reached_poolsFirst (reached_poolsFirst.rollback 3) (v := 1) (w := 1) (by decide)
      (by decide)
  have pools : poolsFirst.pools = providersFirst.pools := by decide +kernel
  have positions : poolsFirst.positions = providersFirst.positions := by decide +kernel
  have equal : p = p' := same.2 ⟨rfl, fun market => by rw [Store.pool?, Store.pool?, pools],
    fun market _ provider => by rw [Store.position?, Store.position?, positions]⟩
  cases Except.ok.inj (hashed.symm.trans again)
  refine ⟨p, q, hashed, equal ▸ hashed', other, fun collide => ?_⟩
  have bob := (differ.1 collide).2.2 ⟨1, 2⟩ (by decide +kernel) "bob"
  exact absurd bob (by decide +kernel)

end Snapshot

end LiquidityPools
