/-
SidechainVerifier.Proofs.CacheIndices — the two indices of a cache.

A cache writes every entry twice, under its key and under its rank. To take
an entry out it has to build again the very rank that it put in, from the
slot of the key: with a rank left behind, a later eviction would take the
wrong entry, or none. That no operation leaves one behind is read off the
list of ranks that ties the cache to a plain list of entries
(`Cache.Lists`), and that list lasts through a whole course of operations.

Main statement: after any operations on a new cache the indices agree, and
no more entries are held than the capacity allows (`Cache.indices_agree`).
-/
import SidechainVerifier.Proofs.PlainCaches

namespace SidechainVerifier

open OrderedMap

namespace Cache

variable {K V : Type} [Ord K] [Ord V]

/-! ## Indices that agree -/

/-- Both indices hold the same entries. -/
structure Agrees (c : Cache K V) : Prop where
  /-- The ranks are those of the slots. -/
  ranks : ∀ r : Rank K V,
    c.byRank.contains r = true ↔ c.byKey.get? r.key = some ⟨r.value, r.turn⟩
  /-- No two keys have one turn. -/
  turns : ∀ k k' slot slot', c.byKey.get? k = some slot → c.byKey.get? k' = some slot' →
    slot.turn = slot'.turn → k = k'
  turn_lt : ∀ k slot, c.byKey.get? k = some slot → slot.turn < c.nextTurn
  size_eq : c.byRank.size = c.byKey.size

namespace Lists

variable {c : Cache K V} {ranks : List (Rank K V)}

/-- A turn has one rank. -/
theorem eq_of_turn_eq (h : c.Lists ranks) {r r' : Rank K V} (hr : r ∈ ranks) (hr' : r' ∈ ranks)
    (hturn : r.turn = r'.turn) : r = r' := by
  have hnodup : (ranks.map Rank.turn).Nodup :=
    List.nodup_iff_pairwise_ne.mpr (List.pairwise_map.mpr (h.turns.imp Nat.ne_of_lt))
  exact List.inj_on_of_nodup_map hnodup hr hr' hturn

variable [Std.TransOrd K] [Std.LawfulEqOrd K] [Std.TransOrd V] [Std.LawfulEqOrd V]

theorem agrees (h : c.Lists ranks) : c.Agrees where
  ranks r := (h.byRank r).trans (h.byKey r.key ⟨r.value, r.turn⟩).symm
  turns k k' slot slot' hslot hslot' hturn :=
    congrArg Rank.key
      (h.eq_of_turn_eq ((h.byKey k slot).mp hslot) ((h.byKey k' slot').mp hslot') hturn)
  turn_lt k slot hslot := h.turn_lt _ ((h.byKey k slot).mp hslot)
  size_eq := (size_eq_length h.nodup h.byRank).trans h.size_eq.symm

end Lists

/-! ## Courses of operations -/

section

variable [Std.TransOrd K] [Std.TransOrd V]

/-- The cache after operations one after the other. -/
def performAll (c : Cache K V) (operations : List (Operation K V)) : Cache K V :=
  operations.foldl (fun c operation => (c.perform operation).2) c

end

variable [Std.TransOrd K] [Std.LawfulEqOrd K] [Std.TransOrd V] [Std.LawfulEqOrd V]

/-- A plain cache keeps up with the cache through all operations. -/
theorem RefinesWithin.performAll [DecidableEq K] {capacity n : Nat} {c : Cache K V}
    {p : PlainCache K V} (h : RefinesWithin capacity n c p) (operations : List (Operation K V)) :
    ∃ p', RefinesWithin capacity (n + operations.length) (c.performAll operations) p' := by
  induction operations generalizing n c p with
  | nil => exact ⟨p, h⟩
  | cons operation rest ih =>
    obtain ⟨p', hp'⟩ := ih (h.perform operation).2
    refine ⟨p', ?_⟩
    rwa [List.length_cons, Nat.add_comm rest.length, ← Nat.add_assoc]

/-- After any operations on a new cache its indices agree, and it holds no more entries than its
capacity, which is at least one. As no more turns are taken than operations are performed, the
turns of fewer than `2 ^ 64` operations fit into a word. -/
theorem indices_agree (capacity : Nat) (operations : List (Operation K V)) :
    ((Cache.new capacity : Cache K V).performAll operations).Agrees ∧
      ((Cache.new capacity : Cache K V).performAll operations).size ≤ max capacity 1 ∧
      ((Cache.new capacity : Cache K V).performAll operations).nextTurn ≤ operations.length := by
  classical
  obtain ⟨p, hp⟩ := (RefinesWithin.new capacity : RefinesWithin capacity 0
    (Cache.new capacity : Cache K V) (.new capacity)).performAll operations
  rw [Nat.zero_add] at hp
  obtain ⟨ranks, hranks, -⟩ := hp.refines.lists
  refine ⟨hranks.agrees, ?_, hp.nextTurn_le⟩
  rw [hp.refines.size_eq]
  exact hp.length_le

/-- Of two entries with one value the earlier one is evicted, and both its records go. The other one
is then given a greater value under the turn that it has. -/
theorem indices_agree_after_eviction :
    ∃ c : Cache Nat Nat,
      c = (Cache.new 2).performAll [.insert 4 1, .clear, .insert 7 5, .insert 3 5, .insert 1 9,
        .update 3 9, .erase 7] ∧
      c.byKey.entries = [(1, ⟨9, 3⟩), (3, ⟨9, 2⟩)] ∧ c.byRank.keys = [⟨9, 2, 3⟩, ⟨9, 3, 1⟩] ∧
      c.Agrees ∧ c.size ≤ 2 ∧ c.nextTurn ≤ 7 :=
  ⟨_, rfl, by decide, by decide, indices_agree 2 _⟩

end Cache

end SidechainVerifier
