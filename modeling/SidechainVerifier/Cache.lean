/-
SidechainVerifier.Cache — a cache of bounded size that gives up its least
values first.

The cache keeps its entries under two indices: by key, for look-ups, and by
rank, for eviction. An entry's rank is its value, then the turn at which its
key was inserted, then the key; a full cache evicts the entry of least rank
before it takes a new one. Replacing a value keeps the turn.
-/
import SidechainVerifier.OrderedMap

namespace SidechainVerifier

/-- An entry's place in the order of eviction. -/
structure Rank (K V : Type) where
  value : V
  turn : Nat
  key : K
deriving DecidableEq

namespace Rank

variable {K V : Type} [Ord K] [Ord V]

/-- Values decide first, then turns, then keys. -/
def order : Rank K V → Rank K V → Ordering :=
  compareLex (compareOn value) (compareLex (compareOn turn) (compareOn key))

instance : Ord (Rank K V) := ⟨order⟩

instance [Std.TransOrd K] [Std.TransOrd V] : Std.TransOrd (Rank K V) :=
  inferInstanceAs (Std.TransCmp
    (compareLex (compareOn value) (compareLex (compareOn turn) (compareOn key))))

instance [Std.LawfulEqOrd K] [Std.LawfulEqOrd V] : Std.LawfulEqOrd (Rank K V) where
  compare_self {a} := by
    show (compare a.value a.value).then ((compare a.turn a.turn).then (compare a.key a.key)) = .eq
    simp [Std.ReflOrd.compare_self]
  eq_of_compare {a b} h := by
    obtain ⟨hv, h⟩ := Ordering.then_eq_eq.mp (show (compare a.value b.value).then
      ((compare a.turn b.turn).then (compare a.key b.key)) = .eq from h)
    obtain ⟨ht, hk⟩ := Ordering.then_eq_eq.mp h
    cases a
    cases b
    simp only at hv ht hk
    rw [Std.LawfulEqCmp.eq_of_compare hv, Std.LawfulEqCmp.eq_of_compare ht,
      Std.LawfulEqCmp.eq_of_compare hk]

end Rank

/-- What the cache holds under a key. -/
structure Slot (V : Type) where
  value : V
  /-- The turn at which the key was inserted. -/
  turn : Nat
deriving DecidableEq

/-- A cache that holds at most `capacity` entries. -/
structure Cache (K V : Type) [Ord K] [Ord V] where
  capacity : Nat
  byKey : OrderedMap K (Slot V)
  byRank : OrderedMap (Rank K V) Unit
  nextTurn : Nat

namespace Cache

variable {K V : Type} [Ord K] [Ord V]

/-- An empty cache for a number of entries, at least one. -/
def new (capacity : Nat) : Cache K V := ⟨max capacity 1, .empty, .empty, 0⟩

/-- The number of entries. -/
def size (c : Cache K V) : Nat := c.byKey.size

/-- Whether there are no entries. -/
def isEmpty (c : Cache K V) : Bool := c.byKey.isEmpty

/-- Whether a key is cached. -/
def contains (c : Cache K V) (k : K) : Bool := c.byKey.contains k

/-- The value cached under a key. -/
def get? (c : Cache K V) (k : K) : Option V := (c.byKey.get? k).map (·.value)

/-- The entry that would be evicted next. -/
def least? (c : Cache K V) : Option (K × V) := c.byRank.first?.map fun (r, _) => (r.key, r.value)

/-- The cache without the entry of least rank. -/
def evict (c : Cache K V) : Cache K V :=
  match c.byRank.first? with
  | none => c
  | some (r, _) => { c with byKey := c.byKey.erase r.key, byRank := c.byRank.erase r }

/-- The cache without entries. Turns go on from where they were. -/
def clear (c : Cache K V) : Cache K V := { c with byKey := .empty, byRank := .empty }

/-- The cache without the entry under a key, and the value that was there. -/
def erase (c : Cache K V) (k : K) : Option V × Cache K V :=
  match c.byKey.get? k with
  | none => (none, c)
  | some slot =>
    (some slot.value,
      { c with
        byKey := c.byKey.erase k
        byRank := c.byRank.erase ⟨slot.value, slot.turn, k⟩ })

variable [Std.TransOrd K] [Std.TransOrd V]

/-- The cache with a new entry, after evicting one if it was full. A key that is cached already is
left alone, and the answer is whether it was new. -/
def insert (c : Cache K V) (k : K) (v : V) : Bool × Cache K V :=
  if c.contains k then (false, c)
  else
    let c := if c.size ≥ c.capacity then c.evict else c
    (true,
      { c with
        byKey := c.byKey.insert k ⟨v, c.nextTurn⟩
        byRank := c.byRank.insert ⟨v, c.nextTurn, k⟩ ()
        nextTurn := c.nextTurn + 1 })

/-- The cache with the value of a cached key replaced, and whether the key was cached. -/
def update (c : Cache K V) (k : K) (v : V) : Bool × Cache K V :=
  match c.byKey.get? k with
  | none => (false, c)
  | some slot =>
    (true,
      { c with
        byKey := c.byKey.insert k ⟨v, slot.turn⟩
        byRank := (c.byRank.erase ⟨slot.value, slot.turn, k⟩).insert ⟨v, slot.turn, k⟩ () })

end Cache

end SidechainVerifier
