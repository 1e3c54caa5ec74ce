/-
SidechainVerifier.Proofs.PlainCaches — the cache, seen as a plain list.

`PlainCache` is the cache as its users think of it: its entries, in the
order in which their keys were inserted. The cache keeps two indices in
place of that list, and turns that go on from one `clear` to the next. What
ties the two together is the list of ranks, in the order of their turns:
`Cache.Lists` says that both indices hold just these ranks, and every
operation does to them what the plain cache does to its entries
(`Cache.Refines.perform`). So all calls are answered alike, also on copies
that go their own ways (`Cache.answers_eq_plain`).
-/
import SidechainVerifier.Cache
import SidechainVerifier.Proofs.MapLaws

namespace SidechainVerifier

open OrderedMap

/-! ## Plain caches -/

/-- A cache as the list of its entries, in the order in which their keys were inserted. -/
structure PlainCache (K V : Type) where
  capacity : Nat
  entries : List (K × V)
deriving DecidableEq

namespace PlainCache

variable {K V : Type}

/-- An empty cache for a number of entries, at least one. -/
def new (capacity : Nat) : PlainCache K V := ⟨max capacity 1, []⟩

/-- The cache without entries. -/
def clear (c : PlainCache K V) : PlainCache K V := { c with entries := [] }

section

variable [DecidableEq K]

/-- The value under a key. -/
def get? (c : PlainCache K V) (k : K) : Option V :=
  (c.entries.find? fun e => e.1 = k).map Prod.snd

/-- The cache with the value of a key replaced where it stands, and whether the key was there. -/
def update (c : PlainCache K V) (k : K) (v : V) : Bool × PlainCache K V :=
  ((c.get? k).isSome,
    { c with entries := c.entries.map fun e => if e.1 = k then (k, v) else e })

/-- The cache without the entry under a key, and the value that was there. -/
def erase (c : PlainCache K V) (k : K) : Option V × PlainCache K V :=
  (c.get? k, { c with entries := c.entries.eraseP fun e => e.1 = k })

end

variable [Ord V]

/-- No entry has a smaller value. -/
def isLeast (entries : List (K × V)) (e : K × V) : Bool :=
  entries.all fun e' => (compare e.2 e'.2).isLE

/-- The earliest of the entries with the least value. -/
def least? (c : PlainCache K V) : Option (K × V) := c.entries.find? (isLeast c.entries)

/-- The cache without the earliest of the entries with the least value. -/
def evict (c : PlainCache K V) : PlainCache K V :=
  { c with entries := c.entries.eraseP (isLeast c.entries) }

/-- The cache with a new entry at the end, after evicting one if it was full. A key that is there
already is left alone, and the answer is whether it was new. -/
def insert [DecidableEq K] (c : PlainCache K V) (k : K) (v : V) : Bool × PlainCache K V :=
  if (c.get? k).isSome then (false, c)
  else
    let c := if c.entries.length ≥ c.capacity then c.evict else c
    (true, { c with entries := c.entries ++ [(k, v)] })

end PlainCache

/-! ## Calls and answers -/

namespace Cache

/-- The operations of a cache. -/
inductive Operation (K V : Type) where
  | insert (key : K) (value : V)
  | update (key : K) (value : V)
  | erase (key : K)
  | contains (key : K)
  | get (key : K)
  | least
  | clear
  | size
  | isEmpty
  | capacity

/-- What an operation answers. -/
inductive Answer (K V : Type) where
  | done
  | found (present : Bool)
  | value (value : Option V)
  | entry (entry : Option (K × V))
  | count (number : Nat)
deriving DecidableEq

/-- A call on one of several caches, which are numbered in the order in which they came to be. -/
inductive Call (K V : Type) where
  | perform (cache : Nat) (operation : Operation K V)
  /-- The cache is copied. -/
  | clone (cache : Nat)

variable {K V : Type}

section

variable {σ : Type} (step : σ → Operation K V → Answer K V × σ)

/-- The answer to a call, `none` if there is no such cache, and the caches after it. -/
def answer (caches : List σ) : Call K V → Option (Answer K V) × List σ
  | .perform number operation =>
    match caches[number]? with
    | none => (none, caches)
    | some c => (some (step c operation).1, caches.set number (step c operation).2)
  | .clone number =>
    match caches[number]? with
    | none => (none, caches)
    | some c => (some .done, caches ++ [c])

/-- The answers to calls one after the other, and the caches after them. -/
def answers (caches : List σ) : List (Call K V) → List (Option (Answer K V)) × List σ
  | [] => ([], caches)
  | call :: rest =>
    let first := answer step caches call
    let others := answers first.2 rest
    (first.1 :: others.1, others.2)

end

variable [Ord K] [Ord V]

/-- Performs an operation. -/
def perform [Std.TransOrd K] [Std.TransOrd V] (c : Cache K V) :
    Operation K V → Answer K V × Cache K V
  | .insert k v => (c.insert k v).map .found id
  | .update k v => (c.update k v).map .found id
  | .erase k => (c.erase k).map .value id
  | .contains k => (.found (c.contains k), c)
  | .get k => (.value (c.get? k), c)
  | .least => (.entry c.least?, c)
  | .clear => (.done, c.clear)
  | .size => (.count c.size, c)
  | .isEmpty => (.found c.isEmpty, c)
  | .capacity => (.count c.capacity, c)

end Cache

/-- Performs an operation. -/
def PlainCache.perform {K V : Type} [DecidableEq K] [Ord V] (c : PlainCache K V) :
    Cache.Operation K V → Cache.Answer K V × PlainCache K V
  | .insert k v => (c.insert k v).map .found id
  | .update k v => (c.update k v).map .found id
  | .erase k => (c.erase k).map .value id
  | .contains k => (.found (c.get? k).isSome, c)
  | .get k => (.value (c.get? k), c)
  | .least => (.entry c.least?, c)
  | .clear => (.done, c.clear)
  | .size => (.count c.entries.length, c)
  | .isEmpty => (.found c.entries.isEmpty, c)
  | .capacity => (.count c.capacity, c)

/-! ## Keys without an entry -/

namespace PlainCache

variable {K V : Type} [DecidableEq K] {c : PlainCache K V} {k : K}

theorem get?_eq_none_iff : c.get? k = none ↔ ∀ e ∈ c.entries, e.1 ≠ k := by
  simp [get?]

theorem erase_of_get?_eq_none (h : c.get? k = none) : c.erase k = (none, c) := by
  rw [erase, h, List.eraseP_of_forall_not]
  simpa using get?_eq_none_iff.mp h

theorem update_of_get?_eq_none (h : c.get? k = none) (v : V) : c.update k v = (false, c) := by
  have hentries : (c.entries.map fun e => if e.1 = k then (k, v) else e) = c.entries :=
    (List.map_congr_left fun e he => if_neg (get?_eq_none_iff.mp h e he)).trans (List.map_id' _)
  rw [update, h, hentries, Option.isSome_none]

end PlainCache

/-! ## Ranks in the order of their turns -/

/-- The entry with a rank. -/
def Rank.entry {K V : Type} (r : Rank K V) : K × V := (r.key, r.value)

/-- A rank comes before another one by its value, or by its turn if their values are equal. -/
theorem Rank.lt_cases {K V : Type} [Ord K] [Ord V] [Std.LawfulEqOrd V] {r r' : Rank K V}
    (h : compare r r' = .lt) :
    compare r.value r'.value = .lt ∨ r.value = r'.value ∧ r.turn ≤ r'.turn := by
  change (compare r.value r'.value).then
    ((compare r.turn r'.turn).then (compare r.key r'.key)) = .lt at h
  rcases Ordering.then_eq_lt.mp h with hvalue | ⟨hvalue, hrest⟩
  · exact .inl hvalue
  · refine .inr ⟨Std.LawfulEqCmp.eq_of_compare hvalue, ?_⟩
    rcases Ordering.then_eq_lt.mp hrest with hturn | ⟨hturn, -⟩
    · exact Nat.le_of_lt (Nat.compare_eq_lt.mp hturn)
    · exact Nat.le_of_eq (Nat.compare_eq_eq.mp hturn)

namespace Cache

variable {K V : Type} [Ord K] [Ord V]

/-- Both indices hold just these ranks, which are listed by their turns. -/
structure Lists (c : Cache K V) (ranks : List (Rank K V)) : Prop where
  byKey : ∀ k slot, c.byKey.get? k = some slot ↔ ⟨slot.value, slot.turn, k⟩ ∈ ranks
  byRank : ∀ r, c.byRank.contains r = true ↔ r ∈ ranks
  turns : ranks.Pairwise fun r r' => r.turn < r'.turn
  turn_lt : ∀ r ∈ ranks, r.turn < c.nextTurn

namespace Lists

variable {c : Cache K V} {ranks before after : List (Rank K V)} {r : Rank K V} {k : K} {a : V}

theorem empty {c : Cache K V} (hkey : c.byKey = .empty) (hrank : c.byRank = .empty) :
    c.Lists [] where
  byKey k slot := by simp [hkey]
  byRank r := by simp [hrank, OrderedMap.contains]
  turns := .nil
  turn_lt := by simp

/-- A key has one rank. -/
theorem eq_of_key_eq (h : c.Lists ranks) {r r' : Rank K V} (hr : r ∈ ranks) (hr' : r' ∈ ranks)
    (hkey : r.key = r'.key) : r = r' := by
  have hslot := (h.byKey r.key ⟨r.value, r.turn⟩).mpr hr
  have hslot' := (h.byKey r.key ⟨r'.value, r'.turn⟩).mpr (hkey ▸ hr')
  obtain ⟨hvalue, hturn⟩ := Slot.mk.inj (Option.some.inj (hslot.symm.trans hslot'))
  cases r
  cases r'
  simp_all

theorem nodup (h : c.Lists ranks) : ranks.Nodup :=
  h.turns.imp fun hlt heq => Nat.ne_of_lt hlt (congrArg Rank.turn heq)

theorem nodup_keys (h : c.Lists ranks) : (ranks.map Rank.key).Nodup :=
  List.Nodup.map_on (fun _ hr _ hr' => h.eq_of_key_eq hr hr') h.nodup

/-- The ranks beside one of them are those of other keys. -/
theorem key_ne (h : c.Lists (before ++ r :: after)) {r' : Rank K V} (hr' : r' ∈ before ++ after) :
    r'.key ≠ r.key := by
  have hkeys := h.nodup_keys
  rw [List.map_append, List.map_cons, List.nodup_middle, List.nodup_cons,
    ← List.map_append] at hkeys
  exact fun hkey => hkeys.1 (List.mem_map.mpr ⟨r', hr', hkey⟩)

theorem contains_iff (h : c.Lists ranks) : c.byKey.contains k = true ↔ k ∈ ranks.map Rank.key := by
  rw [OrderedMap.contains_iff, List.mem_map]
  constructor
  · rintro ⟨slot, hslot⟩
    exact ⟨_, (h.byKey k slot).mp hslot, rfl⟩
  · rintro ⟨r, hr, rfl⟩
    exact ⟨⟨r.value, r.turn⟩, (h.byKey _ _).mpr hr⟩

/-- Either no rank is that of a key, or there is one, and the slot of the key agrees with it. -/
theorem find (h : c.Lists ranks) (k : K) :
    (c.byKey.get? k = none ∧ ∀ r ∈ ranks, r.key ≠ k) ∨
      ∃ before r after, ranks = before ++ r :: after ∧ r.key = k ∧
        c.byKey.get? k = some ⟨r.value, r.turn⟩ := by
  cases hslot : c.byKey.get? k with
  | none =>
    refine .inl ⟨rfl, ?_⟩
    rintro r hr rfl
    have hget := (h.byKey r.key ⟨r.value, r.turn⟩).mpr hr
    rw [hslot] at hget
    cases hget
  | some slot =>
    obtain ⟨before, after, hranks⟩ := List.append_of_mem ((h.byKey k slot).mp hslot)
    exact .inr ⟨before, _, after, hranks, rfl, rfl⟩

variable [Std.TransOrd K] [Std.LawfulEqOrd K]

theorem size_eq (h : c.Lists ranks) : c.size = ranks.length := by
  rw [← List.length_map Rank.key]
  exact size_eq_length h.nodup_keys fun k => h.contains_iff

variable [Std.TransOrd V] [Std.LawfulEqOrd V]

theorem eq_nil (h : c.Lists ranks) (hfirst : c.byRank.first? = none) : ranks = [] := by
  refine List.eq_nil_iff_forall_not_mem.mpr fun r hr => ?_
  rw [← h.byRank, first?_eq_none_iff.mp hfirst] at hr
  cases hr

/-- The rank that comes first in the order of eviction is the earliest of those with the least
value. -/
theorem first (h : c.Lists ranks) {u : Unit} (hfirst : c.byRank.first? = some (r, u)) :
    ∃ before after, ranks = before ++ r :: after ∧
      PlainCache.isLeast (ranks.map Rank.entry) r.entry = true ∧
      ∀ r' ∈ before, PlainCache.isLeast (ranks.map Rank.entry) r'.entry = false := by
  obtain ⟨hmem, hfirst⟩ := first?_eq_some hfirst
  rw [h.byRank] at hmem
  obtain ⟨before, after, rfl⟩ := List.append_of_mem hmem
  have hlt : ∀ r' ∈ before ++ r :: after, r' ≠ r → compare r r' = .lt :=
    fun r' hr' hne => hfirst r' ((h.byRank r').mpr hr') hne
  refine ⟨before, after, rfl, ?_, ?_⟩
  · simp only [PlainCache.isLeast, List.all_map, List.all_eq_true]
    intro r' hr'
    by_cases hne : r' = r
    · simp [hne, Std.ReflOrd.compare_self]
    · rcases Rank.lt_cases (hlt r' hr' hne) with hvalue | ⟨hvalue, -⟩
      · simp [Rank.entry, hvalue]
      · simp [Rank.entry, hvalue, Std.ReflOrd.compare_self]
  · intro r' hr'
    -- With an equal value it would have to be `r'` that is evicted, as its turn is the earlier one.
    have hturn : r'.turn < r.turn := (List.pairwise_append.mp h.turns).2.2 r' hr' r (by simp)
    have hmem' : r' ∈ before ++ r :: after := List.mem_append_left _ hr'
    have hne : r' ≠ r := fun heq => Nat.ne_of_lt hturn (congrArg Rank.turn heq)
    rw [Bool.eq_false_iff]
    intro hleast
    have hle := List.all_eq_true.mp hleast r.entry (List.mem_map_of_mem hmem)
    rcases Rank.lt_cases (hlt r' hmem' hne) with hvalue | ⟨-, hle'⟩
    · simp [Rank.entry, Std.OrientedCmp.gt_of_lt hvalue] at hle
    · omega

variable [DecidableEq K]

/-- A rank can be taken out of both indices. -/
theorem remove (h : c.Lists (before ++ r :: after)) :
    { c with byKey := c.byKey.erase r.key, byRank := c.byRank.erase r }.Lists
      (before ++ after) where
  byKey k slot := by
    rw [get?_erase_eq]
    split
    next hk =>
      have hnot : ⟨slot.value, slot.turn, k⟩ ∉ before ++ after := fun hmem => h.key_ne hmem hk
      simp [hnot]
    next hk =>
      have hne : ⟨slot.value, slot.turn, k⟩ ≠ r := fun heq => hk (congrArg Rank.key heq)
      rw [h.byKey, List.perm_middle.mem_iff, List.mem_cons, or_iff_right hne]
  byRank r' := by
    rw [contains_erase_iff, h.byRank, List.perm_middle.mem_iff, List.mem_cons]
    have hnot : r ∉ before ++ after := fun hmem => h.key_ne hmem rfl
    by_cases hr : r' = r
    · simp [hr, hnot]
    · simp [hr]
  turns := h.turns.sublist ((List.sublist_cons_self r after).append_left before)
  turn_lt r' hr' := h.turn_lt r' (List.perm_middle.mem_iff.mpr (List.mem_cons_of_mem _ hr'))

/-- A rank of a new key can be put into both indices, where its turn belongs. -/
theorem place (h : c.Lists (before ++ after)) (hkey : ∀ r' ∈ before ++ after, r'.key ≠ r.key)
    (hbefore : ∀ r' ∈ before, r'.turn < r.turn) (hafter : ∀ r' ∈ after, r.turn < r'.turn) {n : Nat}
    (hturn : r.turn < n) (hn : c.nextTurn ≤ n) :
    { c with
      byKey := c.byKey.insert r.key ⟨r.value, r.turn⟩
      byRank := c.byRank.insert r ()
      nextTurn := n }.Lists (before ++ r :: after) where
  byKey k slot := by
    rw [get?_insert_eq, List.perm_middle.mem_iff, List.mem_cons]
    split
    next hk =>
      have hnot : ⟨slot.value, slot.turn, k⟩ ∉ before ++ after := fun hmem => hkey _ hmem hk
      rw [or_iff_left hnot, hk]
      constructor
      · intro heq
        rw [← Option.some.inj heq]
      · intro heq
        rw [← heq]
    next hk =>
      have hne : ⟨slot.value, slot.turn, k⟩ ≠ r := fun heq => hk (congrArg Rank.key heq)
      rw [h.byKey, or_iff_right hne]
  byRank r' := by
    rw [contains_insert_iff, h.byRank, List.perm_middle.mem_iff, List.mem_cons]
  turns := by
    obtain ⟨hturns, hturns', hcross⟩ := List.pairwise_append.mp h.turns
    refine List.pairwise_append.mpr ⟨hturns, List.pairwise_cons.mpr ⟨hafter, hturns'⟩, ?_⟩
    intro r₁ hr₁ r₂ hr₂
    rcases List.mem_cons.mp hr₂ with rfl | hr₂
    · exact hbefore r₁ hr₁
    · exact hcross r₁ hr₁ r₂ hr₂
  turn_lt r' hr' := by
    rcases List.mem_cons.mp (List.perm_middle.mem_iff.mp hr') with rfl | hr'
    · exact hturn
    · exact Nat.lt_of_lt_of_le (h.turn_lt r' hr') hn

end Lists

end Cache

/-! ## Entries in the order of their turns -/

section

variable {K V : Type} {before after : List (Rank K V)} {r : Rank K V} {p : K × V → Bool}

theorem find?_entries (hr : p r.entry = true) (hbefore : ∀ r' ∈ before, p r'.entry = false) :
    ((before ++ r :: after).map Rank.entry).find? p = some r.entry := by
  refine List.find?_eq_some_iff_append.mpr
    ⟨hr, before.map Rank.entry, after.map Rank.entry, by simp, ?_⟩
  rw [List.forall_mem_map]
  exact fun r' hr' => by rw [hbefore r' hr', Bool.not_false]

theorem eraseP_entries (hr : p r.entry = true) (hbefore : ∀ r' ∈ before, p r'.entry = false) :
    ((before ++ r :: after).map Rank.entry).eraseP p = (before ++ after).map Rank.entry := by
  rw [List.map_append, List.map_cons, List.eraseP_append_right, List.eraseP_cons_of_pos hr,
    List.map_append]
  rw [List.forall_mem_map]
  exact fun r' hr' => Bool.not_eq_true _ ▸ hbefore r' hr'

end

namespace Cache

variable {K V : Type} [Ord K] [Ord V]

/-- A cache holds what a plain cache holds. -/
structure Refines (c : Cache K V) (p : PlainCache K V) : Prop where
  lists : ∃ ranks, c.Lists ranks ∧ p.entries = ranks.map Rank.entry
  capacity_eq : c.capacity = p.capacity
  capacity_pos : 0 < p.capacity
  length_le : p.entries.length ≤ p.capacity

namespace Refines

variable {c : Cache K V} {p : PlainCache K V} {k : K} {a : V}

theorem new (capacity : Nat) : (Cache.new capacity : Cache K V).Refines (.new capacity) where
  lists := ⟨[], .empty rfl rfl, rfl⟩
  capacity_eq := rfl
  capacity_pos := Nat.le_max_right capacity 1
  length_le := Nat.zero_le _

theorem clear (h : c.Refines p) : c.clear.Refines p.clear where
  lists := ⟨[], .empty rfl rfl, rfl⟩
  capacity_eq := h.capacity_eq
  capacity_pos := h.capacity_pos
  length_le := Nat.zero_le _

section

variable [DecidableEq K]

/-- A key is on neither side, or both have the same entry under it. -/
theorem find (h : c.Refines p) (k : K) :
    (c.byKey.get? k = none ∧ p.get? k = none) ∨
      ∃ before r after, c.Lists (before ++ r :: after) ∧
        p.entries = (before ++ r :: after).map Rank.entry ∧ r.key = k ∧
        (∀ r' ∈ before ++ after, r'.key ≠ k) ∧
        c.byKey.get? k = some ⟨r.value, r.turn⟩ ∧ p.get? k = some r.value := by
  obtain ⟨ranks, hranks, hentries⟩ := h.lists
  rcases hranks.find k with ⟨hnone, hkeys⟩ | ⟨before, r, after, rfl, rfl, hslot⟩
  · refine .inl ⟨hnone, ?_⟩
    rw [PlainCache.get?_eq_none_iff, hentries, List.forall_mem_map]
    exact hkeys
  · have hkeys : ∀ r' ∈ before ++ after, r'.key ≠ r.key := fun r' hr' => hranks.key_ne hr'
    refine .inr ⟨before, r, after, hranks, hentries, rfl, hkeys, hslot, ?_⟩
    rw [PlainCache.get?, hentries, find?_entries (by simp [Rank.entry]), Option.map_some]
    · rfl
    · exact fun r' hr' => decide_eq_false (hkeys r' (List.mem_append_left _ hr'))

theorem get?_eq (h : c.Refines p) (k : K) : c.get? k = p.get? k := by
  rcases h.find k with ⟨hnone, hplain⟩ | ⟨_, r, _, -, -, -, -, hslot, hplain⟩
  · rw [Cache.get?, hnone, hplain, Option.map_none]
  · rw [Cache.get?, hslot, hplain, Option.map_some]

theorem contains_eq (h : c.Refines p) (k : K) : c.contains k = (p.get? k).isSome := by
  rw [← h.get?_eq, Cache.get?, Option.isSome_map]
  rfl

end

variable [Std.TransOrd K] [Std.LawfulEqOrd K]

theorem size_eq (h : c.Refines p) : c.size = p.entries.length := by
  obtain ⟨ranks, hranks, hentries⟩ := h.lists
  rw [hranks.size_eq, hentries, List.length_map]

theorem isEmpty_eq (h : c.Refines p) : c.isEmpty = p.entries.isEmpty := by
  rw [Bool.eq_iff_iff, List.isEmpty_iff_length_eq_zero, ← h.size_eq]
  exact List.isEmpty_iff_length_eq_zero

variable [Std.TransOrd V] [Std.LawfulEqOrd V]

/-- Both sides evict the same entry, if there is one. -/
theorem least?_eq (h : c.Refines p) : c.least? = p.least? := by
  obtain ⟨ranks, hranks, hentries⟩ := h.lists
  rw [Cache.least?, PlainCache.least?, hentries]
  cases hfirst : c.byRank.first? with
  | none =>
    have hnil := hranks.eq_nil hfirst
    rw [hnil]
    rfl
  | some e =>
    obtain ⟨before, after, rfl, hleast, hbefore⟩ := hranks.first hfirst
    rw [find?_entries hleast hbefore]
    rfl

/-- Whenever there is an entry, one can be evicted. -/
theorem length_evict_lt (h : c.Refines p) (hne : p.entries ≠ []) :
    p.evict.entries.length < p.entries.length := by
  obtain ⟨ranks, hranks, hentries⟩ := h.lists
  cases hfirst : c.byRank.first? with
  | none =>
    rw [hranks.eq_nil hfirst] at hentries
    exact absurd hentries hne
  | some e =>
    obtain ⟨before, after, rfl, hleast, hbefore⟩ := hranks.first hfirst
    rw [PlainCache.evict, hentries, eraseP_entries hleast hbefore]
    simp

variable [DecidableEq K]

theorem erase (h : c.Refines p) (k : K) :
    (c.erase k).1 = (p.erase k).1 ∧ (c.erase k).2.Refines (p.erase k).2 := by
  rcases h.find k with
    ⟨hnone, hplain⟩ | ⟨before, r, after, hranks, hentries, rfl, hkeys, hslot, hplain⟩
  · rw [PlainCache.erase_of_get?_eq_none hplain, Cache.erase, hnone]
    exact ⟨rfl, h⟩
  · have herase : p.entries.eraseP (fun e => e.1 = r.key) = (before ++ after).map Rank.entry := by
      rw [hentries, eraseP_entries (by simp [Rank.entry])]
      exact fun r' hr' => decide_eq_false (hkeys r' (List.mem_append_left _ hr'))
    rw [PlainCache.erase, Cache.erase, hslot, hplain]
    refine ⟨rfl, ⟨_, hranks.remove, herase⟩, h.capacity_eq, h.capacity_pos, ?_⟩
    exact Nat.le_trans List.length_eraseP_le h.length_le

theorem update (h : c.Refines p) (k : K) (a : V) :
    (c.update k a).1 = (p.update k a).1 ∧ (c.update k a).2.Refines (p.update k a).2 := by
  rcases h.find k with
    ⟨hnone, hplain⟩ | ⟨before, r, after, hranks, hentries, rfl, hkeys, hslot, hplain⟩
  · rw [PlainCache.update_of_get?_eq_none hplain, Cache.update, hnone]
    exact ⟨rfl, h⟩
  · have hother : ∀ l : List (Rank K V), (∀ r' ∈ l, r'.key ≠ r.key) →
        (l.map Rank.entry).map (fun e => if e.1 = r.key then (r.key, a) else e) =
          l.map Rank.entry := by
      intro l hl
      rw [List.map_map]
      exact List.map_congr_left fun r' hr' => if_neg (hl r' hr')
    have hentries' : (p.entries.map fun e => if e.1 = r.key then (r.key, a) else e) =
        (before ++ ⟨a, r.turn, r.key⟩ :: after).map Rank.entry := by
      obtain ⟨hbefore, hafter⟩ := List.forall_mem_append.mp hkeys
      rw [hentries, List.map_append, List.map_append, List.map_cons, List.map_cons,
        hother before hbefore, hother after hafter, List.map_append, List.map_cons]
      simp [Rank.entry]
    have hturns := List.pairwise_append.mp hranks.turns
    -- Replacing a value is taking its rank out and putting the new one in its place.
    have hplace := hranks.remove.place (r := ⟨a, r.turn, r.key⟩) (n := c.nextTurn) hkeys
    rw [PlainCache.update, Cache.update, hslot, hplain]
    refine ⟨rfl, ⟨_, ?_, hentries'⟩, h.capacity_eq, h.capacity_pos, ?_⟩
    · simpa only [insert_erase_self] using hplace
        (fun r' hr' => hturns.2.2 r' hr' r List.mem_cons_self)
        (List.pairwise_cons.mp hturns.2.1).1 (hranks.turn_lt r (by simp)) (Nat.le_refl _)
    · simpa using h.length_le

theorem evict (h : c.Refines p) : c.evict.Refines p.evict := by
  obtain ⟨ranks, hranks, hentries⟩ := h.lists
  have hlength : p.evict.entries.length ≤ p.capacity :=
    Nat.le_trans List.length_eraseP_le h.length_le
  refine ⟨?_, ?_, h.capacity_pos, hlength⟩
  · cases hfirst : c.byRank.first? with
    | none =>
      have hnil := hranks.eq_nil hfirst
      refine ⟨[], ?_, ?_⟩
      · rwa [Cache.evict, hfirst, ← hnil]
      · rw [PlainCache.evict, hentries, hnil]
        rfl
    | some e =>
      obtain ⟨before, after, rfl, hleast, hbefore⟩ := hranks.first hfirst
      refine ⟨before ++ after, ?_, ?_⟩
      · rw [Cache.evict, hfirst]
        exact hranks.remove
      · rw [PlainCache.evict, hentries, eraseP_entries hleast hbefore]
  · rw [Cache.evict]
    split <;> exact h.capacity_eq

/-- An entry of a new key goes to the end of the list, if there is room. -/
theorem append (h : c.Refines p) (hk : p.get? k = none) (hroom : p.entries.length < p.capacity) :
    { c with
      byKey := c.byKey.insert k ⟨a, c.nextTurn⟩
      byRank := c.byRank.insert ⟨a, c.nextTurn, k⟩ ()
      nextTurn := c.nextTurn + 1 : Cache K V }.Refines
        { p with entries := p.entries ++ [(k, a)] } := by
  obtain ⟨ranks, hranks, hentries⟩ := h.lists
  rw [PlainCache.get?_eq_none_iff, hentries, List.forall_mem_map] at hk
  rw [← List.append_nil ranks] at hranks hk
  have hplace := hranks.place (r := ⟨a, c.nextTurn, k⟩) hk
    (fun r hr => hranks.turn_lt r (List.mem_append_left _ hr)) (by simp) (Nat.lt_succ_self _)
    (Nat.le_succ _)
  refine ⟨⟨_, hplace, ?_⟩, h.capacity_eq, h.capacity_pos, ?_⟩
  · rw [List.map_append, hentries]
    rfl
  · rwa [List.length_append]

theorem insert (h : c.Refines p) (k : K) (a : V) :
    (c.insert k a).1 = (p.insert k a).1 ∧ (c.insert k a).2.Refines (p.insert k a).2 := by
  rw [Cache.insert, PlainCache.insert, h.contains_eq]
  split
  · exact ⟨rfl, h⟩
  next hnew =>
    have hk : p.get? k = none := by simpa using hnew
    refine ⟨rfl, ?_⟩
    by_cases hfull : p.entries.length ≥ p.capacity
    · rw [if_pos hfull, if_pos (by rwa [h.size_eq, h.capacity_eq])]
      have hne : p.entries ≠ [] := by
        rintro hnil
        rw [hnil] at hfull
        exact absurd h.capacity_pos (Nat.not_lt.mpr hfull)
      refine h.evict.append ?_ (Nat.lt_of_lt_of_le (h.length_evict_lt hne) h.length_le)
      -- The key stays new: an eviction only takes an entry away.
      rw [PlainCache.get?_eq_none_iff] at hk ⊢
      exact fun e he => hk e (List.mem_of_mem_eraseP he)
    · rw [if_neg hfull, if_neg (by rwa [h.size_eq, h.capacity_eq])]
      exact h.append hk (Nat.lt_of_not_le hfull)

/-- Every operation answers the same on both sides and keeps them related. -/
theorem perform (h : c.Refines p) (operation : Operation K V) :
    (c.perform operation).1 = (p.perform operation).1 ∧
      (c.perform operation).2.Refines (p.perform operation).2 := by
  cases operation with
  | insert k a => exact (h.insert k a).imp_left (congrArg Answer.found)
  | update k a => exact (h.update k a).imp_left (congrArg Answer.found)
  | erase k => exact (h.erase k).imp_left (congrArg Answer.value)
  | contains k => exact ⟨congrArg Answer.found (h.contains_eq k), h⟩
  | get k => exact ⟨congrArg Answer.value (h.get?_eq k), h⟩
  | least => exact ⟨congrArg Answer.entry h.least?_eq, h⟩
  | clear => exact ⟨rfl, h.clear⟩
  | size => exact ⟨congrArg Answer.count h.size_eq, h⟩
  | isEmpty => exact ⟨congrArg Answer.found h.isEmpty_eq, h⟩
  | capacity => exact ⟨congrArg Answer.count h.capacity_eq, h⟩

end Refines

/-! ## Calls on several caches -/

section

variable {σ τ : Type} {step : σ → Operation K V → Answer K V × σ}
  {step' : τ → Operation K V → Answer K V × τ} {related : Nat → σ → τ → Prop}
  (hstep : ∀ {n c c'}, related n c c' → ∀ operation,
    (step c operation).1 = (step' c' operation).1 ∧
      related (n + 1) (step c operation).2 (step' c' operation).2)
  (hcopy : ∀ {n c c'}, related n c c' → related (n + 1) c c')

include hstep hcopy

omit [Ord K] [Ord V] in
/-- Caches that are related one by one answer a call alike, and stay related. -/
theorem answer_related {n : Nat} {pairs : List (σ × τ)}
    (h : ∀ pair ∈ pairs, related n pair.1 pair.2) (call : Call K V) :
    (answer step (pairs.map Prod.fst) call).1 = (answer step' (pairs.map Prod.snd) call).1 ∧
      ∃ pairs' : List (σ × τ), (answer step (pairs.map Prod.fst) call).2 = pairs'.map Prod.fst ∧
        (answer step' (pairs.map Prod.snd) call).2 = pairs'.map Prod.snd ∧
        ∀ pair ∈ pairs', related (n + 1) pair.1 pair.2 := by
  have hkept : ∀ pair ∈ pairs, related (n + 1) pair.1 pair.2 :=
    fun pair hpair => hcopy (h pair hpair)
  -- The caches that are not called, or only copied, stay as they are while `n` grows.
  cases call with
  | perform number operation =>
    simp only [answer, List.getElem?_map]
    cases hget : pairs[number]? with
    | none => exact ⟨rfl, pairs, rfl, rfl, hkept⟩
    | some pair =>
      obtain ⟨hanswer, hrelated⟩ := hstep (h pair (List.mem_of_getElem? hget)) operation
      refine ⟨congrArg some hanswer,
        pairs.set number ((step pair.1 operation).2, (step' pair.2 operation).2), ?_, ?_, ?_⟩
      · simp [List.map_set]
      · simp [List.map_set]
      · intro pair' hpair'
        rcases List.mem_or_eq_of_mem_set hpair' with hpair' | rfl
        · exact hkept pair' hpair'
        · exact hrelated
  | clone number =>
    simp only [answer, List.getElem?_map]
    cases hget : pairs[number]? with
    | none => exact ⟨rfl, pairs, rfl, rfl, hkept⟩
    | some pair =>
      refine ⟨rfl, pairs ++ [pair], by simp, by simp, ?_⟩
      rw [List.forall_mem_append, List.forall_mem_singleton]
      exact ⟨hkept, hkept pair (List.mem_of_getElem? hget)⟩

omit [Ord K] [Ord V] in
theorem answers_related {n : Nat} {pairs : List (σ × τ)}
    (h : ∀ pair ∈ pairs, related n pair.1 pair.2) (calls : List (Call K V)) :
    (answers step (pairs.map Prod.fst) calls).1 = (answers step' (pairs.map Prod.snd) calls).1 ∧
      ∃ pairs' : List (σ × τ), (answers step (pairs.map Prod.fst) calls).2 = pairs'.map Prod.fst ∧
        (answers step' (pairs.map Prod.snd) calls).2 = pairs'.map Prod.snd ∧
        ∀ pair ∈ pairs', related (n + calls.length) pair.1 pair.2 := by
  induction calls generalizing n pairs with
  | nil => exact ⟨rfl, pairs, rfl, rfl, h⟩
  | cons call rest ih =>
    obtain ⟨hanswer, pairs', hafter, hafter', hpairs'⟩ := answer_related hstep hcopy h call
    obtain ⟨hanswers, pairs'', hrest, hrest', hpairs''⟩ := ih hpairs'
    simp only [answers, hanswer, hafter, hafter', hanswers, true_and]
    refine ⟨pairs'', hrest, hrest', ?_⟩
    rwa [List.length_cons, Nat.add_comm rest.length, ← Nat.add_assoc]

end

/-- An operation takes at most one turn. -/
theorem nextTurn_perform_le [Std.TransOrd K] [Std.TransOrd V] (c : Cache K V)
    (operation : Operation K V) : (c.perform operation).2.nextTurn ≤ c.nextTurn + 1 := by
  have hevict : c.evict.nextTurn = c.nextTurn := by
    unfold evict
    split <;> rfl
  cases operation with
  | insert k a =>
    simp only [perform, Prod.map_snd, id_eq, insert]
    split
    · exact Nat.le_succ _
    · split
      · exact Nat.le_of_eq (congrArg (· + 1) hevict)
      · exact Nat.le_refl _
  | update k a =>
    simp only [perform, Prod.map_snd, id_eq, update]
    split <;> exact Nat.le_succ _
  | erase k =>
    simp only [perform, Prod.map_snd, id_eq, erase]
    split <;> exact Nat.le_succ _
  | _ => exact Nat.le_succ _

end Cache

theorem PlainCache.capacity_perform {K V : Type} [DecidableEq K] [Ord V] (p : PlainCache K V)
    (operation : Cache.Operation K V) : (p.perform operation).2.capacity = p.capacity := by
  cases operation with
  | insert k a =>
    simp only [perform, Prod.map_snd, id_eq, insert]
    split
    · rfl
    · split <;> rfl
  | _ => rfl

namespace Cache

variable {K V : Type} [Ord K] [Ord V]

/-- How caches stand to each other that were new once and have been called at most `n` times. -/
structure RefinesWithin (capacity n : Nat) (c : Cache K V) (p : PlainCache K V) : Prop where
  refines : c.Refines p
  capacity_eq : p.capacity = max capacity 1
  nextTurn_le : c.nextTurn ≤ n

namespace RefinesWithin

variable {capacity n : Nat} {c : Cache K V} {p : PlainCache K V}

theorem new (capacity : Nat) :
    RefinesWithin capacity 0 (Cache.new capacity : Cache K V) (.new capacity) :=
  ⟨.new capacity, rfl, Nat.le_refl 0⟩

theorem succ (h : RefinesWithin capacity n c p) : RefinesWithin capacity (n + 1) c p :=
  ⟨h.refines, h.capacity_eq, Nat.le_succ_of_le h.nextTurn_le⟩

theorem length_le (h : RefinesWithin capacity n c p) : p.entries.length ≤ max capacity 1 :=
  h.capacity_eq ▸ h.refines.length_le

variable [DecidableEq K] [Std.TransOrd K] [Std.LawfulEqOrd K] [Std.TransOrd V] [Std.LawfulEqOrd V]

theorem perform (h : RefinesWithin capacity n c p) (operation : Operation K V) :
    (c.perform operation).1 = (p.perform operation).1 ∧
      RefinesWithin capacity (n + 1) (c.perform operation).2 (p.perform operation).2 := by
  obtain ⟨hanswer, hrefines⟩ := h.refines.perform operation
  exact ⟨hanswer, hrefines, (p.capacity_perform operation).trans h.capacity_eq,
    Nat.le_trans (c.nextTurn_perform_le operation) (Nat.succ_le_succ h.nextTurn_le)⟩

end RefinesWithin

variable [DecidableEq K] [Std.TransOrd K] [Std.LawfulEqOrd K] [Std.TransOrd V] [Std.LawfulEqOrd V]

/-- All calls on a new cache and its copies are answered as on the plain list of entries, which is
never longer than the capacity. No more turns are taken than calls are made. -/
theorem answers_eq_plain (capacity : Nat) (calls : List (Call K V)) :
    (answers perform [Cache.new capacity] calls).1 =
        (answers PlainCache.perform [PlainCache.new capacity] calls).1 ∧
      (∀ p ∈ (answers PlainCache.perform [PlainCache.new capacity] calls).2,
        p.entries.length ≤ max capacity 1) ∧
      ∀ c ∈ (answers perform [(Cache.new capacity : Cache K V)] calls).2,
        c.nextTurn ≤ calls.length := by
  have hnew : ∀ pair ∈ [((.new capacity : Cache K V), (.new capacity : PlainCache K V))],
      RefinesWithin capacity 0 pair.1 pair.2 := List.forall_mem_singleton.mpr (.new capacity)
  obtain ⟨hanswers, pairs, hcaches, hplain, hpairs⟩ :=
    answers_related RefinesWithin.perform RefinesWithin.succ hnew calls
  simp only [List.map_cons, List.map_nil] at hanswers hcaches hplain
  rw [hcaches, hplain, List.forall_mem_map, List.forall_mem_map]
  refine ⟨hanswers, fun pair hpair => (hpairs pair hpair).length_le, fun pair hpair => ?_⟩
  simpa using (hpairs pair hpair).nextTurn_le

/-- Of two entries with one value the earlier one is evicted, unless it was given a greater value
in a copy. -/
theorem answers_eq_plain_tie :
    (answers perform [(Cache.new 2 : Cache Nat Nat)]
        [.perform 0 (.insert 7 5), .perform 0 (.insert 3 5), .clone 0, .perform 1 (.update 7 6),
          .perform 0 (.insert 1 9), .perform 1 (.insert 1 9), .perform 0 .least,
          .perform 1 .least]).1 =
      [some (.found true), some (.found true), some .done, some (.found true), some (.found true),
        some (.found true), some (.entry (some (3, 5))), some (.entry (some (7, 6)))] :=
  (answers_eq_plain 2 _).1.trans (by decide)

end Cache

end SidechainVerifier
