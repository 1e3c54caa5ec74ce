/-
SidechainVerifier.Proofs.MapLaws — more laws of ordered maps.

The look-up laws of `OrderedMap`, with equality of keys in place of their
comparison, and for the operations on whole maps: `get?_union`,
`get?_ofList`. Keys and values are characterised by look-ups as well:
`mem_keys_iff`, `mem_values_iff`, and so is the entry that comes first:
`first?_eq_some`. `map` changes the values of a map, and leaves keys and
their order as they are.
-/
import Mathlib.Data.List.Nodup
import SidechainVerifier.OrderedMap

namespace SidechainVerifier.OrderedMap

section Entries

variable {κ α : Type} [Ord κ]

@[simp] theorem entries_empty : (empty : OrderedMap κ α).entries = [] := rfl

@[simp] theorem values_empty : (empty : OrderedMap κ α).values = [] := rfl

theorem contains_iff {m : OrderedMap κ α} {k : κ} :
    m.contains k = true ↔ ∃ a, m.get? k = some a := by
  rw [contains, Option.isSome_iff_exists]

theorem sorted_keys (m : OrderedMap κ α) : m.keys.Pairwise fun k k' => compare k k' = .lt :=
  List.pairwise_map.mpr m.sorted

theorem nodup_keys [Std.TransOrd κ] (m : OrderedMap κ α) : m.keys.Nodup := by
  refine m.sorted_keys.imp fun {a b} hab heq => ?_
  rw [heq] at hab
  exact compare_self_ne_lt _ hab

/-- The map with a function applied to each value. -/
def map {β : Type} (m : OrderedMap κ α) (f : α → β) : OrderedMap κ β :=
  ⟨m.entries.map fun e => (e.1, f e.2), List.pairwise_map.mpr m.sorted⟩

section

variable {β : Type} (m : OrderedMap κ α) (f : α → β)

@[simp] theorem get?_map (k : κ) : (m.map f).get? k = (m.get? k).map f := by
  simp [get?, map, List.find?_map, Function.comp_def]

@[simp] theorem keys_map : (m.map f).keys = m.keys := by
  simp [keys, map]

@[simp] theorem values_map : (m.map f).values = m.values.map f := by
  simp [values, map]

theorem map_filter (p : κ → Bool) :
    (m.filter fun k _ => p k).map f = (m.map f).filter fun k _ => p k := by
  simp [map, filter, List.filter_map, Function.comp_def]

theorem keys_filter (p : κ → Bool) : (m.filter fun k _ => p k).keys = m.keys.filter p := by
  simp [keys, filter, List.filter_map, Function.comp_def]

theorem length_keys : m.keys.length = m.size := List.length_map _

theorem length_values : m.values.length = m.size := List.length_map _

end

end Entries

variable {κ α : Type} [Ord κ] [Std.TransOrd κ] [Std.LawfulEqOrd κ]

theorem mem_keys_iff {m : OrderedMap κ α} {k : κ} : k ∈ m.keys ↔ m.contains k = true := by
  simp only [keys, List.mem_map, Prod.exists, exists_and_right, exists_eq_right, mem_entries_iff,
    contains_iff]

theorem mem_values_iff {m : OrderedMap κ α} {a : α} : a ∈ m.values ↔ ∃ k, m.get? k = some a := by
  simp only [values, List.mem_map, Prod.exists, exists_eq_right, mem_entries_iff]

theorem eq_empty_iff {m : OrderedMap κ α} : m = empty ↔ ∀ k, m.get? k = none := by
  constructor
  · intro h k
    rw [h, get?_empty]
  · intro h
    exact ext_get? fun k => by rw [h, get?_empty]

/-- The entry with the least key, if there is one, comes before all others. -/
theorem first?_eq_some {m : OrderedMap κ α} {k : κ} {a : α} (h : m.first? = some (k, a)) :
    m.contains k = true ∧ ∀ k', m.contains k' = true → k' ≠ k → compare k k' = .lt := by
  obtain ⟨rest, hentries⟩ : ∃ rest, m.entries = (k, a) :: rest := by
    rw [first?, List.head?_eq_some_iff] at h
    exact h
  have hsorted := m.sorted
  rw [hentries, List.pairwise_cons] at hsorted
  refine ⟨contains_iff.mpr ⟨a, (mem_entries_iff _ _ _).mp (by simp [hentries])⟩, ?_⟩
  intro k' hk' hne
  obtain ⟨a', ha'⟩ := contains_iff.mp hk'
  have hmem := (mem_entries_iff _ _ _).mpr ha'
  rw [hentries, List.mem_cons] at hmem
  rcases hmem with heq | hmem
  · exact absurd (congrArg Prod.fst heq) hne
  · exact hsorted.1 _ hmem

theorem first?_eq_none_iff {m : OrderedMap κ α} :
    m.first? = none ↔ ∀ k, m.contains k = false := by
  rw [first?, List.head?_eq_none_iff]
  constructor
  · intro hnil k
    rw [← Bool.not_eq_true, ← mem_keys_iff, keys, hnil]
    exact List.not_mem_nil
  · intro h
    refine List.eq_nil_iff_forall_not_mem.mpr fun e he => ?_
    have hkey : e.1 ∈ m.keys := List.mem_map_of_mem he
    rw [mem_keys_iff, h] at hkey
    cases hkey

/-- A list of the keys of a map, each once, is as long as the map is large. -/
theorem size_eq_length {m : OrderedMap κ α} {l : List κ} (hnodup : l.Nodup)
    (h : ∀ k, m.contains k = true ↔ k ∈ l) : m.size = l.length := by
  rw [← length_keys]
  refine List.Perm.length_eq ((List.perm_ext_iff_of_nodup m.nodup_keys hnodup).mpr fun k => ?_)
  rw [mem_keys_iff, h]

/-- What was under a key does not matter once another value is put there. -/
theorem insert_erase_self (m : OrderedMap κ α) (k : κ) (a : α) :
    (m.erase k).insert k a = m.insert k a := by
  refine ext_get? fun k' => ?_
  rw [get?_insert, get?_insert]
  split
  next => rfl
  next h => rw [get?_erase, if_neg fun hc => h (Std.OrientedCmp.eq_symm hc)]

theorem contains_insert_iff {m : OrderedMap κ α} {k k' : κ} {a : α} :
    (m.insert k a).contains k' = true ↔ k' = k ∨ m.contains k' = true := by
  by_cases h : k' = k
  · simp [contains, h, get?_insert_self]
  · simp [contains, h, get?_insert_of_ne m a h]

theorem contains_erase_iff {m : OrderedMap κ α} {k k' : κ} :
    (m.erase k).contains k' = true ↔ k' ≠ k ∧ m.contains k' = true := by
  by_cases h : k' = k
  · simp [contains, h, get?_erase, Std.ReflOrd.compare_self]
  · have hne : compare k k' ≠ .eq := fun hc => h (Std.LawfulEqCmp.eq_of_compare hc).symm
    simp [contains, h, get?_erase, hne]

/-- A condition on keys decides which look-ups are left. -/
theorem get?_filter_keys (m : OrderedMap κ α) (p : κ → Bool) (k : κ) :
    (m.filter fun k _ => p k).get? k = if p k then m.get? k else none := by
  rw [get?_filter]
  cases m.get? k <;> cases p k <;> simp

/-- The map of what a function gives for the entries, where it gives something. -/
def filterMap {β : Type} (m : OrderedMap κ α) (f : κ → α → Option β) : OrderedMap κ β :=
  ⟨m.entries.filterMap fun e => (f e.1 e.2).map (Prod.mk e.1), by
    refine List.pairwise_filterMap.mpr (m.sorted.imp ?_)
    intro e e' hlt a ha a' ha'
    obtain ⟨_, -, rfl⟩ := Option.map_eq_some_iff.mp ha
    obtain ⟨_, -, rfl⟩ := Option.map_eq_some_iff.mp ha'
    exact hlt⟩

section

variable {β : Type} {m n : OrderedMap κ α} {f : κ → α → Option β}

theorem get?_filterMap (k : κ) : (m.filterMap f).get? k = (m.get? k).bind (f k) := by
  refine Option.ext ?_
  intro b
  rw [← mem_entries_iff, filterMap, List.mem_filterMap, Option.bind_eq_some_iff]
  constructor
  · rintro ⟨⟨k', a⟩, he, hb⟩
    obtain ⟨b', hb', heq⟩ := Option.map_eq_some_iff.mp hb
    cases heq
    exact ⟨a, (mem_entries_iff _ _ _).mp he, hb'⟩
  · rintro ⟨a, ha, hb⟩
    exact ⟨(k, a), (mem_entries_iff _ _ _).mpr ha, by rw [hb]; rfl⟩

omit [Std.TransOrd κ] [Std.LawfulEqOrd κ] in
theorem values_filterMap : (m.filterMap f).values = m.entries.filterMap fun e => f e.1 e.2 := by
  simp [values, filterMap, List.map_filterMap, Option.map_map, Function.comp_def]

/-- What is read off the entries of a map depends only on its look-ups. -/
theorem filterMap_entries_congr (h : ∀ k, (m.get? k).bind (f k) = (n.get? k).bind (f k)) :
    (m.entries.filterMap fun e => f e.1 e.2) = n.entries.filterMap fun e => f e.1 e.2 := by
  have hmaps : m.filterMap f = n.filterMap f :=
    ext_get? fun k => by rw [get?_filterMap, get?_filterMap, h]
  rw [← values_filterMap, hmaps, values_filterMap]

end

/-! ## Look-ups after writing -/

section Writing

variable [DecidableEq κ]

theorem get?_insert_eq (m : OrderedMap κ α) (k : κ) (a : α) (k' : κ) :
    (m.insert k a).get? k' = if k' = k then some a else m.get? k' := by
  simp only [get?_insert, Std.LawfulEqCmp.compare_eq_iff_eq]

theorem get?_erase_eq (m : OrderedMap κ α) (k k' : κ) :
    (m.erase k).get? k' = if k' = k then none else m.get? k' := by
  simp only [get?_erase, Std.LawfulEqCmp.compare_eq_iff_eq, @eq_comm _ k']

theorem get?_foldl_erase (l : List κ) (m : OrderedMap κ α) (k : κ) :
    (l.foldl erase m).get? k = if k ∈ l then none else m.get? k := by
  induction l generalizing m with
  | nil => simp
  | cons x rest ih =>
    rw [List.foldl_cons, ih, get?_erase_eq]
    by_cases h : k = x <;> simp [h]

theorem map_insert {β : Type} (m : OrderedMap κ α) (f : α → β) (k : κ) (a : α) :
    (m.insert k a).map f = (m.map f).insert k (f a) :=
  ext_get? fun k' => by
    simp only [get?_map, get?_insert_eq, apply_ite (Option.map f), Option.map_some]

/-- Of entries inserted one after the other, the last under a key stands. -/
theorem get?_foldl_insert (l : List (κ × α)) (m : OrderedMap κ α) (k : κ) :
    (l.foldl (fun m e => m.insert e.1 e.2) m).get? k =
      ((l.reverse.find? fun e => e.1 = k).map Prod.snd).or (m.get? k) := by
  induction l generalizing m with
  | nil => simp
  | cons e rest ih =>
    rw [List.foldl_cons, ih, get?_insert_eq, List.reverse_cons, List.find?_append]
    cases (rest.reverse.find? fun e => e.1 = k) with
    | some _ => simp
    | none =>
      by_cases h : e.1 = k
      · simp [h]
      · simp [h, Ne.symm h]

theorem get?_ofList (l : List (κ × α)) (k : κ) :
    (ofList l).get? k = (l.reverse.find? fun e => e.1 = k).map Prod.snd := by
  rw [ofList, get?_foldl_insert, get?_empty, Option.or_none]

theorem get?_union (m n : OrderedMap κ α) (k : κ) :
    (m.union n).get? k = (n.get? k).or (m.get? k) := by
  rw [union, get?_foldl_insert]
  congr 1
  refine Option.ext ?_
  intro a
  rw [← mem_entries_iff, Option.map_eq_some_iff]
  constructor
  · rintro ⟨e, he, rfl⟩
    have hmem := List.mem_of_find?_eq_some he
    have hkey : e.1 = k := by simpa using List.find?_some he
    rw [← hkey]
    simpa using hmem
  · intro hmem
    cases hfind : n.entries.reverse.find? fun e => e.1 = k with
    | none =>
      have := List.find?_eq_none.mp hfind (k, a) (by simpa using hmem)
      simp at this
    | some e =>
      have he := List.mem_of_find?_eq_some hfind
      have hkey : e.1 = k := by simpa using List.find?_some hfind
      rw [List.mem_reverse, ← Prod.eta e, mem_entries_iff, hkey] at he
      rw [mem_entries_iff, he] at hmem
      exact ⟨e, rfl, Option.some.inj hmem⟩

/-- A map with more keys replaces the other altogether. -/
theorem union_eq_right {m n : OrderedMap κ α} (h : ∀ k, m.contains k = true → n.contains k = true) :
    m.union n = n := by
  refine ext_get? ?_
  intro k
  rw [get?_union]
  cases hn : n.get? k with
  | some a => rfl
  | none =>
    cases hm : m.get? k with
    | none => rfl
    | some a =>
      obtain ⟨b, hb⟩ := contains_iff.mp (h k (contains_iff.mpr ⟨a, hm⟩))
      rw [hn] at hb
      cases hb

@[simp] theorem empty_union (m : OrderedMap κ α) : empty.union m = m :=
  ext_get? fun k => by rw [get?_union, get?_empty, Option.or_none]

end Writing

end SidechainVerifier.OrderedMap
