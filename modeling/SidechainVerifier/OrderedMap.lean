/-
SidechainVerifier.OrderedMap — finite maps kept in the order of their keys.

A map is its list of entries with keys strictly increasing, so two maps
that answer every look-up alike are equal (`ext_get?`), and walking a map
visits its keys in order. Each operation has a law that says what it does
to look-ups: `get?_insert`, `get?_erase`, `get?_filter`.
-/

namespace SidechainVerifier

/-- A finite map whose entries are listed with strictly increasing keys. -/
structure OrderedMap (κ α : Type) [Ord κ] where
  entries : List (κ × α)
  sorted : entries.Pairwise fun a b => compare a.1 b.1 = .lt

namespace OrderedMap

variable {κ α : Type} [Ord κ]

/-- The map without entries. -/
def empty : OrderedMap κ α := ⟨[], .nil⟩

instance : Inhabited (OrderedMap κ α) := ⟨empty⟩

instance [DecidableEq κ] [DecidableEq α] : DecidableEq (OrderedMap κ α) := fun m n =>
  if h : m.entries = n.entries then
    isTrue (by cases m; cases n; simp_all)
  else
    isFalse (fun hmn => h (congrArg entries hmn))

/-! ## Reading -/

/-- The value under a key. -/
def get? (m : OrderedMap κ α) (k : κ) : Option α :=
  (m.entries.find? fun e => compare k e.1 == .eq).map Prod.snd

/-- Whether there is a value under a key. -/
def contains (m : OrderedMap κ α) (k : κ) : Bool := (m.get? k).isSome

/-- The number of entries. -/
def size (m : OrderedMap κ α) : Nat := m.entries.length

/-- Whether there are no entries. -/
def isEmpty (m : OrderedMap κ α) : Bool := m.entries.isEmpty

/-- The keys, in increasing order. -/
def keys (m : OrderedMap κ α) : List κ := m.entries.map Prod.fst

/-- The values, in the order of their keys. -/
def values (m : OrderedMap κ α) : List α := m.entries.map Prod.snd

/-- The entry with the least key. -/
def first? (m : OrderedMap κ α) : Option (κ × α) := m.entries.head?

/-! ## Writing -/

/-- The entries with a value put in its place, replacing the value under an equal key. -/
def insertEntry (k : κ) (a : α) : List (κ × α) → List (κ × α)
  | [] => [(k, a)]
  | e :: rest =>
    match compare k e.1 with
    | .lt => (k, a) :: e :: rest
    | .eq => (k, a) :: rest
    | .gt => e :: insertEntry k a rest

theorem mem_insertEntry {k : κ} {a : α} {l : List (κ × α)} {e : κ × α}
    (h : e ∈ insertEntry k a l) : e = (k, a) ∨ e ∈ l := by
  induction l with
  | nil => simpa [insertEntry] using h
  | cons x rest ih =>
    simp only [insertEntry] at h
    split at h
    · simpa using h
    · rcases List.mem_cons.mp h with h | h
      · exact .inl h
      · exact .inr (List.mem_cons_of_mem _ h)
    · rcases List.mem_cons.mp h with h | h
      · exact .inr (by simp [h])
      · rcases ih h with h | h
        · exact .inl h
        · exact .inr (List.mem_cons_of_mem _ h)

section

variable [Std.TransOrd κ]

/-- No key comes before itself. -/
theorem compare_self_ne_lt (k : κ) : compare k k ≠ .lt := fun h => by
  have := Std.OrientedCmp.gt_of_lt h
  rw [h] at this
  cases this

theorem sorted_insertEntry (k : κ) (a : α) {l : List (κ × α)}
    (h : l.Pairwise fun a b => compare a.1 b.1 = .lt) :
    (insertEntry k a l).Pairwise fun a b => compare a.1 b.1 = .lt := by
  induction l with
  | nil => simp [insertEntry]
  | cons x rest ih =>
    obtain ⟨hx, hrest⟩ := List.pairwise_cons.mp h
    simp only [insertEntry]
    split
    next hk =>
      refine List.pairwise_cons.mpr ⟨fun e he => ?_, h⟩
      rcases List.mem_cons.mp he with rfl | he
      · exact hk
      · exact Std.TransCmp.lt_trans hk (hx e he)
    next hk =>
      refine List.pairwise_cons.mpr ⟨fun e he => ?_, hrest⟩
      exact Std.TransCmp.lt_of_eq_of_lt hk (hx e he)
    next hk =>
      refine List.pairwise_cons.mpr ⟨fun e he => ?_, ih hrest⟩
      rcases mem_insertEntry he with rfl | he
      · exact Std.OrientedCmp.lt_of_gt hk
      · exact hx e he

/-- The map with a value put under a key. -/
def insert (m : OrderedMap κ α) (k : κ) (a : α) : OrderedMap κ α :=
  ⟨insertEntry k a m.entries, sorted_insertEntry k a m.sorted⟩

/-- The map of a list of entries; of several under one key the last stands. -/
def ofList (l : List (κ × α)) : OrderedMap κ α :=
  l.foldl (fun m e => m.insert e.1 e.2) empty

/-- The entries of both maps; under a common key the second map's value stands. -/
def union (m n : OrderedMap κ α) : OrderedMap κ α :=
  n.entries.foldl (fun m e => m.insert e.1 e.2) m

end

/-- The entries that satisfy a condition. -/
def filter (m : OrderedMap κ α) (p : κ → α → Bool) : OrderedMap κ α :=
  ⟨m.entries.filter fun e => p e.1 e.2, m.sorted.filter _⟩

/-- The map without the entry under a key. -/
def erase (m : OrderedMap κ α) (k : κ) : OrderedMap κ α :=
  m.filter fun k' _ => compare k k' != .eq

/-! ## Laws of look-ups -/

@[simp] theorem get?_empty (k : κ) : (empty : OrderedMap κ α).get? k = none := rfl

section

variable [Std.TransOrd κ] [Std.LawfulEqOrd κ]

/-- An entry is listed exactly when looking its key up gives its value. -/
theorem mem_entries_iff (m : OrderedMap κ α) (k : κ) (a : α) :
    (k, a) ∈ m.entries ↔ m.get? k = some a := by
  obtain ⟨l, hl⟩ := m
  simp only [get?]
  induction l with
  | nil => simp
  | cons x rest ih =>
    obtain ⟨hx, hrest⟩ := List.pairwise_cons.mp hl
    by_cases hk : compare k x.1 = .eq
    · have hkx : k = x.1 := Std.LawfulEqCmp.eq_of_compare hk
      have hnot : (k, a) ∉ rest := fun hmem => by
        have := hx _ hmem
        exact compare_self_ne_lt k (by rwa [← hkx] at this)
      simp only [List.mem_cons, hnot, or_false, List.find?_cons, hk, beq_self_eq_true,
        Option.map_some, Option.some.injEq]
      constructor
      · intro h; rw [← h]
      · intro h; rw [hkx, ← h]
    · have hne : (k, a) ≠ x := fun h => hk (by rw [← h]; exact Std.ReflCmp.compare_self)
      simp only [List.mem_cons, hne, false_or, List.find?_cons, beq_eq_false_iff_ne.mpr hk]
      exact ih hrest

omit [Std.LawfulEqOrd κ] in
/-- Sorted lists with the same members are equal. -/
theorem pairwise_ext {l m : List (κ × α)}
    (hl : l.Pairwise fun a b => compare a.1 b.1 = .lt)
    (hm : m.Pairwise fun a b => compare a.1 b.1 = .lt) (h : ∀ e, e ∈ l ↔ e ∈ m) : l = m := by
  induction l generalizing m with
  | nil => cases m with
    | nil => rfl
    | cons y ys => exact absurd ((h y).mpr List.mem_cons_self) (by simp)
  | cons x xs ih => cases m with
    | nil => exact absurd ((h x).mp List.mem_cons_self) (by simp)
    | cons y ys =>
      obtain ⟨hx, hxs⟩ := List.pairwise_cons.mp hl
      obtain ⟨hy, hys⟩ := List.pairwise_cons.mp hm
      have hxy : x = y := by
        rcases List.mem_cons.mp ((h x).mp List.mem_cons_self) with hxy | hxy
        · exact hxy
        rcases List.mem_cons.mp ((h y).mpr List.mem_cons_self) with hyx | hyx
        · exact hyx.symm
        have hlt := hy x hxy
        have hgt := hx y hyx
        rw [Std.OrientedCmp.gt_of_lt hlt] at hgt
        cases hgt
      subst hxy
      have htail : ∀ e, e ∈ xs ↔ e ∈ ys := fun e => by
        have he := h e
        simp only [List.mem_cons] at he
        constructor
        · intro hmem
          rcases he.mp (.inr hmem) with rfl | hmem'
          · exact absurd (hx e hmem) (compare_self_ne_lt _)
          · exact hmem'
        · intro hmem
          rcases he.mpr (.inr hmem) with rfl | hmem'
          · exact absurd (hy e hmem) (compare_self_ne_lt _)
          · exact hmem'
      rw [ih hxs hys htail]

/-- Maps that answer every look-up alike are equal. -/
theorem ext_get? {m n : OrderedMap κ α} (h : ∀ k, m.get? k = n.get? k) : m = n := by
  have hentries : m.entries = n.entries := pairwise_ext m.sorted n.sorted fun e => by
    rw [mem_entries_iff m e.1 e.2, mem_entries_iff n e.1 e.2, h]
  cases m
  cases n
  simp_all

/-- Putting a value in place changes the look-up of its key only. -/
theorem get?_insert (m : OrderedMap κ α) (k : κ) (a : α) (k' : κ) :
    (m.insert k a).get? k' = if compare k' k = .eq then some a else m.get? k' := by
  obtain ⟨l, hl⟩ := m
  simp only [get?, insert]
  induction l with
  | nil => by_cases h : compare k' k = .eq <;> simp [insertEntry, h]
  | cons x rest ih =>
    obtain ⟨-, hrest⟩ := List.pairwise_cons.mp hl
    have ih := ih hrest
    simp only [insertEntry]
    split
    next hk => by_cases h : compare k' k = .eq <;> simp [h]
    next hk =>
      have hkx : k = x.1 := Std.LawfulEqCmp.eq_of_compare hk
      by_cases h : compare k' k = .eq
      · simp [h]
      · simp [h, ← hkx]
    next hk =>
      by_cases hx : compare k' x.1 = .eq
      · have hkx : k' = x.1 := Std.LawfulEqCmp.eq_of_compare hx
        have hne : compare k' k ≠ .eq := fun hc => by
          rw [hkx, Std.OrientedCmp.lt_of_gt hk] at hc
          cases hc
        simp [hx, hne]
      · simp only [List.find?_cons, beq_eq_false_iff_ne.mpr hx]
        exact ih

theorem get?_insert_self (m : OrderedMap κ α) (k : κ) (a : α) : (m.insert k a).get? k = some a := by
  simp [get?_insert]

theorem get?_insert_of_ne (m : OrderedMap κ α) {k k' : κ} (a : α) (h : k' ≠ k) :
    (m.insert k a).get? k' = m.get? k' := by
  rw [get?_insert, if_neg fun hc => h (Std.LawfulEqCmp.eq_of_compare hc)]

/-- A filtered map answers a look-up when the entry satisfies the condition. -/
theorem get?_filter (m : OrderedMap κ α) (p : κ → α → Bool) (k : κ) :
    (m.filter p).get? k = (m.get? k).filter (p k) := by
  apply Option.ext
  intro a
  rw [← mem_entries_iff]
  simp only [filter, List.mem_filter, Option.filter_eq_some_iff, mem_entries_iff]

/-- Erasing a key changes its own look-up only. -/
theorem get?_erase (m : OrderedMap κ α) (k k' : κ) :
    (m.erase k).get? k' = if compare k k' = .eq then none else m.get? k' := by
  rw [erase, get?_filter]
  by_cases h : compare k k' = .eq
  · simp [h]
  · have hne : (compare k k' != .eq) = true := bne_iff_ne.mpr h
    cases m.get? k' <;> simp [h, hne]

end

end OrderedMap

end SidechainVerifier
