/-
SidechainVerifier.Proofs.Evictions — which verdict a full cache gives up.

A cached verdict dates from the return of the listener from the notice of it
(`CachedSince`). Evictions go by the reading of the clock then, by the
verdict if readings are equal, and only then by the order of the returns
(`CachedVerdict.GoesBefore`). So as long as the clock does not go back the
entry that is evicted is the oldest one, but for those that it overtakes: a
verdict on a passed proof goes before one on a failed proof of the same
reading, however long before that one was delivered
(`CachedVerdict.Overtakes`).

Main statement: what is evicted goes before all else that is cached; and of a
number of deliveries a cache holds the last one, and of the others those that
come last in that order (`evicted_in_turn`).
-/
import Mathlib.Data.List.DropRight
import SidechainVerifier.Proofs.CacheEntries
import SidechainVerifier.Proofs.PlainCaches

namespace SidechainVerifier

/-! ## Which entry goes first -/

namespace CachedVerdict

/-- Of two verdicts that were delivered at one reading of the clock, one on a passed proof goes
before one on a failed proof. -/
def Overtakes (c c' : CachedVerdict) : Prop :=
  c.timestamp = c'.timestamp ∧ c.verdict = .passed ∧ c'.verdict = .failed

/-- A verdict that was delivered in some place goes before one that was delivered in another: by the
reading of the clock, then a passed proof before a failed one, and then by the place. -/
def GoesBefore (c c' : CachedVerdict) (place place' : Nat) : Prop :=
  c.timestamp < c'.timestamp ∨ c.Overtakes c' ∨ c = c' ∧ place < place'

theorem not_overtakes_self (c : CachedVerdict) : ¬ c.Overtakes c := by
  rintro ⟨-, hpassed, hfailed⟩
  rw [hpassed] at hfailed
  cases hfailed

theorem le_cases {c c' : CachedVerdict} (h : (compare c c').isLE = true) :
    c.timestamp < c'.timestamp ∨
      c.timestamp = c'.timestamp ∧ c.verdict.rank ≤ c'.verdict.rank := by
  change ((compare c.timestamp c'.timestamp).then
    (compare c.verdict.rank c'.verdict.rank)).isLE = true at h
  cases htime : compare c.timestamp c'.timestamp with
  | lt => exact .inl (Int.compare_eq_lt.mp htime)
  | eq =>
    rw [htime, Ordering.eq_then, Nat.isLE_compare] at h
    exact .inr ⟨Int.compare_eq_eq.mp htime, h⟩
  | gt =>
    rw [htime] at h
    cases h

/-- Among verdicts on judged proofs the lesser one goes first, if equal ones go by their places. -/
theorem goesBefore_of_le {c c' : CachedVerdict} {place place' : Nat}
    (hle : (compare c c').isLE = true) (hresolved : c.verdict ≠ .unknown)
    (hresolved' : c'.verdict ≠ .unknown) (hplace : c = c' → place < place') :
    c.GoesBefore c' place place' := by
  obtain ⟨timestamp, verdict⟩ := c
  obtain ⟨timestamp', verdict'⟩ := c'
  rcases le_cases hle with hlt | ⟨rfl, hrank⟩
  · exact .inl hlt
  · cases verdict <;> cases verdict' <;> simp_all [GoesBefore, Overtakes, Verdict.rank]

/-- A lesser verdict that is not older overtakes. -/
theorem overtakes_of_le {c c' : CachedVerdict} (hle : (compare c c').isLE = true) (hne : c ≠ c')
    (hclock : c'.timestamp ≤ c.timestamp) (hresolved : c.verdict ≠ .unknown)
    (hresolved' : c'.verdict ≠ .unknown) : c.Overtakes c' := by
  have hbefore : c.GoesBefore c' 0 0 :=
    goesBefore_of_le hle hresolved hresolved' fun heq => absurd heq hne
  rcases hbefore with hlt | hover | ⟨heq, -⟩
  · exact absurd hlt (Int.not_lt.mpr hclock)
  · exact hover
  · exact absurd heq hne

end CachedVerdict

/-- What is left of a list is the end of it, if everything that comes after something left is left
too. -/
theorem suffix_of_sublist {α : Type} {l l' : List α} (h : l.Sublist l') (hnodup : l'.Nodup)
    (hlater : l'.Pairwise fun a b => a ∈ l → b ∈ l) : l <:+ l' := by
  induction h with
  | slnil => exact List.suffix_refl _
  | cons a _ ih =>
    obtain ⟨-, hlater⟩ := List.pairwise_cons.mp hlater
    exact (ih hnodup.of_cons hlater).trans (List.suffix_cons _ _)
  | @cons_cons l l' a hsub ih =>
    -- The head is left, so all of the list is.
    obtain ⟨hfirst, -⟩ := List.pairwise_cons.mp hlater
    obtain ⟨hnot, hnodup⟩ := List.nodup_cons.mp hnodup
    have hsubset : l' ⊆ l := fun b hb =>
      (List.mem_cons.mp (hfirst b hb List.mem_cons_self)).resolve_left fun heq => hnot (heq ▸ hb)
    obtain rfl : l = l' := hsub.eq_of_length_le (hnodup.subperm hsubset).length_le
    exact List.suffix_refl _

/-- Of two members of a list at most one is its last. -/
theorem mem_dropLast_or_mem_dropLast {α : Type} {l : List α} {a b : α} (ha : a ∈ l) (hb : b ∈ l)
    (hne : a ≠ b) : a ∈ l.dropLast ∨ b ∈ l.dropLast := by
  by_cases hlast : some a = l.getLast?
  · refine .inr (List.mem_dropLast_of_mem_of_ne_getLast? hb fun heq => ?_)
    exact hne (Option.some.inj (hlast.trans heq.symm))
  · exact .inl (List.mem_dropLast_of_mem_of_ne_getLast? ha hlast)

namespace PlainCache

variable {K : Type}

/-- All verdicts are on judged proofs, and the clock does not go back from one entry to the next. -/
structure InTurn (entries : List (K × CachedVerdict)) : Prop where
  clock : entries.Pairwise fun e e' => e.2.timestamp ≤ e'.2.timestamp
  resolved : ∀ e ∈ entries, e.2.verdict ≠ .unknown

theorem InTurn.sublist {entries entries' : List (K × CachedVerdict)} (h : InTurn entries)
    (hsub : entries'.Sublist entries) : InTurn entries' :=
  ⟨h.clock.sublist hsub, fun e he => h.resolved e (hsub.subset he)⟩

theorem le_of_least? {p : PlainCache K CachedVerdict} {e e' : K × CachedVerdict}
    (hleast : p.least? = some e) (he' : e' ∈ p.entries) : (compare e.2 e'.2).isLE = true := by
  have hall : isLeast p.entries e = true := List.find?_some hleast
  exact List.all_eq_true.mp hall e' he'

/-- The entry that is evicted overtakes all that stand before it. -/
theorem overtakes_of_least? {p : PlainCache K CachedVerdict} (h : InTurn p.entries)
    {e : K × CachedVerdict} (hleast : p.least? = some e) :
    ∃ before after, p.entries = before ++ e :: after ∧ p.evict.entries = before ++ after ∧
      ∀ e' ∈ before, e.2.Overtakes e'.2 := by
  obtain ⟨he, before, after, hentries, hbefore⟩ := List.find?_eq_some_iff_append.mp hleast
  simp only [Bool.not_eq_true'] at hbefore
  refine ⟨before, after, hentries, ?_, fun e' he' => ?_⟩
  · change p.entries.eraseP (isLeast p.entries) = _
    generalize isLeast p.entries = q at he hbefore
    rw [hentries, List.eraseP_append_right, List.eraseP_cons_of_pos he]
    simpa using hbefore
  · have hmem : e' ∈ p.entries := hentries ▸ List.mem_append_left _ he'
    have hmem' : e ∈ p.entries := hentries ▸ List.mem_append_right _ List.mem_cons_self
    refine CachedVerdict.overtakes_of_le (le_of_least? hleast hmem) ?_ ?_
      (h.resolved e hmem') (h.resolved e' hmem)
    · -- With the same verdict the entry that stands before it would be the first of the least ones.
      intro heq
      have hfirst := hbefore e' he'
      rw [isLeast, ← heq, ← isLeast, he] at hfirst
      cases hfirst
    · have hclock := h.clock
      rw [hentries] at hclock
      exact (List.pairwise_append.mp hclock).2.2 e' he' e List.mem_cons_self

/-! ## What a cache holds after many insertions -/

section

variable [DecidableEq K] {p : PlainCache K CachedVerdict} {log : List (K × CachedVerdict)}

/-- A new key goes to the end, after an eviction if the cache is full. -/
theorem entries_insert_of_new {k : K} (h : p.get? k = none) (c : CachedVerdict) :
    (p.insert k c).2.entries = p.entries ++ [(k, c)] ∨
      p.capacity ≤ p.entries.length ∧
        (p.insert k c).2.entries = p.evict.entries ++ [(k, c)] := by
  rw [insert, h, Option.isSome_none, if_neg Bool.false_ne_true]
  split
  next hfull => exact .inr ⟨hfull, rfl⟩
  next => exact .inl rfl

theorem get?_eq_none_of_nodup {e : K × CachedVerdict}
    (h : ((p.entries ++ e :: log).map Prod.fst).Nodup) : p.get? e.1 = none := by
  rw [get?_eq_none_iff]
  intro e' he' hkey
  rw [List.map_append, List.map_cons, List.nodup_append] at h
  exact h.2.2 e'.1 (List.mem_map_of_mem he') e.1 List.mem_cons_self hkey

theorem insert_of_get?_ne_none {k : K} (h : p.get? k ≠ none) (c : CachedVerdict) :
    (p.insert k c).2 = p := by
  rw [insert, if_pos (Option.isSome_iff_ne_none.mpr h)]

/-- The cache with entries inserted one after the other. -/
def insertAll (p : PlainCache K CachedVerdict) (log : List (K × CachedVerdict)) :
    PlainCache K CachedVerdict :=
  log.foldl (fun p e => (p.insert e.1 e.2).2) p

theorem capacity_insertAll (p : PlainCache K CachedVerdict) (log : List (K × CachedVerdict)) :
    (p.insertAll log).capacity = p.capacity := by
  induction log generalizing p with
  | nil => rfl
  | cons e rest ih => exact (ih _).trans (p.capacity_perform (.insert e.1 e.2))

/-- A new cache with the entries of a log inserted. -/
def ofLog (capacity : Nat) (log : List (K × CachedVerdict)) : PlainCache K CachedVerdict :=
  (new capacity).insertAll log

theorem ofLog_concat (capacity : Nat) (log : List (K × CachedVerdict)) (e : K × CachedVerdict) :
    ofLog capacity (log ++ [e]) = ((ofLog capacity log).insert e.1 e.2).2 := by
  rw [ofLog, insertAll, List.foldl_concat]
  rfl

theorem capacity_ofLog (capacity : Nat) (log : List (K × CachedVerdict)) :
    (ofLog capacity log).capacity = max capacity 1 := capacity_insertAll _ _

theorem clear_ofLog (capacity : Nat) (log : List (K × CachedVerdict)) :
    (ofLog capacity log).clear = ofLog capacity [] := by
  rw [clear, capacity_ofLog]
  rfl

/-- What a cache holds of a log: as many entries as it may, and an earlier one without a later one
only if that overtakes it. -/
structure Retains (p : PlainCache K CachedVerdict) (log : List (K × CachedVerdict)) : Prop where
  sublist : p.entries.Sublist log
  length_eq : p.entries.length = min log.length p.capacity
  overtaken : log.Pairwise fun e e' => e ∈ p.entries → e' ∉ p.entries → e'.2.Overtakes e.2

omit [DecidableEq K] in
/-- A full cache can lose an entry that overtakes all before it. -/
theorem Retains.of_evicted {before after : List (K × CachedVerdict)} {e : K × CachedVerdict}
    (h : p.Retains (before ++ after)) (hfull : p.capacity ≤ (before ++ after).length)
    (hnot : e ∉ before ++ after) (hbefore : ∀ e' ∈ before, e.2.Overtakes e'.2) :
    p.Retains (before ++ e :: after) := by
  refine ⟨h.sublist.trans ((List.sublist_cons_self e after).append_left before), ?_, ?_⟩
  · rw [h.length_eq, List.length_append, List.length_append, List.length_cons]
    rw [List.length_append] at hfull
    omega
  · obtain ⟨hpairs, hpairs', hcross⟩ := List.pairwise_append.mp h.overtaken
    refine List.pairwise_append.mpr ⟨hpairs, List.pairwise_cons.mpr ⟨?_, hpairs'⟩, ?_⟩
    · intro e' _ he
      exact absurd (h.sublist.subset he) hnot
    · intro e₁ he₁ e₂ he₂ hheld hlost
      rcases List.mem_cons.mp he₂ with rfl | he₂
      · exact hbefore e₁ he₁
      · exact hcross e₁ he₁ e₂ he₂ hheld hlost

omit [DecidableEq K] in
/-- Without an entry that overtakes another the cache holds the end of the log. -/
theorem Retains.eq_drop (h : p.Retains log) (hnodup : log.Nodup)
    (hnone : log.Pairwise fun e e' => ¬e'.2.Overtakes e.2) :
    p.entries = log.drop (log.length - p.capacity) := by
  have hlater : log.Pairwise fun e e' => e ∈ p.entries → e' ∈ p.entries :=
    h.overtaken.imp₂ (fun _ _ hover hnot he => not_not.mp fun he' => hnot (hover he he')) hnone
  rw [List.suffix_iff_eq_drop.mp (suffix_of_sublist h.sublist hnodup hlater), h.length_eq]
  congr 1
  omega

end

end PlainCache

namespace Cache.Refines

variable {K : Type} [Ord K] [DecidableEq K] [Std.TransOrd K] [Std.LawfulEqOrd K]
  {c : Cache K CachedVerdict} {p : PlainCache K CachedVerdict}

omit [Std.TransOrd K] [Std.LawfulEqOrd K] in
theorem get?_eq_some_iff (h : c.Refines p) {k : K} {a : CachedVerdict} :
    c.get? k = some a ↔ (k, a) ∈ p.entries := by
  rcases h.find k with ⟨hnone, hplain⟩ | ⟨before, r, after, -, hentries, rfl, hkeys, -, hplain⟩
  · rw [h.get?_eq, hplain]
    exact ⟨nofun, fun hmem => absurd rfl (PlainCache.get?_eq_none_iff.mp hplain _ hmem)⟩
  · rw [h.get?_eq, hplain, hentries, List.mem_map]
    constructor
    · rintro ⟨⟩
      exact ⟨r, by simp, rfl⟩
    · rintro ⟨r', hr', hentry⟩
      obtain ⟨hkey, rfl⟩ := Prod.mk.inj hentry
      rcases List.mem_cons.mp (List.perm_middle.mem_iff.mp hr') with rfl | hr'
      · rfl
      · exact absurd hkey (hkeys r' hr')

omit [DecidableEq K] in
theorem exists_least? (h : c.Refines p) (hne : p.entries ≠ []) : ∃ e, p.least? = some e := by
  cases hleast : p.least? with
  | some e => exact ⟨e, rfl⟩
  | none =>
    have hevict : p.evict.entries = p.entries :=
      List.eraseP_of_forall_not (List.find?_eq_none.mp hleast)
    exact absurd (h.length_evict_lt hne) (by rw [hevict]; exact Nat.lt_irrefl _)

/-- Of entries with different keys, inserted in turn, the cache retains what it can. -/
theorem retains (h : c.Refines p) {log : List (K × CachedVerdict)}
    (hkeys : ((p.entries ++ log).map Prod.fst).Nodup)
    (hturn : PlainCache.InTurn (p.entries ++ log)) :
    (p.insertAll log).Retains (p.entries ++ log) := by
  -- What the log begins with are the entries of the cache, and one of them may be evicted.
  induction log generalizing c p with
  | nil =>
    rw [List.append_nil]
    refine ⟨List.Sublist.refl _, (Nat.min_eq_left h.length_le).symm, ?_⟩
    exact List.pairwise_of_forall_mem_list fun _ _ _ he' _ hlost => absurd he' hlost
  | cons e rest ih =>
    have hinsert := (h.insert e.1 e.2).2
    have hnew := PlainCache.get?_eq_none_of_nodup hkeys
    rcases PlainCache.entries_insert_of_new hnew e.2 with hroom | ⟨hfull, hentries⟩
    · have hlog : p.entries ++ e :: rest = (p.insert e.1 e.2).2.entries ++ rest := by
        rw [hroom, List.append_assoc]
        rfl
      rw [hlog] at hkeys hturn ⊢
      exact ih hinsert hkeys hturn
    · have hne : p.entries ≠ [] := by
        intro hnil
        rw [hnil] at hfull
        exact absurd h.capacity_pos (Nat.not_lt.mpr hfull)
      obtain ⟨least, hleast⟩ := h.exists_least? hne
      obtain ⟨before, after, hold, hevict, hbefore⟩ := PlainCache.overtakes_of_least?
        (hturn.sublist (List.sublist_append_left _ _)) hleast
      have hlog : (p.insert e.1 e.2).2.entries ++ rest = before ++ (after ++ e :: rest) := by
        rw [hentries, hevict]
        simp
      rw [hold, List.append_assoc, List.cons_append] at hkeys hturn ⊢
      have hsub : (before ++ (after ++ e :: rest)).Sublist
          (before ++ least :: (after ++ e :: rest)) :=
        (List.sublist_cons_self _ _).append_left _
      have hretains := ih hinsert (hlog ▸ hkeys.sublist (hsub.map _)) (hlog ▸ hturn.sublist hsub)
      rw [hlog] at hretains
      refine hretains.of_evicted ?_ ?_ hbefore
      · change (p.insertAll (e :: rest)).capacity ≤ _
        rw [PlainCache.capacity_insertAll]
        rw [hold, List.length_append, List.length_cons] at hfull
        simp only [List.length_append, List.length_cons]
        omega
      · exact (List.nodup_cons.mp (List.nodup_middle.mp (hkeys.of_map _))).1

end Cache.Refines

namespace PlainCache

section

variable {K : Type} [Ord K] [DecidableEq K] [Std.TransOrd K] [Std.LawfulEqOrd K]
  {log : List (K × CachedVerdict)}

/-- A new cache retains what it can of entries with different keys. -/
theorem retains_ofLog (capacity : Nat) (hkeys : (log.map Prod.fst).Nodup) (hturn : InTurn log) :
    (ofLog capacity log).Retains log :=
  (Cache.Refines.new capacity).retains hkeys hturn

theorem exists_refines_ofLog (capacity : Nat) (log : List (K × CachedVerdict)) :
    ∃ c : Cache K CachedVerdict, c.Refines (ofLog capacity log) := by
  induction log using List.reverseRecOn with
  | nil => exact ⟨_, .new capacity⟩
  | append_singleton log e ih =>
    obtain ⟨c, hc⟩ := ih
    rw [ofLog_concat]
    exact ⟨_, (hc.insert e.1 e.2).2⟩

/-- When one more entry comes, nothing has been lost of the log, or the least entry makes room. -/
theorem mem_ofLog_concat (capacity : Nat) {x : K × CachedVerdict}
    (hkeys : ((log ++ [x]).map Prod.fst).Nodup) (hturn : InTurn (log ++ [x])) :
    (ofLog capacity (log ++ [x])).entries = log ++ [x] ∨
      ∃ least, (ofLog capacity log).least? = some least ∧
        ∀ e, e ∈ (ofLog capacity (log ++ [x])).entries ↔
          e = x ∨ e ∈ (ofLog capacity log).entries ∧ e ≠ least := by
  have hsub : log.Sublist (log ++ [x]) := List.sublist_append_left _ _
  have hretains := retains_ofLog capacity (hkeys.sublist (hsub.map _)) (hturn.sublist hsub)
  obtain ⟨c, hc⟩ := exists_refines_ofLog capacity log
  have hnew : (ofLog capacity log).get? x.1 = none :=
    get?_eq_none_of_nodup (hkeys.sublist ((hretains.sublist.append (.refl _)).map _))
  rw [ofLog_concat]
  rcases entries_insert_of_new hnew x.2 with hroom | ⟨hfull, hentries⟩
  · -- With room for one more the cache holds all of the log.
    have hlength : (ofLog capacity log).entries.length + 1 ≤ (ofLog capacity log).capacity := by
      have hle := (hc.insert x.1 x.2).2.length_le
      rw [hroom, List.length_append] at hle
      exact hle.trans_eq ((ofLog capacity log).capacity_perform (.insert x.1 x.2))
    have hall : (ofLog capacity log).entries = log := by
      refine hretains.sublist.eq_of_length_le ?_
      have hmin := hretains.length_eq
      omega
    rw [hall] at hroom
    exact .inl hroom
  · have hne : (ofLog capacity log).entries ≠ [] := by
      intro hnil
      rw [hnil] at hfull
      exact absurd hc.capacity_pos (Nat.not_lt.mpr hfull)
    obtain ⟨least, hleast⟩ := hc.exists_least? hne
    obtain ⟨before, after, hold, hevict, -⟩ :=
      overtakes_of_least? ((hturn.sublist hsub).sublist hretains.sublist) hleast
    have hnot : least ∉ before ++ after := by
      have hnodup := hretains.sublist.nodup ((hkeys.of_map _).sublist hsub)
      rw [hold] at hnodup
      exact (List.nodup_cons.mp (List.nodup_middle.mp hnodup)).1
    refine .inr ⟨least, hleast, fun e => ?_⟩
    have hmem : e ∈ before ++ least :: after ↔ e = least ∨ e ∈ before ++ after := by
      rw [List.perm_middle.mem_iff, List.mem_cons]
    have hmem' : e ∈ before ++ after ++ [x] ↔ e ∈ before ++ after ∨ e = x := by
      rw [List.mem_append, List.mem_singleton]
    rw [hentries, hevict, hold, hmem, hmem']
    constructor
    · rintro (hrest | rfl)
      · exact .inr ⟨.inr hrest, fun heq => hnot (heq ▸ hrest)⟩
      · exact .inl rfl
    · rintro (rfl | ⟨hheld, hne⟩)
      · exact .inr rfl
      · exact .inl (hheld.resolve_left hne)

/-- The last entry of a log is held. -/
theorem mem_ofLog_of_getLast? (capacity : Nat) (hkeys : (log.map Prod.fst).Nodup)
    (hturn : InTurn log) {e : K × CachedVerdict} (he : e ∈ log.getLast?) :
    e ∈ (ofLog capacity log).entries := by
  obtain ⟨rest, rfl⟩ := List.getLast?_eq_some_iff.mp he
  rcases mem_ofLog_concat capacity hkeys hturn with hall | ⟨least, -, hmem⟩
  · rw [hall]
    exact List.mem_append_right _ (List.mem_singleton_self e)
  · exact (hmem e).mpr (.inl rfl)

/-- What a new cache has lost of a log is not greater than what it holds, but for the last entry. -/
theorem le_of_lost (capacity : Nat) (hkeys : (log.map Prod.fst).Nodup) (hturn : InTurn log)
    {e e' : K × CachedVerdict} (he : e ∈ log) (hlost : e ∉ (ofLog capacity log).entries)
    (he' : e' ∈ log.dropLast) (hheld : e' ∈ (ofLog capacity log).entries) :
    (compare e.2 e'.2).isLE = true := by
  induction log using List.reverseRecOn generalizing e e' with
  | nil => cases he
  | append_singleton log x ih =>
    have hsub : log.Sublist (log ++ [x]) := List.sublist_append_left _ _
    have hkeys' := hkeys.sublist (hsub.map _)
    have hturn' := hturn.sublist hsub
    rw [List.dropLast_concat] at he'
    have hx : e' ≠ x := by
      rintro rfl
      exact (List.nodup_append.mp (hkeys.of_map _)).2.2 e' he' e' (List.mem_singleton_self e') rfl
    rcases mem_ofLog_concat capacity hkeys hturn with hall | ⟨least, hleast, hmem⟩
    · rw [hall] at hlost
      exact absurd he hlost
    · rw [hmem, not_or] at hlost
      rw [hmem] at hheld
      obtain ⟨hold, hne⟩ := hheld.resolve_left hx
      have hle : (compare least.2 e'.2).isLE = true := le_of_least? hleast hold
      by_cases heq : e = least
      · exact heq ▸ hle
      · -- What was lost before is not greater than `e'`, or not greater than the entry lost now.
        have hlog : e ∈ log :=
          (List.mem_append.mp he).resolve_right fun h => hlost.1 (List.mem_singleton.mp h)
        have hbefore : e ∉ (ofLog capacity log).entries := fun h => hlost.2 ⟨h, heq⟩
        have hheld' : least ∈ (ofLog capacity log).entries := List.mem_of_find?_eq_some hleast
        have hlog' : least ∈ log := (retains_ofLog capacity hkeys' hturn').sublist.subset hheld'
        rcases mem_dropLast_or_mem_dropLast he' hlog' hne with hin | hin
        · exact ih hkeys' hturn' hlog hbefore hin hold
        · exact Std.TransCmp.isLE_trans (ih hkeys' hturn' hlog hbefore hin hheld') hle

/-- What a new cache has lost of a log went before what it holds, but for the last entry. -/
theorem goesBefore_of_lost (capacity : Nat) (hkeys : (log.map Prod.fst).Nodup)
    (hturn : InTurn log) {i j : Nat} {e e' : K × CachedVerdict} (he : log.dropLast[i]? = some e)
    (he' : log.dropLast[j]? = some e') (hlost : e ∉ (ofLog capacity log).entries)
    (hheld : e' ∈ (ofLog capacity log).entries) : e.2.GoesBefore e'.2 i j := by
  have hmem : e ∈ log := List.dropLast_subset _ (List.mem_of_getElem? he)
  have hmem' : e' ∈ log.dropLast := List.mem_of_getElem? he'
  refine CachedVerdict.goesBefore_of_le (le_of_lost capacity hkeys hturn hmem hlost hmem' hheld)
    (hturn.resolved e hmem) (hturn.resolved e' (List.dropLast_subset _ hmem')) fun heq => ?_
  by_contra hij
  obtain ⟨hi, rfl⟩ := List.getElem?_eq_some_iff.mp he
  obtain ⟨hj, rfl⟩ := List.getElem?_eq_some_iff.mp he'
  rcases Nat.lt_or_eq_of_le (Nat.le_of_not_lt hij) with hlt | rfl
  · have hover := List.pairwise_iff_getElem.mp
      ((retains_ofLog capacity hkeys hturn).overtaken.sublist (List.dropLast_sublist log))
      j i hj hi hlt hheld hlost
    rw [heq] at hover
    exact CachedVerdict.not_overtakes_self _ hover
  · exact hlost hheld

end

end PlainCache

/-! ## What the listener returned from -/

/-- The verdict that an outcome tells. -/
def Outcome.verdict : Outcome → Verdict
  | .verified => .passed
  | .failed => .failed

namespace Event

/-- Whether the verifier is reset. -/
def isReset : Event → Bool
  | .reset => true
  | _ => false

/-- What the clock read when the listener returned. -/
def reading? : Event → Option Int
  | .delivered timestamp => timestamp
  | _ => none

theorem not_isReset_of_reply {event : Event} {work work' : Consultation Results}
    (h : Consultation.Reply event work work') : event.isReset = false ∧ event.reading? = none := by
  cases h <;> exact ⟨rfl, rfl⟩

end Event

namespace Transition

/-- What the listener was told when it returned: the hash of the object and the verdict, with the
reading of the clock. -/
def resolved? (t : Transition) : Option (Hash × CachedVerdict) :=
  t.event.reading?.bind fun timestamp =>
    t.before.telling?.map fun notice =>
      (notice.subject.hash, ⟨timestamp, notice.outcome.verdict⟩)

variable {t : Transition} {hash : Hash} {cached : CachedVerdict}

theorem reading?_of_resolved? (h : t.resolved? = some (hash, cached)) :
    t.event.reading? = some cached.timestamp ∧ cached.verdict ≠ .unknown := by
  obtain ⟨timestamp, hreading, h⟩ := Option.bind_eq_some_iff.mp h
  obtain ⟨notice, -, h⟩ := Option.map_eq_some_iff.mp h
  cases h
  refine ⟨hreading, ?_⟩
  cases notice.outcome <;> exact Verdict.noConfusion

end Transition

namespace Verifier

variable {config : Config} {v₀ v w : Verifier} {event : Event} {events : List Event}
  {response : Response} {responses : List Response} {t : Transition}

/-- What is delivered is cached under the hash of the object, with the verdict the listener was
told. -/
theorem Run.telling?_eq (hnew : Verifier.new config = .ok v₀)
    (hrun : v₀.Run .free events responses v) {cycle : Cycle} (hcycle : v.cycle = some cycle)
    {dispatched : Nat} {current : Delivery} {rest : List Delivery}
    (hstage : cycle.stage = .dispatching dispatched current rest) :
    v.telling? = some current.notice ∧ current.notice.subject.hash = current.hash ∧
      current.notice.outcome.verdict = current.verdict := by
  obtain ⟨before, u, hhandOff, hfollows⟩ := hrun.follows Replies.free_justify hnew hcycle
  obtain ⟨_, hbefore⟩ := hhandOff.reached
  obtain ⟨hpending, hflight⟩ := hbefore.known hnew
  rw [hstage] at hfollows
  cases hfollows with
  | dispatching _ htaken _ hrest =>
    have hmem := hrest.subset List.mem_cons_self
    have hknown := (hflight.absorb (hpending.of_remainsOf (kept_remainsOf u))).of_remainsOf htaken
    obtain ⟨hresolved, houtcome⟩ := RequestSet.resolved_of_mem_deliveries hmem
    refine ⟨telling?_of_dispatching hcycle hstage, hknown.subject_hash hmem, ?_⟩
    cases hnotice : current.notice.outcome with
    | verified => exact (houtcome.mp hnotice).symm
    | failed =>
      cases hverdict : current.verdict with
      | unknown => exact absurd hverdict hresolved
      | failed => rfl
      | passed =>
        rw [houtcome.mpr hverdict] at hnotice
        cases hnotice

/-- The cache is cleared by a reset, and given what the listener was told when it returns; nothing
else is done to it. -/
theorem Run.cache_cases (hnew : Verifier.new config = .ok v₀)
    (hrun : v₀.Run .free events responses v) (hhandle : v.handle? event = some (response, w))
    (ht : t = ⟨v, event, response, w⟩) :
    event.isReset = true ∧ w.cache = v.cache.clear ∨
      event.isReset = false ∧
        (t.resolved? = none ∧ w.cache = v.cache ∨
          ∃ e, t.resolved? = some e ∧ w.cache = (v.cache.insert e.1 e.2).2) := by
  subst ht
  have hstep := step_of_handle? hhandle
  cases hstep with
  | reset _ => exact .inl ⟨rfl, rfl⟩
  | @delivered cycle dispatched current rest timestamp published hcycle hstage =>
    obtain ⟨htelling, hhash, hverdict⟩ := hrun.telling?_eq hnew hcycle hstage
    refine .inr ⟨rfl, .inr ⟨(current.hash, ⟨timestamp, current.verdict⟩), ?_, rfl⟩⟩
    simp [Transition.resolved?, Event.reading?, htelling, hhash, hverdict]
  | consulted _ _ hreply _ =>
    obtain ⟨hreset, hreading⟩ := Event.not_isReset_of_reply hreply
    exact .inr ⟨hreset, .inl ⟨by rw [Transition.resolved?, hreading, Option.bind_none], rfl⟩⟩
  | abandoned _ _ hreply =>
    obtain ⟨hreset, hreading⟩ := Event.not_isReset_of_reply hreply
    exact .inr ⟨hreset, .inl ⟨by rw [Transition.resolved?, hreading, Option.bind_none], rfl⟩⟩
  | _ => exact .inr ⟨rfl, .inl ⟨rfl, rfl⟩⟩

/-! ## Entries since the last reset -/

/-- What the listener returned from since the verifier was constructed or last reset. -/
def resolutions (v₀ : Verifier) (events : List Event) : List (Hash × CachedVerdict) :=
  ((v₀.trace events).rtakeWhile fun t => !t.event.isReset).filterMap Transition.resolved?

/-- A reset forgets the resolutions and clears the cache; what the listener returns from is added to
both. -/
theorem Run.resolutions_cases (hnew : Verifier.new config = .ok v₀)
    (hrun : v₀.Run .free events responses v) (hhandle : v.handle? event = some (response, w))
    (ht : t = ⟨v, event, response, w⟩) :
    v₀.resolutions (events ++ [event]) = [] ∧ w.cache = v.cache.clear ∨
      v₀.resolutions (events ++ [event]) = v₀.resolutions events ∧ w.cache = v.cache ∨
      ∃ e, t.resolved? = some e ∧
        v₀.resolutions (events ++ [event]) = v₀.resolutions events ++ [e] ∧
        w.cache = (v.cache.insert e.1 e.2).2 := by
  have hcases := hrun.cache_cases hnew hhandle ht
  subst ht
  have hconcat : v₀.resolutions (events ++ [event]) =
      (if event.isReset then [] else
        (v₀.trace events).rtakeWhile (fun t => !t.event.isReset) ++
          [⟨v, event, response, w⟩]).filterMap Transition.resolved? := by
    rw [resolutions, trace_concat hrun.run?_eq hhandle, List.rtakeWhile_concat]
    cases event.isReset <;> rfl
  rcases hcases with ⟨hreset, hcache⟩ | ⟨hreset, hcases⟩
  · refine .inl ⟨?_, hcache⟩
    rw [hconcat, hreset]
    rfl
  · rw [hreset, if_neg Bool.false_ne_true, List.filterMap_append] at hconcat
    refine .inr ?_
    rcases hcases with ⟨hnone, hcache⟩ | ⟨e, hsome, hcache⟩
    · refine .inl ⟨?_, hcache⟩
      rw [hconcat, List.filterMap_cons_none hnone, List.filterMap_nil, List.append_nil, resolutions]
    · refine .inr ⟨e, hsome, ?_, hcache⟩
      rw [hconcat, List.filterMap_cons_some hsome, List.filterMap_nil, resolutions]

/-- The cache holds what a plain cache does into which the resolutions were inserted. -/
theorem Run.refines (hnew : Verifier.new config = .ok v₀)
    (h : v₀.Run .free events responses v) :
    v.cache.Refines
      (PlainCache.ofLog config.cacheCapacity.toNat (v₀.resolutions events)) := by
  induction h with
  | nil =>
    rw [eq_of_new hnew]
    exact .new _
  | @concat events responses v event response w hrun _ hhandle ih =>
    rcases hrun.resolutions_cases hnew hhandle rfl with
      ⟨hlog, hcache⟩ | ⟨hlog, hcache⟩ | ⟨e, -, hlog, hcache⟩
    · rw [hlog, hcache]
      exact PlainCache.clear_ofLog config.cacheCapacity.toNat (v₀.resolutions events) ▸ ih.clear
    · rw [hlog, hcache]
      exact ih
    · rw [hlog, hcache, PlainCache.ofLog_concat]
      exact (ih.insert e.1 e.2).2

/-! ## Since when an entry is cached -/

/-- What was cached in some transitions has been cached since one of them, numbered from 0, when the
listener returned. -/
structure CachedSince (past : List Transition) (n : Nat) (hash : Hash) (cached : CachedVerdict) :
    Prop where
  resolved : ∃ t ∈ past[n]?, t.resolved? = some (hash, cached) ∧ t.before.cached? hash = none
  kept : ∀ t ∈ past.drop n, t.after.cached? hash = some cached

instance (past : List Transition) (n : Nat) (hash : Hash) (cached : CachedVerdict) :
    Decidable (CachedSince past n hash cached) :=
  decidable_of_iff
    ((∃ t ∈ past[n]?, t.resolved? = some (hash, cached) ∧ t.before.cached? hash = none) ∧
      ∀ t ∈ past.drop n, t.after.cached? hash = some cached)
    ⟨fun h => ⟨h.1, h.2⟩, fun h => ⟨h.1, h.2⟩⟩

namespace CachedSince

variable {past : List Transition} {n n' : Nat} {hash hash' : Hash} {cached cached' : CachedVerdict}

theorem lt_length (h : CachedSince past n hash cached) : n < past.length := by
  obtain ⟨t, ht, -⟩ := h.resolved
  exact (List.getElem?_eq_some_iff.mp ht).1

theorem concat (h : CachedSince past n hash cached) (ht : t.after.cached? hash = some cached) :
    CachedSince (past ++ [t]) n hash cached := by
  refine ⟨?_, ?_⟩
  · rw [List.getElem?_append_left h.lt_length]
    exact h.resolved
  · rw [List.drop_append_of_le_length (Nat.le_of_lt h.lt_length), List.forall_mem_append,
      List.forall_mem_singleton]
    exact ⟨h.kept, ht⟩

theorem concat_self (hresolved : t.resolved? = some (hash, cached))
    (hbefore : t.before.cached? hash = none) (hafter : t.after.cached? hash = some cached) :
    CachedSince (past ++ [t]) past.length hash cached := by
  refine ⟨⟨t, List.getElem?_concat_length, hresolved, hbefore⟩, ?_⟩
  rw [List.drop_left, List.forall_mem_singleton]
  exact hafter

end CachedSince

/-- Entries stand in the order of the transitions in which they were delivered. -/
structure Dated (past : List Transition) (date : Hash → Nat)
    (entries : List (Hash × CachedVerdict)) : Prop where
  since : ∀ e ∈ entries, CachedSince past (date e.1) e.1 e.2
  order : entries.Pairwise fun e e' => date e.1 < date e'.1

namespace Dated

variable {past : List Transition} {date : Hash → Nat}
  {entries entries' : List (Hash × CachedVerdict)}

/-- Entries may go. -/
theorem concat (h : Dated past date entries) (hsub : entries'.Sublist entries)
    (hcached : ∀ e ∈ entries', t.after.cached? e.1 = some e.2) :
    Dated (past ++ [t]) date entries' :=
  ⟨fun e he => (h.since e (hsub.subset he)).concat (hcached e he), h.order.sublist hsub⟩

/-- Entries may go, and one comes at the end. -/
theorem concat_self (h : Dated past date entries) (hsub : entries'.Sublist entries)
    {e : Hash × CachedVerdict} (hnew : ∀ e' ∈ entries, e'.1 ≠ e.1)
    (hresolved : t.resolved? = some e) (hbefore : t.before.cached? e.1 = none)
    (hcached : ∀ e' ∈ entries' ++ [e], t.after.cached? e'.1 = some e'.2) :
    Dated (past ++ [t]) (Function.update date e.1 past.length) (entries' ++ [e]) := by
  have hdate : ∀ e' ∈ entries', Function.update date e.1 past.length e'.1 = date e'.1 :=
    fun e' he' => Function.update_of_ne (hnew e' (hsub.subset he')) _ _
  refine ⟨?_, List.pairwise_append.mpr ⟨?_, List.pairwise_singleton _ _, ?_⟩⟩
  · intro e' he'
    rcases List.mem_append.mp he' with hold | hself
    · rw [hdate e' hold]
      exact (h.since e' (hsub.subset hold)).concat (hcached e' he')
    · obtain rfl := List.mem_singleton.mp hself
      rw [Function.update_self]
      exact .concat_self hresolved hbefore (hcached e' he')
  · refine (h.order.sublist hsub).imp_of_mem fun he₁ he₂ hlt => ?_
    rwa [hdate _ he₁, hdate _ he₂]
  · intro e₁ he₁ e₂ he₂
    obtain rfl := List.mem_singleton.mp he₂
    rw [hdate e₁ he₁, Function.update_self]
    exact (h.since e₁ (hsub.subset he₁)).lt_length

end Dated

/-- The entries of the plain cache stand in the order in which they were delivered. -/
theorem Run.exists_dated (hnew : Verifier.new config = .ok v₀)
    (h : v₀.Run .free events responses v) :
    ∃ date, Dated (v₀.trace events) date
      (PlainCache.ofLog config.cacheCapacity.toNat (v₀.resolutions events)).entries := by
  induction h with
  | nil => exact ⟨fun _ => 0, nofun, .nil⟩
  | @concat events responses v event response w hrun hallowed hhandle ih =>
    obtain ⟨date, hdated⟩ := ih
    have hcached : ∀ e ∈ (PlainCache.ofLog config.cacheCapacity.toNat
        (v₀.resolutions (events ++ [event]))).entries, w.cached? e.1 = some e.2 :=
      fun e he => ((hrun.concat hallowed hhandle).refines hnew).get?_eq_some_iff.mpr he
    rw [trace_concat hrun.run?_eq hhandle]
    rcases hrun.resolutions_cases hnew hhandle rfl with
      ⟨hlog, -⟩ | ⟨hlog, -⟩ | ⟨e, hresolved, hlog, -⟩
    · rw [hlog] at hcached ⊢
      exact ⟨date, hdated.concat (List.nil_sublist _) hcached⟩
    · rw [hlog] at hcached ⊢
      exact ⟨date, hdated.concat (List.Sublist.refl _) hcached⟩
    · rw [hlog, PlainCache.ofLog_concat] at hcached ⊢
      by_cases hget : (PlainCache.ofLog config.cacheCapacity.toNat
          (v₀.resolutions events)).get? e.1 = none
      · have hbefore : v.cached? e.1 = none := ((hrun.refines hnew).get?_eq e.1).trans hget
        have hne := PlainCache.get?_eq_none_iff.mp hget
        rcases PlainCache.entries_insert_of_new hget e.2 with hentries | ⟨-, hentries⟩
        · rw [hentries] at hcached ⊢
          exact ⟨_, hdated.concat_self (List.Sublist.refl _) hne hresolved hbefore hcached⟩
        · rw [hentries] at hcached ⊢
          exact ⟨_, hdated.concat_self List.eraseP_sublist hne hresolved hbefore hcached⟩
      · rw [PlainCache.insert_of_get?_ne_none hget] at hcached ⊢
        exact ⟨date, hdated.concat (List.Sublist.refl _) hcached⟩

/-- The clock did not go back between two returns. -/
theorem CachedSince.timestamp_le {past : List Transition} {n n' : Nat} {hash hash' : Hash}
    {cached cached' : CachedVerdict} (h : CachedSince past n hash cached)
    (h' : CachedSince past n' hash' cached') (hlt : n < n')
    (hclock : (past.filterMap (·.event.reading?)).Pairwise (· ≤ ·)) :
    cached.timestamp ≤ cached'.timestamp := by
  obtain ⟨t, ht, hresolved, -⟩ := h.resolved
  obtain ⟨t', ht', hresolved', -⟩ := h'.resolved
  obtain ⟨hn, rfl⟩ := List.getElem?_eq_some_iff.mp ht
  obtain ⟨hn', rfl⟩ := List.getElem?_eq_some_iff.mp ht'
  exact List.pairwise_iff_getElem.mp (List.pairwise_filterMap.mp hclock) n n' hn hn' hlt
    _ (Transition.reading?_of_resolved? hresolved).1 _
    (Transition.reading?_of_resolved? hresolved').1

/-! ## Evictions along a run -/

/-- Entries in the order in which they were delivered are in turn, if the clock does not go back. -/
theorem Dated.inTurn {past : List Transition} {date : Hash → Nat}
    {entries : List (Hash × CachedVerdict)} (h : Dated past date entries)
    (hclock : (past.filterMap (·.event.reading?)).Pairwise (· ≤ ·)) :
    PlainCache.InTurn entries := by
  refine ⟨h.order.imp_of_mem fun he he' hlt => ?_, fun e he => ?_⟩
  · exact (h.since _ he).timestamp_le (h.since _ he') hlt hclock
  · obtain ⟨t, -, hresolved, -⟩ := (h.since e he).resolved
    exact (Transition.reading?_of_resolved? hresolved).2

/-- The resolutions are in turn, if the clock does not go back. -/
theorem inTurn_resolutions
    (hclock : ((v₀.trace events).filterMap (·.event.reading?)).Pairwise (· ≤ ·)) :
    PlainCache.InTurn (v₀.resolutions events) := by
  have hsub : ((v₀.trace events).rtakeWhile fun t => !t.event.isReset).Sublist (v₀.trace events) :=
    (List.rtakeWhile_suffix _ _).sublist
  refine ⟨?_, fun e he => ?_⟩
  · rw [resolutions, List.pairwise_filterMap]
    refine ((List.pairwise_filterMap.mp hclock).sublist hsub).imp ?_
    intro t t' hle e he e' he'
    exact hle _ (Transition.reading?_of_resolved? he).1 _ (Transition.reading?_of_resolved? he').1
  · obtain ⟨t, -, hresolved⟩ := List.mem_filterMap.mp he
    exact (Transition.reading?_of_resolved? hresolved).2

/-- The entry that is evicted goes before all others, and was delivered before all others but for
those it overtakes. -/
theorem Dated.of_least? {past : List Transition} {date : Hash → Nat}
    {p : PlainCache Hash CachedVerdict} (h : Dated past date p.entries)
    (hclock : (past.filterMap (·.event.reading?)).Pairwise (· ≤ ·))
    {e e' : Hash × CachedVerdict} (hleast : p.least? = some e) (he' : e' ∈ p.entries)
    (hne : e' ≠ e) :
    e.2.GoesBefore e'.2 (date e.1) (date e'.1) ∧ (date e.1 < date e'.1 ∨ e.2.Overtakes e'.2) := by
  have hturn := h.inTurn hclock
  have he : e ∈ p.entries := List.mem_of_find?_eq_some hleast
  have hdates : date e.1 < date e'.1 ∨ e.2.Overtakes e'.2 := by
    obtain ⟨before, after, hentries, -, hbefore⟩ := PlainCache.overtakes_of_least? hturn hleast
    have horder := h.order
    rw [hentries] at horder he'
    rcases List.mem_append.mp he' with hmem | hmem
    · exact .inr (hbefore e' hmem)
    · have hafter := (List.mem_cons.mp hmem).resolve_left hne
      exact .inl ((List.pairwise_cons.mp (List.pairwise_append.mp horder).2.1).1 e' hafter)
  refine ⟨CachedVerdict.goesBefore_of_le (PlainCache.le_of_least? hleast he')
    (hturn.resolved e he) (hturn.resolved e' he') fun heq => ?_, hdates⟩
  refine hdates.resolve_right fun hover => ?_
  rw [heq] at hover
  exact CachedVerdict.not_overtakes_self _ hover

/-- What the cache holds of what was delivered. -/
structure HoldsLatest (v : Verifier) (capacity : Nat) (log : List (Hash × CachedVerdict)) :
    Prop where
  size_eq : v.cache.size = min log.length capacity
  mem : ∀ hash cached, v.cached? hash = some cached → (hash, cached) ∈ log
  last : ∀ e ∈ log.getLast?, v.cached? e.1 = some e.2
  /-- But for the last one, what is lost goes before what is held. -/
  order : ∀ (i j : Nat) (e e' : Hash × CachedVerdict),
    log.dropLast[i]? = some e → log.dropLast[j]? = some e' →
    v.cached? e.1 = none → v.cached? e'.1 = some e'.2 → e.2.GoesBefore e'.2 i j
  /-- An earlier one is held without a later one only if that overtakes it. -/
  overtaken : log.Pairwise fun e e' =>
    v.cached? e.1 = some e.2 → v.cached? e'.1 = none → e'.2.Overtakes e.2
  latest : (log.Pairwise fun e e' => ¬e'.2.Overtakes e.2) →
    ∀ hash cached, v.cached? hash = some cached ↔
      (hash, cached) ∈ log.drop (log.length - capacity)

theorem capacity_pos_of_new (hnew : Verifier.new config = .ok v₀) :
    0 < config.cacheCapacity.toNat := by
  by_contra hzero
  have hzero : config.cacheCapacity = 0 := UInt64.toNat_inj.mp (Nat.eq_zero_of_not_pos hzero)
  rw [Verifier.new, Config.validate, if_pos hzero] at hnew
  cases hnew

/-- An entry that is lost, other than by a reset, is the least one of the plain cache. -/
theorem Step.least?_eq (h : v.Step event response w) (hreset : event ≠ .reset)
    {p : PlainCache Hash CachedVerdict} (hp : v.cache.Refines p) {hash : Hash}
    {cached : CachedVerdict} (hcached : v.cached? hash = some cached)
    (hlost : w.cached? hash = none) : p.least? = some (hash, cached) := by
  obtain ⟨least, hleast⟩ :=
    ((h.lost rfl (by simp [hcached]) hlost).resolve_left hreset).least
  rw [hp.least?_eq] at hleast
  have hmem : v.cached? hash = some least :=
    hp.get?_eq_some_iff.mpr (List.mem_of_find?_eq_some hleast)
  rw [hcached] at hmem
  cases hmem
  exact hleast

/-- A verifier whose cache is that of a log holds the latest entries. -/
theorem holdsLatest_of_refines {capacity : Nat} {log : List (Hash × CachedVerdict)}
    (hp : v.cache.Refines (PlainCache.ofLog capacity log)) (hkeys : (log.map Prod.fst).Nodup)
    (hturn : PlainCache.InTurn log) : v.HoldsLatest (max capacity 1) log := by
  have hretains := PlainCache.retains_ofLog capacity hkeys hturn
  have hcapacity := PlainCache.capacity_ofLog capacity log
  have hlost : ∀ e : Hash × CachedVerdict, v.cached? e.1 = none →
      e ∉ (PlainCache.ofLog capacity log).entries := by
    intro e hnone hmem
    rw [Verifier.cached?, hp.get?_eq_some_iff.mpr hmem] at hnone
    cases hnone
  refine ⟨?_, ?_, ?_, ?_, ?_, ?_⟩
  · rw [← hcapacity]
    exact hp.size_eq.trans hretains.length_eq
  · intro hash cached hcached
    exact hretains.sublist.subset (hp.get?_eq_some_iff.mp hcached)
  · intro e he
    exact hp.get?_eq_some_iff.mpr (PlainCache.mem_ofLog_of_getLast? capacity hkeys hturn he)
  · intro i j e e' he he' hnone hheld
    exact PlainCache.goesBefore_of_lost capacity hkeys hturn he he' (hlost e hnone)
      (hp.get?_eq_some_iff.mp hheld)
  · refine hretains.overtaken.imp fun {e e'} hover hheld hnone => ?_
    exact hover (hp.get?_eq_some_iff.mp hheld) (hlost e' hnone)
  · intro hnone hash cached
    rw [← hcapacity, ← hretains.eq_drop (hkeys.of_map _) hnone]
    exact hp.get?_eq_some_iff

/-- Every cached verdict dates from its delivery. While the clock does not go back, what is evicted
goes before everything else that is cached, and was delivered before it but for the verdicts it
overtakes; and of deliveries of different objects since the construction or the last reset the cache
holds the latest, with the same exception. -/
theorem evicted_in_turn (hnew : Verifier.new config = .ok v₀)
    (hrun : v₀.run? events = some (responses, v))
    (hclock : (events.filterMap Event.reading?).Pairwise (· ≤ ·)) :
    (∃ date : Hash → Nat,
      (∀ hash cached, v.cached? hash = some cached →
        CachedSince (v₀.trace events) (date hash) hash cached) ∧
      ∀ event response w hash cached, v.handle? event = some (response, w) → event ≠ .reset →
        v.cached? hash = some cached → w.cached? hash = none →
        ∀ hash' cached', v.cached? hash' = some cached' → hash' ≠ hash →
          cached.GoesBefore cached' (date hash) (date hash') ∧
            (date hash < date hash' ∨ cached.Overtakes cached')) ∧
      (((v₀.resolutions events).map Prod.fst).Nodup →
        v.HoldsLatest config.cacheCapacity.toNat (v₀.resolutions events)) := by
  have hclock : ((v₀.trace events).filterMap (·.event.reading?)).Pairwise (· ≤ ·) := by
    rwa [← trace_events hrun, List.filterMap_map] at hclock
  have hrefines := (run_free hrun).refines hnew
  obtain ⟨date, hdated⟩ := (run_free hrun).exists_dated hnew
  refine ⟨⟨date, ?_, ?_⟩, fun hkeys => ?_⟩
  · intro hash cached hcached
    exact hdated.since _ (hrefines.get?_eq_some_iff.mp hcached)
  · intro event response w hash cached hhandle hreset hcached hlost hash' cached' hcached' hne
    have hleast := (step_of_handle? hhandle).least?_eq hreset hrefines hcached hlost
    exact hdated.of_least? hclock hleast (hrefines.get?_eq_some_iff.mp hcached')
      fun heq => hne (congrArg Prod.fst heq)
  · have hholds := holdsLatest_of_refines hrefines hkeys (inTurn_resolutions hclock)
    rwa [Nat.max_eq_left (capacity_pos_of_new hnew)] at hholds

end Verifier

/-! ## A batch with both verdicts -/

/-- Three certificates are verified in one batch, and two of them delivered within one millisecond,
first the one that has failed. -/
def Event.mixedBatch : List Event :=
  [.enqueueCertificate (.ofKey ⟨[]⟩) (.ofQuality 0) none 0,
    .enqueueCertificate (.ofKey ⟨[]⟩) (.ofQuality 1) none 0,
    .enqueueCertificate (.ofKey ⟨[]⟩) (.ofQuality 2) none 0, .start true 0,
    .replyBatch (some (.ok ⟨false, [0]⟩)), .replyBatch (some (.ok ⟨true, []⟩)), .take,
    .delivered (some 0), .delivered (some 0)]

namespace Verifier

/-- What is delivered of the batch, the third certificate included. -/
def mixedVerdicts : List (Hash × CachedVerdict) :=
  [((Certificate.ofQuality 0).hash, ⟨0, .failed⟩), ((Certificate.ofQuality 1).hash, ⟨0, .passed⟩),
    ((Certificate.ofQuality 2).hash, ⟨0, .passed⟩)]

/-- The third delivery evicts the verdict that was delivered second. -/
theorem mixedBatch_evicts : ∃ v₀ responses v response w, Verifier.new (.ofCapacity 2) = .ok v₀ ∧
    v₀.run? Event.mixedBatch = some (responses, v) ∧
    v.handle? (.delivered (some 0)) = some (response, w) ∧
    (mixedVerdicts.map Prod.fst).Nodup ∧
    (Certificate.ofQuality 0).hash ≠ (Certificate.ofQuality 1).hash ∧
    v.cached? (Certificate.ofQuality 0).hash = some ⟨0, .failed⟩ ∧
    v.cached? (Certificate.ofQuality 1).hash = some ⟨0, .passed⟩ ∧
    w.cached? (Certificate.ofQuality 0).hash = some ⟨0, .failed⟩ ∧
    w.cached? (Certificate.ofQuality 1).hash = none ∧
    v₀.resolutions (Event.mixedBatch ++ [.delivered (some 0)]) = mixedVerdicts ∧
    CachedSince (v₀.trace Event.mixedBatch) 7 (Certificate.ofQuality 0).hash ⟨0, .failed⟩ ∧
    CachedSince (v₀.trace Event.mixedBatch) 8 (Certificate.ofQuality 1).hash ⟨0, .passed⟩ := by
  obtain ⟨v₀, hnew⟩ : ∃ v₀, Verifier.new (.ofCapacity 2) = .ok v₀ := ⟨_, rfl⟩
  -- One evaluation for all that needs the hashes, as they take long to compute.
  obtain ⟨hend, hdistinct, hrest⟩ : ((v₀.run? Event.mixedBatch).bind fun run =>
      (run.2.handle? (.delivered (some 0))).map fun last =>
        (run.2.cached? (Certificate.ofQuality 0).hash, run.2.cached? (Certificate.ofQuality 1).hash,
          last.2.cached? (Certificate.ofQuality 0).hash,
          last.2.cached? (Certificate.ofQuality 1).hash)) =
        some (some ⟨0, .failed⟩, some ⟨0, .passed⟩, some ⟨0, .failed⟩, none) ∧
      (mixedVerdicts.map Prod.fst).Nodup ∧
      v₀.resolutions (Event.mixedBatch ++ [.delivered (some 0)]) = mixedVerdicts ∧
      CachedSince (v₀.trace Event.mixedBatch) 7 (Certificate.ofQuality 0).hash ⟨0, .failed⟩ ∧
      CachedSince (v₀.trace Event.mixedBatch) 8 (Certificate.ofQuality 1).hash ⟨0, .passed⟩ := by
    cases hnew
    decide +kernel
  obtain ⟨⟨responses, v⟩, hrun, hend⟩ := Option.bind_eq_some_iff.mp hend
  obtain ⟨⟨response, w⟩, hhandle, hend⟩ := Option.map_eq_some_iff.mp hend
  simp only [Prod.mk.injEq] at hend
  obtain ⟨hfirst, hsecond, hheld, hlost⟩ := hend
  have hne : (Certificate.ofQuality 0).hash ≠ (Certificate.ofQuality 1).hash := by
    intro heq
    rw [heq, hsecond] at hfirst
    cases hfirst
  exact ⟨v₀, responses, v, response, w, hnew, hrun, hhandle, hdistinct, hne, hfirst, hsecond, hheld,
    hlost, hrest⟩

/-- The verdict that is evicted goes before the other one that is cached; and of the three that were
delivered the cache holds the last, and of the others the one that comes last in the order. -/
theorem evicted_in_turn_mixed :
    ∃ v₀ responses v response w, ∃ date : Hash → Nat, Verifier.new (.ofCapacity 2) = .ok v₀ ∧
      v₀.run? Event.mixedBatch = some (responses, v) ∧
      ((Event.mixedBatch ++ [Event.delivered (some 0)]).filterMap Event.reading?).Pairwise (· ≤ ·) ∧
      v.handle? (.delivered (some 0)) = some (response, w) ∧
      w.cached? (Certificate.ofQuality 1).hash = none ∧
      CachedSince (v₀.trace Event.mixedBatch) (date (Certificate.ofQuality 1).hash)
        (Certificate.ofQuality 1).hash ⟨0, .passed⟩ ∧
      (⟨0, .passed⟩ : CachedVerdict).GoesBefore ⟨0, .failed⟩
        (date (Certificate.ofQuality 1).hash) (date (Certificate.ofQuality 0).hash) ∧
      w.HoldsLatest 2 mixedVerdicts ∧
      (⟨0, .passed⟩ : CachedVerdict).GoesBefore ⟨0, .failed⟩ 1 0 := by
  obtain ⟨v₀, responses, v, response, w, hnew, hrun, hhandle, hdistinct, hne, hfirst, hsecond,
    hheld, hlost, hlog, -⟩ := mixedBatch_evicts
  have hclock : (Event.mixedBatch.filterMap Event.reading?).Pairwise (· ≤ ·) := by decide
  have hclock' : ((Event.mixedBatch ++ [Event.delivered (some 0)]).filterMap
      Event.reading?).Pairwise (· ≤ ·) := by decide
  obtain ⟨⟨date, hdates, hevicted⟩, -⟩ := evicted_in_turn hnew hrun hclock
  have hbefore := hevicted _ _ _ _ _ hhandle nofun hsecond hlost _ _ hfirst hne
  obtain ⟨-, hlatest⟩ := evicted_in_turn hnew (run?_concat hrun hhandle) hclock'
  rw [hlog] at hlatest
  have hholds : w.HoldsLatest 2 mixedVerdicts := hlatest hdistinct
  exact ⟨v₀, responses, v, response, w, date, hnew, hrun, hclock', hhandle, hlost,
    hdates _ _ hsecond, hbefore.1, hholds, hholds.order 1 0 _ _ rfl rfl hlost hheld⟩

/-- It is not always what was delivered first that is evicted. -/
theorem later_delivered_evicted :
    ¬∀ (config : Config) (v₀ v w : Verifier) (events : List Event) (event : Event)
      (responses : List Response) (response : Response), Verifier.new config = .ok v₀ →
      v₀.run? events = some (responses, v) → v.handle? event = some (response, w) →
      ((events ++ [event]).filterMap Event.reading?).Pairwise (· ≤ ·) → event ≠ .reset →
      ∀ hash cached n, v.cached? hash = some cached → w.cached? hash = none →
        CachedSince (v₀.trace events) n hash cached →
        ∀ hash' cached' n', v.cached? hash' = some cached' → hash' ≠ hash →
          CachedSince (v₀.trace events) n' hash' cached' → n < n' := by
  intro h
  obtain ⟨v₀, responses, v, response, w, hnew, hrun, hhandle, -, hne, hfirst, hsecond, -, hlost, -,
    hsince, hsince'⟩ := mixedBatch_evicts
  have hlt := h _ _ _ _ _ _ _ _ hnew hrun hhandle (by decide) nofun _ _ 8 hsecond hlost hsince'
    _ _ 7 hfirst hne hsince
  exact absurd hlt (by decide)

end Verifier

end SidechainVerifier
