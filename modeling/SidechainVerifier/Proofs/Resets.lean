/-
SidechainVerifier.Proofs.Resets — a verifier that was reset is as good as
new.

A reset leaves one trace, the turns of the cache, which go on from where
they were. They do not show: two caches that refine one plain cache answer
alike and go on to do so (`Cache.Alike`), so verifiers that differ in such
caches alone respond alike to whatever happens to them
(`Verifier.transcript_replace_cache`). One that was reset differs in no more
from a new one on which the same guards are held (`Verifier.reset_as_new`).
-/
import SidechainVerifier.Proofs.Frames
import SidechainVerifier.Proofs.PlainCaches
import SidechainVerifier.Proofs.Provenance

namespace SidechainVerifier

open OrderedMap

/-- Whether the listener returns from a notice. -/
def Event.isReturn : Event → Bool
  | .delivered (some _) => true
  | _ => false

/-! ## Caches that differ in their turns -/

namespace Cache

variable {K V : Type} [Ord K] [Ord V]

/-- Two caches hold what one plain cache holds. -/
def Alike (c c' : Cache K V) : Prop := ∃ p, c.Refines p ∧ c'.Refines p

namespace Alike

variable {c c' : Cache K V}

theorem size_eq [Std.TransOrd K] [Std.LawfulEqOrd K] (h : c.Alike c') : c.size = c'.size := by
  obtain ⟨p, hc, hc'⟩ := h
  exact hc.size_eq.trans hc'.size_eq.symm

variable [DecidableEq K]

theorem get?_eq (h : c.Alike c') : c.get? = c'.get? := by
  obtain ⟨p, hc, hc'⟩ := h
  exact funext fun k => (hc.get?_eq k).trans (hc'.get?_eq k).symm

theorem contains_eq (h : c.Alike c') : c.contains = c'.contains := by
  obtain ⟨p, hc, hc'⟩ := h
  exact funext fun k => (hc.contains_eq k).trans (hc'.contains_eq k).symm

end Alike

end Cache

namespace Verifier

variable {config : Config} {v₀ v w : Verifier} {event : Event} {events : List Event}
  {response : Response} {responses : List Response} {cache : Cache Hash CachedVerdict}

/-- An event does to every cache what it does to the plain cache. -/
theorem refines_cacheAfter (v : Verifier) (p : PlainCache Hash CachedVerdict) (event : Event) :
    ∃ p' : PlainCache Hash CachedVerdict, p'.capacity = p.capacity ∧
      ∀ c : Cache Hash CachedVerdict, c.Refines p → (v.cacheAfter c event).Refines p' := by
  rcases v.cacheAfter_cases event with hsame | ⟨-, hclear⟩ | ⟨hash, timestamp, verdict, -, hinsert⟩
  · exact ⟨p, rfl, fun c h => (hsame c).symm ▸ h⟩
  · exact ⟨p.clear, rfl, fun c h => (hclear c).symm ▸ h.clear⟩
  · refine ⟨(p.insert hash ⟨timestamp, verdict⟩).2, ?_, fun c h => ?_⟩
    · exact p.capacity_perform (.insert hash ⟨timestamp, verdict⟩)
    · exact (hinsert c).symm ▸ (h.insert hash ⟨timestamp, verdict⟩).2

theorem alike_cacheAfter (h : v.cache.Alike cache) (event : Event) :
    (v.cacheAfter v.cache event).Alike (v.cacheAfter cache event) := by
  obtain ⟨p, hc, hc'⟩ := h
  obtain ⟨p', -, hp'⟩ := v.refines_cacheAfter p event
  exact ⟨p', hp' _ hc, hp' _ hc'⟩

/-! ## What shows -/

/-- What can be asked of a verifier. -/
structure Observation where
  config : Config
  limits : Limits
  queue : Queue
  stats : Stats
  gate : PauseGate
  cycle : Option Cycle
  cached : Hash → Option CachedVerdict
  cacheSize : Nat

/-- What a verifier shows. -/
def observe (v : Verifier) : Observation :=
  { config := v.config
    limits := v.limits
    queue := v.queue
    stats := v.stats
    gate := v.gate
    cycle := v.cycle
    cached := v.cached?
    cacheSize := v.cache.size }

/-- The responses to a sequence of events, up to one that cannot happen, and what the verifier shows
after each. -/
def transcript (v : Verifier) (events : List Event) : List (Response × Observation) :=
  (v.trace events).map fun t => (t.response, t.after.observe)

theorem observe_replace_cache (h : v.cache.Alike cache) :
    (v.replace cache v.gate).observe = v.observe := by
  have hcached : (v.replace cache v.gate).cached? = v.cached? := h.get?_eq.symm
  have hsize : (v.replace cache v.gate).cache.size = v.cache.size := h.size_eq.symm
  rw [observe, hcached, hsize]
  rfl

/-- Verifiers whose caches are alike cannot be told apart. -/
theorem transcript_replace_cache (h : v.cache.Alike cache) (events : List Event) :
    (v.replace cache v.gate).transcript events = v.transcript events := by
  -- The plain cache that both caches refine is another one after every event.
  induction events generalizing v cache with
  | nil => rfl
  | cons event rest ih =>
    rw [transcript, transcript, trace, trace, handle?_replace_cache h.contains_eq.symm]
    cases hhandle : v.handle? event with
    | none => rfl
    | some p =>
      have hcache : p.2.cache.Alike (v.cacheAfter cache event) := by
        rw [(cache_and_gate_eq hhandle).1]
        exact alike_cacheAfter h event
      simp only [Option.map_some, List.map_cons, observe_replace_cache hcache]
      exact congrArg _ (ih hcache)

/-! ## Along a run -/

/-- What a run does not change: the settings, and the capacity of the cache. -/
structure Keeps (v : Verifier) (config : Config) : Prop where
  config_eq : v.config = config
  limits_eq : v.limits = config.limits
  refines : ∃ p : PlainCache Hash CachedVerdict,
    v.cache.Refines p ∧ p.capacity = max config.cacheCapacity.toNat 1

theorem Run.keeps {replies : Replies} (hnew : Verifier.new config = .ok v₀)
    (h : v₀.Run replies events responses v) : v.Keeps config := by
  induction h with
  | nil =>
    rw [eq_of_new hnew]
    exact ⟨rfl, rfl, _, .new config.cacheCapacity.toNat, rfl⟩
  | @concat events responses v event response w _ _ hhandle ih =>
    obtain ⟨hconfig, hlimits⟩ := (step_of_handle? hhandle).config_eq
    obtain ⟨p, hp, hcapacity⟩ := ih.refines
    obtain ⟨p', hcapacity', hp'⟩ := v.refines_cacheAfter p event
    refine ⟨hconfig.trans ih.config_eq, hlimits.trans ih.limits_eq, p', ?_,
      hcapacity'.trans hcapacity⟩
    rw [(cache_and_gate_eq hhandle).1]
    exact hp' _ hp

/-- The gate only depends on the guards that were taken and dropped. -/
theorem run?_guards (hrun : v.run? events = some (responses, w)) {u : Verifier}
    (hgate : u.gate = v.gate) :
    ∃ responses', u.run? (events.filter Event.isGuard) =
      some (responses', { u with gate := w.gate }) := by
  induction events generalizing v u responses with
  | nil =>
    cases hrun
    exact ⟨[], by rw [← hgate]; rfl⟩
  | cons event rest ih =>
    obtain ⟨response, v', responses, hhandle, hrest, rfl⟩ := run?_cons hrun
    have hgate' := (cache_and_gate_eq hhandle).2
    cases hguard : event.isGuard with
    | true =>
      obtain ⟨responses', hrun'⟩ := ih hrest (u := { u with gate := (u.gate.handle event).2 })
        (by rw [hgate', hgate])
      rw [List.filter_cons_of_pos hguard]
      exact ⟨_, run?_cons_eq (handle?_of_isGuard hguard u) hrun'⟩
    | false =>
      rw [List.filter_cons_of_neg (by simp [hguard])]
      refine ih hrest ?_
      rw [hgate', PauseGate.handle_of_not_isGuard hguard, hgate]

/-- A turn is taken at most when the listener returns from a notice. -/
theorem nextTurn_le_of_run? (hrun : v.run? events = some (responses, w)) :
    w.cache.nextTurn ≤ v.cache.nextTurn + events.countP Event.isReturn := by
  induction events generalizing v responses with
  | nil =>
    cases hrun
    exact Nat.le_refl _
  | cons event rest ih =>
    obtain ⟨response, v', responses, hhandle, hrest, rfl⟩ := run?_cons hrun
    have hrest := ih hrest
    rw [(cache_and_gate_eq hhandle).1] at hrest
    rw [List.countP_cons]
    rcases v.cacheAfter_cases event with
      hsame | ⟨-, hclear⟩ | ⟨hash, timestamp, verdict, rfl, hinsert⟩
    · rw [hsame] at hrest
      omega
    · rw [hclear] at hrest
      change _ ≤ v.cache.nextTurn + _ at hrest
      omega
    · rw [hinsert] at hrest
      have hturn := v.cache.nextTurn_perform_le (.insert hash ⟨timestamp, verdict⟩)
      change (v.cache.insert hash ⟨timestamp, verdict⟩).2.nextTurn ≤ _ at hturn
      simp only [Event.isReturn, if_true]
      omega

/-! ## Resets -/

/-- When no cycle is in progress a verifier can be reset. From then on it responds to whatever
happens, and shows, what a new verifier of the same settings does on which the same guards were
taken and dropped. Since its construction, no more turns of its cache are taken than verdicts are
inserted. -/
theorem reset_as_new (hnew : Verifier.new config = .ok v₀)
    (hrun : v₀.run? events = some (responses, v)) (hcycle : v.cycle = none) :
    ∃ w u responses', v.handle? .reset = some (.done, w) ∧
      v₀.run? (events.filter Event.isGuard) = some (responses', u) ∧
      u = { v₀ with gate := v.gate } ∧
      w.observe = u.observe ∧ (∀ rest, w.transcript rest = u.transcript rest) ∧
      ∀ rest responses'' x, w.run? rest = some (responses'', x) →
        x.cache.nextTurn ≤ (events ++ rest).countP Event.isReturn := by
  obtain ⟨hconfig, hlimits, p, hp, hcapacity⟩ := (run_free hrun).keeps hnew
  obtain ⟨responses', hguards⟩ := run?_guards hrun (u := v₀) rfl
  have hv₀ := eq_of_new hnew
  have hreset : v.handle? .reset =
      some (.done, { v₀ with gate := v.gate }.replace v.cache.clear v.gate) := by
    simp only [handle?, reset?, hcycle, hv₀, hconfig, hlimits, replace, Option.map_some]
  -- Cleared or new, the caches refine the plain cache that is empty.
  have halike : v₀.cache.Alike v.cache.clear := by
    have hplain : p.clear = .new config.cacheCapacity.toNat := by
      rw [PlainCache.clear, hcapacity, PlainCache.new]
    rw [hv₀]
    exact ⟨_, .new _, hplain ▸ hp.clear⟩
  refine ⟨_, _, responses', hreset, hguards, rfl, observe_replace_cache halike,
    transcript_replace_cache halike, fun rest responses'' x hrest => ?_⟩
  have hturns := nextTurn_le_of_run? hrun
  have hturns' := nextTurn_le_of_run? hrest
  have hzero : v₀.cache.nextTurn = 0 := by rw [hv₀]; rfl
  change _ ≤ v.cache.nextTurn + _ at hturns'
  rw [List.countP_append]
  omega

/-- A verifier with room for one verdict is reset when it has cached one, and its cache goes on with
its second turn. After the reset the same certificate is verified again, and its verdict evicts
another one. -/
theorem reset_as_new_evicting :
    ∃ (v₀ v w u x : Verifier) (responses responses' responses'' : List Response),
      Verifier.new (.ofCapacity 1) = .ok v₀ ∧
      v₀.run? (.pause false :: Event.verifyOfQuality 0 0) = some (responses, v) ∧ v.cycle = none ∧
      v.cached? (Certificate.ofQuality 0).hash = some ⟨0, .passed⟩ ∧
      v.handle? .reset = some (.done, w) ∧ w.cache.nextTurn = 1 ∧
      v₀.run? [.pause false] = some (responses', u) ∧
      (∀ rest, w.transcript rest = u.transcript rest) ∧
      w.run? (Event.verifyOfQuality 1 1 ++ Event.verifyOfQuality 0 2) = some (responses'', x) ∧
      x.cached? (Certificate.ofQuality 1).hash = none ∧
      x.cached? (Certificate.ofQuality 0).hash = some ⟨2, .passed⟩ ∧ x.cache.nextTurn ≤ 3 := by
  obtain ⟨v₀, hnew⟩ : ∃ v₀, Verifier.new (.ofCapacity 1) = .ok v₀ := ⟨_, rfl⟩
  have hend : ((v₀.run? (.pause false :: Event.verifyOfQuality 0 0)).bind fun run =>
      (run.2.handle? .reset).bind fun last =>
        (last.2.run? (Event.verifyOfQuality 1 1 ++ Event.verifyOfQuality 0 2)).map fun run' =>
          ((run.2.cycle.isNone, run.2.cached? (Certificate.ofQuality 0).hash, last.2.cache.nextTurn),
            run'.2.cached? (Certificate.ofQuality 1).hash,
            run'.2.cached? (Certificate.ofQuality 0).hash)) =
      some ((true, some ⟨0, .passed⟩, 1), none, some ⟨2, .passed⟩) := by
    cases hnew
    decide +kernel
  obtain ⟨⟨responses, v⟩, hrun, hend⟩ := Option.bind_eq_some_iff.mp hend
  obtain ⟨⟨response, w⟩, hhandle, hend⟩ := Option.bind_eq_some_iff.mp hend
  obtain ⟨⟨responses'', x⟩, hrest, hend⟩ := Option.map_eq_some_iff.mp hend
  simp only [Prod.mk.injEq] at hend
  obtain ⟨⟨hcycle, hcached, hturn⟩, hevicted, hagain⟩ := hend
  have hcycle := Option.isNone_iff_eq_none.mp hcycle
  obtain ⟨w', u, responses', hreset, hguards, -, -, htranscript, hturns⟩ :=
    reset_as_new hnew hrun hcycle
  rw [hhandle] at hreset
  cases hreset
  exact ⟨v₀, v, w, u, x, responses, responses', responses'', hnew, hrun, hcycle, hcached, hhandle,
    hturn, hguards, htranscript, hrest, hevicted, hagain, hturns _ _ _ hrest⟩

end Verifier

end SidechainVerifier
