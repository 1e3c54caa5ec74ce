/-
SidechainVerifier.Proofs.CacheEntries — the cache and what the listener has
been told.

A verdict is cached when the listener has returned from the notice of it,
and while it is cached the listener is told nothing more about the object.
So between two notices about one object its entry was evicted or the
verifier was reset, unless there never was an entry, because the first call
was torn down. Nothing is supposed about the backend, and objects may be
enqueued and dropped at any time; the cache may be smaller than a batch.
-/
import SidechainVerifier.Proofs.Courses
import SidechainVerifier.Proofs.Notices

namespace SidechainVerifier

open OrderedMap

/-! ## Evictions -/

namespace Cache

variable {K V : Type} [Ord K] [Ord V] [DecidableEq K] [Std.TransOrd K] [Std.LawfulEqOrd K]
  [Std.TransOrd V]

theorem get?_insert_self (c : Cache K V) (k : K) (a : V) : (c.insert k a).2.get? k ≠ none := by
  unfold insert
  split
  next h =>
    rw [Ne, ← contains_eq_false_iff, h]
    decide
  next => simp [get?, get?_insert_eq]

/-- An entry that an insertion loses was the least one of a full cache. -/
theorem least?_of_get?_insert {c : Cache K V} {k k' : K} {a b : V} (hold : c.get? k' = some b)
    (hlost : (c.insert k a).2.get? k' = none) :
    c.capacity ≤ c.size ∧ ∃ b', c.least? = some (k', b') := by
  unfold insert at hlost
  split at hlost
  · rw [hold] at hlost
    cases hlost
  · simp only [get?, get?_insert_eq] at hlost hold
    split at hlost
    · cases hlost
    · split at hlost
      next hfull =>
        refine ⟨hfull, ?_⟩
        unfold evict at hlost
        split at hlost
        · rw [hold] at hlost
          cases hlost
        next r _ hfirst =>
          rw [get?_erase_eq] at hlost
          split at hlost
          next hkey => exact ⟨r.value, by rw [least?, hfirst, hkey]; rfl⟩
          next =>
            rw [hold] at hlost
            cases hlost
      next =>
        rw [hold] at hlost
        cases hlost

end Cache

/-! ## What happens to an object -/

namespace Transition

/-- The listener begins to be told of an object. -/
def Announces (t : Transition) (hash : Hash) : Prop :=
  ∃ notice, t.notice? = some notice ∧ notice.subject.hash = hash

/-- The call that tells the listener of an object is torn down. -/
def Abandons (t : Transition) (hash : Hash) : Prop :=
  t.event = .delivered none ∧
    ∃ notice, t.before.telling? = some notice ∧ notice.subject.hash = hash

/-- The entry of an object makes room for another in a full cache. -/
structure Evicts (t : Transition) (hash : Hash) : Prop where
  delivered : ∃ timestamp, t.event = .delivered (some timestamp)
  full : t.before.cache.capacity ≤ t.before.cache.size
  least : ∃ cached, t.before.cache.least? = some (hash, cached)
  gone : t.after.cached? hash = none

end Transition

namespace Verifier

variable {config : Config} {v₀ v w : Verifier} {events : List Event} {event : Event}
  {response : Response} {responses : List Response} {hash : Hash} {t : Transition}

/-- What is announced is what the listener is being told then; if nothing is, the cycle is left
alone, unless it has nothing to tell. -/
theorem Step.notice?_eq (h : v.Step event response w) (ht : t = ⟨v, event, response, w⟩) :
    t.notice? = w.telling? ∨ t.notice? = none ∧ w.cycle = v.cycle := by
  subst ht
  cases h with
  | handOff hnone hstage hneed =>
    left
    rw [notice?_eq_none_of_verifying hstage hneed rfl, telling?_eq_none_of_verifying rfl hstage]
  | consulted _ _ _ hneed =>
    left
    rw [notice?_eq_none_of_verifying rfl hneed rfl, telling?_eq_none_of_verifying rfl rfl]
  | abandoned _ _ _ => exact .inl rfl
  | undelivered _ _ => exact .inl rfl
  | @take cycle results published hcycle hstage =>
    exact .inl (notice?_proceed cycle 0 (v.queue.inFlight.deliveries results) (by rfl) (by rfl))
  | @delivered cycle dispatched current rest timestamp published hcycle hstage =>
    exact .inl (notice?_proceed cycle (dispatched + 1) rest (by rfl) (by rfl))
  | _ => exact .inr ⟨rfl, rfl⟩

theorem Step.telling?_of_announced (h : v.Step event response w)
    (ht : t = ⟨v, event, response, w⟩) {notice : Notice} (hnotice : t.notice? = some notice) :
    w.telling? = some notice := by
  rcases h.notice?_eq ht with heq | ⟨hnone, -⟩
  · rw [← heq, hnotice]
  · rw [hnone] at hnotice
    cases hnotice

theorem mem_outstanding_of_dispatching {cycle : Cycle} {dispatched : Nat} {current : Delivery}
    {rest : List Delivery} (hcycle : v.cycle = some cycle)
    (hstage : cycle.stage = .dispatching dispatched current rest) : current ∈ v.outstanding := by
  rw [outstanding_of_dispatching hcycle hstage]
  exact List.mem_cons_self

theorem mem_outstanding_of_telling? {notice : Notice} (h : v.telling? = some notice) :
    ∃ current ∈ v.outstanding, current.notice = notice := by
  unfold telling? at h
  split at h
  next notice' hawaited =>
    cases h
    obtain ⟨cycle, dispatched, current, rest, hcycle, hstage, hcurrent⟩ :=
      stage_of_awaited?_delivery hawaited
    exact ⟨current, mem_outstanding_of_dispatching hcycle hstage, hcurrent⟩
  next => cases h

/-- The listener is told of the first delivery when the batch is taken, and of the next one when it
has returned from one. -/
theorem Step.of_announced (h : v.Step event response w) (ht : t = ⟨v, event, response, w⟩)
    {notice : Notice} (hnotice : t.notice? = some notice) :
    v.telling? = none ∧ w.cache = v.cache ∨
      ∃ current d rest, v.outstanding = current :: d :: rest ∧ d.notice = notice ∧
        v.telling? = some current.notice ∧ w.cached? current.hash ≠ none := by
  subst ht
  cases h with
  | handOff _ hstage hneed =>
    rw [notice?_eq_none_of_verifying hstage hneed rfl] at hnotice
    cases hnotice
  | consulted _ _ _ hneed =>
    rw [notice?_eq_none_of_verifying rfl hneed rfl] at hnotice
    cases hnotice
  | take hcycle hstage => exact .inl ⟨telling?_eq_none_of_verifying hcycle hstage, rfl⟩
  | @delivered cycle dispatched current rest timestamp published hcycle hstage =>
    cases rest with
    | nil => cases hnotice
    | cons d rest =>
      refine .inr ⟨current, d, rest, outstanding_of_dispatching hcycle hstage, ?_,
        telling?_of_dispatching hcycle hstage, Cache.get?_insert_self _ _ _⟩
      exact Option.some.inj hnotice
  | _ => cases hnotice

/-- A cached verdict goes only by a reset or an eviction. -/
theorem Step.lost (h : v.Step event response w) (ht : t = ⟨v, event, response, w⟩)
    (hcached : v.cached? hash ≠ none) (hlost : w.cached? hash = none) :
    event = .reset ∨ t.Evicts hash := by
  subst ht
  obtain ⟨cached, hcached⟩ := Option.ne_none_iff_exists'.mp hcached
  have hkept (hcache : w.cache = v.cache) : False := by
    rw [Verifier.cached?, hcache] at hlost
    rw [Verifier.cached?, hlost] at hcached
    cases hcached
  cases h with
  | reset _ => exact .inl rfl
  | delivered _ _ =>
    obtain ⟨hfull, hleast⟩ := Cache.least?_of_get?_insert hcached hlost
    exact .inr ⟨⟨_, rfl⟩, hfull, hleast, hlost⟩
  | _ => exact (hkept rfl).elim

/-! ## The listener is not told again -/

/-- The listener is told of no object whose verdict is cached. -/
theorem uncached_of_telling? (hnew : Verifier.new config = .ok v₀)
    (hrun : v₀.run? events = some (responses, v))
    (hfree : NoCollisions (events.flatMap Event.preimages)) {notice : Notice}
    (h : v.telling? = some notice) : v.cached? notice.subject.hash = none := by
  obtain ⟨current, hmem, rfl⟩ := mem_outstanding_of_telling? h
  obtain ⟨huncached, hhash, -⟩ := uncached_of_mem_outstanding hnew hrun hfree hmem
  rwa [hhash]

/-- The listener is being told of an object, or the verdict it was told is cached. -/
def Informed (v : Verifier) (hash : Hash) : Prop :=
  (∃ notice, v.telling? = some notice ∧ notice.subject.hash = hash) ∨ v.cached? hash ≠ none

/-- An object's verdict is remembered until a reset or an eviction, once its call has returned. -/
theorem Step.informed (h : v.Step event response w) (ht : t = ⟨v, event, response, w⟩)
    (hsubject : ∀ d ∈ v.outstanding, d.notice.subject.hash = d.hash) (hinformed : v.Informed hash)
    (hreset : event ≠ .reset) (hevicts : ¬t.Evicts hash) (habandons : ¬t.Abandons hash) :
    w.Informed hash := by
  -- Without an entry yet, the call is still open, and of the events of a cycle only its return and
  -- its teardown can end it.
  by_cases hcached : v.cached? hash = none
  · obtain ⟨notice, htelling, hhash⟩ := hinformed.resolve_right (absurd hcached)
    subst ht
    have htold : v.telling? ≠ none := by simp [htelling]
    cases h with
    | reset _ => exact absurd rfl hreset
    | idle hnone _ => exact absurd (telling?_eq_none_of_none hnone) htold
    | purge hnone _ => exact absurd (telling?_eq_none_of_none hnone) htold
    | handOff hnone _ _ => exact absurd (telling?_eq_none_of_none hnone) htold
    | consulted hcycle hstage _ _ =>
      exact absurd (telling?_eq_none_of_verifying hcycle hstage) htold
    | abandoned hcycle hstage _ =>
      exact absurd (telling?_eq_none_of_verifying hcycle hstage) htold
    | take hcycle hstage => exact absurd (telling?_eq_none_of_verifying hcycle hstage) htold
    | undelivered _ _ => exact absurd ⟨rfl, _, htelling, hhash⟩ habandons
    | delivered hcycle hstage =>
      rw [telling?_of_dispatching hcycle hstage] at htelling
      cases htelling
      rw [hsubject _ (mem_outstanding_of_dispatching hcycle hstage)] at hhash
      exact .inr (hhash ▸ Cache.get?_insert_self _ _ _)
    | _ => exact .inl ⟨_, htelling, hhash⟩
  · refine .inr fun hlost => ?_
    rcases h.lost ht hcached hlost with hreset' | hevicts'
    · exact hreset hreset'
    · exact hevicts hevicts'

/-- Nobody is told of an object again who is informed already. -/
theorem not_announces_of_informed (hnew : Verifier.new config = .ok v₀)
    (hrun : v₀.run? events = some (responses, v)) (hhandle : v.handle? event = some (response, w))
    (hfree : NoCollisions ((events ++ [event]).flatMap Event.preimages))
    (hinformed : v.Informed hash) : ¬Transition.Announces ⟨v, event, response, w⟩ hash := by
  rintro ⟨notice, hnotice, rfl⟩
  have hstep := step_of_handle? hhandle
  have htelling := hstep.telling?_of_announced rfl hnotice
  have huncached := uncached_of_telling? hnew (run?_concat hrun hhandle) hfree htelling
  have hfree' := Event.noCollisions_of_append hfree
  have houtstanding {d : Delivery} (hd : d ∈ v.outstanding) :=
    uncached_of_mem_outstanding hnew hrun hfree' hd
  rcases hstep.of_announced rfl hnotice with ⟨hnone, hcache⟩ | ⟨current, d, rest, heq, hd, htold, hnow⟩
  · rcases hinformed with ⟨_, hold, -⟩ | hcached
    · rw [hnone] at hold
      cases hold
    · rw [Verifier.cached?, hcache] at huncached
      exact hcached huncached
  · subst hd
    have hcurrent : current ∈ v.outstanding := by simp [heq]
    have hnext : d ∈ v.outstanding := by simp [heq]
    rcases hinformed with ⟨_, hold, hhash⟩ | hcached
    · rw [htold] at hold
      cases hold
      rw [(houtstanding hcurrent).2.1] at hhash
      rw [← hhash] at huncached
      exact hnow huncached
    · rw [(houtstanding hnext).2.1] at hcached
      exact hcached (houtstanding hnext).1

/-- Until the verifier is reset, the entry evicted, or the call torn down, an object of which the
listener was told is not announced again. -/
theorem not_announces_of_trace (hnew : Verifier.new config = .ok v₀) {rest : List Event}
    (hrun : v₀.run? events = some (responses, v))
    (hfree : NoCollisions ((events ++ rest).flatMap Event.preimages)) (hinformed : v.Informed hash)
    {between after : List Transition} {again : Transition}
    (htrace : v.trace rest = between ++ again :: after)
    (hbetween : ∀ t ∈ between, t.event ≠ .reset ∧ ¬t.Evicts hash ∧ ¬t.Abandons hash) :
    ¬again.Announces hash := by
  induction between generalizing events responses v rest with
  | nil =>
    obtain ⟨rest, rfl, rfl, hhandle, -⟩ := trace_eq_cons htrace
    rw [List.append_cons] at hfree
    exact not_announces_of_informed hnew hrun hhandle (Event.noCollisions_of_append hfree) hinformed
  | cons t between ih =>
    obtain ⟨rest, rfl, rfl, hhandle, hrest⟩ := trace_eq_cons htrace
    obtain ⟨hreset, hevicts, habandons⟩ := hbetween t List.mem_cons_self
    rw [List.append_cons] at hfree
    have hfree' := Event.noCollisions_of_append (Event.noCollisions_of_append hfree)
    have hsubject : ∀ d ∈ t.before.outstanding, d.notice.subject.hash = d.hash :=
      fun d hd => (uncached_of_mem_outstanding hnew hrun hfree' hd).2.1
    refine ih (run?_concat hrun hhandle) hfree ?_ hrest fun t' ht' =>
      hbetween t' (List.mem_cons_of_mem _ ht')
    exact (step_of_handle? hhandle).informed rfl hsubject hinformed hreset hevicts habandons

/-! ## What is cached was delivered -/

/-- What the listener is being told was announced once, and nothing has been announced since. -/
theorem Run.exists_announced (hnew : Verifier.new config = .ok v₀)
    (h : v₀.Run .free events responses v) {notice : Notice} (htelling : v.telling? = some notice) :
    ∃ before told during, v₀.trace events = before ++ told :: during ∧
      told.notice? = some notice ∧ ∀ t ∈ during, t.notice? = none := by
  induction h with
  | nil =>
    rw [eq_of_new hnew] at htelling
    cases htelling
  | @concat events responses v event response w hrun _ hhandle ih =>
    rw [trace_concat hrun.run?_eq hhandle]
    rcases (step_of_handle? hhandle).notice?_eq rfl with heq | ⟨hnone, hcycle⟩
    · exact ⟨_, _, [], rfl, heq.trans htelling, by simp⟩
    · have hold : v.telling? = some notice := by
        rw [← htelling, telling?, telling?, awaited?, awaited?, hcycle]
      obtain ⟨before, told, during, htrace, htold, hduring⟩ := ih hold
      refine ⟨before, told, during ++ [⟨v, event, response, w⟩], by simp [htrace], htold, ?_⟩
      intro t ht
      rcases List.mem_append.mp ht with ht | ht
      · exact hduring t ht
      · rwa [List.mem_singleton.mp ht]

/-- A verdict is that of the last notice about an object; the listener has returned from it, and
the clock then read its timestamp. -/
def Delivered (v₀ : Verifier) (events : List Event) (hash : Hash) (cached : CachedVerdict) : Prop :=
  ∃ before told during returned after notice,
    v₀.trace events = before ++ told :: (during ++ returned :: after) ∧
    told.notice? = some notice ∧ notice.subject.hash = hash ∧
    (∀ t ∈ during, t.notice? = none) ∧ returned.before.telling? = some notice ∧
    returned.event = .delivered (some cached.timestamp) ∧
    (∀ t ∈ returned :: after, ¬t.Announces hash) ∧
    cached.verdict ≠ .unknown ∧ (notice.outcome = .verified ↔ cached.verdict = .passed)

theorem Run.delivered_of_cached (hnew : Verifier.new config = .ok v₀)
    (h : v₀.Run .free events responses v)
    (hfree : NoCollisions (events.flatMap Event.preimages)) {cached : CachedVerdict}
    (hcached : v.cached? hash = some cached) : v₀.Delivered events hash cached := by
  induction h with
  | nil =>
    rw [eq_of_new hnew] at hcached
    cases hcached
  | @concat events responses v event response w hrun _ hhandle ih =>
    have hstep := step_of_handle? hhandle
    have hfree' := Event.noCollisions_of_append hfree
    have hsilent : ¬Transition.Announces ⟨v, event, response, w⟩ hash := by
      rintro ⟨notice, hnotice, rfl⟩
      have htelling := hstep.telling?_of_announced rfl hnotice
      rw [uncached_of_telling? hnew (run?_concat hrun.run?_eq hhandle) hfree htelling] at hcached
      cases hcached
    rw [Delivered, trace_concat hrun.run?_eq hhandle]
    -- Either the entry is older than the event, or the event is the return that wrote it.
    rcases hstep.cached? hcached with hold | ⟨cycle, dispatched, current, rest, hcycle, hstage, hnow⟩
    · obtain ⟨before, told, during, returned, after, notice, htrace, htold, hhash, hduring, hreturned,
        hevent, hafter, hverdict⟩ := ih hfree' hold
      refine ⟨before, told, during, returned, after ++ [⟨v, event, response, w⟩], notice,
        by simp [htrace], htold, hhash, hduring, hreturned, hevent, ?_, hverdict⟩
      intro t ht
      rw [← List.cons_append, List.mem_append, List.mem_singleton] at ht
      rcases ht with ht | rfl
      · exact hafter t ht
      · exact hsilent
    · obtain ⟨rfl, hverdict, hevent⟩ := hnow
      have htelling := telling?_of_dispatching hcycle hstage
      obtain ⟨-, hhash, hresolved, houtcome⟩ := uncached_of_mem_outstanding hnew hrun.run?_eq
        hfree' (mem_outstanding_of_dispatching hcycle hstage)
      obtain ⟨before, told, during, htrace, htold, hduring⟩ := hrun.exists_announced hnew htelling
      refine ⟨before, told, during, ⟨v, event, response, w⟩, [], current.notice, by simp [htrace],
        htold, hhash, hduring, htelling, hevent, ?_, ?_⟩
      · intro t ht
        rw [List.mem_singleton.mp ht]
        exact hsilent
      · rw [← hverdict]
        exact ⟨hresolved, houtcome⟩

/-- The listener is told of no object whose verdict is cached, and every cached verdict is the one
that the listener was told last about the object and has returned from. Between two notices about
an object its entry was evicted or the verifier was reset, unless the first call was torn down, and
an object that was never announced is never cached. -/
theorem cached_verdicts_delivered (hnew : Verifier.new config = .ok v₀)
    (hrun : v₀.run? events = some (responses, v))
    (hfree : NoCollisions (events.flatMap Event.preimages)) :
    (∀ notice, v.telling? = some notice → v.cached? notice.subject.hash = none) ∧
      (∀ hash cached, v.cached? hash = some cached → v₀.Delivered events hash cached) ∧
      (∀ before told between again after hash,
        v₀.trace events = before ++ told :: (between ++ again :: after) →
        told.Announces hash → again.Announces hash → (∀ t ∈ between, ¬t.Abandons hash) →
        ∃ t ∈ between, t.event = .reset ∨ t.Evicts hash) ∧
      ∀ hash, (∀ notice ∈ v₀.notices events, notice.subject.hash ≠ hash) →
        v.cached? hash = none := by
  refine ⟨fun _ => uncached_of_telling? hnew hrun hfree,
    fun _ _ => (run_free hrun).delivered_of_cached hnew hfree, ?_, ?_⟩
  · intro before told between again after hash htrace htold hagain habandons
    by_contra hnone
    obtain ⟨events₁, rest, responses₁, rfl, hrun₁, hhandle, hrest⟩ := trace_eq_append htrace
    obtain ⟨notice, hnotice, hhash⟩ := htold
    have hinformed : told.after.Informed hash :=
      .inl ⟨notice, (step_of_handle? hhandle).telling?_of_announced rfl hnotice, hhash⟩
    rw [List.append_cons] at hfree
    refine not_announces_of_trace hnew (run?_concat hrun₁ hhandle) hfree hinformed hrest ?_ hagain
    intro t ht
    exact ⟨fun hreset => hnone ⟨t, ht, .inl hreset⟩, fun hevicts => hnone ⟨t, ht, .inr hevicts⟩,
      habandons t ht⟩
  · intro hash hsilent
    by_contra hcached
    obtain ⟨cached, hcached⟩ := Option.ne_none_iff_exists'.mp hcached
    obtain ⟨before, told, _, _, _, notice, htrace, htold, hhash, -⟩ :=
      (run_free hrun).delivered_of_cached hnew hfree hcached
    refine hsilent notice ?_ hhash
    rw [notices, htrace]
    exact List.mem_filterMap.mpr ⟨told, by simp, htold⟩

end Verifier

/-! ## A certificate that is verified twice -/

/-- With room for one verdict, the verdict on a certificate is evicted by that on another, and then
the first certificate is verified again. -/
def Event.verifyTwice : List Event :=
  Event.verifyOfQuality 0 0 ++ Event.verifyOfQuality 1 1 ++ Event.verifyOfQuality 0 2

namespace Verifier

/-- Between the two notices about the certificate its verdict is evicted; in the end the second
verdict is cached, and none on a certificate that was never told of. -/
theorem cached_verdicts_delivered_twice :
    ∃ (v₀ : Verifier) (responses : List Response) (v : Verifier)
      (before between after : List Transition) (told again : Transition),
      Verifier.new (.ofCapacity 1) = .ok v₀ ∧
      v₀.run? Event.verifyTwice = some (responses, v) ∧
      v₀.trace Event.verifyTwice = before ++ told :: (between ++ again :: after) ∧
      told.Announces (Certificate.ofQuality 0).hash ∧
      again.Announces (Certificate.ofQuality 0).hash ∧
      (∀ t ∈ between, ¬t.Abandons (Certificate.ofQuality 0).hash) ∧
      (∃ t ∈ between, t.event = .reset ∨ t.Evicts (Certificate.ofQuality 0).hash) ∧
      v.cached? (Certificate.ofQuality 0).hash = some ⟨2, .passed⟩ ∧
      v₀.Delivered Event.verifyTwice (Certificate.ofQuality 0).hash ⟨2, .passed⟩ ∧
      v.cached? (Certificate.ofQuality 2).hash = none := by
  obtain ⟨v₀, hnew⟩ : ∃ v₀, Verifier.new (.ofCapacity 1) = .ok v₀ := ⟨_, rfl⟩
  -- One evaluation for all that needs the hashes, as they take long to compute.
  obtain ⟨hdistinct, hnever, htold, hagain, hend⟩ :
      ([Certificate.ofQuality 0, .ofQuality 1].map Certificate.hash).Nodup ∧
      (Certificate.ofQuality 2).hash ∉ (v₀.notices Event.verifyTwice).map (·.subject.hash) ∧
      ((v₀.trace Event.verifyTwice)[3]?.bind Transition.notice?).map (·.subject) =
        some (.certificate (.ofQuality 0)) ∧
      ((v₀.trace Event.verifyTwice)[13]?.bind Transition.notice?).map (·.subject) =
        some (.certificate (.ofQuality 0)) ∧
      (v₀.run? Event.verifyTwice).map
        (fun run => run.2.cached? (Certificate.ofQuality 0).hash) = some (some ⟨2, .passed⟩) := by
    cases hnew
    decide +kernel
  obtain ⟨⟨responses, v⟩, hrun, hcached⟩ := Option.map_eq_some_iff.mp hend
  obtain ⟨notice, htold, hsubject⟩ := Option.map_eq_some_iff.mp htold
  obtain ⟨told, htold, hnotice⟩ := Option.bind_eq_some_iff.mp htold
  obtain ⟨notice', hagain, hsubject'⟩ := Option.map_eq_some_iff.mp hagain
  obtain ⟨again, hagain, hnotice'⟩ := Option.bind_eq_some_iff.mp hagain
  have hannounced : told.Announces (Certificate.ofQuality 0).hash :=
    ⟨notice, hnotice, congrArg Subject.hash hsubject⟩
  have hannounced' : again.Announces (Certificate.ofQuality 0).hash :=
    ⟨notice', hnotice', congrArg Subject.hash hsubject'⟩
  have hfree : NoCollisions (Event.verifyTwice.flatMap Event.preimages) := by
    have hcertificates : NoCollisions
        ([Certificate.ofQuality 0, .ofQuality 1].map Certificate.preimage) :=
      noCollisions_of_nodup hdistinct
    exact hcertificates.mono (by simp [Event.verifyTwice, Event.verifyOfQuality, Event.preimages])
  have htrace : v₀.trace Event.verifyTwice = (v₀.trace Event.verifyTwice).take 3 ++ told ::
      (((v₀.trace Event.verifyTwice).drop 4).take 9 ++ again ::
        (v₀.trace Event.verifyTwice).drop 14) := by
    obtain ⟨hlt, rfl⟩ := List.getElem?_eq_some_iff.mp htold
    obtain ⟨hlt', rfl⟩ := List.getElem?_eq_some_iff.mp hagain
    rw [← List.drop_eq_getElem_cons hlt', ← List.drop_drop (i := 9) (j := 4),
      List.take_append_drop, ← List.drop_eq_getElem_cons hlt, List.take_append_drop]
  have hreturns : ∀ t ∈ ((v₀.trace Event.verifyTwice).drop 4).take 9,
      ¬t.Abandons (Certificate.ofQuality 0).hash := by
    rintro t ht ⟨hevent, -⟩
    have hmem : t.event ∈ Event.verifyTwice := by
      rw [← trace_events hrun]
      exact List.mem_map_of_mem (List.mem_of_mem_drop (List.mem_of_mem_take ht))
    rw [hevent] at hmem
    simp [Event.verifyTwice, Event.verifyOfQuality] at hmem
  obtain ⟨-, hdelivered, hevicted, hsilent⟩ := cached_verdicts_delivered hnew hrun hfree
  refine ⟨v₀, responses, v, _, _, _, told, again, hnew, hrun, htrace, hannounced, hannounced',
    hreturns, hevicted _ _ _ _ _ _ htrace hannounced hannounced' hreturns, hcached,
    hdelivered _ _ hcached, hsilent _ fun notice hnotice hhash => hnever ?_⟩
  exact List.mem_map.mpr ⟨notice, hnotice, hhash⟩

end Verifier

end SidechainVerifier
