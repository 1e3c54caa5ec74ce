/-
SidechainVerifier.Proofs.Triggers — how long a request waits before a batch
is due.

A batch is due when too many requests are pending, or when one has been
waiting too long. What counts as waiting is decided by the instants that the
queue keeps: every enqueue writes one, whether or not the request is pending
already, so they are the instants of the last enqueues (`Run.stamped`).

Main statement: a batch is due exactly when the pending requests are more
than the limit, or one of them was last enqueued longer ago than the longest
delay; and when it is due and no guard is live, a start starts it
(`shouldStart_iff_waited`). The instant at which a request was first
enqueued says nothing: one that is enqueued again and again does not become
due by its age (`resubmitted_not_due`).
-/
import SidechainVerifier.Proofs.FlatQueues
import SidechainVerifier.Proofs.Guards
import SidechainVerifier.Proofs.Resets

namespace SidechainVerifier

open OrderedMap

/-! ## When a request is enqueued -/

namespace Event

/-- The instant of an attempt to enqueue something. -/
def instant? : Event → Option Instant
  | .enqueueCertificate _ _ _ now => some now
  | .enqueueTransaction _ _ _ now => some now
  | _ => none

/-- A request with an identity is enqueued. -/
def Enqueues (id : RequestId) (event : Event) : Prop := ∃ r ∈ event.requests, r.id = id

end Event

/-! ## The instants of the queue -/

namespace Pending

/-- The pending requests with one more, of either family. -/
def enqueue (p : Pending) (now : Instant) : Request → Pending
  | .certificate r => p.enqueueCertificate r now
  | .withdrawal r => p.enqueueWithdrawal r now

/-- Pending requests after some events: with each goes the instant of its last enqueue. -/
def Stamped (p : Pending) (events : List Event) : Prop :=
  ∃ m, p.Represents m ∧ ∀ id r t, m.get? id = some (r, t) →
    ∃ event, LastOf (·.Enqueues id) event events ∧ event.instant? = some t

theorem Represents.enqueue {p : Pending} {m : OrderedMap RequestId (Request × Instant)}
    (h : p.Represents m) (now : Instant) (r : Request) :
    (p.enqueue now r).Represents (m.insert r.id (r, now)) := by
  cases r with
  | certificate r => exact h.enqueueCertificate r now
  | withdrawal r => exact h.enqueueWithdrawal r now

theorem Represents.foldl_enqueue {p : Pending} {m : OrderedMap RequestId (Request × Instant)}
    (h : p.Represents m) (now : Instant) (rs : List Request) :
    (rs.foldl (Pending.enqueue · now) p).Represents
      (rs.foldl (fun m r => m.insert r.id (r, now)) m) := by
  induction rs generalizing p m with
  | nil => exact h
  | cons r rest ih => exact ih (h.enqueue now r)

/-- An entry after requests have been enqueued is one of them, or was there and is none of them. -/
theorem of_get?_foldl_insert {m : OrderedMap RequestId (Request × Instant)} {now : Instant}
    {rs : List Request} {id : RequestId} {entry : Request × Instant}
    (h : (rs.foldl (fun m r => m.insert r.id (r, now)) m).get? id = some entry) :
    (∃ r ∈ rs, r.id = id) ∧ entry.2 = now ∨ (∀ r ∈ rs, r.id ≠ id) ∧ m.get? id = some entry := by
  induction rs generalizing m with
  | nil => exact .inr ⟨by simp, h⟩
  | cons r rest ih =>
    rcases ih h with ⟨⟨r', hr', hid⟩, htime⟩ | ⟨hne, hget⟩
    · exact .inl ⟨⟨r', List.mem_cons_of_mem _ hr', hid⟩, htime⟩
    · rw [get?_insert_eq] at hget
      split at hget
      next hid =>
        cases hget
        exact .inl ⟨⟨r, List.mem_cons_self, hid.symm⟩, rfl⟩
      next hid => exact .inr ⟨List.forall_mem_cons.mpr ⟨Ne.symm hid, hne⟩, hget⟩

namespace Stamped

variable {p : Pending} {events : List Event} {event : Event}

theorem empty (events : List Event) : Pending.empty.Stamped events := by
  refine ⟨.empty, .empty, ?_⟩
  intro id r t hget
  rw [get?_empty] at hget
  cases hget

/-- An event that brings nothing in leaves the instants as they are. -/
theorem concat (h : p.Stamped events) (hnil : event.requests = []) :
    p.Stamped (events ++ [event]) := by
  obtain ⟨m, hm, hstamp⟩ := h
  refine ⟨m, hm, ?_⟩
  intro id r t hget
  obtain ⟨e, hlast, hinstant⟩ := hstamp id r t hget
  refine ⟨e, hlast.concat ?_, hinstant⟩
  rintro ⟨r, hr, -⟩
  rw [hnil] at hr
  cases hr

/-- Whatever is enqueued is stamped with the instant of its event, also if it was pending. -/
theorem enqueue (h : p.Stamped events) {now : Instant} (hnow : event.instant? = some now) :
    (event.requests.foldl (Pending.enqueue · now) p).Stamped (events ++ [event]) := by
  obtain ⟨m, hm, hstamp⟩ := h
  refine ⟨_, hm.foldl_enqueue now event.requests, ?_⟩
  intro id r t hget
  rcases of_get?_foldl_insert hget with ⟨henqueues, htime⟩ | ⟨hne, hget⟩
  · obtain rfl : t = now := htime
    exact ⟨event, .concat_self henqueues, hnow⟩
  · obtain ⟨e, hlast, hinstant⟩ := hstamp id r t hget
    refine ⟨e, hlast.concat ?_, hinstant⟩
    rintro ⟨r', hr', hid⟩
    exact hne r' hr' hid

end Stamped

end Pending

/-! ## Runs -/

namespace Verifier

variable {replies : Replies} {config : Config} {v₀ v w : Verifier} {event : Event}
  {events : List Event} {response : Response} {responses : List Response}

/-- A step enqueues what its event brings in, or brings nothing in and leaves what is pending, or
nothing. -/
theorem Step.pending_eq (h : v.Step event response w) :
    (∃ now, event.instant? = some now ∧
      w.queue.pending = event.requests.foldl (Pending.enqueue · now) v.queue.pending) ∨
    event.requests = [] ∧
      (w.queue.pending = v.queue.pending ∨ w.queue.pending = .empty) := by
  cases h with
  | @enqueueCertificate view certificate origin now r h =>
    refine .inl ⟨now, rfl, ?_⟩
    simp only [Event.requests, Event.certificate?, Event.withdrawals, h, Except.toOption,
      Option.toList_some, List.map_cons, List.map_nil, List.append_nil, List.foldl_cons,
      List.foldl_nil]
    rfl
  | refuseCertificate h =>
    refine .inr ⟨?_, .inl rfl⟩
    simp [Event.requests, Event.certificate?, Event.withdrawals, h, Except.toOption]
  | @enqueueTransaction view transaction origin now rs h =>
    refine .inl ⟨now, rfl, ?_⟩
    simp only [Event.requests, Event.certificate?, Event.withdrawals, h, Except.toOption,
      Option.toList_none, List.map_nil, List.nil_append, Option.getD_some, List.foldl_map]
    rfl
  | refuseTransaction h =>
    refine .inr ⟨?_, .inl rfl⟩
    simp [Event.requests, Event.certificate?, Event.withdrawals, h, Except.toOption]
  | reset _ => exact .inr ⟨rfl, .inr rfl⟩
  | purge _ _ => exact .inr ⟨rfl, .inr rfl⟩
  | handOff _ _ _ => exact .inr ⟨rfl, .inr rfl⟩
  | consulted _ _ hreply _ => exact .inr ⟨requests_eq_nil_of_reply hreply, .inl rfl⟩
  | abandoned _ _ hreply => exact .inr ⟨requests_eq_nil_of_reply hreply, .inl rfl⟩
  | _ => exact .inr ⟨rfl, .inl rfl⟩

/-- With each pending request goes the instant of its last enqueue. -/
theorem Run.stamped (hnew : Verifier.new config = .ok v₀) (h : v₀.Run replies events responses v) :
    v.queue.pending.Stamped events := by
  induction h with
  | nil =>
    rw [eq_of_new hnew]
    exact .empty _
  | concat _ _ hhandle ih =>
    rcases (step_of_handle? hhandle).pending_eq with ⟨now, hnow, hpending⟩ | ⟨hnil, hpending⟩
    · rw [hpending]
      exact ih.enqueue hnow
    · rcases hpending with hpending | hpending
      · rw [hpending]
        exact ih.concat hnil
      · rw [hpending]
        exact .empty _

/-! ## When a batch is due -/

/-- A request is pending after some events, and was last enqueued at an instant. -/
structure WaitsSince (v : Verifier) (events : List Event) (id : RequestId) (t : Instant) :
    Prop where
  pending : v.queue.pending.requests.request? id ≠ none
  enqueued : ∃ event, LastOf (·.Enqueues id) event events ∧ event.instant? = some t

/-- The instants of the queue are those since which requests wait. -/
theorem mem_enqueuedAt_iff (h : v.queue.pending.Stamped events) {t : Instant} :
    t ∈ v.queue.pending.enqueuedAt.values ↔ ∃ id, v.WaitsSince events id t := by
  obtain ⟨m, hm, hstamp⟩ := h
  rw [hm.enqueuedAt, mem_values_iff]
  constructor
  · rintro ⟨id, hget⟩
    rw [get?_map, Option.map_eq_some_iff] at hget
    obtain ⟨⟨r, t'⟩, hget, rfl⟩ := hget
    refine ⟨id, ?_, hstamp id r t' hget⟩
    rw [hm.requests.request?_eq, get?_map, hget]
    exact Option.some_ne_none r
  · rintro ⟨id, hpending, event, hlast, hinstant⟩
    rw [hm.requests.request?_eq, get?_map, ne_eq, Option.map_eq_none_iff, ← ne_eq,
      Option.ne_none_iff_exists'] at hpending
    obtain ⟨⟨r, t'⟩, hget⟩ := hpending
    obtain ⟨event', hlast', hinstant'⟩ := hstamp id r t' hget
    rw [hlast.unique hlast', hinstant'] at hinstant
    cases hinstant
    exact ⟨id, by rw [get?_map, hget, Option.map_some]⟩

theorem oldestAge?_any_iff {q : Queue} {now : Instant} {delay : Nat} :
    (q.oldestAge? now).any (fun age => age > delay) = true ↔
      ∃ t ∈ q.pending.enqueuedAt.values, delay < now - t := by
  unfold Queue.oldestAge?
  cases hmin : q.pending.enqueuedAt.values.min? with
  | none =>
    rw [List.min?_eq_none_iff] at hmin
    simp [hmin]
  | some oldest =>
    rw [List.min?_eq_some_iff] at hmin
    simp only [Option.map_some, Option.any_some, decide_eq_true_eq]
    constructor
    · intro hage
      exact ⟨oldest, hmin.1, hage⟩
    · rintro ⟨t, ht, hage⟩
      exact Nat.lt_of_lt_of_le hage (Nat.sub_le_sub_left (hmin.2 t ht) now)

theorem shouldStart_iff {now : Instant} :
    v.shouldStart now = true ↔ v.limits.maxSize < v.queue.pendingCount ∨
      ∃ t ∈ v.queue.pending.enqueuedAt.values, v.limits.maxDelay * 1000000 < now - t := by
  unfold shouldStart
  rw [Bool.and_eq_true, Bool.or_eq_true, oldestAge?_any_iff, decide_eq_true_eq, decide_eq_true_eq]
  constructor
  · rintro ⟨-, h⟩
    exact h
  · intro h
    refine ⟨?_, h⟩
    rcases h with hsize | ⟨t, ht, -⟩
    · exact Nat.lt_of_le_of_lt (Nat.zero_le _) hsize
    · rw [gt_iff_lt, Queue.pendingCount, ← length_values]
      exact List.length_pos_of_mem ht

/-- A batch is due exactly when more requests are pending than the limit, or when one was last
enqueued longer ago than the longest delay. If it is due, no cycle is in progress and no guard is
live, then a start that is not forced starts it. -/
theorem shouldStart_iff_waited (hnew : Verifier.new config = .ok v₀)
    (hrun : v₀.run? events = some (responses, v)) (now : Instant) :
    (v.shouldStart now = true ↔
      config.limits.maxSize < v.queue.pendingCount ∨
        ∃ id t, v.WaitsSince events id t ∧ config.limits.maxDelay * 1000000 < now - t) ∧
    (v.shouldStart now = true → v.cycle = none → (∀ number, ¬LiveGuard events number) →
      v.handle? (.start false now) = some (stepped v.startBatch)) := by
  have hstamped := (run_free hrun).stamped hnew
  constructor
  · rw [shouldStart_iff, ((run_free hrun).keeps hnew).limits_eq]
    refine or_congr_right ?_
    constructor
    · rintro ⟨t, ht, hage⟩
      obtain ⟨id, hwaits⟩ := (mem_enqueuedAt_iff hstamped).mp ht
      exact ⟨id, t, hwaits, hage⟩
    · rintro ⟨id, t, hwaits, hage⟩
      exact ⟨t, (mem_enqueuedAt_iff hstamped).mpr ⟨id, hwaits⟩, hage⟩
  · intro hdue hcycle hguards
    have hslot : v.gate.grantsSlot = true :=
      ((run_free hrun).tracks hnew).grantsSlot_iff.mpr hguards
    rw [handle?_start hcycle, hdue, hslot]
    rfl

/-- The blank certificate is enqueued, and again four seconds later. -/
def resubmitBlank : List Event :=
  [.enqueueCertificate (.ofKey ⟨[]⟩) .blank none 0,
    .enqueueCertificate (.ofKey ⟨[]⟩) .blank none 4000000000]

/-- Five seconds after the second enqueue, the certificate makes a batch due. -/
theorem shouldStart_iff_waited_blank :
    ∃ v₀ responses v, Verifier.new .default = .ok v₀ ∧
      v₀.run? resubmitBlank = some (responses, v) ∧
      (∃ id t, v.WaitsSince resubmitBlank id t ∧
        Config.default.limits.maxDelay * 1000000 < 9000000001 - t) ∧
      v.handle? (.start false 9000000001) = some (stepped v.startBatch) := by
  obtain ⟨v₀, hnew⟩ : ∃ v₀, Verifier.new .default = .ok v₀ := ⟨_, rfl⟩
  have hend : ((v₀.run? resubmitBlank).map fun run =>
      (run.2.shouldStart 9000000001, run.2.queue.pendingCount, run.2.cycle.isNone,
        run.2.gate.grantsSlot)) = some (true, 1, true, true) := by
    cases hnew
    decide +kernel
  obtain ⟨⟨responses, v⟩, hrun, hend⟩ := Option.map_eq_some_iff.mp hend
  simp only [Prod.mk.injEq] at hend
  obtain ⟨hdue, hcount, hcycle, hslot⟩ := hend
  obtain ⟨hiff, hstarts⟩ := shouldStart_iff_waited hnew hrun 9000000001
  have hsize : ¬Config.default.limits.maxSize < v.queue.pendingCount := by
    rw [hcount]
    decide
  refine ⟨v₀, responses, v, hnew, hrun, (hiff.mp hdue).resolve_left hsize, ?_⟩
  exact hstarts hdue (Option.isNone_iff_eq_none.mp hcycle)
    (((run_free hrun).tracks hnew).grantsSlot_iff.mp hslot)

/-- A certificate that has been pending for longer than the longest delay, but was enqueued again in
the meantime, does not make a batch due. -/
theorem resubmitted_not_due :
    ∃ v₀ u v r responses responses', Verifier.new .default = .ok v₀ ∧
      v₀.run? (resubmitBlank.take 1) = some (responses, u) ∧
      u.run? (resubmitBlank.drop 1) = some (responses', v) ∧
      u.queue.pending.requests.requests = [r] ∧ v.queue.pending.requests.requests = [r] ∧
      Config.default.limits.maxDelay * 1000000 < 6000000000 - 0 ∧
      v.shouldStart 6000000000 = false ∧
      v.handle? (.start false 6000000000) = some (.stepped [] (.finished .notTriggered), v) := by
  obtain ⟨v₀, hnew⟩ : ∃ v₀, Verifier.new .default = .ok v₀ := ⟨_, rfl⟩
  have hend : ((v₀.run? (resubmitBlank.take 1)).bind fun first =>
      (first.2.run? (resubmitBlank.drop 1)).map fun second =>
        (first.2.queue.pending.requests.requests == second.2.queue.pending.requests.requests,
          first.2.queue.pending.requests.requests.length, second.2.shouldStart 6000000000,
          second.2.cycle.isNone)) = some (true, 1, false, true) := by
    cases hnew
    decide +kernel
  obtain ⟨⟨responses, u⟩, hfirst, hend⟩ := Option.bind_eq_some_iff.mp hend
  obtain ⟨⟨responses', v⟩, hsecond, hend⟩ := Option.map_eq_some_iff.mp hend
  simp only [Prod.mk.injEq, beq_iff_eq] at hend
  obtain ⟨hsame, hlength, hdue, hcycle⟩ := hend
  obtain ⟨r, hr⟩ := List.length_eq_one_iff.mp hlength
  refine ⟨v₀, u, v, r, responses, responses', hnew, hfirst, hsecond, hr, hsame ▸ hr, by decide,
    hdue, ?_⟩
  rw [handle?_start (Option.isNone_iff_eq_none.mp hcycle), hdue]
  rfl

end Verifier

end SidechainVerifier
