/-
SidechainVerifier.Proofs.WholeGroups — the requests of a transaction stay
together.

Deliveries take object and origin of a transaction from its first request
and combine the verdicts on all of them, so the requests held under a hash
must be those of one transaction, all of them, and of one enqueue.

Main statement: in every state of a run, each group of requests, pending or
in flight, is what a single enqueue of one transaction came to, with a
request for each of its withdrawals and no others (`Verifier.groups_whole`).
Pending groups are replaced by enqueueing again, groups in flight by handing
off again; that leaves nothing of the older group behind, since transactions
with one hash take the same positions.
-/
import SidechainVerifier.Proofs.WholeTransactions

namespace SidechainVerifier

open OrderedMap

/-! ## Groups made of the requests of a transaction -/

theorem pairwise_positions {n : Nat} (h32 : n ≤ 2 ^ 32) :
    ((List.range n).map UInt32.ofNat).Pairwise fun p q => compare p q = .lt := by
  refine List.pairwise_map.mpr (List.pairwise_lt_range.imp_of_mem fun {i j} hi hj hij => ?_)
  have hi := Nat.lt_of_lt_of_le (List.mem_range.mp hi) h32
  have hj := Nat.lt_of_lt_of_le (List.mem_range.mp hj) h32
  rwa [Std.compare_eq_lt, UInt32.lt_iff_toNat_lt, UInt32.toNat_ofNat_of_lt' hi,
    UInt32.toNat_ofNat_of_lt' hj]

/-- A group is listed in the order of the requests it was made of, if these are numbered in turn. -/
theorem Queue.keys_groupOf {rs : List WithdrawalRequest} {n : Nat} (h32 : n ≤ 2 ^ 32)
    (hpositions : rs.map (·.position) = (List.range n).map UInt32.ofNat) :
    (groupOf rs).keys = (List.range n).map UInt32.ofNat := by
  have hmem : ∀ position, position ∈ (groupOf rs).keys ↔
      position ∈ (List.range n).map UInt32.ofNat := fun position => by
    rw [mem_keys_iff, contains_groupOf, hpositions]
  have hperm := (List.perm_ext_iff_of_nodup (nodup_keys _) (nodup_positions h32)).mpr hmem
  refine hperm.eq_of_pairwise (fun p q _ _ hpq hqp => ?_) (sorted_keys _) (pairwise_positions h32)
  rw [Std.OrientedCmp.gt_of_lt hpq] at hqp
  cases hqp

/-- A group of requests is the whole of a transaction, as one enqueue of it left it. -/
structure Transaction.Whole (view : View) (t : Transaction) (origin : Option PeerId)
    (group : OrderedMap UInt32 WithdrawalRequest) : Prop where
  nonempty : group ≠ .empty
  positions : group.keys = (List.range t.withdrawals.length).map UInt32.ofNat
  shared : ∀ r ∈ group.values,
    r.transactionHash = t.hash ∧ r.transaction = t ∧ r.origin = origin
  extracted : ∀ i w, t.withdrawals[i]? = some w →
    ∃ r, group.get? (.ofNat i) = some r ∧ w.Requested view t origin i r

theorem Transaction.whole_groupOf {view : View} {t : Transaction} {origin : Option PeerId}
    {rs : List WithdrawalRequest} (h : t.requests view origin = .ok rs)
    (h32 : t.withdrawals.length ≤ 2 ^ 32) : t.Whole view origin (Queue.groupOf rs) := by
  obtain ⟨hne, hpositions, hmembers⟩ := requests_eq_ok h
  have hlength := length_requests h
  refine ⟨?_, Queue.keys_groupOf h32 hpositions, ?_, ?_⟩
  · intro hempty
    obtain ⟨r, rest, rfl⟩ := List.exists_cons_of_ne_nil hne
    have hcontains : (Queue.groupOf (r :: rest)).contains r.position = true :=
      Queue.contains_groupOf.mpr (by simp)
    rw [hempty] at hcontains
    cases hcontains
  · intro r hr
    exact hmembers r (Queue.mem_of_mem_values_groupOf hr)
  · intro i w hw
    obtain ⟨r, hr, hrequested⟩ := requested_of_requests h hw
    exact ⟨r, Queue.get?_groupOf_ofNat (hlength ▸ hpositions) (hlength ▸ h32) hr, hrequested⟩

/-! ## Along a run -/

namespace RequestSet

/-- Every group of a set is what one of the events came to. -/
structure Grouped (s : RequestSet) (events : List Event) : Prop where
  group : ∀ {hash group}, s.groups.get? hash = some group →
    ∃ event ∈ events, event.EnqueuesTransaction hash ∧ group = Queue.groupOf event.withdrawals

namespace Grouped

variable {s t : RequestSet} {events events' : List Event}

theorem mono (h : s.Grouped events) (hsub : events ⊆ events') : s.Grouped events' := by
  refine ⟨fun hgroup => ?_⟩
  obtain ⟨event, hevent, hcame⟩ := h.group hgroup
  exact ⟨event, hsub hevent, hcame⟩

theorem of_remainsOf (h : t.Grouped events) (hs : s.RemainsOf t) : s.Grouped events :=
  ⟨fun hgroup => h.group (hs.group hgroup)⟩

theorem empty (events : List Event) : RequestSet.empty.Grouped events :=
  ⟨fun hgroup => by simp [RequestSet.empty] at hgroup⟩

/-- What is handed off replaces what is in flight under the same hash. -/
theorem absorb (hs : s.Grouped events) (hknown : s.Known events) (ht : t.Grouped events)
    (hsame : ∀ hash, Event.SamePositions hash events) : (s.absorb t).Grouped events := by
  refine ⟨fun {hash group} hgroup => ?_⟩
  rw [groups_absorb] at hgroup
  split at hgroup
  next later hlater =>
    cases hgroup
    obtain ⟨event, hevent, henqueues, rfl⟩ := ht.group hlater
    exact ⟨event, hevent, henqueues,
      Verifier.union_of_known hknown (hsame hash) hevent henqueues⟩
  next => exact hs.group hgroup

end Grouped

theorem Latest.grouped {s : RequestSet} {events : List Event} (h : s.Latest events)
    (hsame : ∀ hash, Event.SamePositions hash events) : s.Grouped events := by
  refine ⟨fun {hash group} hgroup => ?_⟩
  obtain ⟨event, hlast, heq⟩ := h.group (hsame hash) hgroup
  exact ⟨event, hlast.mem, hlast.holds, heq⟩

end RequestSet

/-- The withdrawals of a transaction that is brought in can be told apart by their positions. -/
def Event.Numbered : Event → Prop
  | .enqueueTransaction _ transaction _ _ => transaction.withdrawals.length ≤ 2 ^ 32
  | _ => True

theorem Event.Numbered.fits {event : Event} (h : event.Numbered) : event.Fits := by
  cases event with
  | enqueueTransaction view transaction origin now => exact Nat.lt_of_le_of_lt h (by decide)
  | _ => trivial

namespace Verifier

variable {replies : Replies} {config : Config} {v₀ v : Verifier} {events : List Event}
  {responses : List Response}

/-- Every group in the queue is what one enqueue came to. -/
theorem Run.grouped (hnew : Verifier.new config = .ok v₀) (h : v₀.Run replies events responses v)
    (hsame : ∀ hash, Event.SamePositions hash events) :
    v.queue.pending.requests.Grouped events ∧ v.queue.inFlight.Grouped events := by
  refine ⟨(h.latest hnew).grouped hsame, ?_⟩
  induction h with
  | nil =>
    rw [eq_of_new hnew]
    exact .empty _
  | @concat events responses v event response w hrun _ hhandle ih =>
    have hsub : events ⊆ events ++ [event] := List.subset_append_left _ _
    have hsame' : ∀ hash, Event.SamePositions hash events := fun hash => (hsame hash).mono hsub
    refine RequestSet.Grouped.mono ?_ hsub
    rcases (step_of_handle? hhandle).inFlight with hremains | ⟨-, habsorb⟩
    · exact (ih hsame').of_remainsOf hremains
    · have hkept := ((hrun.latest hnew).grouped hsame').of_remainsOf (kept_remainsOf v)
      rw [habsorb]
      exact (ih hsame').absorb (hrun.known hnew).2 hkept hsame'

/-- Every group of requests in the queue is the whole of one transaction, held under its hash, as a
single enqueue of it left it. -/
theorem groups_whole (hnew : Verifier.new config = .ok v₀)
    (hrun : v₀.run? events = some (responses, v))
    (hfree : NoCollisions (events.flatMap Event.preimages)) (h32 : ∀ e ∈ events, e.Numbered)
    {hash : Hash} {group : OrderedMap UInt32 WithdrawalRequest}
    (hgroup : v.queue.pending.requests.groups.get? hash = some group ∨
      v.queue.inFlight.groups.get? hash = some group) :
    ∃ view t origin now, .enqueueTransaction view t origin now ∈ events ∧ t.hash = hash ∧
      t.Whole view origin group := by
  have hsame := Event.samePositions_of_noCollisions hfree fun e he => (h32 e he).fits
  obtain ⟨hpending, hflight⟩ := (run_free hrun).grouped hnew hsame
  obtain ⟨event, hevent, henqueues, rfl⟩ := hgroup.elim hpending.group hflight.group
  obtain ⟨view, t, origin, now, rfl, hrequests, hhash⟩ := henqueues.exists_transaction
  exact ⟨view, t, origin, now, hevent, hhash, Transaction.whole_groupOf hrequests (h32 _ hevent)⟩

/-- A transaction is enqueued twice, handed off, and enqueued once more while it is in flight. -/
def resubmitFromTwo : List Event :=
  [.enqueueTransaction .withTwoEmptyKeys .fromTwo none 0,
    .enqueueTransaction .withTwoEmptyKeys .fromTwo (some ⟨1⟩) 1, .start true 2,
    .enqueueTransaction .withTwoEmptyKeys .fromTwo (some ⟨2⟩) 3]

/-- Pending and in flight the transaction is whole, with the origin of one enqueue each. -/
theorem groups_whole_fromTwo :
    ∃ v₀ responses v pending inFlight, Verifier.new .default = .ok v₀ ∧
      v₀.run? resubmitFromTwo = some (responses, v) ∧
      v.queue.pending.requests.groups.get? Transaction.fromTwo.hash = some pending ∧
      v.queue.inFlight.groups.get? Transaction.fromTwo.hash = some inFlight ∧
      pending.values.map (·.origin) = [some ⟨2⟩, some ⟨2⟩] ∧
      inFlight.values.map (·.origin) = [some ⟨1⟩, some ⟨1⟩] ∧
      (∃ view t origin now, .enqueueTransaction view t origin now ∈ resubmitFromTwo ∧
        t.hash = Transaction.fromTwo.hash ∧ t.Whole view origin pending) ∧
      ∃ view t origin now, .enqueueTransaction view t origin now ∈ resubmitFromTwo ∧
        t.hash = Transaction.fromTwo.hash ∧ t.Whole view origin inFlight := by
  obtain ⟨v₀, hnew⟩ : ∃ v₀, Verifier.new .default = .ok v₀ := ⟨_, rfl⟩
  have hend : ((v₀.run? resubmitFromTwo).bind fun run =>
      (run.2.queue.pending.requests.groups.get? Transaction.fromTwo.hash).bind fun pending =>
        (run.2.queue.inFlight.groups.get? Transaction.fromTwo.hash).map fun inFlight =>
          (pending.values.map (·.origin), inFlight.values.map (·.origin))) =
      some ([some ⟨2⟩, some ⟨2⟩], [some ⟨1⟩, some ⟨1⟩]) := by
    cases hnew
    decide +kernel
  obtain ⟨⟨responses, v⟩, hrun, hend⟩ := Option.bind_eq_some_iff.mp hend
  obtain ⟨pending, hpending, hend⟩ := Option.bind_eq_some_iff.mp hend
  obtain ⟨inFlight, hflight, hend⟩ := Option.map_eq_some_iff.mp hend
  obtain ⟨horigins, horigins'⟩ := Prod.mk.inj hend
  have hfree : NoCollisions (resubmitFromTwo.flatMap Event.preimages) :=
    (noCollisions_singleton Transaction.fromTwo.preimage).mono fun x hx => by
      simpa [resubmitFromTwo, Event.preimages] using hx
  have h32 : ∀ e ∈ resubmitFromTwo, e.Numbered := by
    intro e he
    simp only [resubmitFromTwo, List.mem_cons, List.not_mem_nil, or_false] at he
    rcases he with rfl | rfl | rfl | rfl
    · exact (by decide : Transaction.fromTwo.withdrawals.length ≤ 2 ^ 32)
    · exact (by decide : Transaction.fromTwo.withdrawals.length ≤ 2 ^ 32)
    · trivial
    · exact (by decide : Transaction.fromTwo.withdrawals.length ≤ 2 ^ 32)
  exact ⟨v₀, responses, v, pending, inFlight, hnew, hrun, hpending, hflight, horigins, horigins',
    groups_whole hnew hrun hfree h32 (.inl hpending),
    groups_whole hnew hrun hfree h32 (.inr hflight)⟩

end Verifier

end SidechainVerifier
