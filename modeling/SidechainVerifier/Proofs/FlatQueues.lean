/-
SidechainVerifier.Proofs.FlatQueues — the queue, seen as two flat maps.

`FlatQueue` is the queue as its users think of it: one map from identities
to requests and the instants at which they were last enqueued, and one map
from identities to the requests in flight. The queue keeps three maps for
what waits, one of them nested, and two for what is in flight.
`Queue.Refines` relates the two, every operation keeps the relation and
answers alike (`Refines.perform`), and whatever can be observed is the same
on both sides (`Refines.observe`). `performAll_observed` puts this together
for all sequences of operations.
-/
import SidechainVerifier.Proofs.FlatSets

namespace SidechainVerifier

open OrderedMap

/-! ## Reading the contents of a set -/

/-- What can be read off a set of requests. -/
structure Contents where
  certificateCount : Nat
  transactionCount : Nat
  requestCount : Nat
  isEmpty : Bool
  certificates : List CertificateRequest
  /-- The withdrawals of each transaction with their positions. -/
  groups : List (Hash × List (UInt32 × WithdrawalRequest))
  requests : List Request
deriving DecidableEq

/-- What can be read off the set. -/
def RequestSet.contents (s : RequestSet) : Contents where
  certificateCount := s.certificateCount
  transactionCount := s.transactionCount
  requestCount := s.requestCount
  isEmpty := s.isEmpty
  certificates := s.certificates.values
  groups := s.groups.entries.map fun (hash, group) => (hash, group.entries)
  requests := s.requests

namespace FlatMap

/-- An entry's withdrawal and its position, if its identity belongs to the transaction. -/
def withdrawalOf? (transaction : Hash) : RequestId × Request → Option (UInt32 × WithdrawalRequest)
  | (.withdrawal transaction' position, .withdrawal r) =>
    if transaction' = transaction then some (position, r) else none
  | _ => none

/-- What can be read off a flat map from identities to requests. -/
def contents (m : OrderedMap RequestId Request) : Contents where
  certificateCount := (RequestId.certificates m.keys).length
  transactionCount := (RequestId.transactions m.keys).length
  requestCount := m.size
  isEmpty := m.isEmpty
  certificates := m.values.filterMap Request.certificate?
  groups := (RequestId.transactions m.keys).map fun transaction =>
    (transaction, m.entries.filterMap (withdrawalOf? transaction))
  requests := m.values

theorem withdrawalOf?_eq_some_iff {transaction : Hash} {e : RequestId × Request} {position : UInt32}
    {r : WithdrawalRequest} :
    withdrawalOf? transaction e = some (position, r) ↔
      e = (.withdrawal transaction position, .withdrawal r) := by
  obtain ⟨id, r'⟩ := e
  cases id <;> cases r' <;> simp [withdrawalOf?, and_assoc]

end FlatMap

namespace RequestSet.Represents

variable {s : RequestSet} {m : OrderedMap RequestId Request}

theorem certificates_values (h : s.Represents m) :
    m.values.filterMap Request.certificate? = s.certificates.values := by
  have hcertificates : (s.certificates.values.map Request.certificate).filterMap
      Request.certificate? = s.certificates.values := by
    rw [List.filterMap_map]
    exact List.filterMap_some
  have hwithdrawals : (s.groups.values.flatMap fun group => group.values.map Request.withdrawal).filterMap
      Request.certificate? = [] := by
    refine List.filterMap_eq_nil_iff.mpr ?_
    intro r hr
    obtain ⟨group, -, hr⟩ := List.mem_flatMap.mp hr
    obtain ⟨w, -, rfl⟩ := List.mem_map.mp hr
    rfl
  rw [← h.requests_eq, requests, List.filterMap_append, hcertificates, hwithdrawals, List.append_nil]

/-- A group's entries are those of the flat map that belong to its transaction. -/
theorem group_entries (h : s.Represents m) {hash : Hash} {group : OrderedMap UInt32 WithdrawalRequest}
    (hgroup : s.groups.get? hash = some group) :
    group.entries = m.entries.filterMap (FlatMap.withdrawalOf? hash) := by
  refine pairwise_ext group.sorted ?_ ?_
  · refine List.pairwise_filterMap.mpr (m.sorted.imp ?_)
    intro e e' hlt a ha a' ha'
    rw [FlatMap.withdrawalOf?_eq_some_iff.mp ha, FlatMap.withdrawalOf?_eq_some_iff.mp ha'] at hlt
    change (compare hash hash).then (compare a.1 a'.1) = .lt at hlt
    rwa [Std.ReflOrd.compare_self] at hlt
  · intro ⟨position, r⟩
    have hrequest : s.request? (.withdrawal hash position) = some (.withdrawal r) ↔
        group.get? position = some r := by
      simp [request?, hgroup]
    simp only [mem_entries_iff, List.mem_filterMap, FlatMap.withdrawalOf?_eq_some_iff,
      exists_eq_right, ← h.request?_eq, hrequest]

theorem contents_eq (h : s.Represents m) : s.contents = FlatMap.contents m := by
  have hgroups : s.groups.entries.map (fun (hash, group) => (hash, group.entries)) =
      s.groups.keys.map fun hash => (hash, m.entries.filterMap (FlatMap.withdrawalOf? hash)) := by
    rw [keys, List.map_map]
    refine List.map_congr_left ?_
    intro e he
    exact congrArg (Prod.mk e.1) (h.group_entries ((mem_entries_iff _ _ _).mp he))
  rw [contents, FlatMap.contents, hgroups, h.certificates_keys, h.transactions_keys, length_keys,
    length_keys, h.certificates_values, h.requestCount_eq, h.isEmpty_eq, h.requests_eq]
  rfl

theorem parentCount_eq (h : s.Represents m) : s.parentCount = RequestId.parentCount m.keys := by
  rw [RequestId.parentCount, h.certificates_keys, h.transactions_keys, length_keys, length_keys]
  rfl

/-- The objects counted are the parents that the set has. -/
theorem length_parents (h : s.Represents m) : s.parents.length = RequestId.parentCount m.keys := by
  rw [← RequestSet.parentCount_eq, h.parentCount_eq]

theorem idsOf_isEmpty (h : s.Represents m) (hash : Hash) :
    (!(s.idsOf hash).isEmpty) = m.keys.any fun id => id.parent = hash := by
  rw [Bool.eq_iff_iff, Bool.not_eq_true', List.isEmpty_eq_false_iff_exists_mem, List.any_eq_true]
  simp only [mem_idsOf, mem_keys_iff, contains, h.request?_eq, decide_eq_true_eq, and_comm]

end RequestSet.Represents

/-! ## Pending requests -/

namespace Pending

/-- Pending requests, as one map from identities to requests and the instants of their last
enqueues. -/
structure Represents (p : Pending) (m : OrderedMap RequestId (Request × Instant)) : Prop where
  requests : p.requests.Represents (m.map Prod.fst)
  enqueuedAt : p.enqueuedAt = m.map Prod.snd

namespace Represents

variable {p : Pending} {m : OrderedMap RequestId (Request × Instant)}

theorem empty : Pending.empty.Represents .empty := ⟨.empty, rfl⟩

theorem enqueueCertificate (h : p.Represents m) (r : CertificateRequest) (now : Instant) :
    (p.enqueueCertificate r now).Represents (m.insert r.id (.certificate r, now)) where
  requests := by
    rw [map_insert]
    exact h.requests.insertCertificate r
  enqueuedAt := by
    rw [map_insert, ← h.enqueuedAt]
    rfl

theorem enqueueWithdrawal (h : p.Represents m) (r : WithdrawalRequest) (now : Instant) :
    (p.enqueueWithdrawal r now).Represents (m.insert r.id (.withdrawal r, now)) where
  requests := by
    rw [map_insert]
    exact h.requests.insertWithdrawal r
  enqueuedAt := by
    rw [map_insert, ← h.enqueuedAt]
    rfl

theorem enqueueWithdrawals (h : p.Represents m) (rs : List WithdrawalRequest) (now : Instant) :
    (rs.foldl (fun p r => p.enqueueWithdrawal r now) p).Represents
      (rs.foldl (fun m r => m.insert r.id (.withdrawal r, now)) m) := by
  induction rs generalizing p m with
  | nil => exact h
  | cons r rest ih => exact ih (h.enqueueWithdrawal r now)

/-- The instants that go with a hash are those of the requests that go. -/
theorem removeParent (h : p.Represents m) (hash : Hash) :
    (p.removeParent hash).Represents (m.filter fun id _ => id.parent != hash) where
  requests := by
    rw [map_filter]
    exact h.requests.removeParent hash
  enqueuedAt := by
    refine ext_get? ?_
    intro id
    have hid : id ∈ p.requests.idsOf hash ↔ id.parent = hash ∧ (m.get? id).isSome := by
      rw [RequestSet.mem_idsOf, h.requests.request?_eq, get?_map, Option.isSome_map]
    change ((p.requests.idsOf hash).foldl OrderedMap.erase p.enqueuedAt).get? id = _
    rw [get?_foldl_erase, h.enqueuedAt, get?_map, get?_map, get?_filter_keys]
    by_cases hparent : id.parent = hash
    · cases hget : m.get? id <;> simp [hid, hparent, hget]
    · simp [hid, hparent]

theorem foldl_removeParent (h : p.Represents m) (l : List Hash) :
    (l.foldl Pending.removeParent p).Represents (m.filter fun id _ => id.parent ∉ l) := by
  induction l generalizing p m with
  | nil =>
    have hall : (m.filter fun id _ => id.parent ∉ []) = m :=
      ext_get? fun id => by simp [get?_filter_keys]
    rwa [hall]
  | cons hash rest ih =>
    have hcons : (m.filter fun id _ => id.parent ∉ hash :: rest) =
        (m.filter fun id _ => id.parent != hash).filter fun id _ => id.parent ∉ rest := by
      refine ext_get? ?_
      intro id
      by_cases hhash : id.parent = hash <;> simp [get?_filter_keys, hhash]
    rw [hcons]
    exact ih (h.removeParent hash)

theorem purge (h : p.Represents m) (isResolved : Hash → Bool) :
    (p.purge isResolved).1 = RequestId.parentCount (m.filter fun id _ => isResolved id.parent).keys ∧
      (p.purge isResolved).2.Represents (m.filter fun id _ => !isResolved id.parent) := by
  constructor
  · have hresolved := h.requests.filter isResolved
    rw [← map_filter] at hresolved
    change (p.requests.parents.filter isResolved).length = _
    rw [← RequestSet.parents_filter, hresolved.length_parents, keys_map]
  · -- The queue removes the parents that it lists; the flat map is filtered by every parent. They
    -- agree, as the parent of an entry is listed.
    have hkept : (m.filter fun id _ => !isResolved id.parent) =
        m.filter fun id _ => id.parent ∉ p.requests.parents.filter isResolved := by
      refine ext_get? ?_
      intro id
      rw [get?_filter_keys, get?_filter_keys]
      cases hget : m.get? id with
      | none => simp
      | some entry =>
        have hparent : id.parent ∈ p.requests.parents := by
          refine RequestSet.parent_mem_parents ?_
          rw [h.requests.request?_eq, get?_map, hget]
          rfl
        simp [hparent]
    rw [hkept]
    exact h.foldl_removeParent _

end Represents

end Pending

/-! ## Operations and observations -/

namespace Queue

/-- The operations of a queue. -/
inductive Operation where
  | enqueueCertificate (request : CertificateRequest) (now : Instant)
  | enqueueWithdrawals (requests : List WithdrawalRequest) (now : Instant)
  | drain (isResolved : Hash → Bool)
  | take
  | discard (hash : Hash)
  | discardAll
  | clear

/-- What an operation answers. -/
inductive Answer where
  | done
  | drained (result : Drained)
  | taken (contents : Contents)
  | found (present : Bool)
  | dropped (count : Nat)
deriving DecidableEq

/-- What can be observed of a queue between operations. -/
structure Observation where
  pendingCertificates : Nat
  pendingTransactions : Nat
  pendingCount : Nat
  inFlightCount : Nat
  oldestAge? : Instant → Option Nat

/-- Performs an operation. -/
def perform (q : Queue) : Operation → Answer × Queue
  | .enqueueCertificate r now => (.done, q.enqueueCertificate r now)
  | .enqueueWithdrawals rs now => (.done, q.enqueueWithdrawals rs now)
  | .drain isResolved => (q.drain isResolved).map .drained id
  | .take => q.take.map (fun s => .taken s.contents) id
  | .discard hash => (q.discard hash).map .found id
  | .discardAll => q.discardAll.map .dropped id
  | .clear => (.done, .empty)

/-- Performs operations one after the other. -/
def performAll (q : Queue) (operations : List Operation) : Queue :=
  operations.foldl (fun q operation => (q.perform operation).2) q

/-- What can be observed of the queue. -/
def observe (q : Queue) : Observation where
  pendingCertificates := q.pendingCertificates
  pendingTransactions := q.pendingTransactions
  pendingCount := q.pendingCount
  inFlightCount := q.inFlightCount
  oldestAge? := q.oldestAge?

end Queue

/-! ## The flat queue -/

/-- A queue as two flat maps. -/
structure FlatQueue where
  /-- The requests that wait, with the instants of their last enqueues. -/
  pending : OrderedMap RequestId (Request × Instant)
  inFlight : OrderedMap RequestId Request

namespace FlatQueue

/-- The empty queue. -/
def empty : FlatQueue := ⟨.empty, .empty⟩

/-- The pending entries whose parents satisfy a condition. -/
def purged (q : FlatQueue) (isResolved : Hash → Bool) : OrderedMap RequestId (Request × Instant) :=
  q.pending.filter fun id _ => isResolved id.parent

/-- The pending entries whose parents do not satisfy a condition. -/
def kept (q : FlatQueue) (isResolved : Hash → Bool) : OrderedMap RequestId (Request × Instant) :=
  q.pending.filter fun id _ => !isResolved id.parent

/-- Performs an operation. -/
def perform (q : FlatQueue) : Queue.Operation → Queue.Answer × FlatQueue
  | .enqueueCertificate r now =>
    (.done, { q with pending := q.pending.insert r.id (.certificate r, now) })
  | .enqueueWithdrawals rs now =>
    (.done, { q with pending := rs.foldl (fun m r => m.insert r.id (.withdrawal r, now)) q.pending })
  | .drain isResolved =>
    let batch := (q.kept isResolved).map Prod.fst
    (.drained ⟨RequestId.parentCount (q.purged isResolved).keys, batch.values⟩,
      ⟨.empty, q.inFlight.union batch⟩)
  | .take => (.taken (FlatMap.contents q.inFlight), { q with inFlight := .empty })
  | .discard hash =>
    (.found (q.inFlight.keys.any fun id => id.parent = hash),
      { q with inFlight := q.inFlight.filter fun id _ => id.parent != hash })
  | .discardAll =>
    (.dropped (RequestId.parentCount q.inFlight.keys), { q with inFlight := .empty })
  | .clear => (.done, .empty)

/-- Performs operations one after the other. -/
def performAll (q : FlatQueue) (operations : List Queue.Operation) : FlatQueue :=
  operations.foldl (fun q operation => (q.perform operation).2) q

/-- What can be observed of the queue. -/
def observe (q : FlatQueue) : Queue.Observation where
  pendingCertificates := (RequestId.certificates q.pending.keys).length
  pendingTransactions := (RequestId.transactions q.pending.keys).length
  pendingCount := q.pending.size
  inFlightCount := q.inFlight.size
  oldestAge? now := (q.pending.values.map Prod.snd).min?.map fun oldest => now - oldest

end FlatQueue

/-! ## Refinement -/

namespace Queue

/-- A queue holds what a flat queue holds. -/
structure Refines (q : Queue) (f : FlatQueue) : Prop where
  pending : q.pending.Represents f.pending
  inFlight : q.inFlight.Represents f.inFlight

theorem refines_empty : empty.Refines .empty := ⟨.empty, .empty⟩

namespace Refines

variable {q : Queue} {f : FlatQueue}

theorem drain (h : q.Refines f) (isResolved : Hash → Bool) :
    (q.perform (.drain isResolved)).1 = (f.perform (.drain isResolved)).1 ∧
      (q.perform (.drain isResolved)).2.Refines (f.perform (.drain isResolved)).2 := by
  obtain ⟨hremoved, hkept⟩ := h.pending.purge isResolved
  refine ⟨congrArg Answer.drained (congr (congrArg Drained.mk hremoved) hkept.requests.requests_eq), ?_⟩
  exact ⟨.empty, h.inFlight.absorb hkept.requests⟩

/-- Every operation answers the same on both sides and keeps them related. -/
theorem perform (h : q.Refines f) (operation : Operation) :
    (q.perform operation).1 = (f.perform operation).1 ∧
      (q.perform operation).2.Refines (f.perform operation).2 := by
  cases operation with
  | enqueueCertificate r now => exact ⟨rfl, h.pending.enqueueCertificate r now, h.inFlight⟩
  | enqueueWithdrawals rs now => exact ⟨rfl, h.pending.enqueueWithdrawals rs now, h.inFlight⟩
  | drain isResolved => exact h.drain isResolved
  | take => exact ⟨congrArg Answer.taken h.inFlight.contents_eq, h.pending, .empty⟩
  | discard hash =>
    exact ⟨congrArg Answer.found (h.inFlight.idsOf_isEmpty hash), h.pending,
      h.inFlight.removeParent hash⟩
  | discardAll => exact ⟨congrArg Answer.dropped h.inFlight.parentCount_eq, h.pending, .empty⟩
  | clear => exact ⟨rfl, refines_empty⟩

theorem performAll (h : q.Refines f) (operations : List Operation) :
    (q.performAll operations).Refines (f.performAll operations) := by
  induction operations generalizing q f with
  | nil => exact h
  | cons operation rest ih => exact ih (h.perform operation).2

theorem observe (h : q.Refines f) : q.observe = f.observe := by
  have hrequests := h.pending.requests
  have hcertificates : q.pendingCertificates = (RequestId.certificates f.pending.keys).length := by
    rw [← keys_map f.pending Prod.fst, hrequests.certificates_keys, length_keys]
    rfl
  have htransactions : q.pendingTransactions = (RequestId.transactions f.pending.keys).length := by
    rw [← keys_map f.pending Prod.fst, hrequests.transactions_keys, length_keys]
    rfl
  have hcount : q.pendingCount = f.pending.size := by
    rw [pendingCount, h.pending.enqueuedAt, ← length_keys, keys_map, length_keys]
  have hage : q.oldestAge? = f.observe.oldestAge? := by
    funext now
    rw [oldestAge?, h.pending.enqueuedAt, values_map]
    rfl
  rw [Queue.observe, hcertificates, htransactions, hcount, inFlightCount, h.inFlight.requestCount_eq,
    hage]
  rfl

end Refines

/-- A queue is observed as a flat queue: after the same operations both are observed alike, any
further operation answers alike, and what a drain returns is in strictly increasing order of
identities. -/
theorem performAll_observed (operations : List Operation) :
    (empty.performAll operations).observe = (FlatQueue.empty.performAll operations).observe ∧
      (∀ operation, ((empty.performAll operations).perform operation).1 =
        ((FlatQueue.empty.performAll operations).perform operation).1) ∧
      ∀ isResolved, (((empty.performAll operations).drain isResolved).1.batch.map Request.id).Pairwise
        fun id id' => compare id id' = .lt := by
  have h := refines_empty.performAll operations
  refine ⟨h.observe, fun operation => (h.perform operation).1, ?_⟩
  intro isResolved
  have hkept := (h.pending.purge isResolved).2.requests.keyed
  exact List.pairwise_map.mpr hkept.pairwise_requests

end Queue

end SidechainVerifier
