/-
SidechainVerifier.Queue — requests waiting for verification and requests in
flight.

A `RequestSet` holds certificates by hash and withdrawals by transaction and
position. The queue keeps one set pending, with the instant at which each
request was last enqueued, and one set in flight. `Queue.drain` purges what
has been resolved already and moves the rest into flight; nothing else moves
requests between the two.
-/
import SidechainVerifier.OrderedMap
import SidechainVerifier.Request

namespace SidechainVerifier

/-- A point in time, in nanoseconds after a common start. -/
abbrev Instant := Nat

/-! ## Sets of requests -/

/-- Requests by identity, withdrawals grouped by transaction. -/
structure RequestSet where
  certificates : OrderedMap Hash CertificateRequest
  groups : OrderedMap Hash (OrderedMap UInt32 WithdrawalRequest)
deriving DecidableEq

namespace RequestSet

/-- The set without requests. -/
def empty : RequestSet := ⟨.empty, .empty⟩

/-- The number of certificates. -/
def certificateCount (s : RequestSet) : Nat := s.certificates.size

/-- The number of transactions, whatever their number of withdrawals. -/
def transactionCount (s : RequestSet) : Nat := s.groups.size

/-- The number of certificates and transactions. -/
def parentCount (s : RequestSet) : Nat := s.certificateCount + s.transactionCount

/-- The number of requests. -/
def requestCount (s : RequestSet) : Nat :=
  s.groups.values.foldl (fun count group => count + group.size) s.certificates.size

/-- Whether there are neither certificates nor transactions. -/
def isEmpty (s : RequestSet) : Bool := s.certificates.isEmpty && s.groups.isEmpty

/-- All requests: certificates by hash, then withdrawals by transaction and position. -/
def requests (s : RequestSet) : List Request :=
  s.certificates.values.map .certificate ++
    s.groups.values.flatMap fun group => group.values.map .withdrawal

/-- The hashes of certificates, then those of transactions. -/
def parents (s : RequestSet) : List Hash := s.certificates.keys ++ s.groups.keys

/-- The set with a certificate's request, replacing one of the same hash. -/
def insertCertificate (s : RequestSet) (r : CertificateRequest) : RequestSet :=
  { s with certificates := s.certificates.insert r.hash r }

/-- The set with a withdrawal's request, replacing one of the same identity. -/
def insertWithdrawal (s : RequestSet) (r : WithdrawalRequest) : RequestSet :=
  let group := (s.groups.get? r.transactionHash).getD .empty
  { s with groups := s.groups.insert r.transactionHash (group.insert r.position r) }

/-- The identities of the requests that belong to a hash. -/
def idsOf (s : RequestSet) (hash : Hash) : List RequestId :=
  (if s.certificates.contains hash then [.certificate hash] else []) ++
    ((s.groups.get? hash).getD .empty).keys.map (.withdrawal hash)

/-- The set without the certificate and the transaction of a hash. -/
def removeParent (s : RequestSet) (hash : Hash) : RequestSet :=
  ⟨s.certificates.erase hash, s.groups.erase hash⟩

/-- The requests of both sets; of two with one identity the second set's stands. -/
def absorb (s other : RequestSet) : RequestSet :=
  { certificates := s.certificates.union other.certificates
    groups := other.groups.entries.foldl
      (fun groups (hash, group) =>
        groups.insert hash (((groups.get? hash).getD .empty).union group))
      s.groups }

end RequestSet

/-! ## Pending requests -/

/-- Requests that wait for the next batch. -/
structure Pending where
  requests : RequestSet
  /-- The instant at which each request was last enqueued. -/
  enqueuedAt : OrderedMap RequestId Instant
deriving DecidableEq

namespace Pending

/-- Nothing is waiting. -/
def empty : Pending := ⟨.empty, .empty⟩

/-- The pending requests with a certificate's. -/
def enqueueCertificate (p : Pending) (r : CertificateRequest) (now : Instant) : Pending :=
  ⟨p.requests.insertCertificate r, p.enqueuedAt.insert r.id now⟩

/-- The pending requests with a withdrawal's. -/
def enqueueWithdrawal (p : Pending) (r : WithdrawalRequest) (now : Instant) : Pending :=
  ⟨p.requests.insertWithdrawal r, p.enqueuedAt.insert r.id now⟩

/-- The pending requests without the certificate and the transaction of a hash. -/
def removeParent (p : Pending) (hash : Hash) : Pending :=
  { requests := p.requests.removeParent hash
    enqueuedAt := (p.requests.idsOf hash).foldl (fun times id => times.erase id) p.enqueuedAt }

/-- Removes every certificate and transaction whose hash satisfies a condition, and counts them. -/
def purge (p : Pending) (isResolved : Hash → Bool) : Nat × Pending :=
  let resolved := p.requests.parents.filter isResolved
  (resolved.length, resolved.foldl removeParent p)

end Pending

/-! ## The queue -/

/-- Requests that wait and requests in flight. -/
structure Queue where
  pending : Pending
  inFlight : RequestSet
deriving DecidableEq

/-- What a drain did. -/
structure Drained where
  /-- The number of certificates and transactions purged. -/
  removed : Nat
  /-- The requests that are in flight now. -/
  batch : List Request
deriving DecidableEq

namespace Queue

/-- The empty queue. -/
def empty : Queue := ⟨.empty, .empty⟩

/-- The queue with a certificate's request pending. -/
def enqueueCertificate (q : Queue) (r : CertificateRequest) (now : Instant) : Queue :=
  { q with pending := q.pending.enqueueCertificate r now }

/-- The queue with the requests of a transaction pending. -/
def enqueueWithdrawals (q : Queue) (rs : List WithdrawalRequest) (now : Instant) : Queue :=
  { q with pending := rs.foldl (fun p r => p.enqueueWithdrawal r now) q.pending }

/-- The number of pending certificates. -/
def pendingCertificates (q : Queue) : Nat := q.pending.requests.certificateCount

/-- The number of pending transactions. -/
def pendingTransactions (q : Queue) : Nat := q.pending.requests.transactionCount

/-- The number of pending requests. -/
def pendingCount (q : Queue) : Nat := q.pending.enqueuedAt.size

/-- The number of requests in flight. -/
def inFlightCount (q : Queue) : Nat := q.inFlight.requestCount

/-- How long the request enqueued first has been waiting; zero if that is in the future. -/
def oldestAge? (q : Queue) (now : Instant) : Option Nat :=
  q.pending.enqueuedAt.values.min?.map fun oldest => now - oldest

/-- Purges the pending certificates and transactions whose hash satisfies a condition and moves the
other pending requests into flight. -/
def drain (q : Queue) (isResolved : Hash → Bool) : Drained × Queue :=
  let (removed, kept) := q.pending.purge isResolved
  (⟨removed, kept.requests.requests⟩, ⟨.empty, q.inFlight.absorb kept.requests⟩)

/-- Takes everything out of flight. -/
def take (q : Queue) : RequestSet × Queue := (q.inFlight, { q with inFlight := .empty })

/-- Drops everything in flight and counts the certificates and transactions dropped. -/
def discardAll (q : Queue) : Nat × Queue :=
  (q.inFlight.parentCount, { q with inFlight := .empty })

/-- Drops the certificate and the transaction of a hash from flight, and says whether there was
either. -/
def discard (q : Queue) (hash : Hash) : Bool × Queue :=
  (!(q.inFlight.idsOf hash).isEmpty, { q with inFlight := q.inFlight.removeParent hash })

end Queue

end SidechainVerifier
