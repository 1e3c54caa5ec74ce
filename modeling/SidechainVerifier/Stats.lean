/-
SidechainVerifier.Stats — counters of what the verifier has done.

Withdrawals are counted by transaction. Counters are 64 bits wide and wrap
around.
-/

namespace SidechainVerifier

/-- The counters. -/
structure Stats where
  passedCertificates : UInt64
  failedCertificates : UInt64
  passedTransactions : UInt64
  failedTransactions : UInt64
  /-- Certificates and transactions dropped because a result was cached. -/
  removedFromQueue : UInt64
  /-- Certificates and transactions dropped from flight. -/
  discarded : UInt64
deriving DecidableEq

namespace Stats

/-- All counters at zero. -/
def zero : Stats := ⟨0, 0, 0, 0, 0, 0⟩

/-- Counts a certificate. -/
def recordCertificate (s : Stats) (passed : Bool) : Stats :=
  if passed then { s with passedCertificates := s.passedCertificates + 1 }
  else { s with failedCertificates := s.failedCertificates + 1 }

/-- Counts a transaction. -/
def recordTransaction (s : Stats) (passed : Bool) : Stats :=
  if passed then { s with passedTransactions := s.passedTransactions + 1 }
  else { s with failedTransactions := s.failedTransactions + 1 }

/-- Counts what a drain purged. -/
def recordRemoved (s : Stats) (n : Nat) : Stats :=
  { s with removedFromQueue := s.removedFromQueue + UInt64.ofNat n }

/-- Counts what was dropped from flight. -/
def recordDiscarded (s : Stats) (n : Nat) : Stats :=
  { s with discarded := s.discarded + UInt64.ofNat n }

end Stats

end SidechainVerifier
