/-
SidechainVerifier.Verdict — what is known about a proof, and what is made
of it.

A `Verdict` says whether a proof passed, failed, or has not been resolved.
`Verdict.combine` is the verdict on a transaction: one failure fails it, and
it passes only if every withdrawal has passed. An `Outcome` is what the node
is told, with a `Validation` that carries reason and penalty of a rejection.
-/
import SidechainVerifier.Chain.Hash

namespace SidechainVerifier

/-- The verdict on a proof. -/
inductive Verdict where
  | unknown
  | passed
  | failed
deriving DecidableEq

namespace Verdict

/-- The verdict's place in the order unknown, passed, failed. -/
def rank : Verdict → Nat
  | unknown => 0
  | passed => 1
  | failed => 2

instance : Ord Verdict := ⟨compareOn rank⟩

instance : Std.TransOrd Verdict := inferInstanceAs (Std.TransCmp (compareOn rank))

instance : Std.LawfulEqOrd Verdict where
  eq_of_compare {a b} h := by
    have hr : compare a.rank b.rank = .eq := h
    have hr := Std.LawfulEqCmp.eq_of_compare hr
    cases a <;> cases b <;> simp_all [rank]

/-- Whether the proof has been judged. -/
def isResolved (v : Verdict) : Bool := v != unknown

/-- The verdict on all of several proofs together. -/
def combine (verdicts : List Verdict) : Verdict :=
  if failed ∈ verdicts then failed else if unknown ∈ verdicts then unknown else passed

end Verdict

/-- How much checking a verifier does. -/
inductive Mode where
  /-- Every proof is checked. -/
  | strict
  /-- Every proof is trusted; only for proofs that were checked before. -/
  | loose
deriving DecidableEq

/-- What the node is told about an object. -/
inductive Outcome where
  | verified
  | failed
deriving DecidableEq

/-- Details that accompany an outcome: no reason means that the object is valid. -/
structure Validation where
  rejectReason : Option String
  /-- The misbehaviour score to charge the peer the object came from. -/
  penalty : UInt32
deriving DecidableEq

namespace Validation

/-- The details of a valid object. -/
def valid : Validation := ⟨none, 0⟩

/-- The details of an object rejected for a reason. -/
def invalid (penalty : UInt32) (reason : String) : Validation := ⟨some reason, penalty⟩

/-- Whether the object is valid. -/
def isValid (v : Validation) : Bool := v.rejectReason.isNone

end Validation

/-- A cached verdict; older ones come first. -/
structure CachedVerdict where
  /-- When it was delivered, in milliseconds. -/
  timestamp : Int
  verdict : Verdict
deriving DecidableEq

namespace CachedVerdict

instance : Ord CachedVerdict := ⟨compareLex (compareOn timestamp) (compareOn verdict)⟩

instance : Std.TransOrd CachedVerdict :=
  inferInstanceAs (Std.TransCmp (compareLex (compareOn timestamp) (compareOn verdict)))

instance : Std.LawfulEqOrd CachedVerdict where
  eq_of_compare {a b} h := by
    obtain ⟨h₁, h₂⟩ := Ordering.then_eq_eq.mp (show (compare a.timestamp b.timestamp).then
      (compare a.verdict b.verdict) = .eq from h)
    cases a
    cases b
    simp only at h₁ h₂
    rw [Std.LawfulEqCmp.eq_of_compare h₁, Std.LawfulEqCmp.eq_of_compare h₂]

end CachedVerdict

end SidechainVerifier
