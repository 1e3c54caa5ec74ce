/-
SidechainVerifier.Request — requests to check one proof.

A request is a check with its identity, the object it belongs to and the
peer the object came from. A certificate makes one request; a transaction
makes one for each withdrawal, numbered by position. Identities are ordered
with certificates first, then by hash, then by position, and the order is
linear.
-/
import SidechainVerifier.Chain.Transaction
import SidechainVerifier.Check

namespace SidechainVerifier

/-! ## Identities -/

/-- The identity of a request. -/
inductive RequestId where
  | certificate (hash : Hash)
  | withdrawal (transaction : Hash) (position : UInt32)
deriving DecidableEq

namespace RequestId

/-- The hash of the object the request belongs to. -/
def parent : RequestId → Hash
  | .certificate hash => hash
  | .withdrawal transaction _ => transaction

/-- How an identity is displayed. -/
def display : RequestId → String
  | .certificate hash => "cert:" ++ hash.toHex
  | .withdrawal transaction position =>
    "csw:" ++ transaction.toHex ++ ":" ++ toString position.toNat

/-- Certificates come before withdrawals; within a family the hash decides, then the position. -/
def order : RequestId → RequestId → Ordering
  | .certificate a, .certificate b => compare a b
  | .certificate _, .withdrawal _ _ => .lt
  | .withdrawal _ _, .certificate _ => .gt
  | .withdrawal a i, .withdrawal b j => (compare a b).then (compare i j)

instance : Ord RequestId := ⟨order⟩

private theorem order_swap (a b : RequestId) : order a b = (order b a).swap := by
  cases a <;> cases b <;> simp only [order]
  · exact Std.OrientedCmp.eq_swap
  · rfl
  · rfl
  · rw [Ordering.swap_then, ← Std.OrientedCmp.eq_swap, ← Std.OrientedCmp.eq_swap]

private theorem then_isLE {a b : Ordering} :
    (a.then b).isLE = true ↔ a = .lt ∨ a = .eq ∧ b.isLE = true := by
  cases a <;> cases b <;> simp

private theorem order_trans {a b c : RequestId} (h₁ : (order a b).isLE = true)
    (h₂ : (order b c).isLE = true) : (order a c).isLE = true := by
  cases a <;> cases b <;> cases c <;> simp only [order] at h₁ h₂ ⊢ <;> try simp_all
  · exact Std.TransCmp.isLE_trans h₁ h₂
  · rw [then_isLE] at *
    rcases h₁ with h₁ | ⟨h₁, p₁⟩ <;> rcases h₂ with h₂ | ⟨h₂, p₂⟩
    · exact .inl (Std.TransCmp.lt_trans h₁ h₂)
    · exact .inl (Std.TransCmp.lt_of_lt_of_eq h₁ h₂)
    · exact .inl (Std.TransCmp.lt_of_eq_of_lt h₁ h₂)
    · exact .inr ⟨Std.TransCmp.eq_trans h₁ h₂, Std.TransCmp.isLE_trans p₁ p₂⟩

instance : Std.TransOrd RequestId where
  eq_swap {a b} := order_swap a b
  isLE_trans h₁ h₂ := order_trans h₁ h₂

instance : Std.LawfulEqOrd RequestId where
  eq_of_compare {a b} h := by
    change order a b = .eq at h
    cases a <;> cases b <;> simp only [order] at h <;> try cases h
    · rw [Std.LawfulEqCmp.eq_of_compare h]
    · obtain ⟨h₁, h₂⟩ := Ordering.then_eq_eq.mp h
      rw [Std.LawfulEqCmp.eq_of_compare h₁, Std.LawfulEqCmp.eq_of_compare h₂]

end RequestId

/-! ## Requests -/

/-- A request to check a certificate's proof. -/
structure CertificateRequest where
  hash : Hash
  check : CertificateCheck
  certificate : Certificate
  origin : Option PeerId
deriving DecidableEq

/-- A request to check the proof of one withdrawal of a transaction. -/
structure WithdrawalRequest where
  transactionHash : Hash
  position : UInt32
  check : WithdrawalCheck
  transaction : Transaction
  origin : Option PeerId
deriving DecidableEq

/-- The identity of a certificate's request. -/
def CertificateRequest.id (r : CertificateRequest) : RequestId := .certificate r.hash

/-- The identity of a withdrawal's request. -/
def WithdrawalRequest.id (r : WithdrawalRequest) : RequestId :=
  .withdrawal r.transactionHash r.position

/-- A request of either family. -/
inductive Request where
  | certificate (request : CertificateRequest)
  | withdrawal (request : WithdrawalRequest)
deriving DecidableEq

namespace Request

/-- The request's identity. -/
def id : Request → RequestId
  | .certificate r => r.id
  | .withdrawal r => r.id

/-- The proof check that is asked for. -/
def check : Request → Check
  | .certificate r => .certificate r.check
  | .withdrawal r => .withdrawal r.check

/-- The peer the request's object came from. -/
def origin : Request → Option PeerId
  | .certificate r => r.origin
  | .withdrawal r => r.origin

/-- The request, if it is for a certificate. -/
def certificate? : Request → Option CertificateRequest
  | .certificate r => some r
  | .withdrawal _ => none

/-- The request, if it is for a withdrawal. -/
def withdrawal? : Request → Option WithdrawalRequest
  | .certificate _ => none
  | .withdrawal r => some r

end Request

end SidechainVerifier
