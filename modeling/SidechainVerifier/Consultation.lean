/-
SidechainVerifier.Consultation — computations that ask a proving backend.

A `Consultation` is a computation laid open as a tree: it is done, or it
asks the backend one thing and goes on with the reply, or it has been
abandoned because a call it depended on was torn down. The tree makes no
call itself. `Consultation.run` lets a `Backend` with a state of its own
answer all questions; whoever wants other things to happen between the
calls can walk the tree one question at a time.
-/
import SidechainVerifier.Error
import SidechainVerifier.Schnorr.Batch

namespace SidechainVerifier

/-- A call about several checks of one family. -/
inductive BatchCall where
  | certificates (checks : List CertificateCheck)
  | withdrawals (checks : List WithdrawalCheck)
deriving DecidableEq

/-- The checks a batch call is about. -/
def BatchCall.checks : BatchCall → List Check
  | .certificates checks => checks.map .certificate
  | .withdrawals checks => checks.map .withdrawal

/-- What a batch call answers; an error says nothing about any of its proofs. -/
abbrev BatchReply := Except ProvingError BatchAnswer

/-- What a single check answers; an error says that the proof could not even be checked. -/
abbrev SingleReply := Except ProvingError Bool

/-- A computation that asks a proving backend. A reply is `none` if the call was torn down. -/
inductive Consultation (α : Type) where
  | done (value : α)
  | abandoned
  | batch (call : BatchCall) (next : Option BatchReply → Consultation α)
  | single (check : Check) (next : Option SingleReply → Consultation α)

namespace Consultation

variable {α β : Type}

/-- Goes on with the value of a finished consultation. -/
def bind : Consultation α → (α → Consultation β) → Consultation β
  | done value, f => f value
  | abandoned, _ => abandoned
  | batch call next, f => batch call fun reply => (next reply).bind f
  | single check next, f => single check fun reply => (next reply).bind f

instance : Monad Consultation where
  pure := done
  bind := bind

/-- Asks about certificates, unless there are none: then nothing is asked and nothing learnt. -/
def askCertificates (checks : List CertificateCheck) : Consultation (Option BatchReply) :=
  if checks.isEmpty then done (some (.ok .silent)) else batch (.certificates checks) done

/-- Asks about withdrawals, unless there are none: then nothing is asked and nothing learnt. -/
def askWithdrawals (checks : List WithdrawalCheck) : Consultation (Option BatchReply) :=
  if checks.isEmpty then done (some (.ok .silent)) else batch (.withdrawals checks) done

/-- Asks about one proof; a call that was torn down ends the consultation. -/
def askSingle (check : Check) : Consultation SingleReply :=
  single check fun reply =>
    match reply with
    | some reply => done reply
    | none => abandoned

end Consultation

/-- A proving backend with a state `σ`, which every call may change. -/
structure Backend (σ : Type) where
  batch : BatchCall → σ → BatchReply × σ
  single : Check → σ → SingleReply × σ

/-- The value of a consultation whose questions a backend answers; `none` if it was abandoned. -/
def Consultation.run {σ α : Type} (backend : Backend σ) : Consultation α → σ → Option α × σ
  | .done value, s => (some value, s)
  | .abandoned, s => (none, s)
  | .batch call next, s =>
    let (reply, s) := backend.batch call s
    (next (some reply)).run backend s
  | .single check next, s =>
    let (reply, s) := backend.single check s
    (next (some reply)).run backend s

end SidechainVerifier
