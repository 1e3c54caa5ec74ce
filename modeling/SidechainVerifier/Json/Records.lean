/-
SidechainVerifier.Json.Records — the JSON forms of the library's types.

Byte strings are arrays of numbers, wrapped values are written like what
they wrap, and values out of a small set are written by name.
-/
import SidechainVerifier.Config
import SidechainVerifier.Driver
import SidechainVerifier.Json.Form

namespace SidechainVerifier

open JsonForm

/-! ## Wrapped values -/

instance : JsonForm Hash where
  toJson h := toJson h.bytes
  ofJson? json := (ofJson? json).map Hash.mk

instance : JsonForm FieldElement where
  toJson e := toJson e.bytes
  ofJson? json := (ofJson? json).map FieldElement.mk

instance : JsonForm Proof where
  toJson p := toJson p.bytes
  ofJson? json := (ofJson? json).map Proof.mk

instance : JsonForm VerificationKey where
  toJson k := toJson k.bytes
  ofJson? json := (ofJson? json).map VerificationKey.mk

instance : JsonForm PeerId where
  toJson p := toJson p.id
  ofJson? json := (ofJson? json).map PeerId.mk

/-! ## Records of the chain -/

instance : JsonForm BackwardTransfer where
  toJson t := record [("pub_key_hash", toJson t.destination), ("amount", toJson t.amount)]
  ofJson? json := do
    let [destination, amount] ← fields? ["pub_key_hash", "amount"] false json | none
    return ⟨← required destination, ← required amount⟩

instance : JsonForm Certificate where
  toJson c := record [
    ("sc_id", toJson c.sidechain),
    ("epoch_number", toJson c.epoch),
    ("quality", toJson c.quality),
    ("backward_transfers", toJson c.transfers),
    ("forward_transfer_sc_fee", toJson c.forwardTransferFee),
    ("mainchain_bwt_request_sc_fee", toJson c.backwardRequestFee),
    ("custom_fields", toJson c.customFields),
    ("proof", toJson c.proof)]
  ofJson? json := do
    let [sidechain, epoch, quality, transfers, forward, backward, custom, proof] ←
      fields? ["sc_id", "epoch_number", "quality", "backward_transfers", "forward_transfer_sc_fee",
        "mainchain_bwt_request_sc_fee", "custom_fields", "proof"] false json | none
    return {
      sidechain := ← required sidechain
      epoch := ← required epoch
      quality := ← required quality
      transfers := ← required transfers
      forwardTransferFee := ← required forward
      backwardRequestFee := ← required backward
      customFields := ← required custom
      proof := ← required proof }

instance : JsonForm WithdrawalInput where
  toJson w := record [
    ("sc_id", toJson w.sidechain),
    ("amount", toJson w.amount),
    ("nullifier", toJson w.nullifier),
    ("pub_key_hash", toJson w.destination),
    ("ceasing_cum_sc_tx_comm_tree", toJson w.ceasingRoot),
    ("proof", toJson w.proof)]
  ofJson? json := do
    let [sidechain, amount, nullifier, destination, ceasing, proof] ←
      fields? ["sc_id", "amount", "nullifier", "pub_key_hash", "ceasing_cum_sc_tx_comm_tree",
        "proof"] false json | none
    return {
      sidechain := ← required sidechain
      amount := ← required amount
      nullifier := ← required nullifier
      destination := ← required destination
      ceasingRoot := ← required ceasing
      proof := ← required proof }

instance : JsonForm Transaction where
  toJson t := record [
    ("version", toJson t.version),
    ("csw_inputs", toJson t.withdrawals),
    ("payload", toJson t.payload)]
  ofJson? json := do
    let [version, withdrawals, payload] ← fields? ["version", "csw_inputs", "payload"] false json
      | none
    return ⟨← required version, ← required withdrawals, ← required payload⟩

instance : JsonForm Sidechain where
  toJson s := record [
    ("creation_block_height", toJson s.creationHeight),
    ("withdrawal_epoch_length", toJson s.epochLength),
    ("constant", toJson s.constant),
    ("cert_verification_key", toJson s.certificateKey),
    ("csw_verification_key", toJson s.withdrawalKey),
    ("current_epoch", toJson s.currentEpoch),
    ("current_quality", toJson s.currentQuality),
    ("current_cert_hash", toJson s.currentCertificate)]
  ofJson? json := do
    let [height, length, constant, certificateKey, withdrawalKey, epoch, quality, certificate] ←
      fields? ["creation_block_height", "withdrawal_epoch_length", "constant",
        "cert_verification_key", "csw_verification_key", "current_epoch", "current_quality",
        "current_cert_hash"] false json | none
    return {
      creationHeight := ← required height
      epochLength := ← required length
      constant := ← withDefault none constant
      certificateKey := ← required certificateKey
      withdrawalKey := ← withDefault none withdrawalKey
      currentEpoch := ← withDefault none epoch
      currentQuality := ← withDefault none quality
      currentCertificate := ← withDefault none certificate }

/-! ## Records of the verifier -/

instance : JsonForm Stats where
  toJson s := record [
    ("ok_cert_count", toJson s.passedCertificates),
    ("failed_cert_count", toJson s.failedCertificates),
    ("ok_csw_count", toJson s.passedTransactions),
    ("failed_csw_count", toJson s.failedTransactions),
    ("removed_from_queue_count", toJson s.removedFromQueue),
    ("discarded_count", toJson s.discarded)]
  ofJson? json := do
    let [okCertificates, failedCertificates, okTransactions, failedTransactions, removed, discarded] ←
      fields? ["ok_cert_count", "failed_cert_count", "ok_csw_count", "failed_csw_count",
        "removed_from_queue_count", "discarded_count"] false json | none
    return {
      passedCertificates := ← required okCertificates
      failedCertificates := ← required failedCertificates
      passedTransactions := ← required okTransactions
      failedTransactions := ← required failedTransactions
      removedFromQueue := ← required removed
      discarded := ← required discarded }

/-- Every setting may be left out, and then has its default. -/
instance : JsonForm Config where
  toJson c := record [
    ("max_batch_delay_ms", toJson c.maxBatchDelay),
    ("max_batch_size", toJson c.maxBatchSize),
    ("cache_capacity", toJson c.cacheCapacity),
    ("wake_up_period_ms", toJson c.wakeUpPeriod)]
  ofJson? json := do
    let [delay, size, capacity, period] ←
      fields? ["max_batch_delay_ms", "max_batch_size", "cache_capacity", "wake_up_period_ms"] true
        json | none
    return {
      maxBatchDelay := ← withDefault Config.default.maxBatchDelay delay
      maxBatchSize := ← withDefault Config.default.maxBatchSize size
      cacheCapacity := ← withDefault Config.default.cacheCapacity capacity
      wakeUpPeriod := ← withDefault Config.default.wakeUpPeriod period }

instance : JsonForm Validation where
  toJson v := record [("reject_reason", toJson v.rejectReason), ("dos_score", toJson v.penalty)]
  ofJson? json := do
    let [reason, penalty] ← fields? ["reject_reason", "dos_score"] false json | none
    return ⟨← withDefault none reason, ← required penalty⟩

/-! ## Names -/

/-- The name of a verdict. -/
def Verdict.name : Verdict → String
  | .unknown => "Unknown"
  | .passed => "Passed"
  | .failed => "Failed"

/-- The name of a mode. -/
def Mode.name : Mode → String
  | .strict => "Strict"
  | .loose => "Loose"

/-- The name of an outcome. -/
def Outcome.name : Outcome → String
  | .verified => "Verified"
  | .failed => "Failed"

/-- The name of a driver's state. -/
def DriverState.name : DriverState → String
  | .idle => "Idle"
  | .draining => "Draining"
  | .verifying => "Verifying"
  | .dispatching => "Dispatching"
  | .stopped => "Stopped"

instance : JsonForm Verdict where
  toJson v := toJson v.name
  ofJson? := named? ([.unknown, .passed, .failed].map fun v : Verdict => (v.name, v))

instance : JsonForm Mode where
  toJson m := toJson m.name
  ofJson? := named? ([.strict, .loose].map fun m : Mode => (m.name, m))

instance : JsonForm Outcome where
  toJson o := toJson o.name
  ofJson? := named? ([.verified, .failed].map fun o : Outcome => (o.name, o))

instance : JsonForm DriverState where
  toJson s := toJson s.name
  ofJson? := named?
    ([.idle, .draining, .verifying, .dispatching, .stopped].map fun s : DriverState => (s.name, s))

end SidechainVerifier
