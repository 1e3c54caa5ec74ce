/-
SidechainVerifier.Text.Inspect — the texts in which values appear in logs.

A record is its name and its fields in braces; a value that would be long
is cut or summed up: identifiers show their first eight bytes, proofs and
keys only how many bytes they have.
-/
import SidechainVerifier.Request

namespace SidechainVerifier

/-- The text of a record: its name, and its fields with their names in braces. -/
def inspectRecord (name : String) (fields : List (String × String)) : String :=
  name ++ " \x7b " ++
    String.intercalate ", " (fields.map fun (field, value) => field ++ ": " ++ value) ++ " \x7d"

/-- The text of a list, in brackets. -/
def inspectList (items : List String) : String := "[" ++ String.intercalate ", " items ++ "]"

/-- The text of a byte string, every byte as a number. -/
def inspectBytes (bytes : Bytes) : String := inspectList (bytes.map fun b => toString b.toNat)

/-- The first eight bytes of an identifier. -/
def Hash.inspect (h : Hash) : String := "Hash256(" ++ Bytes.toHex (h.bytes.toList.take 8) ++ ")"

/-- The first eight bytes of an element. -/
def FieldElement.inspect (e : FieldElement) : String :=
  "FieldElement(" ++ Bytes.toHex (e.bytes.toList.take 8) ++ ")"

/-- The length of a proof. -/
def Proof.inspect (p : Proof) : String := "ScProof(" ++ toString p.bytes.length ++ " bytes)"

/-- The length of a key. -/
def VerificationKey.inspect (k : VerificationKey) : String :=
  "VerificationKey(" ++ toString k.bytes.length ++ " bytes)"

/-- The number of a peer. -/
def PeerId.inspect (p : PeerId) : String := "NodeId(" ++ toString p.id.toNat ++ ")"

/-- The text of a request's identity. -/
def RequestId.inspect : RequestId → String
  | .certificate hash => "Cert(" ++ hash.inspect ++ ")"
  | .withdrawal transaction position =>
    inspectRecord "Csw"
      [("tx_hash", transaction.inspect), ("position", toString position.toNat)]

/-- The text of a transfer. -/
def BackwardTransfer.inspect (t : BackwardTransfer) : String :=
  inspectRecord "BackwardTransfer"
    [("pub_key_hash", inspectBytes t.destination.toList), ("amount", toString t.amount.toNat)]

/-- The text of a certificate. -/
def Certificate.inspect (c : Certificate) : String :=
  inspectRecord "Certificate" [
    ("sc_id", c.sidechain.inspect),
    ("epoch_number", toString c.epoch.toNat),
    ("quality", toString c.quality.toNat),
    ("backward_transfers", inspectList (c.transfers.map BackwardTransfer.inspect)),
    ("forward_transfer_sc_fee", toString c.forwardTransferFee.toNat),
    ("mainchain_bwt_request_sc_fee", toString c.backwardRequestFee.toNat),
    ("custom_fields", inspectList (c.customFields.map FieldElement.inspect)),
    ("proof", c.proof.inspect)]

/-- The text of a withdrawal. -/
def WithdrawalInput.inspect (w : WithdrawalInput) : String :=
  inspectRecord "CswInput" [
    ("sc_id", w.sidechain.inspect),
    ("amount", toString w.amount.toNat),
    ("nullifier", w.nullifier.inspect),
    ("pub_key_hash", inspectBytes w.destination.toList),
    ("ceasing_cum_sc_tx_comm_tree", w.ceasingRoot.inspect),
    ("proof", w.proof.inspect)]

/-- The text of a transaction. -/
def Transaction.inspect (t : Transaction) : String :=
  inspectRecord "Transaction" [
    ("version", toString t.version.toInt),
    ("csw_inputs", inspectList (t.withdrawals.map WithdrawalInput.inspect)),
    ("payload", inspectBytes t.payload)]

end SidechainVerifier
