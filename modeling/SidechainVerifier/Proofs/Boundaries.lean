/-
SidechainVerifier.Proofs.Boundaries — the blocks at the ends of an epoch.

Epoch `e` of a sidechain created at height `h` with epochs of `n` blocks lies
between the blocks `h + e * n - 1` and `h + (e + 1) * n - 1`, counted in
integers (`Sidechain.startBlock`, `Sidechain.endBlock`). Heights have 64 bits,
and the two are computed by checked steps, some of which pass through a number
that is one beyond the result. All the same, the steps succeed exactly when
both blocks are heights (`Sidechain.epochBoundaries_eq_some_iff`): a step that
leaves the range on the way takes the end of the epoch out of it as well.

Main statement: what is extracted from a certificate, or why nothing is, told
by the view and the two integers alone (`Certificate.Extracts`), is what
extraction answers, and successive epochs meet at one block
(`Certificate.extracted_between_blocks`).
-/
import Mathlib.Algebra.Group.Int.Defs
import Mathlib.Algebra.Group.Nat.Defs
import SidechainVerifier.Extraction

namespace SidechainVerifier

/-! ## Checked steps -/

/-- A result that is taken only if it was not reduced. -/
theorem ite_eq_some_iff_of_toNat {n : Nat} {a c : UInt64} (ha : a.toNat = n % UInt64.size) :
    (if n < UInt64.size then some a else none) = some c ↔ n = c.toNat := by
  have hc : c.toNat < UInt64.size := c.toNat_lt
  rw [Option.ite_none_right_eq_some, Option.some.injEq, ← UInt64.toNat_inj, ha]
  constructor
  · rintro ⟨hlt, heq⟩
    rwa [Nat.mod_eq_of_lt hlt] at heq
  · intro heq
    have hlt : n < UInt64.size := heq ▸ hc
    exact ⟨hlt, (Nat.mod_eq_of_lt hlt).trans heq⟩

theorem checkedAdd_eq_some_iff {a b c : UInt64} :
    checkedAdd a b = some c ↔ a.toNat + b.toNat = c.toNat :=
  ite_eq_some_iff_of_toNat (UInt64.toNat_add a b)

theorem checkedMul_eq_some_iff {a b c : UInt64} :
    checkedMul a b = some c ↔ a.toNat * b.toNat = c.toNat :=
  ite_eq_some_iff_of_toNat (UInt64.toNat_mul a b)

theorem checkedSub_eq_some_iff {a b c : UInt64} :
    checkedSub a b = some c ↔ a.toNat = b.toNat + c.toNat := by
  rw [checkedSub, Option.ite_none_right_eq_some, Option.some.injEq, ← UInt64.toNat_inj]
  constructor
  · rintro ⟨hle, hdifference⟩
    rw [UInt64.toNat_sub_of_le _ _ hle] at hdifference
    omega
  · intro hsum
    have hle : b ≤ a := UInt64.le_iff_toNat_le.mpr (by omega)
    refine ⟨UInt64.le_iff_toNat_le.mp hle, ?_⟩
    rw [UInt64.toNat_sub_of_le _ _ hle]
    omega

/-! ## Heights -/

/-- An integer that is the height of a block. -/
def IsHeight (n : Int) : Prop := 0 ≤ n ∧ n ≤ 2 ^ 64 - 1

instance (n : Int) : Decidable (IsHeight n) := inferInstanceAs (Decidable (_ ∧ _))

theorem isHeight_iff_exists {n : Int} :
    IsHeight n ↔ ∃ height : UInt64, (height.toNat : Int) = n := by
  constructor
  · rintro ⟨hzero, hmax⟩
    refine ⟨UInt64.ofNat n.toNat, ?_⟩
    rw [UInt64.toNat_ofNat_of_lt' (by rw [UInt64.size]; omega)]
    omega
  · rintro ⟨height, rfl⟩
    have hlt : height.toNat < UInt64.size := height.toNat_lt
    rw [UInt64.size] at hlt
    constructor <;> omega

/-! ## Epochs -/

namespace Sidechain

/-- The last block before an epoch, of a sidechain with a creation height and an epoch length. -/
def startBlock (creationHeight : UInt64) (epochLength epoch : UInt32) : Int :=
  creationHeight.toNat + epoch.toNat * epochLength.toNat - 1

/-- The last block of an epoch, of a sidechain with a creation height and an epoch length. -/
def endBlock (creationHeight : UInt64) (epochLength epoch : UInt32) : Int :=
  creationHeight.toNat + (epoch.toNat + 1) * epochLength.toNat - 1

variable {creationHeight : UInt64} {epochLength epoch : UInt32} {start stop : UInt64}

/-- The checked steps, one after the other, in natural numbers. -/
theorem epochBoundaries_eq_some_iff_steps :
    epochBoundaries creationHeight epochLength epoch = some (start, stop) ↔
      ∃ offset first : UInt64, epoch.toNat * epochLength.toNat = offset.toNat ∧
        creationHeight.toNat + offset.toNat = first.toNat ∧ first.toNat = 1 + start.toNat ∧
        start.toNat + epochLength.toNat = stop.toNat := by
  simp only [epochBoundaries, bind, pure, Option.bind_eq_some_iff, checkedMul_eq_some_iff,
    checkedAdd_eq_some_iff, checkedSub_eq_some_iff, UInt32.toNat_toUInt64, UInt64.toNat_one,
    Option.some.injEq, Prod.mk.injEq]
  constructor
  · rintro ⟨offset, hoffset, first, hfirst, _, hstart, _, hstop, rfl, rfl⟩
    exact ⟨offset, first, hoffset, hfirst, hstart, hstop⟩
  · rintro ⟨offset, first, hoffset, hfirst, hstart, hstop⟩
    exact ⟨offset, hoffset, first, hfirst, start, hstart, stop, hstop, rfl, rfl⟩

/-- The steps succeed exactly when both blocks are heights, and then give these. -/
theorem epochBoundaries_eq_some_iff :
    epochBoundaries creationHeight epochLength epoch = some (start, stop) ↔
      (start.toNat : Int) = startBlock creationHeight epochLength epoch ∧
        (stop.toNat : Int) = endBlock creationHeight epochLength epoch := by
  rw [epochBoundaries_eq_some_iff_steps, startBlock, endBlock, Int.add_mul, Int.one_mul,
    ← Int.natCast_mul]
  constructor
  · rintro ⟨offset, first, hoffset, hfirst, hstart, hstop⟩
    omega
  · rintro ⟨hstart, hstop⟩
    -- The first block of the epoch is a height: where it is not, the epoch has a block and ends
    -- beyond the range too.
    have hlt : stop.toNat < 2 ^ 64 := stop.toNat_lt
    have hcreated : creationHeight.toNat < 2 ^ 64 := creationHeight.toNat_lt
    have hempty : epochLength.toNat = 0 → epoch.toNat * epochLength.toNat = 0 := by
      intro hzero
      rw [hzero, Nat.mul_zero]
    have hoffset : epoch.toNat * epochLength.toNat < 2 ^ 64 := by omega
    have hfirst : creationHeight.toNat + epoch.toNat * epochLength.toNat < 2 ^ 64 := by omega
    refine ⟨.ofNat (epoch.toNat * epochLength.toNat),
      .ofNat (creationHeight.toNat + epoch.toNat * epochLength.toNat), ?_⟩
    rw [UInt64.toNat_ofNat_of_lt' hoffset, UInt64.toNat_ofNat_of_lt' hfirst]
    omega

theorem epochBoundaries_eq_none_iff :
    epochBoundaries creationHeight epochLength epoch = none ↔
      ¬ (IsHeight (startBlock creationHeight epochLength epoch) ∧
        IsHeight (endBlock creationHeight epochLength epoch)) := by
  rw [Option.eq_none_iff_forall_ne_some, isHeight_iff_exists, isHeight_iff_exists]
  constructor
  · rintro hnone ⟨⟨start, hstart⟩, ⟨stop, hstop⟩⟩
    exact hnone (start, stop) (epochBoundaries_eq_some_iff.mpr ⟨hstart, hstop⟩)
  · rintro hnot ⟨start, stop⟩ hsome
    obtain ⟨hstart, hstop⟩ := epochBoundaries_eq_some_iff.mp hsome
    exact hnot ⟨⟨start, hstart⟩, ⟨stop, hstop⟩⟩

/-- An epoch of a sidechain lies between two blocks. -/
structure LiesBetween (record : Sidechain) (epoch : UInt32) (start stop : UInt64) : Prop where
  start : (start.toNat : Int) = startBlock record.creationHeight record.epochLength epoch
  stop : (stop.toNat : Int) = endBlock record.creationHeight record.epochLength epoch

namespace LiesBetween

variable {record : Sidechain}

theorem iff_epochBoundaries_eq : record.LiesBetween epoch start stop ↔
    epochBoundaries record.creationHeight record.epochLength epoch = some (start, stop) := by
  rw [epochBoundaries_eq_some_iff]
  exact ⟨fun h => ⟨h.start, h.stop⟩, fun ⟨hstart, hstop⟩ => ⟨hstart, hstop⟩⟩

/-- An epoch ends where the next one starts. -/
theorem next {next : UInt32} {start' stop' : UInt64} (h : record.LiesBetween epoch start stop)
    (h' : record.LiesBetween next start' stop') (hnext : next.toNat = epoch.toNat + 1) :
    start' = stop := by
  have hsame : (start'.toNat : Int) = stop.toNat := by
    rw [h'.start, h.stop, startBlock, endBlock, hnext, Int.natCast_add, Int.natCast_one]
  exact UInt64.toNat_inj.mp (Int.ofNat_inj.mp hsame)

end LiesBetween

end Sidechain

/-! ## Certificates -/

namespace Certificate

open Sidechain (startBlock endBlock epochBoundaries LiesBetween)

/-- What there is to answer for a certificate, told by the view and by the blocks between which its
epoch lies. What applies first decides among the errors. -/
inductive Extracts (certificate : Certificate) (view : View) (origin : Option PeerId) :
    Except VerifierError CertificateRequest → Prop
  | unknownSidechain (hunknown : view.sidechain certificate.sidechain = none) :
      Extracts certificate view origin (.error (.unknownSidechain certificate.sidechain))
  | epochOutOfRange {record} (hrecord : view.sidechain certificate.sidechain = some record)
      (hrange : ¬ (
        IsHeight (startBlock record.creationHeight record.epochLength certificate.epoch) ∧
        IsHeight (endBlock record.creationHeight record.epochLength certificate.epoch))) :
      Extracts certificate view origin
        (.error (.epochOutOfRange certificate.sidechain certificate.epoch))
  | missingStart {record start stop} (hrecord : view.sidechain certificate.sidechain = some record)
      (hepoch : record.LiesBetween certificate.epoch start stop)
      (hmissing : view.commitmentRoot start = none) :
      Extracts certificate view origin
        (.error (.missingEpochBoundary certificate.sidechain certificate.epoch start))
  | missingStop {record start stop startRoot}
      (hrecord : view.sidechain certificate.sidechain = some record)
      (hepoch : record.LiesBetween certificate.epoch start stop)
      (hstart : view.commitmentRoot start = some startRoot)
      (hmissing : view.commitmentRoot stop = none) :
      Extracts certificate view origin
        (.error (.missingEpochBoundary certificate.sidechain certificate.epoch stop))
  | extracted {record start stop startRoot endRoot}
      (hrecord : view.sidechain certificate.sidechain = some record)
      (hepoch : record.LiesBetween certificate.epoch start stop)
      (hstart : view.commitmentRoot start = some startRoot)
      (hstop : view.commitmentRoot stop = some endRoot) :
      Extracts certificate view origin (.ok
        { hash := certificate.hash
          check :=
            { sidechain := certificate.sidechain
              constant := record.constant
              epoch := certificate.epoch
              quality := certificate.quality
              transfers := certificate.transfers
              customFields := certificate.customFields
              startRoot := startRoot
              endRoot := endRoot
              backwardRequestFee := certificate.backwardRequestFee
              forwardTransferFee := certificate.forwardTransferFee
              proof := certificate.proof
              key := record.certificateKey }
          certificate := certificate
          origin := origin })

variable {certificate : Certificate} {view : View} {origin : Option PeerId}
  {result : Except VerifierError CertificateRequest}

/-- There is always an answer. -/
theorem exists_extracts (certificate : Certificate) (view : View) (origin : Option PeerId) :
    ∃ result, certificate.Extracts view origin result := by
  cases hrecord : view.sidechain certificate.sidechain with
  | none => exact ⟨_, .unknownSidechain hrecord⟩
  | some record =>
    by_cases hrange :
        IsHeight (startBlock record.creationHeight record.epochLength certificate.epoch) ∧
          IsHeight (endBlock record.creationHeight record.epochLength certificate.epoch)
    · obtain ⟨start, hstart⟩ := isHeight_iff_exists.mp hrange.1
      obtain ⟨stop, hstop⟩ := isHeight_iff_exists.mp hrange.2
      have hepoch : record.LiesBetween certificate.epoch start stop := ⟨hstart, hstop⟩
      cases hstartRoot : view.commitmentRoot start with
      | none => exact ⟨_, .missingStart hrecord hepoch hstartRoot⟩
      | some startRoot =>
        cases hendRoot : view.commitmentRoot stop with
        | none => exact ⟨_, .missingStop hrecord hepoch hstartRoot hendRoot⟩
        | some endRoot => exact ⟨_, .extracted hrecord hepoch hstartRoot hendRoot⟩
    · exact ⟨_, .epochOutOfRange hrecord hrange⟩

/-- It is the answer of extraction. -/
theorem Extracts.request_eq (h : certificate.Extracts view origin result) :
    certificate.request view origin = result := by
  cases h with
  | unknownSidechain hunknown =>
    simp only [request, hunknown, bind, Except.bind]
  | epochOutOfRange hrecord hrange =>
    have hnone := Sidechain.epochBoundaries_eq_none_iff.mpr hrange
    simp only [request, hrecord, hnone, bind, Except.bind]
  | missingStart hrecord hepoch hmissing =>
    have hblocks := LiesBetween.iff_epochBoundaries_eq.mp hepoch
    simp only [request, hrecord, hblocks, View.boundaryRoot, hmissing, bind, Except.bind]
  | missingStop hrecord hepoch hstart hmissing =>
    have hblocks := LiesBetween.iff_epochBoundaries_eq.mp hepoch
    simp only [request, hrecord, hblocks, View.boundaryRoot, hstart, hmissing, bind, Except.bind]
  | extracted hrecord hepoch hstart hstop =>
    have hblocks := LiesBetween.iff_epochBoundaries_eq.mp hepoch
    simp only [request, hrecord, hblocks, View.boundaryRoot, hstart, hstop, bind, Except.bind, pure,
      Except.pure]

theorem request_eq_iff : certificate.request view origin = result ↔
    certificate.Extracts view origin result := by
  refine ⟨fun h => ?_, Extracts.request_eq⟩
  obtain ⟨answer, hanswer⟩ := certificate.exists_extracts view origin
  rw [← h, hanswer.request_eq]
  exact hanswer

/-- Requests for successive epochs share the root at the block between the epochs. -/
theorem startRoot_next {next : Certificate} {origin' : Option PeerId} {r r' : CertificateRequest}
    (hsidechain : next.sidechain = certificate.sidechain)
    (hnext : next.epoch.toNat = certificate.epoch.toNat + 1)
    (h : certificate.request view origin = .ok r) (h' : next.request view origin' = .ok r') :
    r'.check.startRoot = r.check.endRoot := by
  cases request_eq_iff.mp h with
  | @extracted record _ stop _ endRoot hrecord hepoch _ hstop =>
    cases request_eq_iff.mp h' with
    | @extracted _ start' _ startRoot' _ hrecord' hepoch' hstart' _ =>
      rw [hsidechain, hrecord, Option.some.injEq] at hrecord'
      subst hrecord'
      rw [hepoch.next hepoch' hnext, hstop] at hstart'
      exact (Option.some.inj hstart').symm

/-- What is extracted from a certificate, and why nothing is, depends on the two blocks between
which its epoch lies in integers, and on no step by which they are computed. Successive epochs meet
at one block, and their requests take the same root there. -/
theorem extracted_between_blocks :
    (∀ (certificate : Certificate) (view : View) (origin : Option PeerId)
      (result : Except VerifierError CertificateRequest),
      certificate.request view origin = result ↔ certificate.Extracts view origin result) ∧
    ∀ certificate next : Certificate, next.sidechain = certificate.sidechain →
      next.epoch.toNat = certificate.epoch.toNat + 1 →
      (∀ (record : Sidechain) (start stop start' stop' : UInt64),
        epochBoundaries record.creationHeight record.epochLength certificate.epoch =
          some (start, stop) →
        epochBoundaries record.creationHeight record.epochLength next.epoch =
          some (start', stop') → start' = stop) ∧
      ∀ (view : View) (origin origin' : Option PeerId) (r r' : CertificateRequest),
        certificate.request view origin = .ok r → next.request view origin' = .ok r' →
        r'.check.startRoot = r.check.endRoot := by
  refine ⟨fun certificate view origin result => request_eq_iff, ?_⟩
  intro certificate next hsidechain hnext
  constructor
  · intro record start stop start' stop' h h'
    exact (LiesBetween.iff_epochBoundaries_eq.mpr h).next
      (LiesBetween.iff_epochBoundaries_eq.mpr h') hnext
  · intro view origin origin' r r' h h'
    exact startRoot_next hsidechain hnext h h'

end Certificate

/-- A sidechain whose second epoch ends at the highest block there can be. -/
def Sidechain.late : Sidechain := ⟨.ofNat (2 ^ 64 - 20), 10, none, ⟨[]⟩, none, none, none, none⟩

/-- A view of the late sidechain, with different roots at the ends of its two epochs. -/
def View.late : View :=
  let rooted (view : View) (height : Nat) (byte : UInt8) : View :=
    view.setCommitmentRoot (.ofNat height) ⟨Vector.replicate 32 byte⟩
  rooted (rooted (rooted (View.empty.setSidechain .zero .late) (2 ^ 64 - 21) 1) (2 ^ 64 - 11) 2)
    (2 ^ 64 - 1) 3

namespace Certificate

/-- A certificate of an epoch, with nothing in it. -/
def ofEpoch (epoch : UInt32) : Certificate := ⟨.zero, epoch, 0, [], 0, 0, [], ⟨[]⟩⟩

/-- The first two epochs meet at one root. The third starts at the highest block, so its own first
block is out of range, and its last. -/
theorem extracted_between_blocks_late :
    ∃ r r', (ofEpoch 0).request .late none = .ok r ∧ (ofEpoch 1).request .late none = .ok r' ∧
      r'.check.startRoot = r.check.endRoot ∧
      (ofEpoch 2).request .late none = .error (.epochOutOfRange .zero 2) := by
  obtain ⟨hexact, hnext⟩ := extracted_between_blocks
  have hfirst : Sidechain.late.LiesBetween 0 (.ofNat (2 ^ 64 - 21)) (.ofNat (2 ^ 64 - 11)) :=
    ⟨by decide, by decide⟩
  have hsecond : Sidechain.late.LiesBetween 1 (.ofNat (2 ^ 64 - 11)) (.ofNat (2 ^ 64 - 1)) :=
    ⟨by decide, by decide⟩
  have hr := (hexact (ofEpoch 0) .late none _).mpr (.extracted rfl hfirst rfl rfl)
  have hr' := (hexact (ofEpoch 1) .late none _).mpr (.extracted rfl hsecond rfl rfl)
  have hthird := (hexact (ofEpoch 2) .late none _).mpr (.epochOutOfRange rfl (by decide))
  obtain ⟨-, hroots⟩ := hnext (ofEpoch 0) (ofEpoch 1) rfl rfl
  exact ⟨_, _, hr, hr', hroots _ _ _ _ _ hr hr', hthird⟩

end Certificate

end SidechainVerifier
