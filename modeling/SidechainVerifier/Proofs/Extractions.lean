/-
SidechainVerifier.Proofs.Extractions — the requests made of an object.

A successful extraction makes one request of a certificate and one of each
withdrawal of a transaction, numbered in their order and all under the
object's hash (`request_eq_ok`, `requests_eq_ok`). In the queue, the
requests of a transaction are held as `Queue.groupOf` of the list; two
transactions of one length take the same positions, so the group of the one
that comes later replaces the other's (`union_groupOf`).
-/
import SidechainVerifier.Extraction
import SidechainVerifier.Proofs.RequestSets

namespace SidechainVerifier

open OrderedMap

/-! ## Extraction -/

theorem Certificate.request_eq_ok {view : View} {certificate : Certificate}
    {origin : Option PeerId} {r : CertificateRequest}
    (h : certificate.request view origin = .ok r) :
    r.hash = certificate.hash ∧ r.certificate = certificate ∧ r.origin = origin := by
  simp only [Certificate.request] at h
  cases hrecord : view.sidechain certificate.sidechain with
  | none => simp [hrecord, bind, Except.bind] at h
  | some record =>
    cases hheights : Sidechain.epochBoundaries record.creationHeight record.epochLength
        certificate.epoch with
    | none => simp [hrecord, hheights, bind, Except.bind] at h
    | some heights =>
      simp only [hrecord, hheights, bind, Except.bind] at h
      split at h
      · cases h
      · split at h
        · cases h
        · cases h
          exact ⟨rfl, rfl, rfl⟩

/-- The requests of consecutive withdrawals, as far as they do not depend on the view. -/
theorem WithdrawalInput.requests_eq_ok {view : View} {transaction : Transaction} {hash : Hash}
    {origin : Option PeerId} {first : Nat} {withdrawals : List WithdrawalInput}
    {rs : List WithdrawalRequest}
    (h : WithdrawalInput.requests view transaction hash origin first withdrawals = .ok rs) :
    rs.map (·.position) = (List.range' first withdrawals.length).map UInt32.ofNat ∧
    ∀ r ∈ rs, r.transactionHash = hash ∧ r.transaction = transaction ∧ r.origin = origin := by
  induction withdrawals generalizing first rs with
  | nil =>
    cases h
    simp
  | cons w rest ih =>
    simp only [WithdrawalInput.requests, bind, Except.bind, pure, Except.pure] at h
    split at h
    · cases h
    · split at h
      · cases h
      next others hothers =>
        cases h
        obtain ⟨hpositions, hmembers⟩ := ih hothers
        refine ⟨by simp [List.range'_succ, hpositions], ?_⟩
        intro r hr
        rcases List.mem_cons.mp hr with rfl | hr
        · exact ⟨rfl, rfl, rfl⟩
        · exact hmembers r hr

theorem Transaction.requests_eq_ok {view : View} {transaction : Transaction}
    {origin : Option PeerId} {rs : List WithdrawalRequest}
    (h : transaction.requests view origin = .ok rs) :
    rs ≠ [] ∧
    rs.map (·.position) = (List.range transaction.withdrawals.length).map UInt32.ofNat ∧
    ∀ r ∈ rs, r.transactionHash = transaction.hash ∧ r.transaction = transaction ∧
      r.origin = origin := by
  simp only [Transaction.requests] at h
  split at h
  · cases h
  next hne =>
    obtain ⟨hpositions, hmembers⟩ := WithdrawalInput.requests_eq_ok h
    refine ⟨?_, by rw [List.range_eq_range', hpositions], hmembers⟩
    rintro rfl
    simp at hpositions
    exact hne (by simp [hpositions])

/-- There is a request for each withdrawal. -/
theorem Transaction.length_requests {view : View} {transaction : Transaction}
    {origin : Option PeerId} {rs : List WithdrawalRequest}
    (h : transaction.requests view origin = .ok rs) :
    rs.length = transaction.withdrawals.length := by
  simpa using congrArg List.length (Transaction.requests_eq_ok h).2.1

/-! ## Groups -/

namespace Queue

theorem contains_groupOf {rs : List WithdrawalRequest} {position : UInt32} :
    (groupOf rs).contains position = true ↔ position ∈ rs.map (·.position) := by
  rw [OrderedMap.contains, get?_groupOf, List.find?_isSome]
  simp

theorem mem_of_get?_groupOf {rs : List WithdrawalRequest} {position : UInt32}
    {r : WithdrawalRequest} (h : (groupOf rs).get? position = some r) :
    r ∈ rs ∧ r.position = position := by
  rw [get?_groupOf] at h
  exact ⟨List.mem_reverse.mp (List.mem_of_find?_eq_some h), by simpa using List.find?_some h⟩

theorem mem_of_mem_values_groupOf {rs : List WithdrawalRequest} {r : WithdrawalRequest}
    (h : r ∈ (groupOf rs).values) : r ∈ rs := by
  obtain ⟨_, hget⟩ := mem_values_iff.mp h
  exact (mem_of_get?_groupOf hget).1

/-- As long as positions do not repeat, the group holds every request. -/
theorem mem_values_groupOf {rs : List WithdrawalRequest} (hnodup : (rs.map (·.position)).Nodup)
    {r : WithdrawalRequest} : r ∈ (groupOf rs).values ↔ r ∈ rs := by
  refine ⟨mem_of_mem_values_groupOf, fun hr => mem_values_iff.mpr ⟨r.position, ?_⟩⟩
  obtain ⟨r', hr'⟩ := contains_iff.mp (contains_groupOf.mpr (List.mem_map_of_mem hr))
  obtain ⟨hmem, hposition⟩ := mem_of_get?_groupOf hr'
  rw [hr', List.inj_on_of_nodup_map hnodup hmem hr hposition]

/-- The group of a list replaces a group with the same positions. -/
theorem union_groupOf {rs rs' : List WithdrawalRequest}
    (h : rs.map (·.position) = rs'.map (·.position)) :
    (groupOf rs).union (groupOf rs') = groupOf rs' :=
  union_eq_right fun position hposition => by
    rwa [contains_groupOf, ← h, ← contains_groupOf]

/-- The checks in a group depend on positions and checks of the list only. -/
theorem map_check_get?_groupOf {rs rs' : List WithdrawalRequest}
    (hpositions : rs.map (·.position) = rs'.map (·.position))
    (hchecks : rs.map (·.check) = rs'.map (·.check)) (position : UInt32) :
    ((groupOf rs).get? position).map (·.check) = ((groupOf rs').get? position).map (·.check) := by
  have hpair (rs : List WithdrawalRequest) : ((groupOf rs).get? position).map (·.check) =
      (((rs.map (·.position)).zip (rs.map (·.check))).reverse.find?
        fun e => e.1 = position).map Prod.snd := by
    rw [get?_groupOf, List.zip_map', ← List.map_reverse, List.find?_map, Option.map_map]
    rfl
  rw [hpair, hpair, hpositions, hchecks]

end Queue

/-! ## Positions -/

/-- The first `2 ^ 32` positions are all different. -/
theorem nodup_positions {n : Nat} (h32 : n ≤ 2 ^ 32) :
    ((List.range n).map UInt32.ofNat).Nodup := by
  refine List.Nodup.map_on (fun i hi j hj hij => ?_) List.nodup_range
  have hi := List.mem_range.mp hi
  have hj := List.mem_range.mp hj
  have h := congrArg UInt32.toNat hij
  rwa [UInt32.toNat_ofNat_of_lt' (Nat.lt_of_lt_of_le hi h32),
    UInt32.toNat_ofNat_of_lt' (Nat.lt_of_lt_of_le hj h32)] at h

end SidechainVerifier
