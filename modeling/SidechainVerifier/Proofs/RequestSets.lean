/-
SidechainVerifier.Proofs.RequestSets — sets of requests, read by look-ups.

Each operation on request sets, on pending requests and on the queue is
described by what it does to the look-ups of certificates and of groups; the
members and the hashes of a set are characterised by look-ups too. `Keyed`
is what every set in a verifier satisfies: requests stand under their own
identities, and no transaction is listed without a request. `RemainsOf`
relates a set to what is left of it after some objects were dropped.
-/
import Mathlib.Algebra.Group.Nat.Defs
import Mathlib.Data.List.Nodup
import SidechainVerifier.Proofs.MapLaws
import SidechainVerifier.Queue

namespace SidechainVerifier

open OrderedMap

namespace RequestSet

/-- Whether there is a certificate or a transaction with a hash. -/
def holds (s : RequestSet) (hash : Hash) : Bool :=
  s.certificates.contains hash || s.groups.contains hash

/-! ## Members -/

theorem mem_requests_certificate {s : RequestSet} {r : CertificateRequest} :
    .certificate r ∈ s.requests ↔ ∃ hash, s.certificates.get? hash = some r := by
  simp [requests, mem_values_iff]

theorem mem_requests_withdrawal {s : RequestSet} {r : WithdrawalRequest} :
    .withdrawal r ∈ s.requests ↔
      ∃ hash group position, s.groups.get? hash = some group ∧ group.get? position = some r := by
  simp only [requests, List.mem_append, List.mem_map, List.mem_flatMap, mem_values_iff,
    reduceCtorEq, and_false, exists_false, false_or, Request.withdrawal.injEq, exists_eq_right]
  constructor
  · rintro ⟨group, ⟨hash, hgroup⟩, position, hr⟩
    exact ⟨hash, group, position, hgroup, hr⟩
  · rintro ⟨hash, group, position, hgroup, hr⟩
    exact ⟨group, ⟨hash, hgroup⟩, position, hr⟩

theorem mem_parents {s : RequestSet} {hash : Hash} : hash ∈ s.parents ↔ s.holds hash = true := by
  simp [parents, holds, mem_keys_iff]

theorem parentCount_eq (s : RequestSet) : s.parentCount = s.parents.length := by
  simp [parentCount, certificateCount, transactionCount, parents, keys, size]

/-- A hash is listed once for each kind of object it stands for. -/
theorem count_parents (s : RequestSet) (hash : Hash) :
    s.parents.count hash =
      (if s.certificates.contains hash then 1 else 0) +
        (if s.groups.contains hash then 1 else 0) := by
  rw [parents, List.count_append, (nodup_keys _).count, (nodup_keys _).count]
  simp only [mem_keys_iff]

@[simp] theorem holds_empty (hash : Hash) : empty.holds hash = false := rfl

/-! ## Identities -/

/-- Requests stand under their own identities, and no transaction is without requests. -/
structure Keyed (s : RequestSet) : Prop where
  certificate : ∀ {hash r}, s.certificates.get? hash = some r → r.hash = hash
  withdrawal : ∀ {hash group position r}, s.groups.get? hash = some group →
    group.get? position = some r → r.transactionHash = hash ∧ r.position = position
  nonempty : ∀ {hash group}, s.groups.get? hash = some group → group ≠ .empty

theorem Keyed.exists_withdrawal {s : RequestSet} (hs : s.Keyed) {hash : Hash}
    {group : OrderedMap UInt32 WithdrawalRequest} (hgroup : s.groups.get? hash = some group) :
    ∃ position r, group.get? position = some r := by
  by_contra hnone
  refine hs.nonempty hgroup (eq_empty_iff.mpr ?_)
  intro position
  cases hr : group.get? position with
  | none => rfl
  | some r => exact absurd ⟨position, r, hr⟩ hnone

/-- No two requests of a set share an identity. -/
theorem Keyed.eq_of_id_eq {s : RequestSet} (hs : s.Keyed) {r r' : Request} (hr : r ∈ s.requests)
    (hr' : r' ∈ s.requests) (h : r.id = r'.id) : r = r' := by
  cases r with
  | certificate r =>
    cases r' with
    | certificate r' =>
      obtain ⟨hash, hget⟩ := mem_requests_certificate.mp hr
      obtain ⟨hash', hget'⟩ := mem_requests_certificate.mp hr'
      simp only [Request.id, CertificateRequest.id, RequestId.certificate.injEq] at h
      rw [← hs.certificate hget, h, hs.certificate hget'] at hget
      rw [hget] at hget'
      rw [Option.some.inj hget']
    | withdrawal r' => simp [Request.id, CertificateRequest.id, WithdrawalRequest.id] at h
  | withdrawal r =>
    cases r' with
    | certificate r' => simp [Request.id, CertificateRequest.id, WithdrawalRequest.id] at h
    | withdrawal r' =>
      obtain ⟨hash, group, position, hgroup, hget⟩ := mem_requests_withdrawal.mp hr
      obtain ⟨hash', group', position', hgroup', hget'⟩ := mem_requests_withdrawal.mp hr'
      simp only [Request.id, WithdrawalRequest.id, RequestId.withdrawal.injEq] at h
      obtain ⟨hhash, hposition⟩ := hs.withdrawal hgroup hget
      obtain ⟨hhash', hposition'⟩ := hs.withdrawal hgroup' hget'
      rw [← hhash, h.1, hhash', hgroup'] at hgroup
      cases hgroup
      rw [← hposition, h.2, hposition', hget'] at hget
      rw [Option.some.inj hget]

/-- Nothing is listed exactly when nothing is held. -/
theorem Keyed.requests_eq_nil_iff {s : RequestSet} (hs : s.Keyed) :
    s.requests = [] ↔ ∀ hash, s.holds hash = false := by
  rw [List.eq_nil_iff_forall_not_mem]
  constructor
  · intro hnil hash
    by_contra hholds
    simp only [holds, Bool.not_eq_false, Bool.or_eq_true, contains_iff] at hholds
    rcases hholds with ⟨r, hr⟩ | ⟨group, hgroup⟩
    · exact hnil _ (mem_requests_certificate.mpr ⟨hash, hr⟩)
    · obtain ⟨position, r, hr⟩ := hs.exists_withdrawal hgroup
      exact hnil _ (mem_requests_withdrawal.mpr ⟨hash, group, position, hgroup, hr⟩)
  · intro hholds r hr
    cases r with
    | certificate r =>
      obtain ⟨hash, hget⟩ := mem_requests_certificate.mp hr
      have := hholds hash
      simp [holds, contains, hget] at this
    | withdrawal r =>
      obtain ⟨hash, group, _, hgroup, _⟩ := mem_requests_withdrawal.mp hr
      have := hholds hash
      simp [holds, contains, hgroup] at this

theorem idsOf_eq_nil_iff {s : RequestSet} (hs : s.Keyed) (hash : Hash) :
    s.idsOf hash = [] ↔ s.holds hash = false := by
  simp only [idsOf, holds, List.append_eq_nil_iff, Bool.or_eq_false_iff]
  refine and_congr (by split <;> simp_all) ?_
  cases hgroup : s.groups.get? hash with
  | none => simp [contains, hgroup, keys]
  | some group =>
    obtain ⟨position, r, hr⟩ := hs.exists_withdrawal hgroup
    have hmem : position ∈ group.keys := mem_keys_iff.mpr (contains_iff.mpr ⟨r, hr⟩)
    have hne : group.keys ≠ [] := List.ne_nil_of_mem hmem
    simp [contains, hgroup, hne]

theorem keyed_empty : empty.Keyed where
  certificate h := by simp [empty] at h
  withdrawal h := by simp [empty] at h
  nonempty h := by simp [empty] at h

/-! ## Insertion -/

theorem certificates_insertCertificate (s : RequestSet) (r : CertificateRequest) (hash : Hash) :
    (s.insertCertificate r).certificates.get? hash =
      if hash = r.hash then some r else s.certificates.get? hash :=
  get?_insert_eq _ _ _ _

theorem Keyed.insertCertificate {s : RequestSet} (hs : s.Keyed) (r : CertificateRequest) :
    (s.insertCertificate r).Keyed where
  certificate {hash r'} h := by
    rw [certificates_insertCertificate] at h
    split at h
    next hhash => rw [← Option.some.inj h, hhash]
    next => exact hs.certificate h
  withdrawal := hs.withdrawal
  nonempty := hs.nonempty

theorem groups_insertWithdrawal (s : RequestSet) (r : WithdrawalRequest) (hash : Hash) :
    (s.insertWithdrawal r).groups.get? hash =
      if hash = r.transactionHash then
        some (((s.groups.get? hash).getD .empty).insert r.position r)
      else s.groups.get? hash := by
  rw [insertWithdrawal, get?_insert_eq]
  split
  next h => rw [h]
  next => rfl

theorem Keyed.insertWithdrawal {s : RequestSet} (hs : s.Keyed) (r : WithdrawalRequest) :
    (s.insertWithdrawal r).Keyed where
  certificate := hs.certificate
  withdrawal {hash group position r'} hgroup hget := by
    rw [groups_insertWithdrawal] at hgroup
    split at hgroup
    next hhash =>
      cases hgroup
      rw [get?_insert_eq] at hget
      split at hget
      next hposition => exact ⟨by rw [← Option.some.inj hget, hhash],
        by rw [← Option.some.inj hget, hposition]⟩
      next =>
        cases hold : s.groups.get? hash with
        | none => simp [hold] at hget
        | some old => exact hs.withdrawal hold (by simpa [hold] using hget)
    next => exact hs.withdrawal hgroup hget
  nonempty {hash group} hgroup hempty := by
    rw [groups_insertWithdrawal] at hgroup
    split at hgroup
    next =>
      cases hgroup
      have := eq_empty_iff.mp hempty r.position
      simp [get?_insert_eq] at this
    next => exact hs.nonempty hgroup hempty

theorem mem_requests_insertCertificate {s : RequestSet} {r : CertificateRequest} {r' : Request}
    (h : r' ∈ (s.insertCertificate r).requests) : r' = .certificate r ∨ r' ∈ s.requests := by
  cases r' with
  | certificate r' =>
    obtain ⟨hash, hget⟩ := mem_requests_certificate.mp h
    rw [certificates_insertCertificate] at hget
    split at hget
    next => exact .inl (by rw [Option.some.inj hget])
    next => exact .inr (mem_requests_certificate.mpr ⟨hash, hget⟩)
  | withdrawal r' =>
    obtain ⟨hash, group, position, hgroup, hget⟩ := mem_requests_withdrawal.mp h
    exact .inr (mem_requests_withdrawal.mpr ⟨hash, group, position, hgroup, hget⟩)

theorem mem_requests_insertWithdrawal {s : RequestSet} {r : WithdrawalRequest} {r' : Request}
    (h : r' ∈ (s.insertWithdrawal r).requests) : r' = .withdrawal r ∨ r' ∈ s.requests := by
  cases r' with
  | certificate r' =>
    obtain ⟨hash, hget⟩ := mem_requests_certificate.mp h
    exact .inr (mem_requests_certificate.mpr ⟨hash, hget⟩)
  | withdrawal r' =>
    obtain ⟨hash, group, position, hgroup, hget⟩ := mem_requests_withdrawal.mp h
    rw [groups_insertWithdrawal] at hgroup
    split at hgroup
    next =>
      cases hgroup
      rw [get?_insert_eq] at hget
      split at hget
      next => exact .inl (by rw [Option.some.inj hget])
      next =>
        cases hold : s.groups.get? hash with
        | none => simp [hold] at hget
        | some old =>
          exact .inr (mem_requests_withdrawal.mpr
            ⟨hash, old, position, hold, by simpa [hold] using hget⟩)
    next => exact .inr (mem_requests_withdrawal.mpr ⟨hash, group, position, hgroup, hget⟩)

/-! ## Removal -/

theorem certificates_removeParent (s : RequestSet) (hash hash' : Hash) :
    (s.removeParent hash).certificates.get? hash' =
      if hash' = hash then none else s.certificates.get? hash' :=
  get?_erase_eq _ _ _

theorem groups_removeParent (s : RequestSet) (hash hash' : Hash) :
    (s.removeParent hash).groups.get? hash' =
      if hash' = hash then none else s.groups.get? hash' :=
  get?_erase_eq _ _ _

theorem holds_removeParent (s : RequestSet) (hash hash' : Hash) :
    (s.removeParent hash).holds hash' = (decide (hash' ≠ hash) && s.holds hash') := by
  simp only [holds, contains, certificates_removeParent, groups_removeParent]
  by_cases h : hash' = hash <;> simp [h]

/-- What is left of a set after some certificates and transactions were dropped. -/
structure RemainsOf (s whole : RequestSet) : Prop where
  certificate : ∀ {hash r}, s.certificates.get? hash = some r →
    whole.certificates.get? hash = some r
  group : ∀ {hash group}, s.groups.get? hash = some group → whole.groups.get? hash = some group

namespace RemainsOf

variable {s t whole : RequestSet}

theorem refl (s : RequestSet) : s.RemainsOf s := ⟨id, id⟩

theorem trans (h : s.RemainsOf t) (h' : t.RemainsOf whole) : s.RemainsOf whole :=
  ⟨fun hget => h'.certificate (h.certificate hget), fun hget => h'.group (h.group hget)⟩

theorem empty (whole : RequestSet) : RequestSet.empty.RemainsOf whole where
  certificate h := by simp [RequestSet.empty] at h
  group h := by simp [RequestSet.empty] at h

theorem removeParent (s : RequestSet) (hash : Hash) : (s.removeParent hash).RemainsOf s where
  certificate h := by
    rw [certificates_removeParent] at h
    split at h
    · cases h
    · exact h
  group h := by
    rw [groups_removeParent] at h
    split at h
    · cases h
    · exact h

theorem keyed (h : s.RemainsOf whole) (hw : whole.Keyed) : s.Keyed where
  certificate hget := hw.certificate (h.certificate hget)
  withdrawal hgroup hget := hw.withdrawal (h.group hgroup) hget
  nonempty hgroup := hw.nonempty (h.group hgroup)

theorem mem_requests (h : s.RemainsOf whole) {r : Request} (hr : r ∈ s.requests) :
    r ∈ whole.requests := by
  cases r with
  | certificate r =>
    obtain ⟨hash, hget⟩ := mem_requests_certificate.mp hr
    exact mem_requests_certificate.mpr ⟨hash, h.certificate hget⟩
  | withdrawal r =>
    obtain ⟨hash, group, position, hgroup, hget⟩ := mem_requests_withdrawal.mp hr
    exact mem_requests_withdrawal.mpr ⟨hash, group, position, h.group hgroup, hget⟩

/-- Nothing is left of nothing. -/
theorem eq_empty (h : s.RemainsOf .empty) : s = .empty := by
  have hcertificates : s.certificates = .empty := eq_empty_iff.mpr fun hash => by
    cases hget : s.certificates.get? hash with
    | none => rfl
    | some r => exact absurd (h.certificate hget) (by simp [RequestSet.empty])
  have hgroups : s.groups = .empty := eq_empty_iff.mpr fun hash => by
    cases hget : s.groups.get? hash with
    | none => rfl
    | some group => exact absurd (h.group hget) (by simp [RequestSet.empty])
  cases s
  exact congr (congrArg RequestSet.mk hcertificates) hgroups

end RemainsOf

theorem Keyed.eq_empty {s : RequestSet} (hs : s.Keyed) (h : s.requests = []) : s = .empty := by
  have hholds := hs.requests_eq_nil_iff.mp h
  refine RemainsOf.eq_empty ⟨fun {hash r} hget => ?_, fun {hash group} hget => ?_⟩
  · have := hholds hash
    simp [holds, contains, hget] at this
  · have := hholds hash
    simp [holds, contains, hget] at this

/-! ## Putting two sets together -/

theorem certificates_absorb (s other : RequestSet) (hash : Hash) :
    (s.absorb other).certificates.get? hash =
      (other.certificates.get? hash).or (s.certificates.get? hash) :=
  get?_union _ _ _

private theorem get?_foldl_absorb (entries : List (Hash × OrderedMap UInt32 WithdrawalRequest))
    (groups : OrderedMap Hash (OrderedMap UInt32 WithdrawalRequest)) (hash : Hash)
    (hkeys : (entries.map Prod.fst).Nodup) :
    (entries.foldl (fun groups e =>
        groups.insert e.1 (((groups.get? e.1).getD .empty).union e.2)) groups).get? hash =
      match entries.find? fun e => e.1 = hash with
      | some e => some (((groups.get? hash).getD .empty).union e.2)
      | none => groups.get? hash := by
  induction entries generalizing groups with
  | nil => rfl
  | cons e rest ih =>
    obtain ⟨hfresh, hrest⟩ := List.nodup_cons.mp hkeys
    rw [List.foldl_cons, ih _ hrest, List.find?_cons, get?_insert_eq]
    by_cases h : e.1 = hash
    · have hnone : rest.find? (fun e => e.1 = hash) = none := by
        refine List.find?_eq_none.mpr fun e' he' heq => hfresh ?_
        rw [h, ← decide_eq_true_eq.mp heq]
        exact List.mem_map_of_mem he'
      simp [h, hnone]
    · simp [h, Ne.symm h]

theorem groups_absorb (s other : RequestSet) (hash : Hash) :
    (s.absorb other).groups.get? hash =
      match other.groups.get? hash with
      | some group => some (((s.groups.get? hash).getD .empty).union group)
      | none => s.groups.get? hash := by
  have h := get?_foldl_absorb other.groups.entries s.groups hash (nodup_keys _)
  rw [absorb]
  refine h.trans ?_
  cases hfind : other.groups.entries.find? fun e => e.1 = hash with
  | none =>
    have hnone : other.groups.get? hash = none := by
      refine Option.eq_none_iff_forall_ne_some.mpr ?_
      intro group hgroup
      have := List.find?_eq_none.mp hfind _ ((mem_entries_iff _ _ _).mpr hgroup)
      simp at this
    rw [hnone]
  | some e =>
    have hkey : e.1 = hash := by simpa using List.find?_some hfind
    have hgroup : other.groups.get? hash = some e.2 := by
      rw [← mem_entries_iff, ← hkey]
      exact List.mem_of_find?_eq_some hfind
    rw [hgroup]

theorem Keyed.absorb {s other : RequestSet} (hs : s.Keyed) (ho : other.Keyed) :
    (s.absorb other).Keyed where
  certificate {hash r} h := by
    rw [certificates_absorb, Option.or_eq_some_iff] at h
    rcases h with h | ⟨-, h⟩
    · exact ho.certificate h
    · exact hs.certificate h
  withdrawal {hash group position r} hgroup hget := by
    rw [groups_absorb] at hgroup
    split at hgroup
    next other' hother =>
      cases hgroup
      rw [get?_union, Option.or_eq_some_iff] at hget
      rcases hget with hget | ⟨-, hget⟩
      · exact ho.withdrawal hother hget
      · cases hold : s.groups.get? hash with
        | none => simp [hold] at hget
        | some old => exact hs.withdrawal hold (by simpa [hold] using hget)
    next => exact hs.withdrawal hgroup hget
  nonempty {hash group} hgroup hempty := by
    rw [groups_absorb] at hgroup
    split at hgroup
    next other' hother =>
      cases hgroup
      obtain ⟨position, r, hr⟩ := ho.exists_withdrawal hother
      have := eq_empty_iff.mp hempty position
      simp [get?_union, hr] at this
    next => exact hs.nonempty hgroup hempty

theorem mem_requests_absorb {s other : RequestSet} {r : Request}
    (h : r ∈ (s.absorb other).requests) : r ∈ s.requests ∨ r ∈ other.requests := by
  cases r with
  | certificate r =>
    obtain ⟨hash, hget⟩ := mem_requests_certificate.mp h
    rw [certificates_absorb, Option.or_eq_some_iff] at hget
    rcases hget with hget | ⟨-, hget⟩
    · exact .inr (mem_requests_certificate.mpr ⟨hash, hget⟩)
    · exact .inl (mem_requests_certificate.mpr ⟨hash, hget⟩)
  | withdrawal r =>
    obtain ⟨hash, group, position, hgroup, hget⟩ := mem_requests_withdrawal.mp h
    rw [groups_absorb] at hgroup
    split at hgroup
    next other' hother =>
      cases hgroup
      rw [get?_union, Option.or_eq_some_iff] at hget
      rcases hget with hget | ⟨-, hget⟩
      · exact .inr (mem_requests_withdrawal.mpr ⟨hash, other', position, hother, hget⟩)
      · cases hold : s.groups.get? hash with
        | none => simp [hold] at hget
        | some old =>
          exact .inl (mem_requests_withdrawal.mpr
            ⟨hash, old, position, hold, by simpa [hold] using hget⟩)
    next => exact .inl (mem_requests_withdrawal.mpr ⟨hash, group, position, hgroup, hget⟩)

/-- The empty set takes the other's place. -/
@[simp] theorem empty_absorb (s : RequestSet) : empty.absorb s = s := by
  have hc : (empty.absorb s).certificates = s.certificates :=
    ext_get? fun hash => by rw [certificates_absorb]; simp [empty]
  have hg : (empty.absorb s).groups = s.groups := ext_get? fun hash => by
    rw [groups_absorb]
    cases hgroup : s.groups.get? hash <;> simp [empty]
  cases s
  exact congr (congrArg RequestSet.mk hc) hg

end RequestSet

/-! ## Pending requests -/

namespace Pending

theorem certificates_foldl_removeParent (l : List Hash) (p : Pending) (hash : Hash) :
    (l.foldl removeParent p).requests.certificates.get? hash =
      if hash ∈ l then none else p.requests.certificates.get? hash := by
  induction l generalizing p with
  | nil => rfl
  | cons x rest ih =>
    rw [List.foldl_cons, ih, removeParent, RequestSet.certificates_removeParent]
    by_cases h : hash = x <;> simp [h]

theorem groups_foldl_removeParent (l : List Hash) (p : Pending) (hash : Hash) :
    (l.foldl removeParent p).requests.groups.get? hash =
      if hash ∈ l then none else p.requests.groups.get? hash := by
  induction l generalizing p with
  | nil => rfl
  | cons x rest ih =>
    rw [List.foldl_cons, ih, removeParent, RequestSet.groups_removeParent]
    by_cases h : hash = x <;> simp [h]

theorem certificates_purge (p : Pending) (isResolved : Hash → Bool) (hash : Hash) :
    (p.purge isResolved).2.requests.certificates.get? hash =
      if isResolved hash then none else p.requests.certificates.get? hash := by
  rw [purge, certificates_foldl_removeParent]
  simp only [List.mem_filter, RequestSet.mem_parents]
  by_cases h : isResolved hash = true
  · cases hget : p.requests.certificates.get? hash with
    | none => simp
    | some r => simp [h, RequestSet.holds, contains, hget]
  · simp [h]

theorem groups_purge (p : Pending) (isResolved : Hash → Bool) (hash : Hash) :
    (p.purge isResolved).2.requests.groups.get? hash =
      if isResolved hash then none else p.requests.groups.get? hash := by
  rw [purge, groups_foldl_removeParent]
  simp only [List.mem_filter, RequestSet.mem_parents]
  by_cases h : isResolved hash = true
  · cases hget : p.requests.groups.get? hash with
    | none => simp
    | some r => simp [h, RequestSet.holds, contains, hget]
  · simp [h]

theorem remainsOf_purge (p : Pending) (isResolved : Hash → Bool) :
    (p.purge isResolved).2.requests.RemainsOf p.requests where
  certificate h := by
    rw [certificates_purge] at h
    split at h
    · cases h
    · exact h
  group h := by
    rw [groups_purge] at h
    split at h
    · cases h
    · exact h

theorem holds_purge (p : Pending) (isResolved : Hash → Bool) (hash : Hash) :
    (p.purge isResolved).2.requests.holds hash =
      (!isResolved hash && p.requests.holds hash) := by
  simp only [RequestSet.holds, contains, certificates_purge, groups_purge]
  by_cases h : isResolved hash = true <;> simp [h]

end Pending

/-! ## Enqueueing the withdrawals of one transaction -/

namespace Queue

/-- The withdrawals' requests by position; of several at one position the last stands. -/
def groupOf (rs : List WithdrawalRequest) : OrderedMap UInt32 WithdrawalRequest :=
  OrderedMap.ofList (rs.map fun r => (r.position, r))

theorem get?_groupOf (rs : List WithdrawalRequest) (position : UInt32) :
    (groupOf rs).get? position = rs.reverse.find? fun r => r.position = position := by
  rw [groupOf, get?_ofList, ← List.map_reverse, List.find?_map]
  simp only [Option.map_map, Function.comp_def, Option.map_id']

theorem certificates_enqueueWithdrawals (q : Queue) (rs : List WithdrawalRequest) (now : Instant) :
    (q.enqueueWithdrawals rs now).pending.requests.certificates =
      q.pending.requests.certificates := by
  simp only [enqueueWithdrawals]
  generalize q.pending = p
  induction rs generalizing p with
  | nil => rfl
  | cons r rest ih => rw [List.foldl_cons, ih]; rfl

theorem groups_enqueueWithdrawals_of_ne (q : Queue) {rs : List WithdrawalRequest} (now : Instant)
    {hash : Hash} (h : ∀ r ∈ rs, r.transactionHash ≠ hash) :
    (q.enqueueWithdrawals rs now).pending.requests.groups.get? hash =
      q.pending.requests.groups.get? hash := by
  simp only [enqueueWithdrawals]
  generalize q.pending = p
  induction rs generalizing p with
  | nil => rfl
  | cons r rest ih =>
    rw [List.foldl_cons, ih fun r' hr' => h r' (List.mem_cons_of_mem _ hr'),
      Pending.enqueueWithdrawal, RequestSet.groups_insertWithdrawal,
      if_neg (h r List.mem_cons_self).symm]

theorem groups_enqueueWithdrawals (q : Queue) {rs : List WithdrawalRequest} (now : Instant)
    {hash : Hash} (hne : rs ≠ []) (h : ∀ r ∈ rs, r.transactionHash = hash) :
    (q.enqueueWithdrawals rs now).pending.requests.groups.get? hash =
      some (((q.pending.requests.groups.get? hash).getD .empty).union (groupOf rs)) := by
  suffices hfold : ∀ (rs : List WithdrawalRequest) (p : Pending)
      (group : OrderedMap UInt32 WithdrawalRequest),
      (∀ r ∈ rs, r.transactionHash = hash) → p.requests.groups.get? hash = some group →
      (rs.foldl (fun p r => p.enqueueWithdrawal r now) p).requests.groups.get? hash =
        some (rs.foldl (fun group r => group.insert r.position r) group) by
    obtain ⟨r, rest, rfl⟩ := List.exists_cons_of_ne_nil hne
    have hfirst : (q.pending.enqueueWithdrawal r now).requests.groups.get? hash =
        some (((q.pending.requests.groups.get? hash).getD .empty).insert r.position r) := by
      rw [Pending.enqueueWithdrawal, RequestSet.groups_insertWithdrawal,
        if_pos (h r List.mem_cons_self).symm]
    rw [enqueueWithdrawals, List.foldl_cons,
      hfold rest _ _ (fun r' hr' => h r' (List.mem_cons_of_mem _ hr')) hfirst]
    congr 1
    refine ext_get? ?_
    intro position
    rw [get?_union, groupOf, ofList, get?_foldl_insert, get?_empty, Option.or_none,
      ← get?_foldl_insert, List.foldl_map, List.foldl_cons]
  intro rs
  induction rs with
  | nil => intro p group _ hgroup; exact hgroup
  | cons r rest ih =>
    intro p group hrs hgroup
    rw [List.foldl_cons, List.foldl_cons]
    refine ih _ _ (fun r' hr' => hrs r' (List.mem_cons_of_mem _ hr')) ?_
    rw [Pending.enqueueWithdrawal, RequestSet.groups_insertWithdrawal,
      if_pos (hrs r List.mem_cons_self).symm, hgroup, Option.getD_some]

theorem mem_requests_enqueueWithdrawals {q : Queue} {rs : List WithdrawalRequest} {now : Instant}
    {r : Request} (h : r ∈ (q.enqueueWithdrawals rs now).pending.requests.requests) :
    r ∈ rs.map Request.withdrawal ∨ r ∈ q.pending.requests.requests := by
  simp only [enqueueWithdrawals] at h
  generalize q.pending = p at h ⊢
  induction rs generalizing p with
  | nil => exact .inr h
  | cons r' rest ih =>
    rcases ih _ h with hrest | hp
    · exact .inl (List.mem_cons_of_mem _ hrest)
    · rcases RequestSet.mem_requests_insertWithdrawal hp with rfl | hp
      · exact .inl List.mem_cons_self
      · exact .inr hp

theorem keyed_enqueueWithdrawals {q : Queue} (hq : q.pending.requests.Keyed)
    (rs : List WithdrawalRequest) (now : Instant) :
    (q.enqueueWithdrawals rs now).pending.requests.Keyed := by
  simp only [enqueueWithdrawals]
  generalize q.pending = p at hq
  induction rs generalizing p with
  | nil => exact hq
  | cons r rest ih => exact ih _ (hq.insertWithdrawal r)

end Queue

end SidechainVerifier
