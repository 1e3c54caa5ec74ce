/-
SidechainVerifier.Proofs.FlatSets — sets of requests, seen as flat maps.

A `RequestSet` keeps certificates in one map and withdrawals in another, in
groups. `RequestSet.Represents` says that it holds what a flat map from
identities to requests holds, and the laws below say that every operation on
request sets does to the flat map what its name says. What can be read off a
set can be read off the flat map: its requests are the values in the order
of their identities (`Represents.requests_eq`), and its certificates and
transactions are the different ones among the identities
(`Represents.certificates_keys`, `Represents.transactions_keys`).
-/
import Mathlib.Data.List.Dedup
import SidechainVerifier.Proofs.RequestSets

namespace SidechainVerifier

open OrderedMap

/-! ## Objects that identities belong to -/

namespace RequestId

/-- The hash of the certificate that an identity belongs to. -/
def certificate? : RequestId → Option Hash
  | .certificate hash => some hash
  | .withdrawal _ _ => none

/-- The hash of the transaction that an identity belongs to. -/
def transaction? : RequestId → Option Hash
  | .certificate _ => none
  | .withdrawal transaction _ => some transaction

/-- The different certificates among some identities. -/
def certificates (ids : List RequestId) : List Hash := (ids.filterMap certificate?).dedup

/-- The different transactions among some identities. -/
def transactions (ids : List RequestId) : List Hash := (ids.filterMap transaction?).dedup

/-- The number of different certificates and transactions. -/
def parentCount (ids : List RequestId) : Nat := (certificates ids).length + (transactions ids).length

end RequestId

namespace RequestSet

/-! ## Look-ups by identity -/

/-- The request under an identity. -/
def request? (s : RequestSet) : RequestId → Option Request
  | .certificate hash => (s.certificates.get? hash).map .certificate
  | .withdrawal transaction position =>
    ((s.groups.get? transaction).bind fun group => group.get? position).map .withdrawal

theorem request?_empty (id : RequestId) : empty.request? id = none := by
  cases id <;> rfl

theorem Keyed.request?_eq_some_iff {s : RequestSet} (hs : s.Keyed) {id : RequestId} {r : Request} :
    s.request? id = some r ↔ r ∈ s.requests ∧ r.id = id := by
  constructor
  · intro h
    cases id with
    | certificate hash =>
      obtain ⟨c, hc, rfl⟩ := Option.map_eq_some_iff.mp h
      exact ⟨mem_requests_certificate.mpr ⟨hash, hc⟩, congrArg RequestId.certificate (hs.certificate hc)⟩
    | withdrawal transaction position =>
      obtain ⟨w, hw, rfl⟩ := Option.map_eq_some_iff.mp h
      obtain ⟨group, hgroup, hw⟩ := Option.bind_eq_some_iff.mp hw
      obtain ⟨hhash, hposition⟩ := hs.withdrawal hgroup hw
      exact ⟨mem_requests_withdrawal.mpr ⟨transaction, group, position, hgroup, hw⟩,
        congr (congrArg RequestId.withdrawal hhash) hposition⟩
  · rintro ⟨hr, rfl⟩
    cases r with
    | certificate r =>
      obtain ⟨hash, hget⟩ := mem_requests_certificate.mp hr
      rw [Request.id, CertificateRequest.id, request?, hs.certificate hget, hget, Option.map_some]
    | withdrawal r =>
      obtain ⟨hash, group, position, hgroup, hget⟩ := mem_requests_withdrawal.mp hr
      obtain ⟨hhash, hposition⟩ := hs.withdrawal hgroup hget
      rw [Request.id, WithdrawalRequest.id, request?, hhash, hposition, hgroup, Option.bind_some, hget,
        Option.map_some]

theorem request?_insertCertificate (s : RequestSet) (r : CertificateRequest) (id : RequestId) :
    (s.insertCertificate r).request? id =
      if id = r.id then some (.certificate r) else s.request? id := by
  cases id with
  | certificate hash =>
    simp only [request?, certificates_insertCertificate, CertificateRequest.id,
      RequestId.certificate.injEq]
    split <;> rfl
  | withdrawal transaction position => simp [CertificateRequest.id, request?, insertCertificate]

theorem request?_insertWithdrawal (s : RequestSet) (r : WithdrawalRequest) (id : RequestId) :
    (s.insertWithdrawal r).request? id =
      if id = r.id then some (.withdrawal r) else s.request? id := by
  cases id with
  | certificate hash => simp [WithdrawalRequest.id, request?, insertWithdrawal]
  | withdrawal transaction position =>
    simp only [request?, groups_insertWithdrawal, WithdrawalRequest.id, RequestId.withdrawal.injEq]
    by_cases hhash : transaction = r.transactionHash
    · subst hhash
      rw [if_pos rfl, Option.bind_some, get?_insert_eq]
      by_cases hposition : position = r.position
      · simp [hposition]
      · cases s.groups.get? r.transactionHash <;> simp [hposition]
    · simp [hhash]

theorem request?_removeParent (s : RequestSet) (hash : Hash) (id : RequestId) :
    (s.removeParent hash).request? id = if id.parent = hash then none else s.request? id := by
  cases id with
  | certificate hash' =>
    by_cases h : hash' = hash <;> simp [request?, RequestId.parent, certificates_removeParent, h]
  | withdrawal transaction position =>
    by_cases h : transaction = hash <;> simp [request?, RequestId.parent, groups_removeParent, h]

theorem request?_absorb (s other : RequestSet) (id : RequestId) :
    (s.absorb other).request? id = (other.request? id).or (s.request? id) := by
  cases id with
  | certificate hash =>
    rw [request?, certificates_absorb, Option.map_or]
    rfl
  | withdrawal transaction position =>
    simp only [request?, groups_absorb]
    cases other.groups.get? transaction with
    | none => rfl
    | some group =>
      rw [Option.bind_some, Option.bind_some, get?_union, Option.map_or]
      cases s.groups.get? transaction <;> rfl

/-- The object of a request of the set is one of the set's. -/
theorem parent_mem_parents {s : RequestSet} {id : RequestId} (h : (s.request? id).isSome) :
    id.parent ∈ s.parents := by
  rw [mem_parents, holds, Bool.or_eq_true]
  cases id with
  | certificate hash => exact .inl (by simpa [request?, contains, RequestId.parent] using h)
  | withdrawal transaction position =>
    obtain ⟨r, hr⟩ := Option.isSome_iff_exists.mp h
    obtain ⟨w, hw, -⟩ := Option.map_eq_some_iff.mp hr
    obtain ⟨group, hgroup, -⟩ := Option.bind_eq_some_iff.mp hw
    exact .inr (contains_iff.mpr ⟨group, hgroup⟩)

theorem mem_idsOf (s : RequestSet) (hash : Hash) (id : RequestId) :
    id ∈ s.idsOf hash ↔ id.parent = hash ∧ (s.request? id).isSome := by
  cases id with
  | certificate hash' =>
    by_cases h : hash' = hash
    · subst h
      cases hc : s.certificates.get? hash' <;> simp [idsOf, request?, RequestId.parent, contains, hc]
    · cases hc : s.certificates.contains hash <;> simp [idsOf, RequestId.parent, h, hc]
  | withdrawal transaction position =>
    have hcertificate : RequestId.withdrawal transaction position ∉
        if s.certificates.contains hash then [RequestId.certificate hash] else [] := by
      cases s.certificates.contains hash <;> simp
    rw [idsOf, List.mem_append, or_iff_right hcertificate]
    by_cases h : transaction = hash
    · subst h
      cases hgroup : s.groups.get? transaction <;>
        simp [request?, RequestId.parent, hgroup, mem_keys_iff, contains]
    · simp [RequestId.parent, h, Ne.symm h]

/-! ## Some of the objects of a set -/

/-- Sets that hold the same under every hash are equal. -/
theorem ext_get? {s t : RequestSet}
    (hcertificates : ∀ hash, s.certificates.get? hash = t.certificates.get? hash)
    (hgroups : ∀ hash, s.groups.get? hash = t.groups.get? hash) : s = t := by
  cases s
  cases t
  rw [mk.injEq]
  exact ⟨OrderedMap.ext_get? hcertificates, OrderedMap.ext_get? hgroups⟩

/-- The certificates and transactions whose hash satisfies a condition. -/
def filter (s : RequestSet) (p : Hash → Bool) : RequestSet :=
  ⟨s.certificates.filter fun hash _ => p hash, s.groups.filter fun hash _ => p hash⟩

theorem certificates_filter (s : RequestSet) (p : Hash → Bool) (hash : Hash) :
    (s.filter p).certificates.get? hash = if p hash then s.certificates.get? hash else none :=
  get?_filter_keys _ _ _

theorem groups_filter (s : RequestSet) (p : Hash → Bool) (hash : Hash) :
    (s.filter p).groups.get? hash = if p hash then s.groups.get? hash else none :=
  get?_filter_keys _ _ _

theorem parents_filter (s : RequestSet) (p : Hash → Bool) :
    (s.filter p).parents = s.parents.filter p := by
  rw [parents, parents, filter, keys_filter, keys_filter, List.filter_append]

theorem remainsOf_filter (s : RequestSet) (p : Hash → Bool) : (s.filter p).RemainsOf s where
  certificate h := by
    rw [certificates_filter] at h
    split at h
    · exact h
    · cases h
  group h := by
    rw [groups_filter] at h
    split at h
    · exact h
    · cases h

theorem request?_filter (s : RequestSet) (p : Hash → Bool) (id : RequestId) :
    (s.filter p).request? id = if p id.parent then s.request? id else none := by
  cases id with
  | certificate hash =>
    cases hp : p hash <;> simp [request?, RequestId.parent, certificates_filter, hp]
  | withdrawal transaction position =>
    cases hp : p transaction <;> simp [request?, RequestId.parent, groups_filter, hp]

theorem filter_congr {s : RequestSet} {p q : Hash → Bool} (h : ∀ hash, p hash = q hash) :
    s.filter p = s.filter q :=
  congrArg s.filter (funext h)

theorem filter_true (s : RequestSet) : (s.filter fun _ => true) = s :=
  ext_get? (fun hash => by simp [certificates_filter]) fun hash => by simp [groups_filter]

theorem filter_filter (s : RequestSet) (p q : Hash → Bool) :
    (s.filter p).filter q = s.filter fun hash => p hash && q hash := by
  refine ext_get? (fun hash => ?_) fun hash => ?_
  · cases hp : p hash <;> cases hq : q hash <;> simp [certificates_filter, hp, hq]
  · cases hp : p hash <;> cases hq : q hash <;> simp [groups_filter, hp, hq]

theorem removeParent_eq_filter (s : RequestSet) (hash : Hash) :
    s.removeParent hash = s.filter fun hash' => hash' ≠ hash := by
  refine ext_get? (fun hash' => ?_) fun hash' => ?_
  · by_cases h : hash' = hash <;> simp [certificates_filter, certificates_removeParent, h]
  · by_cases h : hash' = hash <;> simp [groups_filter, groups_removeParent, h]

theorem empty_eq_filter (s : RequestSet) : empty = s.filter fun _ => false :=
  ext_get? (fun hash => by simp [certificates_filter, empty]) fun hash => by
    simp [groups_filter, empty]

/-! ## Order -/

/-- The requests of a set are listed in the order of their identities. -/
theorem Keyed.pairwise_requests {s : RequestSet} (hs : s.Keyed) :
    s.requests.Pairwise fun r r' => compare r.id r'.id = .lt := by
  refine List.pairwise_append.mpr ⟨?_, ?_, ?_⟩
  · refine List.pairwise_map.mpr (List.pairwise_map.mpr ?_)
    refine s.certificates.sorted.imp_of_mem ?_
    intro e e' he he' hlt
    rw [Request.id, Request.id, CertificateRequest.id, CertificateRequest.id,
      hs.certificate ((mem_entries_iff _ _ _).mp he), hs.certificate ((mem_entries_iff _ _ _).mp he')]
    exact hlt
  · -- Within a group positions decide, between groups the hashes.
    refine List.pairwise_flatMap.mpr ⟨?_, ?_⟩
    · intro group hgroup
      obtain ⟨hash, hgroup⟩ := mem_values_iff.mp hgroup
      refine List.pairwise_map.mpr (List.pairwise_map.mpr (group.sorted.imp_of_mem ?_))
      intro e e' he he' hlt
      obtain ⟨hhash, hposition⟩ := hs.withdrawal hgroup ((mem_entries_iff _ _ _).mp he)
      obtain ⟨hhash', hposition'⟩ := hs.withdrawal hgroup ((mem_entries_iff _ _ _).mp he')
      show (compare e.2.transactionHash e'.2.transactionHash).then
        (compare e.2.position e'.2.position) = .lt
      rw [hhash, hhash', hposition, hposition', Std.ReflOrd.compare_self]
      exact hlt
    · refine List.pairwise_map.mpr (s.groups.sorted.imp_of_mem ?_)
      intro e e' he he' hlt r hr r' hr'
      obtain ⟨w, hw, rfl⟩ := List.mem_map.mp hr
      obtain ⟨w', hw', rfl⟩ := List.mem_map.mp hr'
      obtain ⟨_, hw⟩ := mem_values_iff.mp hw
      obtain ⟨_, hw'⟩ := mem_values_iff.mp hw'
      show (compare w.transactionHash w'.transactionHash).then (compare w.position w'.position) = .lt
      rw [(hs.withdrawal ((mem_entries_iff _ _ _).mp he) hw).1,
        (hs.withdrawal ((mem_entries_iff _ _ _).mp he') hw').1, hlt]
      rfl
  · intro r hr r' hr'
    obtain ⟨c, -, rfl⟩ := List.mem_map.mp hr
    obtain ⟨group, -, hr'⟩ := List.mem_flatMap.mp hr'
    obtain ⟨w, -, rfl⟩ := List.mem_map.mp hr'
    rfl

/-- A group is as many withdrawals of its transaction. -/
theorem Keyed.transactions_group {s : RequestSet} (hs : s.Keyed) {hash : Hash}
    {group : OrderedMap UInt32 WithdrawalRequest} (hgroup : s.groups.get? hash = some group) :
    (group.values.map Request.withdrawal).filterMap (RequestId.transaction? ∘ Request.id) =
      List.replicate group.size hash := by
  have htransaction : ∀ r ∈ group.values,
      ((RequestId.transaction? ∘ Request.id) ∘ Request.withdrawal) r = some hash := by
    intro r hr
    obtain ⟨_, hr⟩ := mem_values_iff.mp hr
    exact congrArg some (hs.withdrawal hgroup hr).1
  rw [List.filterMap_map, List.filterMap_congr htransaction, List.filterMap_eq_map', List.map_const',
    length_values]

/-! ## Representation -/

/-- A set holds the requests of a flat map. -/
structure Represents (s : RequestSet) (m : OrderedMap RequestId Request) : Prop where
  keyed : s.Keyed
  request?_eq : ∀ id, s.request? id = m.get? id

namespace Represents

variable {s t : RequestSet} {m n : OrderedMap RequestId Request}

theorem empty : RequestSet.empty.Represents .empty := ⟨keyed_empty, request?_empty⟩

theorem insertCertificate (h : s.Represents m) (r : CertificateRequest) :
    (s.insertCertificate r).Represents (m.insert r.id (.certificate r)) where
  keyed := h.keyed.insertCertificate r
  request?_eq id := by rw [request?_insertCertificate, get?_insert_eq, h.request?_eq]

theorem insertWithdrawal (h : s.Represents m) (r : WithdrawalRequest) :
    (s.insertWithdrawal r).Represents (m.insert r.id (.withdrawal r)) where
  keyed := h.keyed.insertWithdrawal r
  request?_eq id := by rw [request?_insertWithdrawal, get?_insert_eq, h.request?_eq]

theorem removeParent (h : s.Represents m) (hash : Hash) :
    (s.removeParent hash).Represents (m.filter fun id _ => id.parent != hash) where
  keyed := (RemainsOf.removeParent s hash).keyed h.keyed
  request?_eq id := by
    rw [request?_removeParent, get?_filter_keys, h.request?_eq]
    by_cases hid : id.parent = hash <;> simp [hid]

theorem filter (h : s.Represents m) (p : Hash → Bool) :
    (s.filter p).Represents (m.filter fun id _ => p id.parent) where
  keyed := (remainsOf_filter s p).keyed h.keyed
  request?_eq id := by rw [request?_filter, get?_filter_keys, h.request?_eq]

theorem absorb (h : s.Represents m) (h' : t.Represents n) :
    (s.absorb t).Represents (m.union n) where
  keyed := h.keyed.absorb h'.keyed
  request?_eq id := by rw [request?_absorb, get?_union, h.request?_eq, h'.request?_eq]

/-! ## What can be read off -/

theorem entries_eq (h : s.Represents m) : m.entries = s.requests.map fun r => (r.id, r) := by
  refine pairwise_ext m.sorted (List.pairwise_map.mpr h.keyed.pairwise_requests) ?_
  intro e
  rw [← Prod.eta e, mem_entries_iff, ← h.request?_eq, h.keyed.request?_eq_some_iff, List.mem_map]
  constructor
  · rintro ⟨hr, hid⟩
    exact ⟨e.2, hr, Prod.ext hid rfl⟩
  · rintro ⟨r, hr, he⟩
    obtain ⟨hid, rfl⟩ := Prod.mk.inj he
    exact ⟨hr, hid⟩

theorem requests_eq (h : s.Represents m) : s.requests = m.values := by
  simp [values, h.entries_eq, Function.comp_def]

theorem keys_eq (h : s.Represents m) : m.keys = s.requests.map Request.id := by
  simp [keys, h.entries_eq]

theorem requestCount_eq (h : s.Represents m) : s.requestCount = m.size := by
  have hfold (l : List (OrderedMap UInt32 WithdrawalRequest)) (count : Nat) :
      l.foldl (fun count group => count + group.size) count =
        count + (l.flatMap fun group => group.values.map Request.withdrawal).length := by
    induction l generalizing count with
    | nil => rfl
    | cons group rest ih =>
      rw [List.foldl_cons, ih, List.flatMap_cons, List.length_append, List.length_map, values,
        List.length_map, Nat.add_assoc]
      rfl
  rw [size, h.entries_eq, List.length_map, requestCount, hfold, requests, List.length_append,
    List.length_map, length_values]

theorem isEmpty_eq (h : s.Represents m) : s.isEmpty = m.isEmpty := by
  rw [Bool.eq_iff_iff, OrderedMap.isEmpty, h.entries_eq, List.isEmpty_iff, List.map_eq_nil_iff,
    h.keyed.requests_eq_nil_iff, RequestSet.isEmpty, Bool.and_eq_true, OrderedMap.isEmpty,
    OrderedMap.isEmpty, List.isEmpty_iff, List.isEmpty_iff]
  constructor
  · rintro ⟨hcertificates, hgroups⟩ hash
    simp [holds, contains, get?, hcertificates, hgroups]
  · intro hnone
    have hs : s = .empty := h.keyed.eq_empty (h.keyed.requests_eq_nil_iff.mpr hnone)
    rw [hs]
    exact ⟨rfl, rfl⟩

theorem certificates_keys (h : s.Represents m) :
    RequestId.certificates m.keys = s.certificates.keys := by
  have hcertificates : (s.certificates.values.map Request.certificate).filterMap
      (RequestId.certificate? ∘ Request.id) = s.certificates.keys := by
    rw [values, keys, List.map_map, List.filterMap_map, ← List.filterMap_eq_map]
    refine List.filterMap_congr ?_
    intro e he
    exact congrArg some (h.keyed.certificate ((mem_entries_iff _ _ _).mp he))
  have hwithdrawals : (s.groups.values.flatMap fun group => group.values.map Request.withdrawal).filterMap
      (RequestId.certificate? ∘ Request.id) = [] := by
    refine List.filterMap_eq_nil_iff.mpr ?_
    intro r hr
    obtain ⟨group, -, hr⟩ := List.mem_flatMap.mp hr
    obtain ⟨w, -, rfl⟩ := List.mem_map.mp hr
    rfl
  rw [RequestId.certificates, h.keys_eq, List.filterMap_map, requests, List.filterMap_append,
    hcertificates, hwithdrawals, List.append_nil, (nodup_keys _).dedup]

/-- Groups are not empty, so each is met at its first withdrawal. -/
theorem transactions_keys (h : s.Represents m) :
    RequestId.transactions m.keys = s.groups.keys := by
  have hcertificates : (s.certificates.values.map Request.certificate).filterMap
      (RequestId.transaction? ∘ Request.id) = [] := by
    refine List.filterMap_eq_nil_iff.mpr ?_
    intro r hr
    obtain ⟨c, -, rfl⟩ := List.mem_map.mp hr
    rfl
  have hgroups (l : List (Hash × OrderedMap UInt32 WithdrawalRequest)) (hl : l ⊆ s.groups.entries)
      (hnodup : (l.map Prod.fst).Nodup) :
      (((l.map Prod.snd).flatMap fun group => group.values.map Request.withdrawal).filterMap
        (RequestId.transaction? ∘ Request.id)).dedup = l.map Prod.fst := by
    induction l with
    | nil => rfl
    | cons e rest ih =>
      obtain ⟨he, hrest⟩ := List.nodup_cons.mp hnodup
      obtain ⟨hgroup, hrestsub⟩ := List.cons_subset.mp hl
      have hgroup := (mem_entries_iff _ _ _).mp hgroup
      have ih := ih hrestsub hrest
      have hsize : e.2.size ≠ 0 := by
        rw [OrderedMap.size, Ne, List.length_eq_zero_iff]
        intro hentries
        exact h.keyed.nonempty hgroup (eq_empty_iff.mpr fun k => by simp [get?, hentries])
      rw [List.map_cons, List.map_cons, List.flatMap_cons, List.filterMap_append,
        h.keyed.transactions_group hgroup, List.Disjoint.dedup_append, List.replicate_dedup hsize, ih]
      · rfl
      · intro hash hhead htail
        rw [List.eq_of_mem_replicate hhead, ← List.mem_dedup, ih] at htail
        exact he htail
  rw [RequestId.transactions, h.keys_eq, List.filterMap_map, requests, List.filterMap_append,
    hcertificates, List.nil_append, values, hgroups _ (List.Subset.refl _) (nodup_keys _)]
  rfl

end Represents

end RequestSet

end SidechainVerifier
