/-
SidechainVerifier.Proofs.Deliveries — what the deliveries of a batch tell.

A batch taken out of flight may hold more than was handed off for it, if an
earlier cycle was torn down, and less, if objects were dropped. Each of its
deliveries tells the verdicts on requests that were handed off
(`tells_of_mem_deliveries`), and when every request has a verdict, each
object of the batch gets one delivery (`map_hash_deliveries`).
-/
import SidechainVerifier.Delivery
import SidechainVerifier.Proofs.Consultations
import SidechainVerifier.Proofs.RequestSets

namespace SidechainVerifier

open OrderedMap

/-! ## Combined verdicts -/

namespace Verdict

variable {verdicts others : List Verdict}

theorem combine_eq_passed_iff : combine verdicts = .passed ↔ ∀ v ∈ verdicts, v = .passed := by
  unfold combine
  constructor
  · intro h v hv
    split at h
    · cases h
    · split at h
      · cases h
      next hfailed hunknown => cases v <;> simp_all
  · intro h
    have hfailed : .failed ∉ verdicts := fun hmem => Verdict.noConfusion (h _ hmem)
    have hunknown : .unknown ∉ verdicts := fun hmem => Verdict.noConfusion (h _ hmem)
    rw [if_neg hfailed, if_neg hunknown]

theorem combine_ne_unknown_of_forall (h : ∀ v ∈ verdicts, v ≠ .unknown) :
    combine verdicts ≠ .unknown := by
  unfold combine
  split
  · decide
  · rw [if_neg fun hmem => h _ hmem rfl]
    decide

theorem combine_ne_unknown (h : combine verdicts ≠ .unknown) :
    .failed ∈ verdicts ∨ ∀ v ∈ verdicts, v = .passed := by
  by_cases hfailed : .failed ∈ verdicts
  · exact .inl hfailed
  · refine .inr (combine_eq_passed_iff.mp ?_)
    simp only [combine, if_neg hfailed] at h ⊢
    split at h
    · exact absurd rfl h
    next hunknown => rw [if_neg hunknown]

theorem combine_congr (h : ∀ v, v ∈ verdicts ↔ v ∈ others) : combine verdicts = combine others := by
  simp only [combine, h]

/-- Verdicts can be left out when they are no news. -/
theorem combine_eq_of_subset (hsub : others ⊆ verdicts) (hfailed : .failed ∈ verdicts → .failed ∈ others)
    (hne : combine verdicts ≠ .unknown) : combine verdicts = combine others := by
  rcases combine_ne_unknown hne with hmem | hall
  · simp only [combine, hmem, hfailed hmem, if_true]
  · rw [combine_eq_passed_iff.mpr hall, combine_eq_passed_iff.mpr fun v hv => hall v (hsub hv)]

end Verdict

/-! ## Single deliveries -/

namespace Delivery

theorem of?_eq_some {subject : Subject} {hash : Hash} {origin : Option PeerId} {verdict : Verdict}
    {d : Delivery} (h : of? subject hash origin verdict = some d) :
    d.notice.subject = subject ∧ d.hash = hash ∧ d.verdict = verdict ∧ verdict ≠ .unknown ∧
      (d.notice.outcome = .verified ↔ verdict = .passed) := by
  cases verdict with
  | unknown => cases h
  | passed =>
    cases h
    simp
  | failed =>
    cases h
    simp

theorem origin_of? {subject : Subject} {hash : Hash} {origin : Option PeerId} {verdict : Verdict}
    {d : Delivery} (h : of? subject hash origin verdict = some d) : d.notice.origin = origin := by
  cases verdict with
  | unknown => cases h
  | passed =>
    cases h
    rfl
  | failed =>
    cases h
    rfl

theorem exists_of? (subject : Subject) (hash : Hash) (origin : Option PeerId) {verdict : Verdict}
    (h : verdict ≠ .unknown) : ∃ d, of? subject hash origin verdict = some d ∧ d.hash = hash := by
  cases verdict with
  | unknown => exact absurd rfl h
  | passed => exact ⟨_, rfl, rfl⟩
  | failed => exact ⟨_, rfl, rfl⟩

end Delivery

theorem transactionDelivery?_eq_some {hash : Hash} {group : OrderedMap UInt32 WithdrawalRequest}
    {results : Results} {d : Delivery} (h : transactionDelivery? hash group results = some d) :
    ∃ first rest, group.values = first :: rest ∧
      Delivery.of? (.transaction first.transaction) hash first.origin
        (.combine (group.values.map fun r => results.verdict (.withdrawal hash r.position))) =
        some d := by
  unfold transactionDelivery? at h
  split at h
  next => cases h
  next first rest hvalues =>
    refine ⟨first, rest, hvalues, ?_⟩
    rw [hvalues]
    exact h

theorem exists_transactionDelivery? {hash : Hash} {group : OrderedMap UInt32 WithdrawalRequest}
    {results : Results} (hvalues : group.values ≠ [])
    (hne : Verdict.combine
      (group.values.map fun r => results.verdict (.withdrawal hash r.position)) ≠ .unknown) :
    ∃ d, transactionDelivery? hash group results = some d ∧ d.hash = hash := by
  unfold transactionDelivery?
  split
  next hnil => exact absurd hnil hvalues
  next first rest hcons =>
    rw [hcons] at hne
    exact Delivery.exists_of? _ _ _ hne

namespace RequestSet

variable {s old kept taken : RequestSet} {results : Results} {good : Check → Verdict → Prop}
  {d : Delivery}

theorem mem_deliveries :
    d ∈ s.deliveries results ↔
      (∃ hash r, s.certificates.get? hash = some r ∧ r.delivery? results = some d) ∨
      (∃ hash group, s.groups.get? hash = some group ∧
        transactionDelivery? hash group results = some d) := by
  simp only [deliveries, List.mem_append, List.mem_filterMap, mem_values_iff, Prod.exists,
    mem_entries_iff]
  constructor
  · rintro (⟨r, ⟨hash, hget⟩, hd⟩ | h)
    · exact .inl ⟨hash, r, hget, hd⟩
    · exact .inr h
  · rintro (⟨hash, r, hget, hd⟩ | h)
    · exact .inl ⟨r, ⟨hash, hget⟩, hd⟩
    · exact .inr h

/-- A delivery is about a resolved verdict, and its outcome says whether it passed. -/
theorem resolved_of_mem_deliveries (h : d ∈ s.deliveries results) :
    d.verdict ≠ .unknown ∧ (d.notice.outcome = .verified ↔ d.verdict = .passed) := by
  rcases mem_deliveries.mp h with ⟨hash, r, -, hd⟩ | ⟨hash, group, -, hd⟩
  · obtain ⟨-, -, hverdict, hne, hiff⟩ := Delivery.of?_eq_some hd
    rw [hverdict]
    exact ⟨hne, hiff⟩
  · obtain ⟨_, _, -, hd⟩ := transactionDelivery?_eq_some hd
    obtain ⟨-, -, hverdict, hne, hiff⟩ := Delivery.of?_eq_some hd
    rw [hverdict]
    exact ⟨hne, hiff⟩

end RequestSet

/-! ## Verdicts on what was handed off -/

namespace Results

variable {results : Results} {good : Check → Verdict → Prop} {requests : List Request}

theorem Judge.resolved (h : results.Judge (Resolved good) requests) {r : Request}
    (hr : r ∈ requests) : results.verdict r.id ≠ .unknown ∧ good r.check (results.verdict r.id) := by
  obtain ⟨verdict, hget, hresolved⟩ := h.exists_verdict hr
  rwa [Results.verdict, hget, Option.getD_some]

theorem Judge.exists_request (h : results.Judge good requests) {id : RequestId}
    (hid : results.verdict id ≠ .unknown) : ∃ r ∈ requests, r.id = id := by
  by_contra hnone
  refine hid ?_
  rw [Results.verdict, h.get?_eq_none fun r hr hrid => hnone ⟨r, hr, hrid⟩, Option.getD_none]

end Results

namespace RequestSet

variable {s : RequestSet} {results : Results} {good : Check → Verdict → Prop}

/-- Verification of a set ends in good and resolved verdicts on all its requests, as no two of them
have one identity. -/
theorem Keyed.ensures_verify (hs : s.Keyed) {replies : Replies} (hj : replies.Justify good) :
    (BatchVerification.verify .strict s.requests).Ensures replies fun results =>
      results.Judge (Results.Resolved good) s.requests := by
  refine BatchVerification.ensures_verify hj ?_
  intro r hr r' hr' hid
  rw [hs.eq_of_id_eq hr hr' hid]

theorem Keyed.resolved_certificate (hs : s.Keyed)
    (h : results.Judge (Results.Resolved good) s.requests) {hash : Hash} {r : CertificateRequest}
    (hget : s.certificates.get? hash = some r) :
    results.verdict (.certificate hash) ≠ .unknown ∧
      good (.certificate r.check) (results.verdict (.certificate hash)) := by
  have hresolved := h.resolved (mem_requests_certificate.mpr ⟨hash, hget⟩)
  rwa [Request.id, CertificateRequest.id, hs.certificate hget] at hresolved

theorem Keyed.resolved_withdrawal (hs : s.Keyed)
    (h : results.Judge (Results.Resolved good) s.requests) {hash : Hash}
    {group : OrderedMap UInt32 WithdrawalRequest} (hgroup : s.groups.get? hash = some group)
    {r : WithdrawalRequest} (hr : r ∈ group.values) :
    results.verdict (.withdrawal hash r.position) ≠ .unknown ∧
      good (.withdrawal r.check) (results.verdict (.withdrawal hash r.position)) := by
  obtain ⟨position, hget⟩ := mem_values_iff.mp hr
  have hresolved := h.resolved (mem_requests_withdrawal.mpr ⟨hash, group, position, hgroup, hget⟩)
  rwa [Request.id, WithdrawalRequest.id, (hs.withdrawal hgroup hget).1] at hresolved

end RequestSet

/-- A delivery tells the verdicts on an object that was handed off: `kept` is what was handed off,
`old` what was in flight before. -/
inductive Delivery.Tells (old kept : RequestSet) (results : Results) (d : Delivery) : Prop
  | certificate {r} (hget : kept.certificates.get? d.hash = some r)
      (hsubject : d.notice.subject = .certificate r.certificate)
      (hverdict : d.verdict = results.verdict (.certificate d.hash))
  | transaction {group first rest} (hget : kept.groups.get? d.hash = some group)
      (hfirst : (((old.groups.get? d.hash).getD .empty).union group).values = first :: rest)
      (hsubject : d.notice.subject = .transaction first.transaction)
      (hverdict : d.verdict =
        .combine (group.values.map fun r => results.verdict (.withdrawal d.hash r.position)))

namespace RequestSet

variable {s old kept taken : RequestSet} {results : Results} {good : Check → Verdict → Prop}
  {d : Delivery}

theorem certificate_of_verdict (hkept : kept.Keyed) (h : results.Judge good kept.requests)
    {hash : Hash} (hne : results.verdict (.certificate hash) ≠ .unknown) :
    ∃ r, kept.certificates.get? hash = some r := by
  obtain ⟨r, hr, hid⟩ := h.exists_request hne
  cases r with
  | certificate r =>
    obtain ⟨hash', hget⟩ := mem_requests_certificate.mp hr
    have hhash : r.hash = hash := by simpa [Request.id, CertificateRequest.id] using hid
    exact ⟨r, by rw [← hhash, hkept.certificate hget, hget]⟩
  | withdrawal r => simp [Request.id, WithdrawalRequest.id] at hid

theorem withdrawal_of_verdict (hkept : kept.Keyed) (h : results.Judge good kept.requests)
    {hash : Hash} {position : UInt32}
    (hne : results.verdict (.withdrawal hash position) ≠ .unknown) :
    ∃ group r, kept.groups.get? hash = some group ∧ group.get? position = some r := by
  obtain ⟨r, hr, hid⟩ := h.exists_request hne
  cases r with
  | certificate r => simp [Request.id, CertificateRequest.id] at hid
  | withdrawal r =>
    obtain ⟨hash', group, position', hgroup, hget⟩ := mem_requests_withdrawal.mp hr
    obtain ⟨hhash, hposition⟩ := hkept.withdrawal hgroup hget
    simp only [Request.id, WithdrawalRequest.id, RequestId.withdrawal.injEq] at hid
    rw [← hid.1, ← hid.2, hhash, hposition]
    exact ⟨group, r, hgroup, hget⟩

/-- What is left over from an earlier batch changes nothing in the verdict on a transaction. -/
theorem combine_union (hkept : kept.Keyed) (h : results.Judge good kept.requests) {hash : Hash}
    {rest group : OrderedMap UInt32 WithdrawalRequest} (hgroup : kept.groups.get? hash = some group)
    (hne : Verdict.combine ((rest.union group).values.map fun r =>
      results.verdict (.withdrawal hash r.position)) ≠ .unknown) :
    Verdict.combine ((rest.union group).values.map fun r =>
        results.verdict (.withdrawal hash r.position)) =
      Verdict.combine (group.values.map fun r => results.verdict (.withdrawal hash r.position)) := by
  refine Verdict.combine_eq_of_subset ?_ ?_ hne
  · refine List.map_subset _ ?_
    intro r hr
    obtain ⟨position, hget⟩ := mem_values_iff.mp hr
    exact mem_values_iff.mpr ⟨position, by rw [get?_union, hget, Option.some_or]⟩
  · intro hfailed
    obtain ⟨r, hr, hverdict⟩ := List.mem_map.mp hfailed
    have hne : results.verdict (.withdrawal hash r.position) ≠ .unknown := by
      rw [hverdict]
      decide
    obtain ⟨group', r', hgroup', hget'⟩ := withdrawal_of_verdict hkept h hne
    rw [hgroup] at hgroup'
    cases hgroup'
    have hr' : r'.position = r.position := (hkept.withdrawal hgroup hget').2
    refine List.mem_map.mpr ⟨r', mem_values_iff.mpr ⟨_, hget'⟩, ?_⟩
    rw [hr', hverdict]

/-- Each delivery of a batch tells the verdicts on requests that were handed off. -/
theorem tells_of_mem_deliveries (htaken : taken.RemainsOf (old.absorb kept)) (hold : old.Keyed)
    (hkept : kept.Keyed) (h : results.Judge good kept.requests)
    (hd : d ∈ taken.deliveries results) : d.Tells old kept results := by
  have hflight : (old.absorb kept).Keyed := hold.absorb hkept
  rcases mem_deliveries.mp hd with ⟨hash, r, hget, hd⟩ | ⟨hash, group, hgroup, hd⟩
  · obtain ⟨hsubject, hhash, hverdict, hne, -⟩ := Delivery.of?_eq_some hd
    have hget := htaken.certificate hget
    rw [CertificateRequest.id, ← hhash] at hverdict hne
    obtain ⟨r', hr'⟩ := certificate_of_verdict hkept h hne
    have hrhash := hflight.certificate hget
    rw [← hrhash, ← hhash, certificates_absorb, hr', Option.some_or] at hget
    cases hget
    exact .certificate hr' hsubject hverdict
  · obtain ⟨first, rest, hvalues, hd⟩ := transactionDelivery?_eq_some hd
    obtain ⟨hsubject, hhash, hverdict, hne, -⟩ := Delivery.of?_eq_some hd
    have hgroup := htaken.group hgroup
    obtain ⟨r, -, hr⟩ : ∃ r ∈ group.values,
        results.verdict (.withdrawal hash r.position) ≠ .unknown := by
      rcases Verdict.combine_ne_unknown hne with hfailed | hall
      · obtain ⟨r, hr, hverdict⟩ := List.mem_map.mp hfailed
        exact ⟨r, hr, by rw [hverdict]; decide⟩
      · have hfirst := hall _ (List.mem_map_of_mem (hvalues ▸ List.mem_cons_self))
        exact ⟨first, hvalues ▸ List.mem_cons_self, by rw [hfirst]; decide⟩
    obtain ⟨group', -, hgroup', -⟩ := withdrawal_of_verdict hkept h hr
    rw [groups_absorb, hgroup'] at hgroup
    cases hgroup
    rw [combine_union hkept h hgroup' hne] at hverdict
    subst hhash
    exact .transaction hgroup' hvalues hsubject hverdict

/-! ## One delivery for each object -/

private theorem map_filterMap_of_forall {α β γ : Type} {l : List α} {f : α → Option β} {g : β → γ}
    {key : α → γ} (h : ∀ a ∈ l, ∃ b, f a = some b ∧ g b = key a) :
    (l.filterMap f).map g = l.map key := by
  induction l with
  | nil => rfl
  | cons a rest ih =>
    obtain ⟨b, hfa, hgb⟩ := h a List.mem_cons_self
    rw [List.filterMap_cons_some hfa, List.map_cons, List.map_cons, hgb,
      ih fun a' ha' => h a' (List.mem_cons_of_mem _ ha')]

private theorem map_filterMap_sublist {α β γ : Type} {l : List α} {f : α → Option β} {g : β → γ}
    {key : α → γ} (h : ∀ a ∈ l, ∀ b, f a = some b → g b = key a) :
    ((l.filterMap f).map g).Sublist (l.map key) := by
  induction l with
  | nil => exact .slnil
  | cons a rest ih =>
    have ih := ih fun a' ha' => h a' (List.mem_cons_of_mem _ ha')
    cases hfa : f a with
    | none =>
      rw [List.filterMap_cons_none hfa]
      exact ih.cons _
    | some b =>
      rw [List.filterMap_cons_some hfa, List.map_cons, List.map_cons,
        h a List.mem_cons_self b hfa]
      exact ih.cons_cons _

/-- The deliveries are about different objects of the set, in their order. -/
theorem sublist_hash_deliveries (hs : s.Keyed) (results : Results) :
    ((s.deliveries results).map (·.hash)).Sublist s.parents := by
  rw [deliveries, List.map_append, parents]
  refine .append ?_ ?_
  · rw [values, List.filterMap_map, keys]
    refine map_filterMap_sublist ?_
    intro e he d hd
    rw [(Delivery.of?_eq_some hd).2.1, hs.certificate ((mem_entries_iff _ _ _).mp he)]
  · rw [keys]
    refine map_filterMap_sublist ?_
    intro e _ d hd
    obtain ⟨_, _, -, hd⟩ := transactionDelivery?_eq_some hd
    exact (Delivery.of?_eq_some hd).2.1

/-- The deliveries for the certificates of a set. -/
def certificateDeliveries (s : RequestSet) (results : Results) : List Delivery :=
  s.certificates.entries.filterMap fun e => e.2.delivery? results

/-- The deliveries for the transactions of a set. -/
def transactionDeliveries (s : RequestSet) (results : Results) : List Delivery :=
  s.groups.entries.filterMap fun e => transactionDelivery? e.1 e.2 results

theorem deliveries_eq (s : RequestSet) (results : Results) :
    s.deliveries results = s.certificateDeliveries results ++ s.transactionDeliveries results := by
  rw [deliveries, values, List.filterMap_map]
  rfl

theorem map_hash_certificateDeliveries (hs : s.Keyed)
    (h : ∀ r ∈ s.requests, results.verdict r.id ≠ .unknown) :
    (s.certificateDeliveries results).map (·.hash) = s.certificates.keys := by
  refine map_filterMap_of_forall ?_
  intro e he
  have hget := (mem_entries_iff _ _ _).mp he
  rw [← hs.certificate hget]
  exact Delivery.exists_of? _ _ _ (h _ (mem_requests_certificate.mpr ⟨_, hget⟩))

theorem map_hash_transactionDeliveries (hs : s.Keyed)
    (h : ∀ r ∈ s.requests, results.verdict r.id ≠ .unknown) :
    (s.transactionDeliveries results).map (·.hash) = s.groups.keys := by
  refine map_filterMap_of_forall ?_
  intro e he
  have hgroup := (mem_entries_iff _ _ _).mp he
  obtain ⟨position, r, hget⟩ := hs.exists_withdrawal hgroup
  refine exists_transactionDelivery? (List.ne_nil_of_mem (mem_values_iff.mpr ⟨position, hget⟩)) ?_
  refine Verdict.combine_ne_unknown_of_forall ?_
  intro v hv
  obtain ⟨r, hr, rfl⟩ := List.mem_map.mp hv
  obtain ⟨position, hget⟩ := mem_values_iff.mp hr
  have hid := h _ (mem_requests_withdrawal.mpr ⟨_, _, _, hgroup, hget⟩)
  rwa [Request.id, WithdrawalRequest.id, (hs.withdrawal hgroup hget).1] at hid

/-- When every request has a verdict, the deliveries are those of all objects in their order. -/
theorem map_hash_deliveries (hs : s.Keyed)
    (h : ∀ r ∈ s.requests, results.verdict r.id ≠ .unknown) :
    (s.deliveries results).map (·.hash) = s.parents := by
  rw [deliveries_eq, List.map_append, map_hash_certificateDeliveries hs h,
    map_hash_transactionDeliveries hs h]
  rfl

end RequestSet

end SidechainVerifier
