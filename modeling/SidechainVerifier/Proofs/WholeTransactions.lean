/-
SidechainVerifier.Proofs.WholeTransactions — a transaction is enqueued as a
whole, or not at all.

A withdrawal is refused (`WithdrawalInput.Refused`) if the view does not know
its sidechain, or knows no withdrawal key of it; an empty key is a key. A
transaction is refused for the first of its withdrawals that is
(`WithdrawalInput.FirstRefused`), or for having none (`Transaction.Refused`).
Otherwise each withdrawal is requested for itself, under its place in the
transaction (`WithdrawalInput.Requested`).

Main statement: in any state of a run, enqueueing a transaction either is
refused, for the first cause there is, and leaves the verifier as it was, or
puts the requests of all its withdrawals in place of what was pending under
its hash, and changes nothing else (`Verifier.enqueued_whole_or_refused`).
Requests beyond the last withdrawal can be left under the hash only if it had
been given to a transaction of another length; that takes a collision.
-/
import SidechainVerifier.Proofs.ObjectNames

namespace SidechainVerifier

open OrderedMap

/-! ## Withdrawals -/

namespace WithdrawalInput

/-- Why the check of a withdrawal cannot be made up. -/
inductive Refused (view : View) (w : WithdrawalInput) : VerifierError → Prop
  | unknownSidechain (hunknown : view.sidechain w.sidechain = none) :
      Refused view w (.unknownSidechain w.sidechain)
  | missingKey {record} (hrecord : view.sidechain w.sidechain = some record)
      (hkey : record.withdrawalKey = none) :
      Refused view w (.missingWithdrawalKey w.sidechain)

/-- The view knows the sidechain of a withdrawal, and a key for it. -/
def Resolved (view : View) (w : WithdrawalInput) : Prop :=
  ∃ record key, view.sidechain w.sidechain = some record ∧ record.withdrawalKey = some key

/-- What is requested for a withdrawal at a place of a transaction. -/
inductive Requested (view : View) (transaction : Transaction) (origin : Option PeerId) (place : Nat)
    (w : WithdrawalInput) : WithdrawalRequest → Prop
  | intro {record key} (hrecord : view.sidechain w.sidechain = some record)
      (hkey : record.withdrawalKey = some key) :
      Requested view transaction origin place w
        { transactionHash := transaction.hash
          position := .ofNat place
          check :=
            { sidechain := w.sidechain
              constant := record.constant
              amount := w.amount
              nullifier := w.nullifier
              destination := w.destination
              certificateData := view.activeCertificateData w.sidechain
              ceasingRoot := w.ceasingRoot
              proof := w.proof
              key := key }
          transaction := transaction
          origin := origin }

variable {view : View} {transaction : Transaction} {origin : Option PeerId} {place : Nat}
  {w : WithdrawalInput}

/-- A withdrawal is not refused for what the view knows. -/
theorem Refused.not_resolved {e : VerifierError} (h : w.Refused view e) : ¬ w.Resolved view := by
  rintro ⟨record, key, hrecord, hkey⟩
  cases h with
  | unknownSidechain hunknown =>
    rw [hrecord] at hunknown
    cases hunknown
  | missingKey hrecord' hnone =>
    rw [hrecord] at hrecord'
    cases hrecord'
    rw [hkey] at hnone
    cases hnone

theorem check_eq_error_iff {e : VerifierError} : w.check view = .error e ↔ w.Refused view e := by
  constructor
  · intro h
    unfold check at h
    split at h
    next hunknown =>
      cases h
      exact .unknownSidechain hunknown
    next record hrecord =>
      split at h
      next hkey =>
        cases h
        exact .missingKey hrecord hkey
      next => cases h
  · intro h
    cases h with
    | unknownSidechain hunknown => simp only [check, hunknown]
    | missingKey hrecord hkey => simp only [check, hrecord, hkey]

theorem requested_of_check {check : WithdrawalCheck} (h : w.check view = .ok check) :
    w.Requested view transaction origin place
      { transactionHash := transaction.hash
        position := .ofNat place
        check := check
        transaction := transaction
        origin := origin } := by
  unfold WithdrawalInput.check at h
  split at h
  next => cases h
  next record hrecord =>
    split at h
    next => cases h
    next key hkey =>
      cases h
      exact .intro hrecord hkey

/-- A check is made up for the withdrawals that the view resolves. -/
theorem resolved_of_check {check : WithdrawalCheck} (h : w.check view = .ok check) :
    w.Resolved view := by
  unfold WithdrawalInput.check at h
  split at h
  next => cases h
  next record hrecord =>
    split at h
    next => cases h
    next key hkey => exact ⟨record, key, hrecord, hkey⟩

/-- The first withdrawal that is not resolved is refused for a given cause. -/
def FirstRefused (view : View) (ws : List WithdrawalInput) (e : VerifierError) : Prop :=
  ∃ before w after, ws = before ++ w :: after ∧ (∀ u ∈ before, u.Resolved view) ∧ w.Refused view e

theorem not_firstRefused_nil {e : VerifierError} : ¬ FirstRefused view [] e := by
  rintro ⟨before, w, after, hws, -, -⟩
  simp at hws

theorem firstRefused_cons {ws : List WithdrawalInput} {e : VerifierError} :
    FirstRefused view (w :: ws) e ↔
      w.Refused view e ∨ w.Resolved view ∧ FirstRefused view ws e := by
  constructor
  · rintro ⟨before, u, after, hws, hbefore, hu⟩
    cases before with
    | nil =>
      cases hws
      exact .inl hu
    | cons x before =>
      cases hws
      obtain ⟨hx, hbefore⟩ := List.forall_mem_cons.mp hbefore
      exact .inr ⟨hx, before, u, after, rfl, hbefore, hu⟩
  · rintro (hw | ⟨hw, before, u, after, rfl, hbefore, hu⟩)
    · exact ⟨[], w, ws, rfl, by simp, hw⟩
    · exact ⟨w :: before, u, after, rfl, List.forall_mem_cons.mpr ⟨hw, hbefore⟩, hu⟩

/-- Withdrawals are refused for the first of them that is. -/
theorem requests_eq_error_iff {hash : Hash} {e : VerifierError} (first : Nat)
    (ws : List WithdrawalInput) :
    requests view transaction hash origin first ws = .error e ↔ FirstRefused view ws e := by
  induction ws generalizing first with
  | nil => simp [requests, not_firstRefused_nil]
  | cons w rest ih =>
    rw [firstRefused_cons, ← check_eq_error_iff, ← ih (first + 1)]
    simp only [requests, bind, Except.bind, pure, Except.pure]
    cases hcheck : w.check view with
    | error e' =>
      have hrefused := check_eq_error_iff.mp hcheck
      simp [hrefused.not_resolved]
    | ok check =>
      have hresolved := resolved_of_check hcheck
      cases requests view transaction hash origin (first + 1) rest <;> simp [hresolved]

/-- A request is made of each withdrawal for itself. -/
theorem requested_of_requests {first : Nat} {ws : List WithdrawalInput}
    {rs : List WithdrawalRequest}
    (h : requests view transaction transaction.hash origin first ws = .ok rs) {i : Nat}
    (hw : ws[i]? = some w) :
    ∃ r, rs[i]? = some r ∧ w.Requested view transaction origin (first + i) r := by
  induction ws generalizing first rs i with
  | nil => cases hw
  | cons u rest ih =>
    simp only [requests, bind, Except.bind, pure, Except.pure] at h
    split at h
    next => cases h
    next check hcheck =>
      split at h
      next => cases h
      next others hothers =>
        cases h
        cases i with
        | zero =>
          cases hw
          exact ⟨_, rfl, requested_of_check hcheck⟩
        | succ i =>
          obtain ⟨r, hr, hrequested⟩ := ih hothers hw
          exact ⟨r, hr, by rwa [Nat.add_right_comm, Nat.add_assoc] at hrequested⟩

end WithdrawalInput

/-! ## Transactions -/

namespace Transaction

/-- Why a transaction cannot be enqueued: it has no withdrawals, or one of them cannot be checked. -/
inductive Refused (view : View) (t : Transaction) : VerifierError → Prop
  | noWithdrawals (hnone : t.withdrawals = []) : Refused view t (.noWithdrawals t.hash)
  | withdrawal {e} (hfirst : WithdrawalInput.FirstRefused view t.withdrawals e) : Refused view t e

variable {view : View} {t : Transaction} {origin : Option PeerId} {rs : List WithdrawalRequest}

theorem requests_eq_error_iff {e : VerifierError} :
    t.requests view origin = .error e ↔ t.Refused view e := by
  by_cases hnone : t.withdrawals = []
  · simp only [requests, hnone, List.isEmpty_nil, if_true, Except.error.injEq]
    constructor
    · rintro rfl
      exact .noWithdrawals hnone
    · intro h
      cases h with
      | noWithdrawals => rfl
      | withdrawal hfirst =>
        rw [hnone] at hfirst
        exact absurd hfirst WithdrawalInput.not_firstRefused_nil
  · simp only [requests, List.isEmpty_iff, hnone, if_false,
      WithdrawalInput.requests_eq_error_iff]
    constructor
    · exact .withdrawal
    · intro h
      cases h with
      | noWithdrawals hempty => exact absurd hempty hnone
      | withdrawal hfirst => exact hfirst

theorem requested_of_requests (h : t.requests view origin = .ok rs) {i : Nat}
    {w : WithdrawalInput} (hw : t.withdrawals[i]? = some w) :
    ∃ r, rs[i]? = some r ∧ w.Requested view t origin i r := by
  simp only [requests] at h
  split at h
  next => cases h
  next => simpa using WithdrawalInput.requested_of_requests h hw

theorem mem_positions (h : t.requests view origin = .ok rs) {position : UInt32}
    (hposition : position ∈ rs.map (·.position)) : position.toNat < t.withdrawals.length := by
  rw [(requests_eq_ok h).2.1] at hposition
  obtain ⟨i, hi, rfl⟩ := List.mem_map.mp hposition
  have hi := List.mem_range.mp hi
  have hmod : (UInt32.ofNat i).toNat ≤ i := by
    rw [UInt32.toNat_ofNat']
    exact Nat.mod_le _ _
  omega

/-- The identities of the requests of a transaction. -/
def requestIds (t : Transaction) : List RequestId :=
  (List.range t.withdrawals.length).map fun i => .withdrawal t.hash (.ofNat i)

theorem ids_of_requests (h : t.requests view origin = .ok rs) : rs.map (·.id) = t.requestIds := by
  obtain ⟨-, hpositions, hmembers⟩ := requests_eq_ok h
  have hids : rs.map (·.id) = (rs.map (·.position)).map (.withdrawal t.hash) := by
    rw [List.map_map]
    refine List.map_congr_left fun r hr => ?_
    rw [WithdrawalRequest.id, (hmembers r hr).1]
    rfl
  rw [hids, hpositions, List.map_map]
  rfl

/-- A transaction was brought in under the hash of this one, although its bytes are others, or its
withdrawals cannot be counted in 64 bits. -/
def Collides (events : List Event) (t : Transaction) : Prop :=
  ∃ u : Transaction, (Subject.transaction u).BroughtIn events t.hash ∧
    (u.preimage ≠ t.preimage ∨ 2 ^ 64 ≤ u.withdrawals.length)

end Transaction

namespace Queue

/-- All requests of a transaction are enqueued at one instant. -/
theorem enqueuedAt_enqueueWithdrawals (q : Queue) (rs : List WithdrawalRequest) (now : Instant)
    (id : RequestId) :
    (q.enqueueWithdrawals rs now).pending.enqueuedAt.get? id =
      if id ∈ rs.map (·.id) then some now else q.pending.enqueuedAt.get? id := by
  simp only [enqueueWithdrawals]
  generalize q.pending = p
  induction rs generalizing p with
  | nil => simp
  | cons r rest ih =>
    rw [List.foldl_cons, ih, Pending.enqueueWithdrawal, get?_insert_eq, List.map_cons]
    by_cases hrest : id ∈ rest.map (·.id)
    · rw [if_pos hrest, if_pos (List.mem_cons_of_mem _ hrest)]
    · simp only [List.mem_cons, hrest, or_false, if_false]

/-- A request whose place is not out of range is found there. -/
theorem get?_groupOf_ofNat {rs : List WithdrawalRequest}
    (hpositions : rs.map (·.position) = (List.range rs.length).map UInt32.ofNat)
    (h32 : rs.length ≤ 2 ^ 32) {i : Nat} {r : WithdrawalRequest} (hr : rs[i]? = some r) :
    (groupOf rs).get? (.ofNat i) = some r := by
  have hnodup : (rs.map (·.position)).Nodup := hpositions ▸ nodup_positions h32
  have hmem := List.mem_of_getElem? hr
  have hi : i < rs.length := (List.getElem?_eq_some_iff.mp hr).1
  have hposition : r.position = .ofNat i := by
    have hat := congrArg (·[i]?) hpositions
    simp only [List.getElem?_map, hr, List.getElem?_range hi, Option.map_some] at hat
    exact Option.some.inj hat
  obtain ⟨r', hr'⟩ := contains_iff.mp (contains_groupOf.mpr (List.mem_map_of_mem hmem))
  obtain ⟨hmem', hposition'⟩ := mem_of_get?_groupOf hr'
  rw [← hposition, hr', List.inj_on_of_nodup_map hnodup hmem' hmem hposition']

end Queue

/-! ## Enqueueing -/

namespace RequestSet.Known

variable {s : RequestSet} {events : List Event} {t : Transaction}

/-- What is held under the hash of a transaction has a place in it, unless there is a collision. -/
theorem lt_of_contains (hs : s.Known events) {group : OrderedMap UInt32 WithdrawalRequest}
    (hgroup : s.groups.get? t.hash = some group) {position : UInt32}
    (hposition : group.contains position = true) (h64 : t.withdrawals.length < 2 ^ 64) :
    position.toNat < t.withdrawals.length ∨ t.Collides events := by
  obtain ⟨r, hr⟩ := contains_iff.mp hposition
  obtain ⟨hhash, hplace⟩ := hs.keyed.withdrawal hgroup hr
  obtain ⟨event, hevent, hmem⟩ :=
    hs.known _ (mem_requests_withdrawal.mpr ⟨t.hash, group, position, hgroup, hr⟩)
  have hr := Event.withdrawal_mem_requests.mp hmem
  obtain ⟨view, u, origin, now, rfl, hrequests⟩ := Event.mem_withdrawals hr
  have hlt := Transaction.mem_positions hrequests (List.mem_map_of_mem hr)
  rw [hplace] at hlt
  have hu : (Subject.transaction u).BroughtIn events t.hash :=
    ⟨((Transaction.requests_eq_ok hrequests).2.2 r hr).1.symm.trans hhash, _, hevent, rfl⟩
  by_cases hu64 : 2 ^ 64 ≤ u.withdrawals.length
  · exact .inr ⟨u, hu, .inr hu64⟩
  by_cases hpreimage : u.preimage = t.preimage
  · have hlength := ((Transaction.preimage_eq_iff (by omega) h64).mp hpreimage).2.1
    exact .inl (hlength ▸ hlt)
  · exact .inr ⟨u, hu, .inl hpreimage⟩

end RequestSet.Known

namespace Verifier

/-- A transaction has been enqueued as a whole: `w` is `v` with a request for each withdrawal, and
no others, under the transaction's hash. -/
structure Enqueued (v : Verifier) (events : List Event) (view : View) (t : Transaction)
    (origin : Option PeerId) (now : Instant) (w : Verifier) : Prop where
  frame : w = { v with queue := { v.queue with pending := w.queue.pending } }
  certificates :
    w.queue.pending.requests.certificates = v.queue.pending.requests.certificates
  others : ∀ hash, hash ≠ t.hash →
    w.queue.pending.requests.groups.get? hash = v.queue.pending.requests.groups.get? hash
  instants : ∀ id, w.queue.pending.enqueuedAt.get? id =
    if id ∈ t.requestIds then some now else v.queue.pending.enqueuedAt.get? id
  whole : ∃ group, w.queue.pending.requests.groups.get? t.hash = some group ∧
    (∀ i u, t.withdrawals[i]? = some u →
      ∃ r, group.get? (.ofNat i) = some r ∧ u.Requested view t origin i r) ∧
    ∀ position, group.contains position = true →
      position.toNat < t.withdrawals.length ∨ t.Collides events

variable {config : Config} {v₀ v w : Verifier} {events : List Event} {responses : List Response}
  {view : View} {t : Transaction} {origin : Option PeerId} {now : Instant}

theorem handle?_enqueueTransaction_error {e : VerifierError}
    (h : t.requests view origin = .error e) :
    v.handle? (.enqueueTransaction view t origin now) = some (.refused e, v) := by
  simp only [handle?, enqueueTransaction, h]
  rfl

theorem handle?_enqueueTransaction_ok {rs : List WithdrawalRequest}
    (h : t.requests view origin = .ok rs) :
    v.handle? (.enqueueTransaction view t origin now) =
      some (.accepted, { v with queue := v.queue.enqueueWithdrawals rs now }) := by
  simp only [handle?, enqueueTransaction, h]
  rfl

theorem enqueued_of_requests (hknown : v.queue.pending.requests.Known events)
    {rs : List WithdrawalRequest} (h : t.requests view origin = .ok rs)
    (h32 : t.withdrawals.length ≤ 2 ^ 32) :
    v.Enqueued events view t origin now { v with queue := v.queue.enqueueWithdrawals rs now } := by
  obtain ⟨hne, hpositions, hmembers⟩ := Transaction.requests_eq_ok h
  have hlength := Transaction.length_requests h
  have hhash : ∀ r ∈ rs, r.transactionHash = t.hash := fun r hr => (hmembers r hr).1
  refine ⟨rfl, Queue.certificates_enqueueWithdrawals _ _ _, ?_, ?_, ?_⟩
  · intro hash hother
    refine Queue.groups_enqueueWithdrawals_of_ne _ now ?_
    intro r hr heq
    exact hother (heq.symm.trans (hhash r hr))
  · intro id
    rw [← Transaction.ids_of_requests h]
    exact Queue.enqueuedAt_enqueueWithdrawals _ rs now id
  refine ⟨_, Queue.groups_enqueueWithdrawals _ now hne hhash, ?_, ?_⟩
  · intro i u hu
    obtain ⟨r, hr, hrequested⟩ := Transaction.requested_of_requests h hu
    refine ⟨r, ?_, hrequested⟩
    rw [get?_union, Queue.get?_groupOf_ofNat (hlength ▸ hpositions) (hlength ▸ h32) hr,
      Option.some_or]
  · intro position hposition
    rw [contains, get?_union, Option.isSome_or, Bool.or_eq_true] at hposition
    rcases hposition with hnew | hold
    · exact .inl (Transaction.mem_positions h (Queue.contains_groupOf.mp hnew))
    · cases hgroup : v.queue.pending.requests.groups.get? t.hash with
      | none => simp [hgroup] at hold
      | some group =>
        rw [hgroup] at hold
        exact hknown.lt_of_contains hgroup hold (by omega)

/-- In any state of a run, a transaction is enqueued as a whole, or refused without a trace. -/
theorem enqueued_whole_or_refused (hnew : Verifier.new config = .ok v₀)
    (hrun : v₀.run? events = some (responses, v)) (h32 : t.withdrawals.length ≤ 2 ^ 32) :
    (∀ e w, v.handle? (.enqueueTransaction view t origin now) = some (.refused e, w) ↔
      t.Refused view e ∧ w = v) ∧
    ((∃ e, t.Refused view e) ∨
      ∃ w, v.handle? (.enqueueTransaction view t origin now) = some (.accepted, w) ∧
        v.Enqueued events view t origin now w) := by
  have hknown := ((run_free hrun).known hnew).1
  have hrefused (e : VerifierError) : t.Refused view e ↔ t.requests view origin = .error e :=
    Transaction.requests_eq_error_iff.symm
  cases hrequests : t.requests view origin with
  | error e =>
    refine ⟨fun e' w => ?_, .inl ⟨e, (hrefused e).mpr hrequests⟩⟩
    rw [handle?_enqueueTransaction_error hrequests, hrefused, hrequests]
    simp [eq_comm]
  | ok rs =>
    refine ⟨fun e' w => ?_, .inr ⟨_, handle?_enqueueTransaction_ok hrequests,
      enqueued_of_requests hknown hrequests h32⟩⟩
    rw [handle?_enqueueTransaction_ok hrequests, hrefused, hrequests]
    simp

end Verifier

/-- While a transaction is pending, it is refused for its second withdrawal, and enqueued again as
soon as that can be checked. -/
theorem Verifier.enqueued_whole_or_refused_second :
    ∃ v₀ responses v, Verifier.new .default = .ok v₀ ∧
      v₀.run? [.enqueueTransaction .withTwoEmptyKeys .fromTwo none 0] = some (responses, v) ∧
      v.handle? (.enqueueTransaction .withEmptyKey .fromTwo none 1) =
        some (.refused (.unknownSidechain ⟨Vector.replicate 32 1⟩), v) ∧
      ∃ w, v.handle? (.enqueueTransaction .withTwoEmptyKeys .fromTwo none 1) =
          some (.accepted, w) ∧
        v.Enqueued [.enqueueTransaction .withTwoEmptyKeys .fromTwo none 0] .withTwoEmptyKeys
          .fromTwo none 1 w := by
  obtain ⟨v₀, hnew⟩ : ∃ v₀, Verifier.new .default = .ok v₀ := ⟨_, rfl⟩
  obtain ⟨rs, hrequests⟩ : ∃ rs, Transaction.fromTwo.requests .withTwoEmptyKeys none = .ok rs :=
    ⟨_, rfl⟩
  have hrun : v₀.run? [.enqueueTransaction .withTwoEmptyKeys .fromTwo none 0] =
      some ([.accepted], { v₀ with queue := v₀.queue.enqueueWithdrawals rs 0 }) := by
    rw [run?, handle?_enqueueTransaction_ok hrequests]
    rfl
  have hrefused : Transaction.fromTwo.Refused .withEmptyKey
      (.unknownSidechain ⟨Vector.replicate 32 1⟩) :=
    .withdrawal ⟨[_], _, [], rfl, by simpa using ⟨_, _, rfl, rfl⟩, .unknownSidechain rfl⟩
  have h32 : Transaction.fromTwo.withdrawals.length ≤ 2 ^ 32 := by decide
  refine ⟨v₀, _, _, hnew, hrun, ?_, ?_⟩
  · obtain ⟨hiff, -⟩ := enqueued_whole_or_refused hnew hrun h32
    exact (hiff _ _).mpr ⟨hrefused, rfl⟩
  · obtain ⟨-, ⟨e, he⟩ | hwhole⟩ := enqueued_whole_or_refused hnew hrun h32
    · rw [← Transaction.requests_eq_error_iff, hrequests] at he
      cases he
    · exact hwhole

end SidechainVerifier
