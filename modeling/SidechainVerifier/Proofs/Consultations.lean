/-
SidechainVerifier.Proofs.Consultations — what a consultation comes to,
whatever a backend replies.

`Replies` says which replies may come to which question, and whether calls
may be torn down; `Consultation.Ensures` says that every result reached by
such replies satisfies a condition. Two kinds of backends matter: one that
always returns, with any reply (`Replies.any`), and one whose single checks
are a function of the check and whose batch answers are sound for it, and
which may fail to return (`Replies.soundFor`). What holds of any backend that
may also fail to return is shown for `Replies.free`.

Main statement: when replies only ever speak for `good` verdicts,
`BatchVerification.verify` ends with a good, resolved verdict on every
request and on nothing else (`ensures_verify`).
-/
import SidechainVerifier.BatchVerification
import SidechainVerifier.Proofs.MapLaws

namespace SidechainVerifier

open OrderedMap

/-! ## The verdict of a single check -/

namespace Verdict

variable {reply : SingleReply}

theorem ofReply_eq_passed_iff : ofReply reply = .passed ↔ reply = .ok true := by
  cases reply with
  | error e => simp [ofReply]
  | ok answer => cases answer <;> simp [ofReply]

theorem ofReply_eq_failed_iff : ofReply reply = .failed ↔ reply ≠ .ok true := by
  cases reply with
  | error e => simp [ofReply]
  | ok answer => cases answer <;> simp [ofReply]

theorem ofReply_ne_unknown (reply : SingleReply) : ofReply reply ≠ .unknown := by
  cases reply with
  | error e => simp [ofReply]
  | ok answer => cases answer <;> simp [ofReply]

end Verdict

/-! ## Backends -/

/-- The replies a backend may give, and whether its calls may be torn down. -/
structure Replies where
  torn : Prop
  batch : BatchCall → BatchReply → Prop
  single : Check → SingleReply → Prop

/-- A batch answer vouches only for checks that succeed singly, and blames none of these. -/
structure BatchAnswer.SoundFor (single : Check → SingleReply) (checks : List Check)
    (answer : BatchAnswer) : Prop where
  valid : answer.allValid = true → ∀ check ∈ checks, single check = .ok true
  named : ∀ i ∈ answer.failed, ∀ check, checks[i]? = some check → single check ≠ .ok true

namespace Replies

/-- Every call returns, with whatever reply. -/
def any : Replies := ⟨False, fun _ _ => True, fun _ _ => True⟩

/-- A call may end in any way. -/
def free : Replies := ⟨True, fun _ _ => True, fun _ _ => True⟩

/-- Single checks are answered by a function, and batch answers are sound for it. -/
def soundFor (single : Check → SingleReply) : Replies where
  torn := True
  batch call reply := ∀ answer, reply = .ok answer → answer.SoundFor single call.checks
  single check reply := reply = single check

/-- A batch call may end so; it is torn down if there is no reply. -/
def EndsBatch (replies : Replies) (call : BatchCall) : Option BatchReply → Prop
  | none => replies.torn
  | some reply => replies.batch call reply

/-- A single check may end so; it is torn down if there is no reply. -/
def EndsSingle (replies : Replies) (check : Check) : Option SingleReply → Prop
  | none => replies.torn
  | some reply => replies.single check reply

/-- The replies only ever speak for verdicts that are good. -/
structure Justify (replies : Replies) (good : Check → Verdict → Prop) : Prop where
  passed : ∀ {call answer}, replies.batch call (.ok answer) → answer.allValid = true →
    ∀ check ∈ call.checks, good check .passed
  failed : ∀ {call answer}, replies.batch call (.ok answer) → answer.allValid = false →
    ∀ i ∈ answer.failed, ∀ check, call.checks[i]? = some check → good check .failed
  single : ∀ {check reply}, replies.single check reply → good check (.ofReply reply)

theorem any_justify : any.Justify fun _ _ => True := by
  constructor <;> intros <;> trivial

theorem free_justify : free.Justify fun _ _ => True := by
  constructor <;> intros <;> trivial

/-- The verdict of a single check. -/
def judge (single : Check → SingleReply) (check : Check) : Verdict := .ofReply (single check)

theorem judge_eq_passed_iff {single : Check → SingleReply} {check : Check} :
    judge single check = .passed ↔ single check = .ok true :=
  Verdict.ofReply_eq_passed_iff

theorem judge_eq_failed_iff {single : Check → SingleReply} {check : Check} :
    judge single check = .failed ↔ single check ≠ .ok true :=
  Verdict.ofReply_eq_failed_iff

theorem soundFor_justify (single : Check → SingleReply) :
    (soundFor single).Justify fun check verdict => verdict = judge single check where
  passed hreply hvalid check hcheck :=
    (judge_eq_passed_iff.mpr ((hreply _ rfl).valid hvalid check hcheck)).symm
  failed hreply _ i hi check hcheck :=
    (judge_eq_failed_iff.mpr ((hreply _ rfl).named i hi check hcheck)).symm
  single hreply := congrArg Verdict.ofReply hreply

end Replies

/-! ## Results of consultations -/

namespace Consultation

variable {α β : Type} {replies : Replies}

/-- Every result that the replies can lead to satisfies a condition. -/
def Ensures (replies : Replies) (post : α → Prop) : Consultation α → Prop
  | .done value => post value
  | .abandoned => replies.torn
  | .batch call next => ∀ reply, replies.EndsBatch call reply → Ensures replies post (next reply)
  | .single check next => ∀ reply, replies.EndsSingle check reply → Ensures replies post (next reply)

theorem Ensures.mono {post post' : α → Prop} (himp : ∀ value, post value → post' value) :
    ∀ {c : Consultation α}, c.Ensures replies post → c.Ensures replies post'
  | .done value, h => himp value h
  | .abandoned, h => h
  | .batch _ _, h => fun reply hr => (h reply hr).mono himp
  | .single _ _, h => fun reply hr => (h reply hr).mono himp

theorem Ensures.bind {post : β → Prop} {f : α → Consultation β} :
    ∀ {c : Consultation α}, c.Ensures replies (fun value => (f value).Ensures replies post) →
      (c >>= f).Ensures replies post
  | .done _, h => h
  | .abandoned, h => h
  | .batch _ _, h => fun reply hr => (h reply hr).bind
  | .single _ _, h => fun reply hr => (h reply hr).bind

/-- The end of a batch call, or the silence kept when nothing is asked. -/
def Answered (replies : Replies) (call : BatchCall) (answer : Option BatchReply) : Prop :=
  answer = some (.ok .silent) ∨ replies.EndsBatch call answer

theorem ensures_askCertificates (checks : List CertificateCheck) :
    (askCertificates checks).Ensures replies (Answered replies (.certificates checks)) := by
  unfold askCertificates
  split
  · exact .inl rfl
  · exact fun _ hreply => .inr hreply

theorem ensures_askWithdrawals (checks : List WithdrawalCheck) :
    (askWithdrawals checks).Ensures replies (Answered replies (.withdrawals checks)) := by
  unfold askWithdrawals
  split
  · exact .inl rfl
  · exact fun _ hreply => .inr hreply

theorem Answered.torn {call : BatchCall} (h : Answered replies call none) : replies.torn :=
  h.resolve_left (by simp)

theorem Answered.reply {call : BatchCall} {reply : BatchReply}
    (h : Answered replies call (some reply)) : reply = .ok .silent ∨ replies.batch call reply :=
  h.imp Option.some.inj id

theorem ensures_askSingle (check : Check) :
    (askSingle check).Ensures replies (replies.single check) := by
  intro reply hreply
  cases reply with
  | none => exact hreply
  | some reply => exact hreply

end Consultation

/-! ## Results of a batch -/

namespace Results

/-- There are results for the requests of a list and no others, all satisfying a condition. -/
structure Judge (results : Results) (good : Check → Verdict → Prop) (requests : List Request) :
    Prop where
  keys : ∀ id, results.contains id = true ↔ ∃ r ∈ requests, r.id = id
  verdicts : ∀ r ∈ requests, ∀ verdict, results.get? r.id = some verdict → good r.check verdict

/-- A verdict is open or good. -/
def OpenOr (good : Check → Verdict → Prop) (check : Check) (verdict : Verdict) : Prop :=
  verdict = .unknown ∨ good check verdict

/-- A verdict is resolved and good. -/
def Resolved (good : Check → Verdict → Prop) (check : Check) (verdict : Verdict) : Prop :=
  verdict ≠ .unknown ∧ good check verdict

variable {results : Results} {good : Check → Verdict → Prop} {requests : List Request}

theorem Judge.exists_verdict (h : results.Judge good requests) {r : Request} (hr : r ∈ requests) :
    ∃ verdict, results.get? r.id = some verdict ∧ good r.check verdict := by
  obtain ⟨verdict, hget⟩ := contains_iff.mp ((h.keys r.id).mpr ⟨r, hr, rfl⟩)
  exact ⟨verdict, hget, h.verdicts r hr verdict hget⟩

theorem Judge.get?_eq_none (h : results.Judge good requests) {id : RequestId}
    (hid : ∀ r ∈ requests, r.id ≠ id) : results.get? id = none := by
  cases hget : results.get? id with
  | none => rfl
  | some verdict =>
    obtain ⟨r, hr, hrid⟩ := (h.keys id).mp (contains_iff.mpr ⟨verdict, hget⟩)
    exact absurd hrid (hid r hr)

theorem Judge.insert (h : results.Judge good requests) {r : Request} {verdict : Verdict}
    (hsame : ∀ r ∈ requests, ∀ r' ∈ requests, r.id = r'.id → r.check = r'.check)
    (hr : r ∈ requests) (hgood : good r.check verdict) :
    Judge (results.insert r.id verdict) good requests where
  keys id := by
    rw [contains, get?_insert_eq]
    split
    next hid => simpa using ⟨r, hr, hid.symm⟩
    next => exact h.keys id
  verdicts r' hr' verdict' hget := by
    rw [get?_insert_eq] at hget
    split at hget
    next hid =>
      rw [← Option.some.inj hget, hsame r' hr' r hr hid]
      exact hgood
    next => exact h.verdicts r' hr' verdict' hget

theorem Judge.setAll {rs : List Request} {verdict : Verdict}
    (hsame : ∀ r ∈ requests, ∀ r' ∈ requests, r.id = r'.id → r.check = r'.check)
    (hrs : ∀ r ∈ rs, r ∈ requests ∧ good r.check verdict) (h : results.Judge good requests) :
    (results.setAll verdict (rs.map Request.id)).Judge good requests := by
  induction rs generalizing results with
  | nil => exact h
  | cons r rest ih =>
    obtain ⟨hr, hgood⟩ := hrs r List.mem_cons_self
    exact ih (fun r' hr' => hrs r' (List.mem_cons_of_mem _ hr')) (h.insert hsame hr hgood)

/-- A batch answer about some of the requests keeps the results open or good. -/
theorem Judge.apply {replies : Replies} (hj : replies.Justify good)
    (hsame : ∀ r ∈ requests, ∀ r' ∈ requests, r.id = r'.id → r.check = r'.check)
    {rs : List Request} (hrs : ∀ r ∈ rs, r ∈ requests) {call : BatchCall}
    (hcall : call.checks = rs.map Request.check) {reply : BatchReply}
    (hreply : reply = .ok .silent ∨ replies.batch call reply)
    (h : results.Judge (OpenOr good) requests) :
    (results.apply (rs.map Request.id) reply).Judge (OpenOr good) requests := by
  cases reply with
  | error e => exact h
  | ok answer =>
    rcases hreply with hsilent | hreply
    · cases hsilent
      exact h
    · cases hvalid : answer.allValid with
      | true =>
        simp only [Results.apply, hvalid, if_true]
        refine Judge.setAll hsame (fun r hr => ⟨hrs r hr, .inr ?_⟩) h
        exact hj.passed hreply hvalid _ (by rw [hcall]; exact List.mem_map_of_mem hr)
      | false =>
        simp only [Results.apply, hvalid, Bool.false_eq_true, if_false]
        have hnamed : (answer.failed.filterMap fun i => (rs.map Request.id)[i]?) =
            (answer.failed.filterMap fun i => rs[i]?).map Request.id := by
          simp [List.map_filterMap]
        rw [hnamed]
        refine Judge.setAll hsame (fun r hr => ?_) h
        obtain ⟨i, hi, hri⟩ := List.mem_filterMap.mp hr
        refine ⟨hrs r (List.mem_of_getElem? hri), .inr (hj.failed hreply hvalid i hi _ ?_)⟩
        simp [hcall, hri]

theorem judge_uniform_unknown (good : Check → Verdict → Prop) (requests : List Request) :
    (uniform .unknown requests).Judge (OpenOr good) requests := by
  have hget (id : RequestId) : (uniform .unknown requests).get? id =
      (requests.reverse.find? fun r => r.id = id).map fun _ => .unknown := by
    rw [uniform, get?_ofList, ← List.map_reverse, List.find?_map, Option.map_map]
    rfl
  constructor
  · intro id
    rw [contains, hget, Option.isSome_map, List.find?_isSome]
    simp
  · intro r _ verdict hverdict
    rw [hget] at hverdict
    obtain ⟨_, _, rfl⟩ := Option.map_eq_some_iff.mp hverdict
    exact .inl rfl

end Results

/-! ## Verification of a list -/

namespace BatchVerification

variable {replies : Replies} {good : Check → Verdict → Prop} {requests : List Request}

theorem ensures_attempt (hj : replies.Justify good)
    (hsame : ∀ r ∈ requests, ∀ r' ∈ requests, r.id = r'.id → r.check = r'.check)
    {pending : List Request} (hpending : ∀ r ∈ pending, r ∈ requests) {results : Results}
    (h : results.Judge (Results.OpenOr good) requests) :
    (attempt pending results).Ensures replies
      fun results => results.Judge (Results.OpenOr good) requests := by
  have hcertificates : ∀ r ∈ (pending.filterMap Request.certificate?).map Request.certificate,
      r ∈ requests := by
    intro r hr
    obtain ⟨c, hc, rfl⟩ := List.mem_map.mp hr
    obtain ⟨r', hr', hc'⟩ := List.mem_filterMap.mp hc
    cases r' <;> simp only [Request.certificate?, Option.some.injEq, reduceCtorEq] at hc'
    exact hc' ▸ hpending _ hr'
  have hwithdrawals : ∀ r ∈ (pending.filterMap Request.withdrawal?).map Request.withdrawal,
      r ∈ requests := by
    intro r hr
    obtain ⟨w, hw, rfl⟩ := List.mem_map.mp hr
    obtain ⟨r', hr', hw'⟩ := List.mem_filterMap.mp hw
    cases r' <;> simp only [Request.withdrawal?, Option.some.injEq, reduceCtorEq] at hw'
    exact hw' ▸ hpending _ hr'
  unfold attempt
  refine .bind ((Consultation.ensures_askCertificates _).mono ?_)
  intro certificateReply hc
  refine .bind ((Consultation.ensures_askWithdrawals _).mono ?_)
  intro withdrawalReply hw
  cases certificateReply with
  | none => exact hc.torn
  | some c =>
    cases withdrawalReply with
    | none => exact hw.torn
    | some w =>
      have h := Results.Judge.apply hj hsame hcertificates
        (by simp [BatchCall.checks, Function.comp_def, Request.check]) hc.reply h
      have h := Results.Judge.apply hj hsame hwithdrawals
        (by simp [BatchCall.checks, Function.comp_def, Request.check]) hw.reply h
      show Results.Judge _ _ _
      simpa [Function.comp_def, Request.id] using h

theorem ensures_attemptAll (hj : replies.Justify good)
    (hsame : ∀ r ∈ requests, ∀ r' ∈ requests, r.id = r'.id → r.check = r'.check) (count : Nat)
    {results : Results} (h : results.Judge (Results.OpenOr good) requests) :
    (attemptAll requests count results).Ensures replies
      fun results => results.Judge (Results.OpenOr good) requests := by
  induction count generalizing results with
  | zero => exact h
  | succ count ih =>
    unfold attemptAll
    dsimp only
    split
    · exact h
    · refine .bind ((ensures_attempt hj hsame ?_ h).mono fun _ => ih)
      exact fun r hr => (List.mem_filter.mp hr).1

/-- Checking the open requests one by one leaves none open. -/
theorem ensures_verifyEach (hj : replies.Justify good)
    (hsame : ∀ r ∈ requests, ∀ r' ∈ requests, r.id = r'.id → r.check = r'.check)
    {rest : List Request} (hrest : ∀ r ∈ rest, r ∈ requests) {results : Results}
    (h : results.Judge (Results.OpenOr good) requests)
    (hopen : ∀ id, results.get? id = some .unknown → id ∈ rest.map Request.id) :
    (verifyEach rest results).Ensures replies
      fun results => results.Judge (Results.Resolved good) requests := by
  induction rest generalizing results with
  | nil =>
    refine ⟨h.keys, ?_⟩
    intro r hr verdict hget
    have hne : verdict ≠ .unknown := by
      rintro rfl
      simpa using hopen _ hget
    exact ⟨hne, (h.verdicts r hr verdict hget).resolve_left hne⟩
  | cons request rest ih =>
    have hrequest := hrest request List.mem_cons_self
    unfold verifyEach
    refine .bind (.bind ((Consultation.ensures_askSingle _).mono ?_))
    intro reply hreply
    refine ih (fun r hr => hrest r (List.mem_cons_of_mem _ hr))
      (h.insert hsame hrequest (.inr (hj.single hreply))) fun id hid => ?_
    rw [get?_insert_eq] at hid
    split at hid
    · exact absurd (Option.some.inj hid) (Verdict.ofReply_ne_unknown reply)
    next hne => exact (List.mem_cons.mp (hopen id hid)).resolve_left hne

/-- However the backend replies, a finished verification has a good and resolved verdict on every
request of the list, and on nothing else. -/
theorem ensures_verify (hj : replies.Justify good)
    (hsame : ∀ r ∈ requests, ∀ r' ∈ requests, r.id = r'.id → r.check = r'.check) :
    (verify .strict requests).Ensures replies
      fun results => results.Judge (Results.Resolved good) requests := by
  unfold verify
  refine .bind ((ensures_attemptAll hj hsame attempts
    (Results.judge_uniform_unknown good requests)).mono fun results h => ?_)
  refine ensures_verifyEach hj hsame (fun r hr => (List.mem_filter.mp hr).1) h ?_
  intro id hid
  obtain ⟨r, hr, rfl⟩ := (h.keys id).mp (contains_iff.mpr ⟨_, hid⟩)
  exact List.mem_map_of_mem (List.mem_filter.mpr ⟨hr, by simp [hid]⟩)

end BatchVerification

end SidechainVerifier
