/-
SidechainVerifier.Proofs.Cycles — the cycle in progress, seen from its
start.

While a cycle goes on, objects may be enqueued and dropped; what the cycle
does depends only on the verifier its start found, and on what was dropped
since. `Follows` says how: the consultation can only end in good verdicts on
what was handed off, and the deliveries that are left tell these verdicts.
`Run.follows` shows it along every run.
-/
import SidechainVerifier.Proofs.Deliveries
import SidechainVerifier.Proofs.Provenance

namespace SidechainVerifier

open OrderedMap

namespace Verifier

/-- A stage that a cycle started from `u` can be in, while `inFlight` is in flight. -/
inductive Follows (replies : Replies) (good : Check → Verdict → Prop) (u : Verifier)
    (inFlight : RequestSet) : Stage → Prop
  | verifying {work}
      (hwork : work.Ensures replies fun results =>
        results.Judge (Results.Resolved good) u.kept.requests)
      (hflight : inFlight.RemainsOf (u.queue.inFlight.absorb u.kept)) :
      Follows replies good u inFlight (.verifying work)
  | dispatching {dispatched current rest} {taken : RequestSet} {results : Results}
      (hempty : inFlight = .empty)
      (htaken : taken.RemainsOf (u.queue.inFlight.absorb u.kept))
      (hresults : results.Judge (Results.Resolved good) u.kept.requests)
      (hrest : current :: rest <:+ taken.deliveries results) :
      Follows replies good u inFlight (.dispatching dispatched current rest)

variable {replies : Replies} {good : Check → Verdict → Prop} {config : Config} {v₀ u v w : Verifier}
  {event : Event} {events : List Event} {response : Response} {responses : List Response}

theorem Follows.mono {inFlight inFlight' : RequestSet} {stage : Stage}
    (h : Follows replies good u inFlight stage) (hremains : inFlight'.RemainsOf inFlight) :
    Follows replies good u inFlight' stage := by
  cases h with
  | verifying hwork hflight => exact .verifying hwork (hremains.trans hflight)
  | dispatching hempty htaken hresults hrest =>
    subst hempty
    exact .dispatching hremains.eq_empty htaken hresults hrest

theorem Follows.handOff (hj : replies.Justify good) (hkept : u.kept.Keyed) :
    Follows replies good u (u.queue.inFlight.absorb u.kept)
      (.verifying (BatchVerification.verify .strict u.kept.requests)) :=
  .verifying (hkept.ensures_verify hj) (.refl _)

/-- What is left of a dispatch, if anything. -/
theorem Follows.proceed {taken : RequestSet} {results : Results} {deliveries : List Delivery}
    (htaken : taken.RemainsOf (u.queue.inFlight.absorb u.kept))
    (hresults : results.Judge (Results.Resolved good) u.kept.requests)
    (hrest : deliveries <:+ taken.deliveries results) {cycle next : Cycle} {dispatched : Nat}
    (hnext : (cycle.proceed dispatched deliveries).1 = some next) :
    Follows replies good u .empty next.stage := by
  cases deliveries with
  | nil => cases hnext
  | cons current rest =>
    cases hnext
    exact .dispatching rfl htaken hresults hrest

/-- A step either starts a cycle, or leaves the one in progress to go on from its start. -/
theorem Step.follows (hj : replies.Justify good) (hstep : v.Step event response w)
    (hallowed : replies.Allows v.awaited? event) (hkept : v.kept.Keyed)
    (hfollows : ∀ cycle, v.cycle = some cycle → Follows replies good u v.queue.inFlight cycle.stage)
    {cycle : Cycle} (hcycle : w.cycle = some cycle) :
    (event.isStart = true ∧ v.cycle = none ∧
        Follows replies good v w.queue.inFlight cycle.stage) ∨
      (event.isStart = false ∧ v.cycle ≠ none ∧
        Follows replies good u w.queue.inFlight cycle.stage) := by
  have hold (hcycle : v.cycle = some cycle) (hevent : event.isStart = false)
      (hremains : w.queue.inFlight.RemainsOf v.queue.inFlight) :
      event.isStart = false ∧ v.cycle ≠ none ∧
        Follows replies good u w.queue.inFlight cycle.stage :=
    ⟨hevent, by simp [hcycle], (hfollows cycle hcycle).mono hremains⟩
  cases hstep with
  | reset hnone => exact absurd hcycle (by simp [hnone])
  | idle hnone => exact absurd hcycle (by simp [hnone])
  | purge hnone _ => exact absurd hcycle (by simp [drained, hnone])
  | handOff hnone hstage _ =>
    cases hcycle
    exact .inl ⟨rfl, hnone, hstage ▸ .handOff hj hkept⟩
  | consulted hcycle' hstage hreply _ =>
    cases hcycle
    have hevent : event.isStart = false := by cases hreply <;> rfl
    have h := hfollows _ hcycle'
    rw [hstage] at h
    cases h with
    | verifying hwork hflight =>
      rw [awaited?, hcycle'] at hallowed
      exact .inr ⟨hevent, by simp [hcycle'], .verifying (hwork.reply hreply hstage hallowed) hflight⟩
  | abandoned _ _ _ => cases hcycle
  | undelivered _ _ => cases hcycle
  | take hcycle' hstage =>
    have h := hfollows _ hcycle'
    rw [hstage] at h
    cases h with
    | verifying hwork hflight =>
      exact .inr ⟨rfl, by simp [hcycle'], .proceed hflight hwork (List.suffix_refl _) hcycle⟩
  | delivered hcycle' hstage =>
    have h := hfollows _ hcycle'
    rw [hstage] at h
    cases h with
    | dispatching hempty htaken hresults hrest =>
      refine .inr ⟨rfl, by simp [hcycle'], ?_⟩
      have hrest := (List.suffix_cons _ _).trans hrest
      exact hempty ▸ Follows.proceed htaken hresults hrest hcycle
  | discardAll => exact .inr (hold hcycle rfl (.empty _))
  | discard => exact .inr (hold hcycle rfl (.removeParent _ _))
  | _ => exact .inr (hold hcycle rfl (.refl _))

/-- The cycle in progress follows from the hand-off at its start. -/
theorem Run.follows (hj : replies.Justify good) (hnew : Verifier.new config = .ok v₀)
    (h : v₀.Run replies events responses v) {cycle : Cycle} (hcycle : v.cycle = some cycle) :
    ∃ before u, v₀.HandOff replies events before u ∧
      Follows replies good u v.queue.inFlight cycle.stage := by
  induction h generalizing cycle with
  | nil =>
    rw [eq_of_new hnew] at hcycle
    cases hcycle
  | @concat events responses v event response w hrun hallowed hhandle ih =>
    have hstep := step_of_handle? hhandle
    have hkept : v.kept.Keyed := (kept_remainsOf v).keyed (hrun.known hnew).1.keyed
    -- The verifier that the cycle in progress before the step was started from, if there was one.
    obtain ⟨u, hu⟩ : ∃ u, ∀ old, v.cycle = some old →
        (∃ before, v₀.HandOff replies events before u) ∧
          Follows replies good u v.queue.inFlight old.stage := by
      cases hold : v.cycle with
      | none => exact ⟨v, fun old hsome => by cases hsome⟩
      | some old =>
        obtain ⟨before, u, hhandOff, hfollows⟩ := ih hold
        refine ⟨u, ?_⟩
        intro old' hsome
        cases hsome
        exact ⟨⟨before, hhandOff⟩, hfollows⟩
    rcases hstep.follows hj hallowed hkept (fun old hold => (hu old hold).2) hcycle with
      ⟨hstart, hnone, hfollows⟩ | ⟨hstart, hsome, hfollows⟩
    · unfold Event.isStart at hstart
      split at hstart
      next force now => exact ⟨events, v, .concat_start hrun hnone force now, hfollows⟩
      next => cases hstart
    · obtain ⟨old, hold⟩ := Option.ne_none_iff_exists'.mp hsome
      obtain ⟨before, hhandOff⟩ := (hu old hold).1
      exact ⟨before, u, hhandOff.concat hstart, hfollows⟩

/-- The delivery a cycle is making tells verdicts on what was handed off at its start. -/
theorem Run.tells (hj : replies.Justify good) (hnew : Verifier.new config = .ok v₀)
    (h : v₀.Run replies events responses v) {cycle : Cycle} (hcycle : v.cycle = some cycle)
    {dispatched : Nat} {current : Delivery} {rest : List Delivery}
    (hstage : cycle.stage = .dispatching dispatched current rest) :
    ∃ before u results, v₀.HandOff replies events before u ∧
      results.Judge (Results.Resolved good) u.kept.requests ∧
      current.Tells u.queue.inFlight u.kept results ∧
      (current.notice.outcome = .verified ↔ current.verdict = .passed) := by
  obtain ⟨before, u, hhandOff, hfollows⟩ := h.follows hj hnew hcycle
  rw [hstage] at hfollows
  cases hfollows with
  | @dispatching _ _ _ taken results hempty htaken hresults hrest =>
    obtain ⟨_, hrun⟩ := hhandOff.reached
    obtain ⟨hpending, hflight⟩ := hrun.known hnew
    have hmem : current ∈ taken.deliveries results := hrest.subset List.mem_cons_self
    refine ⟨before, u, results, hhandOff, hresults, ?_, ?_⟩
    · exact RequestSet.tells_of_mem_deliveries htaken hflight.keyed
        ((kept_remainsOf u).keyed hpending.keyed) hresults hmem
    · exact (RequestSet.resolved_of_mem_deliveries hmem).2

end Verifier

end SidechainVerifier
