/-
SidechainVerifier.Proofs.PauseCounts — guards that overlap, dropped in any
order.

A gate is its count; that the count is right, and the signals with it, is
told here of every list of operations (`PauseGate.Operation`), guards being
taken and dropped in whatever order. No signal is sent but when the count
leaves zero or comes back to it, so the backend hears pause and resume in
turn, and what it heard last says whether batches are held off.

Main statement: batches are held off, and the backend is paused, exactly
while a guard that was taken with a pause requested has not been dropped
(`PauseGate.pauses_while_live`). Guards taken without leave no trace, so the
operations on them can be left out (`PauseGate.run_withoutIdle`).
-/
import SidechainVerifier.Proofs.Guards

namespace SidechainVerifier

namespace PauseGate

/-! ## Operations -/

/-- What is done with a gate: a guard is taken, or dropped by its number. -/
inductive Operation where
  | take (requested : Bool)
  | drop (number : Nat)
deriving DecidableEq

/-- The event that has the same effect on a gate. -/
def Operation.event : Operation → Event
  | .take requested => .pause requested
  | .drop number => .unpause number

/-- Does an operation. A guard that is not held is not there to be dropped. -/
def perform (g : PauseGate) : Operation → Option Signal × PauseGate
  | .take requested => g.take requested
  | .drop number => (g.drop? number).getD (none, g)

/-- Does operations in turn, and lists the signals. -/
def run (g : PauseGate) : List Operation → List Signal × PauseGate
  | [] => ([], g)
  | op :: ops =>
    ((g.perform op).1.toList ++ ((g.perform op).2.run ops).1, ((g.perform op).2.run ops).2)

/-- The gate after some operations. -/
def after (ops : List Operation) : PauseGate := (initial.run ops).2

/-- The signals that some operations sent. -/
def signals (ops : List Operation) : List Signal := (initial.run ops).1

/-- The guard with a number was taken with a pause requested and has not been dropped since. -/
def Live (ops : List Operation) (number : Nat) : Prop := LiveGuard (ops.map Operation.event) number

theorem run_append (g : PauseGate) (ops ops' : List Operation) :
    g.run (ops ++ ops') =
      ((g.run ops).1 ++ ((g.run ops).2.run ops').1, ((g.run ops).2.run ops').2) := by
  induction ops generalizing g with
  | nil => rfl
  | cons op ops ih => simp only [List.cons_append, run, ih, List.append_assoc]

theorem after_concat (ops : List Operation) (op : Operation) :
    after (ops ++ [op]) = ((after ops).perform op).2 := by
  rw [after, run_append]
  rfl

theorem signals_concat (ops : List Operation) (op : Operation) :
    signals (ops ++ [op]) = signals ops ++ ((after ops).perform op).1.toList := by
  rw [signals, run_append]
  simp only [run, List.append_nil]
  rfl

theorem handle_event (g : PauseGate) (op : Operation) :
    (g.handle op.event).2 = (g.perform op).2 := by
  cases op with
  | take requested => rfl
  | drop number =>
    simp only [Operation.event, handle, perform]
    cases g.drop? number <;> rfl

theorem tracks_after (ops : List Operation) : (after ops).Tracks (ops.map Operation.event) := by
  induction ops using List.reverseRecOn with
  | nil => exact .initial
  | append_singleton ops op ih =>
    rw [after_concat, ← handle_event, List.map_append]
    exact ih.concat op.event

/-! ## Live guards are counted -/

/-- The numbers of the guards that are live. -/
def liveGuards (ops : List Operation) : List Nat :=
  (after ops).guards.findIdxs fun guard => guard.active && guard.held

theorem mem_liveGuards {ops : List Operation} {number : Nat} :
    number ∈ liveGuards ops ↔ Live ops number := by
  rw [Live, ← (tracks_after ops).live_iff, liveGuards, List.mem_findIdxs_iff_exists_getElem_pos,
    List.getElem?_eq_some_iff]
  refine exists_congr fun hlt => ?_
  obtain ⟨active, held⟩ := (after ops).guards[number]
  simp

theorem nodup_liveGuards (ops : List Operation) : (liveGuards ops).Nodup := List.nodup_findIdxs

theorem count_after (ops : List Operation) : (after ops).count = (liveGuards ops).length := by
  rw [(tracks_after ops).count_eq, liveGuards, List.length_findIdxs]

theorem isPaused_iff_live {ops : List Operation} :
    (after ops).isPaused = true ↔ ∃ number, Live ops number := by
  rw [isPaused, decide_eq_true_iff, count_after, gt_iff_lt, List.length_pos_iff_exists_mem]
  exact exists_congr fun _ => mem_liveGuards

theorem count_eq_one_iff {ops : List Operation} {number : Nat} (hlive : Live ops number) :
    (after ops).count = 1 ↔ ∀ other, Live ops other → other = number := by
  have hmem := mem_liveGuards.mpr hlive
  rw [count_after]
  constructor
  · intro hlength other hother
    obtain ⟨only, honly⟩ := List.length_eq_one_iff.mp hlength
    have hother := mem_liveGuards.mpr hother
    rw [honly, List.mem_singleton] at hmem hother
    rw [hmem, hother]
  · intro hall
    have hperm : (liveGuards ops).Perm [number] :=
      (List.perm_ext_iff_of_nodup (nodup_liveGuards ops) (List.nodup_singleton number)).mpr
        fun other => by
          rw [List.mem_singleton]
          refine ⟨fun hother => hall other (mem_liveGuards.mp hother), ?_⟩
          rintro rfl
          exact hmem
    exact hperm.length_eq

/-! ## What an operation does -/

theorem grantsSlot_eq (g : PauseGate) : g.grantsSlot = !g.isPaused := by
  rw [grantsSlot, isPaused]
  cases g.count <;> rfl

/-- A guard is live if it is there, active and not dropped. -/
theorem perform_drop_of_live {ops : List Operation} {number : Nat} (hlive : Live ops number) :
    (after ops).perform (.drop number) =
      (if (after ops).count - 1 = 0 then some .resume else none,
        ⟨(after ops).count - 1, (after ops).guards.set number ⟨true, false⟩⟩) := by
  have hguard := ((tracks_after ops).live_iff number).mpr hlive
  simp [perform, drop?, hguard]

/-- Dropping another guard, or none, does nothing to the count. -/
theorem perform_drop_of_not_live {ops : List Operation} {number : Nat}
    (hlive : ¬Live ops number) :
    ((after ops).perform (.drop number)).1 = none ∧
      ((after ops).perform (.drop number)).2.count = (after ops).count := by
  rw [Live, ← (tracks_after ops).live_iff] at hlive
  simp only [perform, drop?]
  cases hguard : (after ops).guards[number]? with
  | none => exact ⟨rfl, rfl⟩
  | some guard =>
    obtain ⟨active, held⟩ := guard
    cases held with
    | false => exact ⟨rfl, rfl⟩
    | true =>
      cases active with
      | false => exact ⟨rfl, rfl⟩
      | true => exact absurd hguard hlive

/-- Nothing is subtracted from a count of zero. -/
theorem count_drop_of_live {ops : List Operation} {number : Nat} (hlive : Live ops number) :
    ((after ops).perform (.drop number)).2.count + 1 = (after ops).count := by
  have hpos : 0 < (after ops).count := of_decide_eq_true (isPaused_iff_live.mpr ⟨number, hlive⟩)
  rw [perform_drop_of_live hlive]
  exact Nat.sub_add_cancel hpos

theorem pauses_iff {ops : List Operation} {op : Operation} :
    ((after ops).perform op).1 = some .pause ↔ op = .take true ∧ ∀ number, ¬Live ops number := by
  cases op with
  | take requested =>
    cases requested with
    | false => simp [perform, PauseGate.take]
    | true =>
      have hslot : (∀ number, ¬Live ops number) ↔ (after ops).grantsSlot = true :=
        (tracks_after ops).grantsSlot_iff.symm
      rw [hslot]
      simp [perform, PauseGate.take, grantsSlot]
  | drop number =>
    refine ⟨fun h => ?_, fun h => absurd h.1 (by simp)⟩
    by_cases hlive : Live ops number
    · rw [perform_drop_of_live hlive] at h
      split at h <;> cases h
    · rw [(perform_drop_of_not_live hlive).1] at h
      cases h

theorem resumes_iff {ops : List Operation} {op : Operation} :
    ((after ops).perform op).1 = some .resume ↔
      ∃ number, op = .drop number ∧ Live ops number ∧
        ∀ other, Live ops other → other = number := by
  cases op with
  | take requested =>
    refine ⟨fun h => ?_, fun h => absurd h.choose_spec.1 (by simp)⟩
    simp only [perform, PauseGate.take] at h
    split at h
    · split at h <;> cases h
    · cases h
  | drop number =>
    by_cases hlive : Live ops number
    · have hcount := count_drop_of_live hlive
      rw [perform_drop_of_live hlive] at hcount ⊢
      have hresume : (if (after ops).count - 1 = 0 then some Signal.resume else none) =
          some .resume ↔ (after ops).count = 1 := by
        rw [← hcount]
        simp
      rw [hresume, count_eq_one_iff hlive]
      simp [hlive]
    · rw [(perform_drop_of_not_live hlive).1]
      simp [hlive]

/-- What an operation sends tells whether batches are held off before and after it. -/
theorem isPaused_perform (ops : List Operation) (op : Operation) :
    match ((after ops).perform op).1 with
    | some signal =>
      (after ops).isPaused = !signal.isPause ∧ (after (ops ++ [op])).isPaused = signal.isPause
    | none => (after (ops ++ [op])).isPaused = (after ops).isPaused := by
  rw [after_concat]
  cases op with
  | take requested =>
    cases requested with
    | false => rfl
    | true =>
      simp only [perform, PauseGate.take, isPaused]
      cases (after ops).count <;> simp [Signal.isPause]
  | drop number =>
    by_cases hlive : Live ops number
    · have hcount := count_drop_of_live hlive
      have hpaused : (after ops).isPaused = true := isPaused_iff_live.mpr ⟨number, hlive⟩
      rw [hpaused, perform_drop_of_live hlive]
      rw [isPaused]
      cases (after ops).count - 1 <;> simp [Signal.isPause]
    · obtain ⟨hsignal, hcount⟩ := perform_drop_of_not_live hlive
      rw [hsignal]
      simp only [isPaused, hcount]

/-! ## Signals -/

/-- Whether a backend is paused that heard nothing but these signals. -/
def backendPaused (signals : List Signal) : Bool := (signals.getLast?.map Signal.isPause).getD false

/-- Pause and resume are signalled in turn, and the last signal says whether batches are held
off. -/
theorem alternate (ops : List Operation) :
    (∀ i signal, (signals ops)[i]? = some signal → signal.isPause = decide (i % 2 = 0)) ∧
      (after ops).isPaused = decide ((signals ops).length % 2 = 1) ∧
      backendPaused (signals ops) = (after ops).isPaused := by
  induction ops using List.reverseRecOn with
  | nil => exact ⟨fun i signal h => (by cases h), rfl, rfl⟩
  | append_singleton ops op ih =>
    obtain ⟨hturns, hparity, hbackend⟩ := ih
    have hstep := isPaused_perform ops op
    rw [signals_concat]
    cases hsignal : ((after ops).perform op).1 with
    | none =>
      rw [hsignal] at hstep
      rw [Option.toList_none, List.append_nil, hstep]
      exact ⟨hturns, hparity, hbackend⟩
    | some signal =>
      rw [hsignal] at hstep
      obtain ⟨hbefore, hafter⟩ := hstep
      -- The signal is the one whose turn it is: it undoes what the number of signals tells.
      have hturn : signal.isPause = decide ((signals ops).length % 2 = 0) := by
        rw [hparity] at hbefore
        cases hpause : signal.isPause <;> simp [hpause] at hbefore ⊢ <;> omega
      refine ⟨fun i s hs => ?_, ?_, ?_⟩
      · rw [Option.toList_some, List.getElem?_append] at hs
        split at hs
        · exact hturns i s hs
        · obtain ⟨hindex, rfl⟩ : i - (signals ops).length = 0 ∧ signal = s := by
            simpa [List.getElem?_singleton] using hs
          rw [hturn, show i = (signals ops).length by omega]
      · rw [hafter, hturn, Option.toList_some, List.length_append, List.length_singleton]
        exact decide_eq_decide.mpr (by omega)
      · rw [hafter, backendPaused, Option.toList_some, List.getLast?_concat]
        rfl

/-! ## Idle guards -/

/-- The operations without those on guards that were taken without requesting a pause; the other
guards are numbered anew. -/
def withoutIdle (g : PauseGate) : List Operation → List Operation
  | [] => []
  | .take false :: ops => (g.take false).2.withoutIdle ops
  | .take true :: ops => .take true :: (g.take true).2.withoutIdle ops
  | .drop number :: ops =>
    let rest := (g.perform (.drop number)).2.withoutIdle ops
    if (g.guards[number]?.map Guard.active).getD false
    then .drop (g.guards.countPBefore Guard.active number) :: rest
    else rest

/-- One gate is another without the guards that were taken without requesting a pause. -/
structure IsWithoutIdle (g' g : PauseGate) : Prop where
  guards : g'.guards = g.guards.filter Guard.active
  count : g'.count = g.count

theorem getElem?_filter_countPBefore {α : Type} {p : α → Bool} {l : List α} {i : Nat} {a : α}
    (ha : l[i]? = some a) (hp : p a = true) : (l.filter p)[l.countPBefore p i]? = some a := by
  induction l generalizing i with
  | nil => cases ha
  | cons b l ih =>
    rw [List.countPBefore_cons, List.filter_cons]
    cases i with
    | zero =>
      obtain rfl : b = a := Option.some.inj ha
      simp [hp]
    | succ i =>
      have hrest := ih (i := i) ha
      split <;> simpa using hrest

theorem filter_set_of_pos {α : Type} {p : α → Bool} {l : List α} {i : Nat} {a b : α}
    (ha : l[i]? = some a) (hp : p a = true) (hb : p b = true) :
    (l.set i b).filter p = (l.filter p).set (l.countPBefore p i) b := by
  induction l generalizing i with
  | nil => cases ha
  | cons c l ih =>
    rw [List.countPBefore_cons]
    cases i with
    | zero =>
      obtain rfl : c = a := Option.some.inj ha
      simp [hp, hb]
    | succ i =>
      have hrest := ih (i := i) ha
      cases hc : p c <;> simp [hc, hrest]

theorem filter_set_of_neg {α : Type} {p : α → Bool} {l : List α} {i : Nat} {a b : α}
    (ha : l[i]? = some a) (hp : p a = false) (hb : p b = false) :
    (l.set i b).filter p = l.filter p := by
  induction l generalizing i with
  | nil => cases ha
  | cons c l ih =>
    cases i with
    | zero =>
      obtain rfl : c = a := Option.some.inj ha
      simp [hp, hb]
    | succ i => simp [List.filter_cons, ih (i := i) ha]

namespace IsWithoutIdle

variable {g g' : PauseGate}

theorem take_false (h : g'.IsWithoutIdle g) : g'.IsWithoutIdle (g.take false).2 where
  guards := by simp [PauseGate.take, h.guards]
  count := h.count

theorem take_true (h : g'.IsWithoutIdle g) :
    (g'.take true).1 = (g.take true).1 ∧ (g'.take true).2.IsWithoutIdle (g.take true).2 := by
  simp only [PauseGate.take, if_true, h.count]
  exact ⟨trivial, by simp [h.guards], rfl⟩

/-- A guard that is not active, or not there, is dropped without effect. -/
theorem drop_idle (h : g'.IsWithoutIdle g) {number : Nat}
    (hidle : ¬(g.guards[number]?.map Guard.active).getD false = true) :
    (g.perform (.drop number)).1 = none ∧ g'.IsWithoutIdle (g.perform (.drop number)).2 := by
  simp only [perform, drop?]
  cases hguard : g.guards[number]? with
  | none => exact ⟨rfl, h⟩
  | some guard =>
    obtain ⟨active, held⟩ := guard
    obtain rfl : active = false := by simpa [hguard] using hidle
    cases held with
    | false => exact ⟨rfl, h⟩
    | true => exact ⟨rfl, h.guards.trans (filter_set_of_neg hguard rfl rfl).symm, h.count⟩

/-- An active guard is dropped under its new number. -/
theorem drop_active (h : g'.IsWithoutIdle g) {number : Nat}
    (hactive : (g.guards[number]?.map Guard.active).getD false = true) :
    (g'.perform (.drop (g.guards.countPBefore Guard.active number))).1 =
        (g.perform (.drop number)).1 ∧
      (g'.perform (.drop (g.guards.countPBefore Guard.active number))).2.IsWithoutIdle
        (g.perform (.drop number)).2 := by
  cases hguard : g.guards[number]? with
  | none => simp [hguard] at hactive
  | some guard =>
    obtain ⟨active, held⟩ := guard
    obtain rfl : active = true := by simpa [hguard] using hactive
    have hguard' := getElem?_filter_countPBefore (p := Guard.active) hguard rfl
    rw [← h.guards] at hguard'
    simp only [perform, drop?, hguard, hguard', h.count]
    cases held with
    | false => exact ⟨rfl, h⟩
    | true =>
      refine ⟨rfl, ?_, rfl⟩
      rw [h.guards]
      exact (filter_set_of_pos hguard rfl rfl).symm

end IsWithoutIdle

/-- The two gates keep in step: they send the same signals and come to the same count. -/
theorem run_withoutIdle {g g' : PauseGate} (h : g'.IsWithoutIdle g) (ops : List Operation) :
    (g'.run (g.withoutIdle ops)).1 = (g.run ops).1 ∧
      (g'.run (g.withoutIdle ops)).2.IsWithoutIdle (g.run ops).2 := by
  induction ops generalizing g g' with
  | nil => exact ⟨rfl, h⟩
  | cons op ops ih =>
    cases op with
    | take requested =>
      cases requested with
      | false => exact ih h.take_false
      | true =>
        obtain ⟨hsignal, hgate⟩ := h.take_true
        obtain ⟨hsignals, hend⟩ := ih hgate
        exact ⟨congrArg₂ (fun a b => Option.toList a ++ b) hsignal hsignals, hend⟩
    | drop number =>
      rw [withoutIdle]
      split
      next hactive =>
        obtain ⟨hsignal, hgate⟩ := h.drop_active hactive
        obtain ⟨hsignals, hend⟩ := ih hgate
        exact ⟨congrArg₂ (fun a b => Option.toList a ++ b) hsignal hsignals, hend⟩
      next hidle =>
        obtain ⟨hsignal, hgate⟩ := h.drop_idle hidle
        obtain ⟨hsignals, hend⟩ := ih hgate
        refine ⟨?_, hend⟩
        rw [hsignals, run, hsignal]
        rfl

theorem take_false_not_mem_withoutIdle (g : PauseGate) (ops : List Operation) :
    .take false ∉ g.withoutIdle ops := by
  induction ops generalizing g with
  | nil => exact List.not_mem_nil
  | cons op ops ih =>
    cases op with
    | take requested =>
      cases requested with
      | false => exact ih _
      | true => simpa [withoutIdle] using ih _
    | drop number =>
      rw [withoutIdle]
      split
      · simpa using ih _
      · exact ih _

/-! ## Pauses -/

/-- Whatever is done with a gate, guards being dropped in any order: batches are held off, and the
backend is paused, exactly while a guard is live that was taken with a pause requested; pause and
resume are signalled in turn; and the other guards make no difference. -/
theorem pauses_while_live (ops : List Operation) :
    ((after ops).isPaused = true ↔ ∃ number, Live ops number) ∧
      backendPaused (signals ops) = (after ops).isPaused ∧
      ((after ops).grantsSlot = true ↔ ¬(after ops).isPaused = true) ∧
      (∀ i signal, (signals ops)[i]? = some signal →
        signal = if i % 2 = 0 then .pause else .resume) ∧
      (∀ op, ((after ops).perform op).1 = some .pause ↔
        op = .take true ∧ ∀ number, ¬Live ops number) ∧
      (∀ op, ((after ops).perform op).1 = some .resume ↔
        ∃ number, op = .drop number ∧ Live ops number ∧
          ∀ other, Live ops other → other = number) ∧
      (∀ number, Live ops number →
        ((after ops).perform (.drop number)).2.count + 1 = (after ops).count) ∧
      (.take false ∉ initial.withoutIdle ops ∧
        signals (initial.withoutIdle ops) = signals ops ∧
        (after (initial.withoutIdle ops)).count = (after ops).count) := by
  obtain ⟨hturns, -, hbackend⟩ := alternate ops
  have hinitial : initial.IsWithoutIdle initial := ⟨rfl, rfl⟩
  obtain ⟨hsignals, hgate⟩ := run_withoutIdle hinitial ops
  refine ⟨isPaused_iff_live, hbackend, ?_, fun i signal h => ?_, fun _ => pauses_iff,
    fun _ => resumes_iff, fun _ => count_drop_of_live, take_false_not_mem_withoutIdle _ _,
    hsignals, hgate.count⟩
  · rw [grantsSlot_eq, Bool.not_eq_true', Bool.not_eq_true]
  · have hpause := hturns i signal h
    split
    next heven =>
      rw [decide_eq_true heven] at hpause
      cases signal with
      | pause => rfl
      | resume => cases hpause
    next hodd =>
      rw [decide_eq_false hodd] at hpause
      cases signal with
      | pause => cases hpause
      | resume => rfl

/-- Two guards overlap, and the one taken first is dropped first; a third is idle. -/
example : signals [.take true, .take false, .take true, .drop 0, .drop 1, .drop 2, .take true] =
    [.pause, .resume, .pause] := by
  decide

end PauseGate

end SidechainVerifier
