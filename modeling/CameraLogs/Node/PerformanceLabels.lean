import CameraLogs.Node.PerformanceSafety

/-!
# Is the reported state faithful?

In automatic mode the state is normal only while the budget is the baseline. The other two
directions fail in one situation each.

* A baseline that shrinks to the budget of a node that is recovering leaves it recovering: only a
  throttled node is relabelled, and a step up that changes nothing does not end the recovery
  (`Stuck`).
* A throttled node whose budget is the baseline is relabelled first and throttled again by the same
  pressure, so that each sample refreshes the time of the last change (`Flaps`).

Apart from these the report is faithful after every call.
-/

namespace CameraLogs.Node

open PerformanceController

variable {c : PerformanceController} {call : Evaluation} {calls : List Evaluation}
  {e : Budget} {reason : String}

/-! ## Labels -/

/-- What a call under pressure does to the label. -/
theorem pressed_labels (h : c.effective = some e) :
    (c.pressureSamples + 1 < 3 ∧ (c.pressed call reason).state = c.state ∧
      (c.pressed call reason).reason = c.reason ∧
      (c.pressed call reason).changedAt = c.changedAt ∧
      (c.pressed call reason).effective = some e) ∨
    (3 ≤ c.pressureSamples + 1 ∧ (c.pressed call reason).state = .throttled ∧
      (c.pressed call reason).reason = reason ∧
      (((c.pressed call reason).effective = some (e.lowered (computePressure call.telemetry)) ∧
          e.lowered (computePressure call.telemetry) ≠ e ∧ c.adjustable call.tick = true) ∨
        ((c.adjustable call.tick = false ∨ e.lowered (computePressure call.telemetry) = e) ∧
          (c.pressed call reason).effective = some e ∧
          (c.pressed call reason).changedAt =
            if c.state ≠ .throttled ∨ c.reason ≠ reason then some call.moment
            else c.changedAt))) := by
  unfold PerformanceController.pressed
  dsimp only
  split
  next hsamples =>
    refine .inr ⟨hsamples, ?_⟩
    generalize hlabelled : PerformanceController.throttled { c with
      pressureSamples := c.pressureSamples + 1, stableSince := none } call reason = labelled
    have hlabel : labelled.state = .throttled ∧ labelled.reason = reason ∧
        labelled.effective = some e ∧ labelled.adjustable call.tick = c.adjustable call.tick ∧
        labelled.changedAt =
          if c.state ≠ .throttled ∨ c.reason ≠ reason then some call.moment else c.changedAt := by
      rw [← hlabelled]
      unfold throttled
      dsimp only
      split
      next => exact ⟨rfl, rfl, h, rfl, rfl⟩
      next hsame =>
        obtain ⟨hstate, hreason⟩ := not_or.mp hsame
        exact ⟨not_not.mp hstate, not_not.mp hreason, h, rfl, rfl⟩
    obtain ⟨hstate, hreason, heff, hadjustable, hchanged⟩ := hlabel
    rw [hadjustable]
    cases hcan : c.adjustable call.tick with
    | false => exact ⟨hstate, hreason, .inr ⟨.inl rfl, heff, hchanged⟩⟩
    | true =>
      rw [if_pos rfl]
      unfold lowered
      rw [budget_of_effective heff]
      dsimp only
      split
      next hlower => exact ⟨hstate, hreason, .inl ⟨rfl, hlower, rfl⟩⟩
      next hlower => exact ⟨hstate, hreason, .inr ⟨.inr (not_not.mp hlower), heff, hchanged⟩⟩
  next hsamples => exact .inl ⟨Nat.lt_of_not_le hsamples, rfl, rfl, rfl, h⟩

/-- What a call without pressure does to the label. -/
theorem relieved_labels (h : c.effective = some e) :
    ((c.relieved call).effective = some (e.raised call.baseline) ∧ e.raised call.baseline ≠ e ∧
      (c.relieved call).state =
        if e.raised call.baseline = call.baseline then .normal else .recovering) ∨
    (e = call.baseline ∧ c.state = .throttled ∧ (c.relieved call).state = .normal ∧
      (c.relieved call).effective = some e) ∨
    ((c.relieved call).effective = some e ∧ (c.relieved call).state = c.state ∧
      (c.relieved call).reason = c.reason ∧ (c.relieved call).changedAt = c.changedAt) := by
  unfold relieved
  dsimp only
  split
  next =>
    split
    next =>
      unfold raised
      rw [budget_of_effective (c := { c with pressureSamples := 0, stableSince := _ }) h]
      dsimp only
      split
      next hraised => exact .inl ⟨rfl, hraised, rfl⟩
      next =>
        split
        next hmet => exact .inr (.inl ⟨hmet.1, hmet.2, rfl, h⟩)
        next => exact .inr (.inr ⟨h, rfl, rfl, rfl⟩)
    next => exact .inr (.inr ⟨h, rfl, rfl, rfl⟩)
  next => exact .inr (.inr ⟨h, rfl, rfl, rfl⟩)

/-- What settling does to the label. -/
theorem relabelled_labels (h : c.effective = some e) :
    (e = call.baseline ∧ c.state = .throttled ∧ (c.relabelled call).state = .normal ∧
      (c.relabelled call).changedAt = some call.moment) ∨
    (¬(e = call.baseline ∧ c.state = .throttled) ∧ (c.relabelled call).state = c.state ∧
      ((c.state = .normal ∧ (c.relabelled call).reason ≠ c.reason) ∨
        ((c.relabelled call).reason = c.reason ∧
          (c.relabelled call).changedAt = c.changedAt))) := by
  unfold relabelled
  rw [h]
  split
  next hmet => exact .inl ⟨Option.some.inj hmet.1, hmet.2, rfl, rfl⟩
  next hnot =>
    refine .inr ⟨fun hmet => hnot ⟨congrArg some hmet.1, hmet.2⟩, ?_⟩
    split
    next =>
      split
      next hnew => exact ⟨rfl, .inl ⟨hnew.1, hnew.2.symm⟩⟩
      next => exact ⟨rfl, .inr ⟨rfl, rfl⟩⟩
    next => exact ⟨rfl, .inr ⟨rfl, rfl⟩⟩

/-- What holds of the label between two calls in automatic mode. -/
structure LabelOk (c : PerformanceController) : Prop where
  budget : BudgetOk c
  mode : c.effective ≠ none → c.mode = some .auto
  auto : c.state ≠ .manual
  normal : c.state = .normal → c.effective = c.baseline
  throttled : c.state = .throttled → c.effective = c.baseline → 3 ≤ c.pressureSamples

/-- The budget `e` goes by the baseline, and nothing has been relabelled yet. -/
structure Rebased (c : PerformanceController) (call : Evaluation) (d : PerformanceController)
    (e : Budget) : Prop where
  effective : d.effective = some e
  state : d.state = if Restarts c call then .normal else c.state
  normal : d.state = .normal → e = call.baseline
  bounded : ∀ e', ¬Restarts c call → c.effective = some e' → c.state ≠ .normal →
    e = bounded e' call.baseline
  same : ¬Restarts c call → c.baseline = some call.baseline →
    c.effective = some e ∧ d.reason = c.reason ∧ d.changedAt = c.changedAt

theorem rebased_spec (h : c.effective = some e) (changed : Bool) :
    (c.rebased call changed).state = c.state ∧
      (c.rebased call changed).effective = some
        (if changed = true ∧ c.state = .normal then call.baseline
        else bounded e call.baseline) ∧
      (changed = false → (c.rebased call changed).reason = c.reason ∧
        (c.rebased call changed).changedAt = c.changedAt) := by
  unfold rebased
  rw [budget_of_effective h]
  cases changed with
  | true => simp
  | false => simp

theorem entered_new (hnew : Restarts c call) (hmode : call.policy.mode = .auto) :
    (c.entered call).effective = some call.baseline ∧ (c.entered call).state = .normal := by
  have hbegin : c.effective = none ∨ c.mode ≠ some call.policy.mode := hnew
  unfold entered
  rw [if_pos hbegin, hmode]
  exact ⟨rfl, rfl⟩

theorem entered_old (hnew : ¬Restarts c call) : c.entered call = c := by
  unfold entered
  exact if_neg hnew

theorem rebased_new {changed : Bool} (hnew : Restarts c call) (hmode : call.policy.mode = .auto) :
    Rebased c call ((c.entered call).rebased call changed) call.baseline := by
  obtain ⟨heff, hstate⟩ := entered_new hnew hmode
  obtain ⟨hsame, hbudget, -⟩ := @rebased_spec _ call _ heff changed
  rw [(Budget.Within.refl (baseline_least call)).bounded, ite_self] at hbudget
  exact ⟨hbudget, hsame.trans (hstate.trans (if_pos hnew).symm), fun _ => rfl,
    fun _ hnot => absurd hnew hnot, fun hnot => absurd hnew hnot⟩

theorem rebased_old {changed : Bool} (h : LabelOk c) (hnew : ¬Restarts c call)
    (hchanged : changed = true ↔ c.baseline ≠ some call.baseline) :
    ∃ e, Rebased c call ((c.entered call).rebased call changed) e := by
  obtain ⟨e, he⟩ := Option.ne_none_iff_exists'.mp fun hnone => hnew (.inl hnone)
  obtain ⟨b, hb, hwithin⟩ := h.budget e he
  obtain ⟨hstate, hbudget, hlabel⟩ := @rebased_spec c call e he changed
  rw [entered_old hnew]
  -- with the baseline there was, the budget is what it was
  have hkept (hsame : c.baseline = some call.baseline) : bounded e call.baseline = e := by
    rw [hsame] at hb
    cases hb
    exact hwithin.bounded
  refine ⟨_, hbudget, hstate.trans (if_neg hnew).symm, ?_, ?_, ?_⟩
  · intro hnormal
    rw [hstate] at hnormal
    by_cases hsame : c.baseline = some call.baseline
    · rw [if_neg fun hboth => hchanged.mp hboth.1 hsame, hkept hsame]
      have hmet := h.normal hnormal
      rw [he, hsame] at hmet
      exact Option.some.inj hmet
    · rw [if_pos ⟨hchanged.mpr hsame, hnormal⟩]
  · intro e' _ he' hnormal
    rw [he] at he'
    cases he'
    exact if_neg fun hboth => hnormal hboth.2
  · intro _ hsame
    have hfalse : changed = false := Bool.eq_false_iff.mpr fun htrue => hchanged.mp htrue hsame
    rw [if_neg fun hboth => hchanged.mp hboth.1 hsame, hkept hsame]
    exact ⟨he, hlabel hfalse⟩

/-- In automatic mode, what settles is a controller that goes by the baseline, relabelled. -/
theorem settled_rebased (h : LabelOk c) (hmode : call.policy.mode = .auto) :
    ∃ d e, Rebased c call d e ∧ c.settled call = d.relabelled call := by
  have hnot : ¬call.policy.mode = .manual := by
    rw [hmode]
    exact PerformanceMode.noConfusion
  have hbegun : LabelOk { c with pressureActive := call.pressureReason.isSome } :=
    ⟨h.budget, h.mode, h.auto, h.normal, h.throttled⟩
  unfold settled
  dsimp only
  rw [if_neg hnot]
  by_cases hnew : Restarts c call
  · have hrebased := @rebased_new { c with pressureActive := call.pressureReason.isSome } call
      (c.baseline ≠ some call.baseline) hnew hmode
    exact ⟨_, _, ⟨hrebased.effective, hrebased.state, hrebased.normal, hrebased.bounded,
      hrebased.same⟩, rfl⟩
  · obtain ⟨e, hrebased⟩ := @rebased_old _ call (decide (c.baseline ≠ some call.baseline)) hbegun hnew
      decide_eq_true_iff
    exact ⟨_, e, ⟨hrebased.effective, hrebased.state, hrebased.normal, hrebased.bounded,
      hrebased.same⟩, rfl⟩

/-- The label that is settled: a throttled node has less than the baseline, and a normal one has
all of it. -/
theorem settled_labels (h : LabelOk c) (hmode : call.policy.mode = .auto)
    (he : (c.settled call).effective = some e) :
    ((c.settled call).state = .normal → e = call.baseline) ∧
      ((c.settled call).state = .throttled → e ≠ call.baseline) ∧
      ((c.settled call).state = .recovering ↔ ¬Restarts c call ∧ c.state = .recovering) ∧
      (c.settled call).state ≠ .manual ∧
      (∀ e', ¬Restarts c call → c.effective = some e' → c.state ≠ .normal →
        e = bounded e' call.baseline) := by
  obtain ⟨d, e', hrebased, hsettled⟩ := settled_rebased h hmode
  rw [hsettled] at he ⊢
  rw [relabelled_effective, hrebased.effective] at he
  cases he
  have hold : d.state = .recovering ↔ ¬Restarts c call ∧ c.state = .recovering := by
    rw [hrebased.state]
    by_cases hnew : Restarts c call
    · simp [hnew]
    · simp [hnew]
  have hauto : d.state ≠ .manual := by
    rw [hrebased.state]
    split
    · exact PerformanceState.noConfusion
    · exact h.auto
  obtain ⟨hmet, hthrottled, hstate, -⟩ | ⟨hnot, hstate, -⟩ :=
    @relabelled_labels d call e hrebased.effective
  · rw [hstate]
    refine ⟨fun _ => hmet, PerformanceState.noConfusion, ?_, PerformanceState.noConfusion,
      hrebased.bounded⟩
    rw [← hold, hthrottled]
    exact iff_of_false PerformanceState.noConfusion PerformanceState.noConfusion
  · rw [hstate]
    exact ⟨hrebased.normal, fun hthrottled hmet => hnot ⟨hmet, hthrottled⟩, hold, hauto,
      hrebased.bounded⟩

theorem next_pressed (hmode : call.policy.mode = .auto) (hreason : call.pressureReason = some reason) :
    c.next call = (c.settled call).pressed call reason := by
  unfold next
  rw [hmode, hreason]
  rfl

theorem next_relieved (hmode : call.policy.mode = .auto) (hreason : call.pressureReason = none) :
    c.next call = (c.settled call).relieved call := by
  unfold next
  rw [hmode, hreason]
  rfl

/-- The label is kept as it should be. -/
theorem LabelOk.next (h : LabelOk c) (hmode : call.policy.mode = .auto) : LabelOk (c.next call) := by
  obtain ⟨e, he, -⟩ := @settled_budget c call h.budget
  obtain ⟨hnormal, hless, -, hnotManual, -⟩ := settled_labels h hmode he
  have hnext : (c.next call).effective ≠ none → (c.next call).mode = some .auto := by
    intro _
    rw [next_mode h.budget, hmode]
  obtain ⟨after, hafter, hbase, hwithin, -⟩ := @next_budget c call h.budget
  have hbudget : BudgetOk (c.next call) := by
    intro e' he'
    rw [hafter] at he'
    cases he'
    exact ⟨_, hbase, hwithin⟩
  -- a label that was settled, with the budget that was settled
  have hsettled (hstate : (c.next call).state = (c.settled call).state)
      (heff : (c.next call).effective = some e) : LabelOk (c.next call) := by
    refine ⟨hbudget, hnext, ?_, fun hafter => ?_, fun hafter hmet => ?_⟩
    · rw [hstate]
      exact hnotManual
    · rw [heff, hbase, hnormal (hstate.symm.trans hafter)]
    · rw [heff, hbase] at hmet
      exact absurd (Option.some.inj hmet) (hless (hstate.symm.trans hafter))
  cases hreason : call.pressureReason with
  | some reason =>
    obtain ⟨-, hstate, -, -, heff⟩ | ⟨hsamples, hstate, -⟩ := @pressed_labels _ call e reason he
    · rw [← next_pressed hmode hreason] at hstate heff
      exact hsettled hstate heff
    · rw [← next_pressed hmode hreason] at hstate
      refine ⟨hbudget, hnext, ?_, fun hafter => ?_, fun _ _ => ?_⟩
      · rw [hstate]
        exact PerformanceState.noConfusion
      · rw [hstate] at hafter
        cases hafter
      · rw [next_pressed hmode hreason, (@pressed_spec _ call e he reason).pressureSamples]
        exact hsamples
  | none =>
    obtain ⟨heff, -, hstate⟩ | ⟨hmet, -, hstate, heff⟩ | ⟨heff, hstate, -⟩ :=
      @relieved_labels _ call e he
    · rw [← next_relieved hmode hreason] at hstate heff
      refine ⟨hbudget, hnext, ?_, fun hafter => ?_, fun hafter => ?_⟩
      · rw [hstate]
        split <;> exact PerformanceState.noConfusion
      · rw [hstate] at hafter
        split at hafter
        next hraised => rw [heff, hbase, hraised]
        next => cases hafter
      · rw [hstate] at hafter
        split at hafter <;> cases hafter
    · rw [← next_relieved hmode hreason] at hstate heff
      refine ⟨hbudget, hnext, ?_, fun _ => ?_, fun hafter => ?_⟩
      · rw [hstate]
        exact PerformanceState.noConfusion
      · rw [heff, hbase, hmet]
      · rw [hstate] at hafter
        cases hafter
    · rw [← next_relieved hmode hreason] at hstate heff
      exact hsettled hstate heff

/-! ## The report -/

/-- What a call returns after the calls before it. -/
def report (calls : List Evaluation) (call : Evaluation) : PerformanceStatus :=
  ((run calls).evaluate call).2

/-- No pressure and no unknown telemetry has been sampled for the recovery window. -/
def QuietWindow (calls : List Evaluation) (call : Evaluation) : Prop :=
  ∀ other ∈ calls ++ [call], call.tick - recoverySeconds ≤ other.tick → other.calm

instance : Decidable (QuietWindow calls call) := inferInstanceAs (Decidable (∀ _ ∈ _, _ → _))

/-- What the report of a call should say. -/
structure Faithful (calls : List Evaluation) (call : Evaluation) : Prop where
  met : (report calls call).effective = (report calls call).baseline → QuietWindow calls call →
    (report calls call).state = .normal
  normal : (report calls call).state = .normal →
    (report calls call).effective = (report calls call).baseline
  changed : ∀ before last, calls = before ++ [last] →
    (report calls call).changedAt ≠ (report before last).changedAt →
    (report calls call).state ≠ (report before last).state ∨
      (report calls call).reason ≠ (report before last).reason ∨
      (report calls call).baseline ≠ (report before last).baseline ∨
      (report calls call).effective ≠ (report before last).effective

/-- The node is recovering, and the baseline is no more than the budget. -/
def Stuck (calls : List Evaluation) (call : Evaluation) : Prop :=
  (run calls).state = .recovering ∧
    (run calls).effective.map (bounded · call.baseline) = some call.baseline ∧
    QuietWindow calls call

/-- The node is throttled though its budget is the baseline, the same pressure goes on, and the
budget is not lowered. -/
def Flaps (c : PerformanceController) (call : Evaluation) : Prop :=
  c.state = .throttled ∧ c.effective = some call.baseline ∧ c.baseline = some call.baseline ∧
    call.pressureReason = some c.reason ∧
    (c.adjustable call.tick = false ∨
      call.baseline.lowered (computePressure call.telemetry) = call.baseline) ∧
    c.changedAt ≠ some call.moment

theorem labelOk_initial : LabelOk initial where
  budget := fun e he => by cases he
  mode := fun hne => absurd rfl hne
  auto := PerformanceState.noConfusion
  normal := fun _ => rfl
  throttled := fun hstate => by cases hstate

theorem labelOk_run (hauto : ∀ call ∈ calls, call.policy.mode = .auto) : LabelOk (run calls) := by
  induction calls using List.reverseRecOn with
  | nil => exact labelOk_initial
  | append_singleton calls call ih =>
    rw [run_append]
    have hbefore := ih fun other hother => hauto other (List.mem_append_left _ hother)
    exact hbefore.next (hauto call (List.mem_append_right _ (List.mem_singleton_self _)))

theorem LabelOk.not_restarts (h : LabelOk c) (hmode : call.policy.mode = .auto)
    (hsome : c.effective ≠ none) : ¬Restarts c call := by
  rintro (hnone | hother)
  · exact hsome hnone
  · exact hother ((h.mode hsome).trans (congrArg some hmode.symm))

theorem recoverStep_self (n : ℕ) : recoverStep n n = n := by
  unfold recoverStep
  simp

theorem raised_self (budget : Budget) : budget.raised budget = budget := by
  unfold Budget.raised
  rw [recoverStep_self, recoverStep_self]

/-- A calm call leaves a node that has all of the baseline normal, but for one that is recovering. -/
theorem met_iff (h : LabelOk (run calls)) (hmode : call.policy.mode = .auto) :
    ((report calls call).effective = (report calls call).baseline → QuietWindow calls call →
      (report calls call).state = .normal) ↔ ¬Stuck calls call := by
  show (((run calls).next call).effective = ((run calls).next call).baseline →
    QuietWindow calls call → ((run calls).next call).state = .normal) ↔ _
  obtain ⟨e, he, -⟩ := @settled_budget (run calls) call h.budget
  obtain ⟨hnormal, hless, hrecovering, hauto, hbounded⟩ := settled_labels h hmode he
  obtain ⟨-, -, hbase, -⟩ := @next_budget (run calls) call h.budget
  have hcalm (hquiet : QuietWindow calls call) : call.calm := by
    refine hquiet call (List.mem_append_right _ (List.mem_singleton_self _)) ?_
    unfold recoverySeconds
    linarith
  refine ⟨?_, ?_⟩
  · intro hmet ⟨hstate, hbudget, hquiet⟩
    obtain ⟨e', he', hsame⟩ := Option.map_eq_some_iff.mp hbudget
    have hsome : (run calls).effective ≠ none := by
      rw [he']
      exact Option.some_ne_none e'
    have hnot := h.not_restarts hmode hsome
    have hall : e = call.baseline := by
      rw [← hsame]
      refine hbounded e' hnot he' ?_
      rw [hstate]
      exact PerformanceState.noConfusion
    have hsettled := hrecovering.mpr ⟨hnot, hstate⟩
    have hreason := (hcalm hquiet).1
    obtain ⟨-, hraised, -⟩ | ⟨-, hthrottled, -⟩ | ⟨heff, hkept, -⟩ := @relieved_labels _ call e he
    · rw [hall, raised_self] at hraised
      exact hraised rfl
    · rw [hsettled] at hthrottled
      cases hthrottled
    · rw [← next_relieved hmode hreason] at heff hkept
      have hafter := hmet (by rw [heff, hbase, hall]) hquiet
      rw [hkept, hsettled] at hafter
      cases hafter
  · intro hnot hall hquiet
    have hreason := (hcalm hquiet).1
    obtain ⟨heff, -, hstate⟩ | ⟨-, -, hstate, -⟩ | ⟨heff, hkept, -⟩ := @relieved_labels _ call e he
    · rw [← next_relieved hmode hreason] at heff hstate
      rw [heff, hbase] at hall
      rw [hstate, if_pos (Option.some.inj hall)]
    · rw [next_relieved hmode hreason]
      exact hstate
    · rw [← next_relieved hmode hreason] at heff hkept
      rw [heff, hbase] at hall
      rw [hkept]
      cases hsettled : ((run calls).settled call).state with
      | normal => rfl
      | manual => exact absurd hsettled hauto
      | throttled => exact absurd (Option.some.inj hall) (hless hsettled)
      | recovering =>
        obtain ⟨hold, hstate⟩ := hrecovering.mp hsettled
        refine absurd ⟨hstate, ?_, hquiet⟩ hnot
        obtain ⟨e', he'⟩ := Option.ne_none_iff_exists'.mp fun hnone => hold (.inl hnone)
        rw [he', Option.map_some, ← hbounded e' hold he' ?_]
        · exact hall
        · rw [hstate]
          exact PerformanceState.noConfusion

/-- The step by which a throttled node is relabelled and throttled again. -/
theorem flaps_spec (h : LabelOk c) (hmode : call.policy.mode = .auto) (hflaps : Flaps c call) :
    (c.next call).state = c.state ∧ (c.next call).reason = c.reason ∧
      (c.next call).baseline = c.baseline ∧ (c.next call).effective = c.effective ∧
      (c.next call).changedAt = some call.moment := by
  obtain ⟨hstate, heff, hbase, hreason, hkeeps, -⟩ := hflaps
  have hnot := h.not_restarts hmode (by rw [heff]; exact Option.some_ne_none _)
  obtain ⟨d, e, hrebased, hsettled⟩ := settled_rebased h hmode
  obtain ⟨hsame, -, -⟩ := hrebased.same hnot hbase
  rw [heff] at hsame
  cases hsame
  have hthrottled : d.state = .throttled := by
    rw [hrebased.state, if_neg hnot, hstate]
  have hcounted := @counted_settled c call
  have hadjustable : (c.settled call).adjustable call.tick = c.adjustable call.tick := by
    refine adjustable_congr ?_ call.tick
    rw [hcounted.lastAdjusted, if_neg hnot]
  have hsamples : 3 ≤ (c.settled call).pressureSamples := by
    rw [hcounted.pressureSamples, if_neg hnot]
    exact h.throttled hstate (heff.trans hbase.symm)
  obtain ⟨-, -, hnormal, hchanged⟩ | ⟨hnotMet, -⟩ := @relabelled_labels d call _ hrebased.effective
  · rw [← hsettled] at hnormal hchanged
    have he : (c.settled call).effective = some call.baseline := by
      rw [hsettled, relabelled_effective, hrebased.effective]
    obtain ⟨-, -, hnextBase, -⟩ := @next_budget c call h.budget
    rw [hnextBase, next_pressed hmode hreason]
    obtain ⟨hfew, -⟩ | ⟨-, hafter, hwhy, ⟨-, hlower, hcan⟩ | ⟨-, hkept, hwhen⟩⟩ :=
      @pressed_labels _ call _ c.reason he
    · omega
    · rw [hadjustable] at hcan
      obtain hcannot | hleast := hkeeps
      · rw [hcannot] at hcan
        cases hcan
      · exact absurd hleast hlower
    · refine ⟨hafter.trans hstate.symm, hwhy, hbase.symm, hkept.trans heff.symm, ?_⟩
      rw [hwhen, hnormal]
      exact if_pos (.inl PerformanceState.noConfusion)
  · exact absurd ⟨rfl, hthrottled⟩ hnotMet

/-- Where nothing else changes, the time of the change does so only by the step above. -/
theorem flaps_of_changed (h : LabelOk c) (hmode : call.policy.mode = .auto)
    (hsome : c.effective ≠ none) (hchanged : (c.next call).changedAt ≠ c.changedAt)
    (hstate : (c.next call).state = c.state) (hreason : (c.next call).reason = c.reason)
    (hbaseline : (c.next call).baseline = c.baseline)
    (heffective : (c.next call).effective = c.effective) : Flaps c call := by
  have hnot := h.not_restarts hmode hsome
  obtain ⟨-, -, hnextBase, -⟩ := @next_budget c call h.budget
  have hbase : c.baseline = some call.baseline := hbaseline.symm.trans hnextBase
  obtain ⟨d, e, hrebased, hsettled⟩ := settled_rebased h hmode
  obtain ⟨heff, hsameReason, hsameChanged⟩ := hrebased.same hnot hbase
  have hdstate : d.state = c.state := by
    rw [hrebased.state, if_neg hnot]
  have he : (c.settled call).effective = some e := by
    rw [hsettled, relabelled_effective, hrebased.effective]
  have hafter : (c.next call).effective = some e := heffective.trans heff
  have hcounted := @counted_settled c call
  have hadjustable : (c.settled call).adjustable call.tick = c.adjustable call.tick := by
    refine adjustable_congr ?_ call.tick
    rw [hcounted.lastAdjusted, if_neg hnot]
  have hlabels := @relabelled_labels d call e hrebased.effective
  rw [← hsettled, hdstate, hsameReason, hsameChanged] at hlabels
  cases hpressure : call.pressureReason with
  | some reason =>
    have hpressed := @pressed_labels _ call e reason he
    rw [← next_pressed hmode hpressure, hadjustable, hafter] at hpressed
    obtain ⟨hmet, hthrottled, hnormal, -⟩ | ⟨-, hkept, hlabel⟩ := hlabels
    · -- relabelled, and throttled again
      obtain ⟨-, hnext, -⟩ | ⟨-, -, hwhy, ⟨hlower, hne, -⟩ | ⟨hkeeps, -, hwhen⟩⟩ := hpressed
      · rw [hstate, hthrottled, hnormal] at hnext
        cases hnext
      · exact absurd (Option.some.inj hlower).symm hne
      · refine ⟨hthrottled, heff.trans (congrArg some hmet), hbase, ?_, ?_, ?_⟩
        · rw [hpressure, ← hwhy, hreason]
        · rw [← hmet]
          exact hkeeps
        · rw [hwhen, hnormal, if_pos (.inl PerformanceState.noConfusion)] at hchanged
          exact hchanged.symm
    · obtain ⟨-, -, hwhy, hwhen, -⟩ | ⟨-, hnext, hwhy, ⟨hlower, hne, -⟩ | ⟨-, -, hwhen⟩⟩ := hpressed
      · obtain ⟨-, hdiffers⟩ | ⟨-, hsame⟩ := hlabel
        · exact absurd (hwhy.symm.trans hreason) hdiffers
        · exact absurd (hwhen.trans hsame) hchanged
      · exact absurd (Option.some.inj hlower).symm hne
      · have hthrottled : c.state = .throttled := hstate.symm.trans hnext
        obtain ⟨hnormal, -⟩ | ⟨hsameReason', hsame⟩ := hlabel
        · rw [hthrottled] at hnormal
          cases hnormal
        · -- the label is the one there was
          refine absurd (hwhen.trans ?_) hchanged
          rw [hkept, hsameReason', if_neg, hsame]
          rintro (hother | hother)
          · exact hother hthrottled
          · exact hother (hreason.symm.trans hwhy)
  | none =>
    have hrelieved := @relieved_labels _ call e he
    rw [← next_relieved hmode hpressure, hafter] at hrelieved
    obtain ⟨hraised, hne, -⟩ | ⟨-, hthrottled, hnext, -⟩ | ⟨-, hkept, hwhy, hwhen⟩ := hrelieved
    · exact absurd (Option.some.inj hraised).symm hne
    · obtain ⟨-, -, hnormal, -⟩ | ⟨-, hkept, -⟩ := hlabels
      · rw [hthrottled] at hnormal
        cases hnormal
      · rw [hstate, ← hkept, hthrottled] at hnext
        cases hnext
    · obtain ⟨-, hthrottled, hnormal, -⟩ | ⟨-, -, ⟨-, hdiffers⟩ | ⟨-, hsame⟩⟩ := hlabels
      · rw [hstate, hthrottled, hnormal] at hkept
        cases hkept
      · exact absurd (hwhy.symm.trans hreason) hdiffers
      · exact absurd (hwhen.trans hsame) hchanged

/-- The report of a call is faithful but for the two situations. -/
theorem faithful_iff (hauto : ∀ other ∈ calls ++ [call], other.policy.mode = .auto) :
    Faithful calls call ↔ ¬Stuck calls call ∧ ¬Flaps (run calls) call := by
  have hmode : call.policy.mode = .auto :=
    hauto call (List.mem_append_right _ (List.mem_singleton_self _))
  have hok : LabelOk (run calls) :=
    labelOk_run fun other hother => hauto other (List.mem_append_left _ hother)
  refine ⟨fun h => ⟨(met_iff hok hmode).mp h.met, fun hflaps => ?_⟩, fun ⟨hstuck, hflaps⟩ => ?_⟩
  · cases calls using List.reverseRecOn with
    | nil => cases hflaps.1
    | append_singleton before last =>
      obtain ⟨hstate, hreason, hbaseline, heffective, hwhen⟩ := flaps_spec hok hmode hflaps
      have hlast : (run (before ++ [last])).changedAt = (report before last).changedAt := by
        rw [run_append]
        rfl
      have hchanged : (report (before ++ [last]) call).changedAt ≠ (report before last).changedAt := by
        rw [← hlast]
        exact fun heq => hflaps.2.2.2.2.2 (heq.symm.trans hwhen)
      rw [run_append] at hstate hreason hbaseline heffective
      obtain hne | hne | hne | hne := h.changed before last rfl hchanged
      all_goals
        unfold report evaluate at hne
        rw [run_append] at hne
      · exact hne hstate
      · exact hne hreason
      · exact hne hbaseline
      · exact hne heffective
  · refine ⟨(met_iff hok hmode).mpr hstuck, ?_, ?_⟩
    · exact (hok.next hmode).normal
    · intro before last hcalls hchanged
      subst hcalls
      unfold report evaluate at hchanged ⊢
      have hsome : (run (before ++ [last])).effective ≠ none := by
        obtain ⟨e, he, -⟩ := @next_budget (run before) last
          (labelOk_run fun other hother => hauto other (by simp [hother])).budget
        rw [run_append, he]
        exact Option.some_ne_none e
      rw [run_append] at hchanged hflaps hok hsome ⊢
      by_contra hall
      push Not at hall
      obtain ⟨hstate, hreason, hbaseline, heffective⟩ := hall
      exact hflaps (flaps_of_changed hok hmode hsome hchanged hstate hreason hbaseline heffective)

/-- In automatic mode the reports of a sequence of calls are all faithful exactly if no call finds
the node recovering with a baseline that is no more than its budget through a calm minute, or
throttled at its baseline by the pressure that goes on. -/
theorem performance_state_exact {calls : List Evaluation}
    (hauto : ∀ call ∈ calls, call.policy.mode = .auto) :
    (∀ before call after, calls = before ++ call :: after → Faithful before call) ↔
      ∀ before call after, calls = before ++ call :: after →
        ¬Stuck before call ∧ ¬Flaps (run before) call := by
  have hpart {before after : List Evaluation} {call : Evaluation}
      (hcalls : calls = before ++ call :: after) :
      ∀ other ∈ before ++ [call], other.policy.mode = .auto := by
    intro other hother
    refine hauto other ?_
    rw [hcalls]
    simp only [List.mem_append, List.mem_cons, List.not_mem_nil, or_false] at hother ⊢
    exact hother.imp_right .inl
  refine ⟨fun h before call after hcalls => ?_, fun h before call after hcalls => ?_⟩
  · exact (faithful_iff (hpart hcalls)).mp (h before call after hcalls)
  · exact (faithful_iff (hpart hcalls)).mpr (h before call after hcalls)

theorem performance_state_exact_pressed :
    (∀ before call after, pressedSamples = before ++ call :: after → Faithful before call) ↔
      ∀ before call after, pressedSamples = before ++ call :: after →
        ¬Stuck before call ∧ ¬Flaps (run before) call :=
  performance_state_exact (by decide +kernel)

/-- A node recovers when its baseline becomes the budget it has: 38 MiB a second. -/
def shrinkingSamples : List Evaluation :=
  pressedSamples ++ [sampleAt 20 71] ++ [72, 100].map fun tick =>
    { sampleAt 20 tick with
      policy := { steadyPolicy with readMiBPerSecond := 38, readMiBPerSecond_range := by decide } }

/-- A sample under pressure, on a node with the least of what can be lowered. -/
def leastAt (tick : ℚ) : Evaluation :=
  { sampleAt 95 tick with
    policy := { steadyPolicy with
      readMiBPerSecond := 1, readMiBPerSecond_range := by decide
      writeConcurrency := 1, writeConcurrency_range := by decide } }

/-- The node above is recovering after more than a minute with all of the baseline, and one that
cannot be lowered is newly throttled with every sample. -/
theorem reports_unfaithful :
    (¬∀ calls call, Nondecreasing (calls ++ [call]) →
      (∀ other ∈ calls ++ [call], other.policy.mode = .auto) →
      (report calls call).effective = (report calls call).baseline → QuietWindow calls call →
      (report calls call).state = .normal) ∧
    ¬∀ calls last call, Nondecreasing (calls ++ [last] ++ [call]) →
      (∀ other ∈ calls ++ [last] ++ [call], other.policy.mode = .auto) →
      (report (calls ++ [last]) call).changedAt ≠ (report calls last).changedAt →
      (report (calls ++ [last]) call).state ≠ (report calls last).state ∨
        (report (calls ++ [last]) call).reason ≠ (report calls last).reason ∨
        (report (calls ++ [last]) call).baseline ≠ (report calls last).baseline ∨
        (report (calls ++ [last]) call).effective ≠ (report calls last).effective := by
  refine ⟨fun h => ?_, fun h => ?_⟩
  · have hnormal := h shrinkingSamples
      { sampleAt 20 132 with
        policy := { steadyPolicy with readMiBPerSecond := 38, readMiBPerSecond_range := by decide } }
      (by decide +kernel) (by decide +kernel) (by decide +kernel) (by decide +kernel)
    exact absurd hnormal (by decide +kernel)
  · have hchanged := h [leastAt 1, leastAt 6] (leastAt 11) (leastAt 16) (by decide +kernel)
      (by decide +kernel) (by decide +kernel)
    exact absurd hchanged (by decide +kernel)

end CameraLogs.Node
