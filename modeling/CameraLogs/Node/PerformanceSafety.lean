import CameraLogs.Node.Performance
import Mathlib.Algebra.Order.Ring.Rat
import Mathlib.Data.List.Induction
import Mathlib.Tactic.Linarith

/-!
# The performance controller is safe

The budget stays within the baseline (`Budget.Within`), whatever the calls are. What a call may do
to the budget by itself is in `Pressed` and `Relieved`: one step down at the third sample under
pressure, one step up after a calm time, each a cooldown after the step before.

`Sampled` says what the counters of the controller mean in terms of the calls there have been; it
is kept by every call, and the bounds on a sequence of calls are read off it.
-/

namespace CameraLogs.Node

open PerformanceController

variable {c : PerformanceController} {call : Evaluation} {calls : List Evaluation}
  {budget ceiling baseline e : Budget}

/-! ## Budgets -/

/-- No component is larger. -/
instance : LE Budget where
  le a b := a.bufferMiB ≤ b.bufferMiB ∧ a.writeConcurrency ≤ b.writeConcurrency ∧
    a.batchKiB ≤ b.batchKiB ∧ a.flushIntervalMs ≤ b.flushIntervalMs ∧
    a.readMiBPerSecond ≤ b.readMiBPerSecond

instance (a b : Budget) : Decidable (a ≤ b) := inferInstanceAs (Decidable (_ ∧ _))

theorem budget_le_def {a b : Budget} : a ≤ b ↔ a.bufferMiB ≤ b.bufferMiB ∧
    a.writeConcurrency ≤ b.writeConcurrency ∧ a.batchKiB ≤ b.batchKiB ∧
    a.flushIntervalMs ≤ b.flushIntervalMs ∧ a.readMiBPerSecond ≤ b.readMiBPerSecond := Iff.rfl

theorem budget_le_refl (a : Budget) : a ≤ a :=
  ⟨Nat.le_refl _, Nat.le_refl _, Nat.le_refl _, Nat.le_refl _, Nat.le_refl _⟩

/-- The least budget there can be. -/
def leastBudget : Budget := ⟨1, 1, 1, 1, 1⟩

/-- A budget that the baseline allows: only concurrency and reading may be lower. -/
structure Budget.Within (budget baseline : Budget) : Prop where
  least : leastBudget ≤ budget
  most : budget ≤ baseline
  bufferMiB : budget.bufferMiB = baseline.bufferMiB
  batchKiB : budget.batchKiB = baseline.batchKiB
  flushIntervalMs : budget.flushIntervalMs = baseline.flushIntervalMs

theorem baseline_least (call : Evaluation) : leastBudget ≤ call.baseline := by
  have hbuffer := call.policy.bufferMiB_range.1
  have hwrite := call.policy.writeConcurrency_range.1
  have hbatch := call.policy.batchKiB_range.1
  have hflush := call.policy.flushIntervalMs_range.1
  have hread := call.policy.readMiBPerSecond_range.1
  have hcap : 1 ≤ (max 1 (truncated (call.limits.limits.effectiveCpu * 2))).toNat := by
    have hone := le_max_left 1 (truncated (call.limits.limits.effectiveCpu * 2))
    omega
  rw [budget_le_def]
  unfold Evaluation.baseline safeBudget leastBudget
  dsimp only
  split
  · dsimp only
    omega
  · dsimp only
    omega

theorem Budget.Within.refl (h : leastBudget ≤ baseline) : baseline.Within baseline :=
  ⟨h, budget_le_refl _, rfl, rfl, rfl⟩

theorem within_bounded (h : leastBudget ≤ budget) (hceiling : leastBudget ≤ ceiling) :
    (bounded budget ceiling).Within ceiling := by
  rw [budget_le_def] at h hceiling
  unfold leastBudget at h hceiling
  refine ⟨?_, ?_, rfl, rfl, rfl⟩
  · rw [budget_le_def]
    unfold leastBudget bounded
    dsimp only at *
    omega
  · rw [budget_le_def]
    unfold bounded
    dsimp only
    omega

/-- A budget within the baseline is not bounded any further. -/
theorem Budget.Within.bounded (h : budget.Within baseline) : Node.bounded budget baseline = budget := by
  obtain ⟨-, hmost, hbuffer, hbatch, hflush⟩ := h
  obtain ⟨-, hwrite, -, -, hread⟩ := budget_le_def.mp hmost
  cases budget
  simp only [Node.bounded, Budget.mk.injEq]
  exact ⟨hbuffer.symm, Nat.min_eq_left hwrite, hbatch.symm, hflush.symm, Nat.min_eq_left hread⟩

theorem Budget.Within.lowered (h : budget.Within baseline) (compute : Bool) :
    (budget.lowered compute).Within baseline ∧ budget.lowered compute ≤ budget := by
  obtain ⟨hleast, hmost, hbuffer, hbatch, hflush⟩ := h
  rw [budget_le_def] at hleast hmost
  unfold leastBudget at hleast
  dsimp only at hleast
  have hle : budget.lowered compute ≤ budget := by
    rw [budget_le_def]
    unfold Budget.lowered
    dsimp only
    split <;> omega
  refine ⟨⟨?_, ?_, hbuffer, hbatch, hflush⟩, hle⟩
  · rw [budget_le_def]
    unfold leastBudget Budget.lowered
    dsimp only
    split <;> omega
  · rw [budget_le_def] at hle ⊢
    omega

theorem recoverStep_bounds {current ceiling : ℕ} (h : current ≤ ceiling) :
    current ≤ recoverStep current ceiling ∧ recoverStep current ceiling ≤ ceiling := by
  unfold recoverStep
  dsimp only
  split <;> omega

theorem Budget.Within.raised (h : budget.Within baseline) :
    (budget.raised baseline).Within baseline ∧ budget ≤ budget.raised baseline := by
  obtain ⟨hleast, hmost, hbuffer, hbatch, hflush⟩ := h
  rw [budget_le_def] at hleast hmost
  unfold leastBudget at hleast
  dsimp only at hleast
  have hread := recoverStep_bounds hmost.2.2.2.2
  have hwrite := recoverStep_bounds hmost.2.1
  have hle : budget ≤ budget.raised baseline := by
    rw [budget_le_def]
    unfold Budget.raised
    dsimp only
    omega
  refine ⟨⟨?_, ?_, hbuffer, hbatch, hflush⟩, hle⟩
  · rw [budget_le_def] at hle ⊢
    unfold leastBudget
    dsimp only
    omega
  · rw [budget_le_def]
    unfold Budget.raised
    dsimp only
    omega

/-! ## Before the adjustment -/

/-- A call that begins anew: the first one, or one in another mode. -/
def Restarts (c : PerformanceController) (call : Evaluation) : Prop :=
  c.effective = none ∨ c.mode ≠ some call.policy.mode

instance : Decidable (Restarts c call) := inferInstanceAs (Decidable (_ ∨ _))

/-- What a controller has is within its baseline. -/
def BudgetOk (c : PerformanceController) : Prop :=
  ∀ e, c.effective = some e → ∃ b, c.baseline = some b ∧ e.Within b

/-- The counters are those of the controller before, or of a new one. -/
structure Counted (c : PerformanceController) (call : Evaluation) (c' : PerformanceController) :
    Prop where
  mode : c'.mode = some call.policy.mode
  pressureSamples : c'.pressureSamples = if Restarts c call then 0 else c.pressureSamples
  stableSince : c'.stableSince = if Restarts c call then none else c.stableSince
  lastAdjusted : c'.lastAdjusted = if Restarts c call then none else c.lastAdjusted

theorem counted_entered : Counted c call (c.entered call) := by
  unfold entered
  split
  next h => exact ⟨rfl, (if_pos h).symm, (if_pos h).symm, (if_pos h).symm⟩
  next h =>
    exact ⟨not_not.mp fun hmode => h (.inr hmode), (if_neg h).symm, (if_neg h).symm, (if_neg h).symm⟩

/-- The parts of a call that only settle budget and label leave the counters alone. -/
structure SameCounts (c c' : PerformanceController) : Prop where
  mode : c'.mode = c.mode
  pressureSamples : c'.pressureSamples = c.pressureSamples
  stableSince : c'.stableSince = c.stableSince
  lastAdjusted : c'.lastAdjusted = c.lastAdjusted

theorem sameCounts_manual (changed : Bool) : SameCounts c (c.manual call changed) :=
  ⟨rfl, rfl, rfl, rfl⟩

theorem sameCounts_rebased (changed : Bool) : SameCounts c (c.rebased call changed) := by
  unfold rebased
  split
  · exact ⟨rfl, rfl, rfl, rfl⟩
  · exact ⟨rfl, rfl, rfl, rfl⟩

theorem sameCounts_relabelled : SameCounts c (c.relabelled call) := by
  unfold relabelled
  split
  · exact ⟨rfl, rfl, rfl, rfl⟩
  · split
    · split
      · exact ⟨rfl, rfl, rfl, rfl⟩
      · exact ⟨rfl, rfl, rfl, rfl⟩
    · exact ⟨rfl, rfl, rfl, rfl⟩

theorem Counted.trans {c' c'' : PerformanceController} (h : Counted c call c')
    (h' : SameCounts c' c'') : Counted c call c'' :=
  ⟨h'.mode.trans h.mode, h'.pressureSamples.trans h.pressureSamples,
    h'.stableSince.trans h.stableSince, h'.lastAdjusted.trans h.lastAdjusted⟩

theorem counted_settled : Counted c call (c.settled call) := by
  have hentered : Counted c call
      ({ c with pressureActive := call.pressureReason.isSome }.entered call) :=
    ⟨counted_entered.mode, counted_entered.pressureSamples, counted_entered.stableSince,
      counted_entered.lastAdjusted⟩
  unfold settled
  dsimp only
  split
  · exact hentered.trans (sameCounts_manual _)
  · exact (hentered.trans (sameCounts_rebased _)).trans sameCounts_relabelled

@[simp] theorem relabelled_effective : (c.relabelled call).effective = c.effective := by
  unfold relabelled
  split
  · rfl
  · split
    · split <;> rfl
    · rfl

@[simp] theorem relabelled_baseline : (c.relabelled call).baseline = c.baseline := by
  unfold relabelled
  split
  · rfl
  · split
    · split <;> rfl
    · rfl

theorem budget_of_effective (h : c.effective = some e) : c.budget call = e := by
  unfold PerformanceController.budget
  rw [h]
  rfl

/-- What a call begins with: a budget with a part of everything. -/
theorem entered_effective (h : BudgetOk c) :
    ∃ e, (c.entered call).effective = some e ∧ leastBudget ≤ e ∧
      (¬Restarts c call → c.effective = some e) := by
  unfold entered
  split
  next hnew => exact ⟨call.baseline, rfl, baseline_least call, fun hnot => absurd hnew hnot⟩
  next hnew =>
    obtain ⟨e, he⟩ := Option.ne_none_iff_exists'.mp fun hnone => hnew (.inl hnone)
    obtain ⟨b, -, hwithin⟩ := h e he
    exact ⟨e, he, hwithin.least, fun _ => he⟩

theorem entered_baseline (hsame : c.baseline = some call.baseline) :
    (c.entered call).baseline = some call.baseline := by
  unfold entered
  split
  · rfl
  · exact hsame

/-- What stands before the adjustment is within the baseline of the call, and is what there was
where neither mode nor baseline have changed. -/
theorem settled_budget (h : BudgetOk c) :
    ∃ e, (c.settled call).effective = some e ∧ (c.settled call).baseline = some call.baseline ∧
      e.Within call.baseline ∧ (call.policy.mode = .manual → e = call.baseline) ∧
      (call.policy.mode = .auto → ¬Restarts c call → c.baseline = some call.baseline →
        c.effective = some e) := by
  have hbegun : BudgetOk { c with pressureActive := call.pressureReason.isSome } := h
  obtain ⟨e, he, hleast, hkept⟩ := @entered_effective _ call hbegun
  unfold settled
  dsimp only
  split
  next hmode =>
    refine ⟨call.baseline, rfl, rfl, .refl (baseline_least call), fun _ => rfl, fun hauto => ?_⟩
    rw [hauto] at hmode
    cases hmode
  next hmode =>
    simp only [relabelled_effective, relabelled_baseline]
    unfold rebased
    rw [budget_of_effective he]
    split
    next hchanged =>
      have hnew : c.baseline ≠ some call.baseline := of_decide_eq_true hchanged
      refine ⟨_, rfl, rfl, ?_, fun hmanual => absurd hmanual hmode,
        fun _ _ hsame => absurd hsame hnew⟩
      split
      · exact .refl (baseline_least call)
      · exact within_bounded hleast (baseline_least call)
    next hchanged =>
      have hsame : c.baseline = some call.baseline := by simpa using hchanged
      refine ⟨_, rfl, @entered_baseline { c with pressureActive := _ } call hsame,
        within_bounded hleast (baseline_least call), fun hmanual => absurd hmanual hmode,
        fun _ hnot _ => ?_⟩
      -- the budget there was is within the same baseline already
      have heff := hkept hnot
      obtain ⟨b, hb, hwithin⟩ := h e heff
      rw [hsame] at hb
      cases hb
      rw [hwithin.bounded]
      exact heff

/-! ## The adjustment -/

/-- What a call under pressure does to a controller with the budget `e`. -/
structure Pressed (c : PerformanceController) (call : Evaluation) (e : Budget)
    (c' : PerformanceController) : Prop where
  mode : c'.mode = c.mode
  baseline : c'.baseline = c.baseline
  pressureSamples : c'.pressureSamples = c.pressureSamples + 1
  stableSince : c'.stableSince = none ∨ c'.stableSince = some call.tick
  adjusted : (c'.effective = some e ∧ c'.lastAdjusted = c.lastAdjusted) ∨
    (3 ≤ c.pressureSamples + 1 ∧ c.adjustable call.tick = true ∧
      c'.effective = some (e.lowered (computePressure call.telemetry)) ∧
      c'.lastAdjusted = some call.tick)

theorem adjustable_congr {c' : PerformanceController} (h : c'.lastAdjusted = c.lastAdjusted)
    (tick : ℚ) : c'.adjustable tick = c.adjustable tick := by
  unfold adjustable
  rw [h]

theorem sameCounts_throttled (reason : String) : SameCounts c (c.throttled call reason) := by
  unfold throttled
  split
  · exact ⟨rfl, rfl, rfl, rfl⟩
  · exact ⟨rfl, rfl, rfl, rfl⟩

@[simp] theorem throttled_effective (reason : String) :
    (c.throttled call reason).effective = c.effective := by
  unfold throttled
  split <;> rfl

@[simp] theorem throttled_baseline (reason : String) :
    (c.throttled call reason).baseline = c.baseline := by
  unfold throttled
  split <;> rfl

/-- One step down keeps everything but the budget and its times. -/
theorem lowered_spec (h : c.effective = some e) :
    (c.lowered call).mode = c.mode ∧ (c.lowered call).baseline = c.baseline ∧
      (c.lowered call).pressureSamples = c.pressureSamples ∧
      (c.lowered call).stableSince = some call.tick ∧
      (((c.lowered call).effective = some e ∧ (c.lowered call).lastAdjusted = c.lastAdjusted) ∨
        ((c.lowered call).effective = some (e.lowered (computePressure call.telemetry)) ∧
          (c.lowered call).lastAdjusted = some call.tick)) := by
  unfold lowered
  rw [budget_of_effective h]
  dsimp only
  split
  · exact ⟨rfl, rfl, rfl, rfl, .inr ⟨rfl, rfl⟩⟩
  · exact ⟨rfl, rfl, rfl, rfl, .inl ⟨h, rfl⟩⟩

theorem pressed_spec (h : c.effective = some e) (reason : String) :
    Pressed c call e (c.pressed call reason) := by
  unfold PerformanceController.pressed
  dsimp only
  split
  next hsamples =>
    -- the label changes first
    generalize hlabelled : PerformanceController.throttled { c with
      pressureSamples := c.pressureSamples + 1, stableSince := none } call reason = labelled
    have hcounts : SameCounts { c with
        pressureSamples := c.pressureSamples + 1, stableSince := none } labelled := by
      rw [← hlabelled]
      exact sameCounts_throttled reason
    have heff : labelled.effective = some e := by
      rw [← hlabelled, throttled_effective]
      exact h
    have hbaseline : labelled.baseline = c.baseline := by
      rw [← hlabelled, throttled_baseline]
    split
    next hadjustable =>
      obtain ⟨hmode, hbase, hpressure, hstable, hadjusted⟩ := @lowered_spec labelled call e heff
      refine ⟨hmode.trans hcounts.mode, hbase.trans hbaseline,
        hpressure.trans hcounts.pressureSamples, .inr hstable, ?_⟩
      obtain ⟨hkept, hlast⟩ | ⟨hlow, hlast⟩ := hadjusted
      · exact .inl ⟨hkept, hlast.trans hcounts.lastAdjusted⟩
      · refine .inr ⟨hsamples, ?_, hlow, hlast⟩
        rw [← hadjustable]
        exact adjustable_congr hcounts.lastAdjusted.symm call.tick
    next =>
      exact ⟨hcounts.mode, hbaseline, hcounts.pressureSamples, .inl hcounts.stableSince,
        .inl ⟨heff, hcounts.lastAdjusted⟩⟩
  next => exact ⟨rfl, rfl, rfl, .inl rfl, .inl ⟨h, rfl⟩⟩

/-- What a call without pressure does to a controller with the budget `e`. -/
structure Relieved (c : PerformanceController) (call : Evaluation) (e : Budget)
    (c' : PerformanceController) : Prop where
  mode : c'.mode = c.mode
  baseline : c'.baseline = c.baseline
  pressureSamples : c'.pressureSamples = 0
  stableSince : c'.stableSince = none ∨ c'.stableSince = some call.tick ∨
    (telemetryKnown call.telemetry = true ∧ c'.stableSince = c.stableSince)
  adjusted : (c'.effective = some e ∧ c'.lastAdjusted = c.lastAdjusted) ∨
    (telemetryKnown call.telemetry = true ∧ c.adjustable call.tick = true ∧
      (∃ since, c.stableSince = some since ∧ since + 60 ≤ call.tick) ∧
      c'.effective = some (e.raised call.baseline) ∧ c'.lastAdjusted = some call.tick)

theorem raised_spec (h : c.effective = some e) :
    (c.raised call).mode = c.mode ∧ (c.raised call).baseline = c.baseline ∧
      (c.raised call).pressureSamples = c.pressureSamples ∧
      (((c.raised call).effective = some e ∧ (c.raised call).lastAdjusted = c.lastAdjusted ∧
          (c.raised call).stableSince = c.stableSince) ∨
        ((c.raised call).effective = some (e.raised call.baseline) ∧
          (c.raised call).lastAdjusted = some call.tick ∧
          (c.raised call).stableSince = some call.tick)) := by
  unfold raised
  rw [budget_of_effective h]
  dsimp only
  split
  · exact ⟨rfl, rfl, rfl, .inr ⟨rfl, rfl, rfl⟩⟩
  · split
    · exact ⟨rfl, rfl, rfl, .inl ⟨h, rfl, rfl⟩⟩
    · exact ⟨rfl, rfl, rfl, .inl ⟨h, rfl, rfl⟩⟩

/-- The time of stability is what it was, or begins now. -/
theorem stable_cases (c : PerformanceController) (call : Evaluation) :
    c.stableSince = some (c.stable call) ∨ c.stable call = call.tick := by
  unfold stable
  cases hsince : c.stableSince with
  | none => exact .inr rfl
  | some since =>
    by_cases hzero : since = 0
    · rw [Option.filter_some_neg (by simp [hzero])]
      exact .inr rfl
    · rw [Option.filter_some_pos (by simp [hzero])]
      exact .inl rfl

theorem relieved_spec (h : c.effective = some e) : Relieved c call e (c.relieved call) := by
  have hstable : ∀ since, since = c.stable call → (some since = some call.tick ∨
      some since = c.stableSince) := by
    intro since hsince
    rw [hsince]
    obtain hold | hnew := stable_cases c call
    · exact .inr hold.symm
    · exact .inl (congrArg some hnew)
  unfold relieved
  dsimp only
  split
  next hknown =>
    generalize hsince : PerformanceController.stable { c with pressureSamples := 0 } call = since
    have hwhen := hstable since hsince.symm
    have hstill : some since = none ∨ some since = some call.tick ∨
        (telemetryKnown call.telemetry = true ∧ some since = c.stableSince) :=
      .inr (hwhen.imp_right fun hold => ⟨hknown, hold⟩)
    split
    next hup =>
      obtain ⟨-, hadjustable, hlong⟩ := hup
      obtain ⟨hmode, hbase, hpressure, hadjusted⟩ :=
        @raised_spec { c with pressureSamples := 0, stableSince := some since } call e h
      obtain ⟨hkept, hlast, hsince'⟩ | ⟨hraised, hlast, hsince'⟩ := hadjusted
      · refine ⟨hmode, hbase, hpressure, ?_, .inl ⟨hkept, hlast⟩⟩
        rw [hsince']
        exact hstill
      · refine ⟨hmode, hbase, hpressure, .inr (.inl hsince'),
          .inr ⟨hknown, hadjustable, ⟨since, ?_, ?_⟩, hraised, hlast⟩⟩
        · obtain hnow | hold := hwhen
          · -- a time that begins now is not long enough
            cases hnow
            unfold recoverySeconds at hlong
            linarith
          · exact hold.symm
        · unfold recoverySeconds at hlong
          linarith
    next => exact ⟨rfl, rfl, rfl, hstill, .inl ⟨h, rfl⟩⟩
  next => exact ⟨rfl, rfl, rfl, .inl rfl, .inl ⟨h, rfl⟩⟩

/-! ## Sequences of calls -/

/-- The budget was changed by the adjustment itself. -/
def Adjusts (c : PerformanceController) (call : Evaluation) : Prop :=
  (c.next call).effective ≠ (c.settled call).effective

/-- What the counters say of the calls there have been. -/
structure Sampled (calls : List Evaluation) (c : PerformanceController) : Prop where
  budget : BudgetOk c
  effective : calls ≠ [] → c.effective ≠ none
  mode : c.mode = calls.getLast?.map (·.policy.mode)
  manual : c.mode = some .manual → c.pressureSamples = 0 ∧ c.stableSince = none
  pressureSamples : ∃ before samples, calls = before ++ samples ∧
    samples.length = c.pressureSamples ∧
    ∀ call ∈ samples, call.policy.mode = .auto ∧ call.pressed
  stableSince : ∀ since, c.stableSince = some since → ∀ call ∈ calls, since < call.tick →
    call.policy.mode = .auto ∧ call.calm
  lastAdjusted : ∀ before call later, calls = before ++ call :: later →
    (∀ other ∈ call :: later, other.policy.mode = .auto) → Adjusts (run before) call →
    ∃ last, c.lastAdjusted = some last ∧ call.tick ≤ last

theorem run_append (calls : List Evaluation) (call : Evaluation) :
    run (calls ++ [call]) = (run calls).next call := by
  unfold run
  rw [List.foldl_append]
  rfl

theorem sampled_nil : Sampled [] (run []) where
  budget := fun e he => by cases he
  effective := fun hne => absurd rfl hne
  mode := rfl
  manual := fun hmode => by cases hmode
  pressureSamples := ⟨[], [], rfl, rfl, fun call hcall => absurd hcall List.not_mem_nil⟩
  stableSince := fun since hsince => by cases hsince
  lastAdjusted := fun before call later heq => by
    cases before with
    | nil => cases heq
    | cons first before => cases heq

/-- A call does not begin anew where the one before it was in the same mode. -/
theorem Sampled.not_restarts (h : Sampled calls c) {last : Evaluation}
    (hlast : calls.getLast? = some last) (hmode : last.policy.mode = call.policy.mode) :
    ¬Restarts c call := by
  rintro (hnone | hother)
  · refine h.effective ?_ hnone
    rintro rfl
    cases hlast
  · rw [h.mode, hlast] at hother
    exact hother (congrArg some hmode)

/-- A call in automatic mode: what is settled is adjusted. -/
theorem next_auto (hmode : call.policy.mode = .auto) (h : (c.settled call).effective = some e) :
    (call.pressed ∧ Pressed (c.settled call) call e (c.next call)) ∨
      (call.pressureReason = none ∧ Relieved (c.settled call) call e (c.next call)) := by
  have hnot : ¬call.policy.mode = .manual := by
    rw [hmode]
    exact PerformanceMode.noConfusion
  unfold next
  rw [if_neg hnot]
  cases hreason : call.pressureReason with
  | some reason =>
    refine .inl ⟨?_, pressed_spec h reason⟩
    unfold Evaluation.pressed
    rw [hreason]
    exact Option.some_ne_none reason
  | none => exact .inr ⟨rfl, relieved_spec h⟩

theorem next_manual (hmode : call.policy.mode = .manual) : c.next call = c.settled call := by
  unfold next
  rw [if_pos hmode]

/-- The time of the last change is that of this call, or of one before. -/
theorem next_lastAdjusted (hmode : call.policy.mode = .auto)
    (h : (c.settled call).effective = some e) :
    (c.next call).lastAdjusted = some call.tick ∨
      (¬Adjusts c call ∧ (c.next call).lastAdjusted = (c.settled call).lastAdjusted) := by
  have hsame (heff : (c.next call).effective = some e) : ¬Adjusts c call :=
    not_not.mpr (heff.trans h.symm)
  obtain ⟨-, hpressed⟩ | ⟨-, hrelieved⟩ := next_auto hmode h
  · obtain ⟨heff, hlast⟩ | ⟨-, -, -, hlast⟩ := hpressed.adjusted
    · exact .inr ⟨hsame heff, hlast⟩
    · exact .inl hlast
  · obtain ⟨heff, hlast⟩ | ⟨-, -, -, -, hlast⟩ := hrelieved.adjusted
    · exact .inr ⟨hsame heff, hlast⟩
    · exact .inl hlast

/-- An automatic change waits for the cooldown. -/
theorem adjustable_of_adjusts (hmode : call.policy.mode = .auto)
    (h : (c.settled call).effective = some e) (hadjusts : Adjusts c call) :
    (c.settled call).adjustable call.tick = true := by
  have hnot (heff : (c.next call).effective = some e) : False := hadjusts (heff.trans h.symm)
  obtain ⟨-, hpressed⟩ | ⟨-, hrelieved⟩ := next_auto hmode h
  · obtain ⟨heff, -⟩ | ⟨-, hadjustable, -⟩ := hpressed.adjusted
    · exact absurd heff hnot
    · exact hadjustable
  · obtain ⟨heff, -⟩ | ⟨-, hadjustable, -⟩ := hrelieved.adjusted
    · exact absurd heff hnot
    · exact hadjustable

/-- The budget after a call is within the baseline of the call. -/
theorem next_budget (h : BudgetOk c) :
    ∃ e, (c.next call).effective = some e ∧ (c.next call).baseline = some call.baseline ∧
      e.Within call.baseline ∧ (call.policy.mode = .manual → e = call.baseline) := by
  obtain ⟨e, he, hbaseline, hwithin, hmanual, -⟩ := @settled_budget c call h
  cases hmode : call.policy.mode with
  | manual =>
    rw [next_manual hmode]
    exact ⟨e, he, hbaseline, hwithin, fun _ => hmanual hmode⟩
  | auto =>
    obtain ⟨-, hpressed⟩ | ⟨-, hrelieved⟩ := next_auto hmode he
    · have hbase := hpressed.baseline.trans hbaseline
      obtain ⟨heff, -⟩ | ⟨-, -, heff, -⟩ := hpressed.adjusted
      · exact ⟨e, heff, hbase, hwithin, nofun⟩
      · exact ⟨_, heff, hbase, (hwithin.lowered _).1, nofun⟩
    · have hbase := hrelieved.baseline.trans hbaseline
      obtain ⟨heff, -⟩ | ⟨-, -, -, heff, -⟩ := hrelieved.adjusted
      · exact ⟨e, heff, hbase, hwithin, nofun⟩
      · exact ⟨_, heff, hbase, hwithin.raised.1, nofun⟩

/-- In manual mode nothing counts. -/
theorem settled_manual (h : Sampled calls c) (hmode : call.policy.mode = .manual) :
    (c.settled call).pressureSamples = 0 ∧ (c.settled call).stableSince = none := by
  have hcounted := @counted_settled c call
  rw [hcounted.pressureSamples, hcounted.stableSince]
  by_cases hnew : Restarts c call
  · rw [if_pos hnew, if_pos hnew]
    exact ⟨rfl, rfl⟩
  · rw [if_neg hnew, if_neg hnew]
    refine h.manual ?_
    rw [← hmode]
    exact not_not.mp fun hne => hnew (.inr hne)

theorem next_mode (h : BudgetOk c) : (c.next call).mode = some call.policy.mode := by
  obtain ⟨e, he, -⟩ := @settled_budget c call h
  have hcounted := @counted_settled c call
  cases hmode : call.policy.mode with
  | manual =>
    rw [next_manual hmode, hcounted.mode, hmode]
  | auto =>
    rw [← hmode, ← hcounted.mode]
    obtain ⟨-, hpressed⟩ | ⟨-, hrelieved⟩ := next_auto hmode he
    · exact hpressed.mode
    · exact hrelieved.mode

/-- The samples under pressure up to a call. -/
theorem Sampled.next_pressure (h : Sampled calls c) :
    ∃ before samples, calls ++ [call] = before ++ samples ∧
      samples.length = (c.next call).pressureSamples ∧
      ∀ call ∈ samples, call.policy.mode = .auto ∧ call.pressed := by
  have hzero (hnone : (c.next call).pressureSamples = 0) :
      ∃ before samples, calls ++ [call] = before ++ samples ∧
        samples.length = (c.next call).pressureSamples ∧
        ∀ call ∈ samples, call.policy.mode = .auto ∧ call.pressed :=
    ⟨calls ++ [call], [], (List.append_nil _).symm, hnone.symm,
      fun call hcall => absurd hcall List.not_mem_nil⟩
  cases hmode : call.policy.mode with
  | manual =>
    refine hzero ?_
    rw [next_manual hmode]
    exact (settled_manual h hmode).1
  | auto =>
    obtain ⟨e, he, -⟩ := @settled_budget c call h.budget
    obtain ⟨hpressure, hpressed⟩ | ⟨-, hrelieved⟩ := next_auto hmode he
    · rw [hpressed.pressureSamples, counted_settled.pressureSamples]
      by_cases hnew : Restarts c call
      · rw [if_pos hnew]
        refine ⟨calls, [call], rfl, rfl, fun other hother => ?_⟩
        rw [List.mem_singleton.mp hother]
        exact ⟨hmode, hpressure⟩
      · rw [if_neg hnew]
        obtain ⟨before, samples, hcalls, hlength, hall⟩ := h.pressureSamples
        refine ⟨before, samples ++ [call], ?_, ?_, fun other hother => ?_⟩
        · rw [hcalls, List.append_assoc]
        · rw [List.length_append, hlength, List.length_singleton]
        · obtain hold | hlast := List.mem_append.mp hother
          · exact hall other hold
          · rw [List.mem_singleton.mp hlast]
            exact ⟨hmode, hpressure⟩
    · exact hzero hrelieved.pressureSamples

/-- The calls since the time of stability. -/
theorem Sampled.next_stable (h : Sampled calls c) (hclock : ∀ other ∈ calls, other.tick ≤ call.tick)
    {since : ℚ} (hsince : (c.next call).stableSince = some since) :
    ∀ other ∈ calls ++ [call], since < other.tick → other.policy.mode = .auto ∧ other.calm := by
  have hnow (hnow : since = call.tick) : ∀ other ∈ calls ++ [call], since < other.tick →
      other.policy.mode = .auto ∧ other.calm := by
    intro other hother hlt
    refine absurd hlt (not_lt.mpr ?_)
    rw [hnow]
    obtain hold | hlast := List.mem_append.mp hother
    · exact hclock other hold
    · rw [List.mem_singleton.mp hlast]
  cases hmode : call.policy.mode with
  | manual =>
    rw [next_manual hmode, (settled_manual h hmode).2] at hsince
    cases hsince
  | auto =>
    obtain ⟨e, he, -⟩ := @settled_budget c call h.budget
    obtain ⟨-, hpressed⟩ | ⟨hreason, hrelieved⟩ := next_auto hmode he
    · obtain hnone | hsome := hpressed.stableSince
      · rw [hnone] at hsince
        cases hsince
      · exact hnow (Option.some.inj (hsince.symm.trans hsome))
    · obtain hnone | hsome | ⟨hknown, hold⟩ := hrelieved.stableSince
      · rw [hnone] at hsince
        cases hsince
      · exact hnow (Option.some.inj (hsince.symm.trans hsome))
      · -- the time goes on, and this call is calm
        rw [hold, counted_settled.stableSince] at hsince
        split at hsince
        · cases hsince
        · intro other hother hlt
          obtain hbefore | hlast := List.mem_append.mp hother
          · exact h.stableSince since hsince other hbefore hlt
          · rw [List.mem_singleton.mp hlast]
            exact ⟨hmode, hreason, hknown⟩

theorem getLast?_cons_append {α : Type} (x : α) (xs before : List α) :
    ∃ last ∈ x :: xs, (before ++ x :: xs).getLast? = some last := by
  refine ⟨(x :: xs).getLast (List.cons_ne_nil x xs), List.getLast_mem _, ?_⟩
  rw [List.getLast?_append_of_ne_nil before (List.cons_ne_nil x xs), List.getLast?_eq_some_getLast]

/-- The time of the last change is not before any change in the same mode. -/
theorem Sampled.next_adjusted (h : Sampled calls (run calls))
    (hclock : ∀ other ∈ calls, other.tick ≤ call.tick) {before later : List Evaluation}
    {other : Evaluation} (hcalls : calls ++ [call] = before ++ other :: later)
    (hauto : ∀ x ∈ other :: later, x.policy.mode = .auto) (hadjusts : Adjusts (run before) other) :
    ∃ last, ((run calls).next call).lastAdjusted = some last ∧ other.tick ≤ last := by
  obtain ⟨e, he, -⟩ := @settled_budget (run calls) call h.budget
  cases later using List.reverseRecOn with
  | nil =>
    obtain ⟨rfl, hsame⟩ := List.append_inj' hcalls rfl
    cases hsame
    have hmode : call.policy.mode = .auto := hauto call List.mem_cons_self
    obtain hlast | ⟨hnot, -⟩ := next_lastAdjusted hmode he
    · exact ⟨call.tick, hlast, le_refl _⟩
    · exact absurd hadjusts hnot
  | append_singleton later final =>
    rw [← List.cons_append, ← List.append_assoc] at hcalls
    obtain ⟨hold, hsame⟩ := List.append_inj' hcalls rfl
    cases hsame
    have hmode : call.policy.mode = .auto :=
      hauto call (List.mem_cons_of_mem _ (List.mem_append_right _ (List.mem_singleton_self _)))
    have hearlier : ∀ x ∈ other :: later, x.policy.mode = .auto := by
      intro x hx
      refine hauto x ?_
      rw [← List.cons_append]
      exact List.mem_append_left _ hx
    obtain hlast | ⟨-, hkept⟩ := next_lastAdjusted hmode he
    · refine ⟨call.tick, hlast, hclock other ?_⟩
      rw [hold]
      exact List.mem_append_right _ List.mem_cons_self
    · -- the period goes on, so the time is kept
      obtain ⟨last, hmem, hgetLast⟩ := getLast?_cons_append other later before
      rw [← hold] at hgetLast
      have hnot := h.not_restarts hgetLast ((hearlier last hmem).trans hmode.symm)
      rw [hkept, counted_settled.lastAdjusted, if_neg hnot]
      exact h.lastAdjusted before other later hold hearlier hadjusts

theorem Sampled.next (h : Sampled calls (run calls))
    (hclock : ∀ other ∈ calls, other.tick ≤ call.tick) :
    Sampled (calls ++ [call]) ((run calls).next call) where
  budget := by
    intro e he
    obtain ⟨e', he', hbaseline, hwithin, -⟩ := @next_budget (run calls) call h.budget
    rw [he] at he'
    cases he'
    exact ⟨_, hbaseline, hwithin⟩
  effective := by
    intro _ hnone
    obtain ⟨e, he, -⟩ := @next_budget (run calls) call h.budget
    rw [he] at hnone
    cases hnone
  mode := by
    rw [next_mode h.budget, List.getLast?_append_of_ne_nil calls (List.cons_ne_nil call [])]
    rfl
  manual := by
    intro hmanual
    rw [next_mode h.budget] at hmanual
    have hmode := Option.some.inj hmanual
    rw [next_manual hmode]
    exact settled_manual h hmode
  pressureSamples := h.next_pressure
  stableSince := fun _ hsince => h.next_stable hclock hsince
  lastAdjusted := fun _ _ _ hcalls hauto hadjusts => h.next_adjusted hclock hcalls hauto hadjusts

/-- A clock that does not go back. -/
def Nondecreasing (calls : List Evaluation) : Prop := calls.Pairwise fun a b => a.tick ≤ b.tick

instance : Decidable (Nondecreasing calls) := inferInstanceAs (Decidable (List.Pairwise _ _))

theorem sampled (hclock : Nondecreasing calls) : Sampled calls (run calls) := by
  induction calls using List.reverseRecOn with
  | nil => exact sampled_nil
  | append_singleton calls call ih =>
    obtain ⟨hbefore, -, hlast⟩ := List.pairwise_append.mp hclock
    rw [run_append]
    exact (ih hbefore).next fun other hother => hlast other hother call (List.mem_singleton_self _)

/-- The adjustment makes some component smaller. -/
def Decreases (c : PerformanceController) (call : Evaluation) : Prop :=
  ∃ before after, (c.settled call).effective = some before ∧
    (c.next call).effective = some after ∧ ¬before ≤ after

/-- The adjustment makes some component larger. -/
def Increases (c : PerformanceController) (call : Evaluation) : Prop :=
  ∃ before after, (c.settled call).effective = some before ∧
    (c.next call).effective = some after ∧ ¬after ≤ before

theorem auto_of_changes {before after : Budget} (hbefore : (c.settled call).effective = some before)
    (hafter : (c.next call).effective = some after) (hne : before ≠ after) :
    call.policy.mode = .auto := by
  cases hmode : call.policy.mode with
  | auto => rfl
  | manual =>
    rw [next_manual hmode, hbefore] at hafter
    exact absurd (Option.some.inj hafter) hne

theorem ne_of_not_le {a b : Budget} (h : ¬a ≤ b) : a ≠ b := by
  rintro rfl
  exact h (budget_le_refl a)

/-- The last two of a list. -/
theorem exists_last_two {α : Type} {xs : List α} (h : 2 ≤ xs.length) :
    ∃ front x y, xs = front ++ [x, y] := by
  cases xs using List.reverseRecOn with
  | nil => cases h
  | append_singleton xs y =>
    cases xs using List.reverseRecOn with
    | nil => exact absurd h (by simp)
    | append_singleton front x => exact ⟨front, x, y, by simp⟩

/-- A decrease comes at the third sample under pressure, or later. -/
theorem Sampled.of_decreases (h : Sampled calls c) (hdecreases : Decreases c call) :
    (call.policy.mode = .auto ∧ call.pressed) ∧ ∃ front first second,
      calls = front ++ [first, second] ∧ (first.policy.mode = .auto ∧ first.pressed) ∧
        (second.policy.mode = .auto ∧ second.pressed) := by
  obtain ⟨before, after, hbefore, hafter, hless⟩ := hdecreases
  have hmode := auto_of_changes hbefore hafter (ne_of_not_le hless)
  obtain ⟨e, he, -, hwithin, -⟩ := @settled_budget c call h.budget
  cases hbefore.symm.trans he
  obtain ⟨hpressure, hpressed⟩ | ⟨-, hrelieved⟩ := next_auto hmode he
  · obtain ⟨heff, -⟩ | ⟨hsamples, -⟩ := hpressed.adjusted
    · cases hafter.symm.trans heff
      exact absurd (budget_le_refl _) hless
    · refine ⟨⟨hmode, hpressure⟩, ?_⟩
      rw [counted_settled.pressureSamples] at hsamples
      split at hsamples
      · omega
      obtain ⟨front, samples, hcalls, hlength, hall⟩ := h.pressureSamples
      have htwo : 2 ≤ samples.length := by omega
      obtain ⟨rest, first, second, rfl⟩ := exists_last_two htwo
      refine ⟨front ++ rest, first, second, ?_, hall first (by simp), hall second (by simp)⟩
      rw [hcalls, List.append_assoc]
  · obtain ⟨heff, -⟩ | ⟨-, -, -, heff, -⟩ := hrelieved.adjusted
    · cases hafter.symm.trans heff
      exact absurd (budget_le_refl _) hless
    · cases hafter.symm.trans heff
      exact absurd hwithin.raised.2 hless

/-- An increase comes after a minute without pressure and without unknown telemetry. -/
theorem Sampled.of_increases (h : Sampled calls c) (hincreases : Increases c call)
    {other : Evaluation} (hother : other ∈ calls ++ [call]) (hrecent : call.tick - 60 < other.tick) :
    other.policy.mode = .auto ∧ other.calm := by
  obtain ⟨before, after, hbefore, hafter, hmore⟩ := hincreases
  have hmode := auto_of_changes hbefore hafter (ne_of_not_le hmore).symm
  obtain ⟨e, he, -, hwithin, -⟩ := @settled_budget c call h.budget
  cases hbefore.symm.trans he
  obtain ⟨-, hpressed⟩ | ⟨hreason, hrelieved⟩ := next_auto hmode he
  · obtain ⟨heff, -⟩ | ⟨-, -, heff, -⟩ := hpressed.adjusted
    · cases hafter.symm.trans heff
      exact absurd (budget_le_refl _) hmore
    · cases hafter.symm.trans heff
      exact absurd (hwithin.lowered _).2 hmore
  · obtain ⟨heff, -⟩ | ⟨hknown, -, ⟨since, hsince, hlong⟩, -⟩ := hrelieved.adjusted
    · cases hafter.symm.trans heff
      exact absurd (budget_le_refl _) hmore
    · obtain hold | hlast := List.mem_append.mp hother
      · rw [counted_settled.stableSince] at hsince
        split at hsince
        · cases hsince
        · exact h.stableSince since hsince other hold (by linarith)
      · rw [List.mem_singleton.mp hlast]
        exact ⟨hmode, hreason, hknown⟩

/-- Two changes in one period are a cooldown apart. -/
theorem Sampled.cooldown (h : Sampled calls (run calls)) {before between : List Evaluation}
    {earlier : Evaluation} (hcalls : calls = before ++ earlier :: between)
    (hauto : ∀ other ∈ earlier :: between, other.policy.mode = .auto)
    (hmode : call.policy.mode = .auto) (hearlier : Adjusts (run before) earlier)
    (hadjusts : Adjusts (run calls) call) : earlier.tick + 30 ≤ call.tick := by
  obtain ⟨last, hlast, hle⟩ := h.lastAdjusted before earlier between hcalls hauto hearlier
  obtain ⟨final, hfinal, hgetLast⟩ := getLast?_cons_append earlier between before
  rw [← hcalls] at hgetLast
  have hnot := h.not_restarts hgetLast ((hauto final hfinal).trans hmode.symm)
  obtain ⟨e, he, -⟩ := @settled_budget (run calls) call h.budget
  have hadjustable := adjustable_of_adjusts hmode he hadjusts
  unfold adjustable at hadjustable
  rw [counted_settled.lastAdjusted, if_neg hnot, hlast, Option.all_some] at hadjustable
  have hcooldown : cooldownSeconds ≤ call.tick - last := of_decide_eq_true hadjustable
  unfold cooldownSeconds at hcooldown
  linarith

def steadyPolicy : PerformancePolicy where
  bufferMiB := 64
  writeConcurrency := 4
  batchKiB := 256
  flushIntervalMs := 100
  readMiBPerSecond := 50
  mode := .auto
  bufferMiB_range := by decide
  writeConcurrency_range := by decide
  batchKiB_range := by decide
  flushIntervalMs_range := by decide
  readMiBPerSecond_range := by decide

def amplyLimited : LimitsInput :=
  .snapshot { effectiveCpu := 8, memoryLimitBytes := 0, memoryAvailableBytes := 2 ^ 34, source := "HOST" }

def sampleAt (cpuPercent tick : ℚ) : Evaluation :=
  { policy := steadyPolicy, telemetry := ⟨.finite cpuPercent, .finite 40⟩
    latency := ⟨.missing, .missing⟩, limits := amplyLimited, moment := tick, tick }

def pressedSamples : List Evaluation := [sampleAt 95 1, sampleAt 95 6, sampleAt 95 11]

end CameraLogs.Node
