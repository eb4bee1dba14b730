import Mathlib.Algebra.Order.Floor.Ring
import Mathlib.Data.Rat.Floor

/-!
# The performance controller of a node

`PerformanceController.evaluate` settles the budget first (the mode, the baseline that policy and
resources allow, the label that goes with them) and adjusts it afterwards: downwards under
pressure, in small steps upwards after a calm time. `settled` is what stands between the two, so
that an automatic change of the budget is a difference between `settled` and `next`.

The clock is read once a call: `tick` is what cooldown and recovery go by, `moment` what is
reported. Numbers from outside are `Reading`s; what `_number` makes of them is rational.
-/

namespace CameraLogs.Node

def mib : ℕ := 1024 * 1024

def pressureSamples : ℕ := 3

def cooldownSeconds : ℚ := 30

def recoverySeconds : ℚ := 60

/-! ## Numbers from outside -/

/-- A value handed in, as `float` sees it. -/
inductive Reading
  /-- Not there, or not a number. -/
  | missing
  | bool (value : Bool)
  | nan
  | infinite
  | finite (value : ℚ)

/-- `_number` -/
def Reading.number : Reading → Option ℚ
  | .finite value => if 0 ≤ value then some value else none
  | _ => none

def atLeast (value : Reading) (threshold : ℚ) : Bool := value.number.any (threshold ≤ ·)

def greater (value limit : Reading) : Bool :=
  match value.number, limit.number with
  | some left, some right => right < left
  | _, _ => false

structure Telemetry where
  cpuPercent : Reading
  memoryPercent : Reading

structure WriteLatencyReport where
  writeLatencyMs : Reading
  limitMs : Reading

structure ResourceLimits where
  effectiveCpu : ℚ
  memoryLimitBytes : ℤ
  memoryAvailableBytes : ℤ
  source : String

/-- The limits of a call: a snapshot, or what runtime telemetry has of one. -/
inductive LimitsInput
  | snapshot (limits : ResourceLimits)
  | mapping (effectiveCpu memoryLimitBytes memoryAvailableBytes : Reading) (source : Option String)

/-- `_positive_float` -/
def positiveFloat (value : Reading) (fallback : ℚ) : ℚ :=
  match value.number with
  | some parsed => if 0 < parsed then parsed else fallback
  | none => fallback

/-- `_positive_int` -/
def positiveInt (value : Reading) : ℤ := (value.number.map Int.floor).getD 0

/-- `_limits` -/
def LimitsInput.limits : LimitsInput → ResourceLimits
  | .snapshot limits => limits
  | .mapping effectiveCpu memoryLimitBytes memoryAvailableBytes source =>
    { effectiveCpu := positiveFloat effectiveCpu 1
      memoryLimitBytes := positiveInt memoryLimitBytes
      memoryAvailableBytes := positiveInt memoryAvailableBytes
      source := (source.filter (· ≠ "")).getD "UNKNOWN" }

/-! ## Budgets -/

structure Budget where
  bufferMiB : ℕ
  writeConcurrency : ℕ
  batchKiB : ℕ
  flushIntervalMs : ℕ
  readMiBPerSecond : ℕ
  deriving DecidableEq

inductive PerformanceMode
  | auto
  | manual
  deriving DecidableEq

structure PerformancePolicy extends Budget where
  mode : PerformanceMode
  bufferMiB_range : 16 ≤ bufferMiB ∧ bufferMiB ≤ 4096
  writeConcurrency_range : 1 ≤ writeConcurrency ∧ writeConcurrency ≤ 32
  batchKiB_range : 16 ≤ batchKiB ∧ batchKiB ≤ 1024
  flushIntervalMs_range : 10 ≤ flushIntervalMs ∧ flushIntervalMs ≤ 200
  readMiBPerSecond_range : 1 ≤ readMiBPerSecond ∧ readMiBPerSecond ≤ 200

/-- `int` of a float: towards zero. -/
def truncated (value : ℚ) : ℤ := if 0 ≤ value then ⌊value⌋ else ⌈value⌉

/-- `_safe_budget`: the budget, the reason for a lower one, and whether admission is blocked. -/
def safeBudget (policy : PerformancePolicy) (limits : ResourceLimits) :
    Budget × Option String × Bool :=
  let cpuCap := (max 1 (truncated (limits.effectiveCpu * 2))).toNat
  let budget := { policy.toBudget with writeConcurrency := min policy.writeConcurrency cpuCap }
  if limits.memoryAvailableBytes ≤ 0 then
    ({ budget with bufferMiB := 2 }, some "内存未知，拒绝新准入", true)
  else
    let memoryCap := max 2 (limits.memoryAvailableBytes.toNat / mib / 4)
    ({ budget with bufferMiB := min budget.bufferMiB memoryCap },
      if memoryCap < budget.bufferMiB then some "内存安全上限" else none,
      limits.memoryAvailableBytes < 2 * mib)

/-- `_bounded` -/
def bounded (current ceiling : Budget) : Budget :=
  { ceiling with
    writeConcurrency := min current.writeConcurrency ceiling.writeConcurrency
    readMiBPerSecond := min current.readMiBPerSecond ceiling.readMiBPerSecond }

/-- `_compute_pressure` -/
def computePressure (telemetry : Telemetry) : Bool :=
  atLeast telemetry.cpuPercent 90 || atLeast telemetry.memoryPercent 90

/-- `_pressure_reason` -/
def pressureReason (telemetry : Telemetry) (latency : WriteLatencyReport) : Option String :=
  let reasons := (if atLeast telemetry.cpuPercent 90 then ["CPU"] else []) ++
    (if atLeast telemetry.memoryPercent 90 then ["内存"] else []) ++
    (if greater latency.writeLatencyMs latency.limitMs then ["写入延迟"] else [])
  if reasons = [] then none else some ("持续" ++ "、".intercalate reasons ++ "压力")

/-- `_telemetry_known` -/
def telemetryKnown (telemetry : Telemetry) : Bool :=
  telemetry.cpuPercent.number.isSome && telemetry.memoryPercent.number.isSome

/-- `_recover_step` -/
def recoverStep (current ceiling : ℕ) : ℕ :=
  let remaining := ceiling - current
  if remaining = 0 then current else min ceiling (current + max 1 ((remaining + 1) / 2))

/-- The budget after one step down. -/
def Budget.lowered (budget : Budget) (compute : Bool) : Budget :=
  { budget with
    readMiBPerSecond := max 1 (budget.readMiBPerSecond / 2)
    writeConcurrency :=
      if compute then max 1 (budget.writeConcurrency - 1) else budget.writeConcurrency }

/-- The budget after one step up. -/
def Budget.raised (budget baseline : Budget) : Budget :=
  { budget with
    readMiBPerSecond := recoverStep budget.readMiBPerSecond baseline.readMiBPerSecond
    writeConcurrency := recoverStep budget.writeConcurrency baseline.writeConcurrency }

/-! ## The controller -/

inductive PerformanceState
  | normal
  | manual
  | throttled
  | recovering
  deriving DecidableEq

structure PerformanceController where
  effective : Option Budget
  state : PerformanceState
  reason : String
  changedAt : Option ℚ
  pressureSamples : ℕ
  stableSince : Option ℚ
  lastAdjusted : Option ℚ
  mode : Option PerformanceMode
  baseline : Option Budget
  pressureActive : Bool

def PerformanceController.initial : PerformanceController :=
  { effective := none, state := .normal, reason := "初始预算", changedAt := none
    pressureSamples := 0, stableSince := none, lastAdjusted := none, mode := none
    baseline := none, pressureActive := false }

/-- What one call of `evaluate` is given. -/
structure Evaluation where
  policy : PerformancePolicy
  telemetry : Telemetry
  latency : WriteLatencyReport
  limits : LimitsInput
  moment : ℚ
  tick : ℚ

namespace Evaluation

variable (call : Evaluation)

def baseline : Budget := (safeBudget call.policy call.limits.limits).1

def safetyReason : Option String := (safeBudget call.policy call.limits.limits).2.1

def admissionBlocked : Bool := (safeBudget call.policy call.limits.limits).2.2

def pressureReason : Option String := Node.pressureReason call.telemetry call.latency

/-- Pressure has been sampled. -/
def pressed : Prop := call.pressureReason ≠ none

/-- No pressure, and telemetry that is known. -/
def calm : Prop := call.pressureReason = none ∧ telemetryKnown call.telemetry = true

instance : Decidable call.calm := inferInstanceAs (Decidable (_ ∧ _))

end Evaluation

namespace PerformanceController

variable (c : PerformanceController) (call : Evaluation)

/-- The first call, or one in another mode. -/
def entered : PerformanceController :=
  if c.effective = none ∨ c.mode ≠ some call.policy.mode then
    { c with
      effective := some call.baseline
      state := if call.policy.mode = .manual then .manual else .normal
      reason := call.safetyReason.getD
        (if call.policy.mode = .manual then "手动预算" else "初始预算")
      changedAt := some call.moment
      mode := some call.policy.mode
      pressureSamples := 0
      stableSince := none
      lastAdjusted := none
      baseline := some call.baseline }
  else c

/-- The rest of a call in manual mode. -/
def manual (changedBaseline : Bool) : PerformanceController :=
  { c with
    effective := some call.baseline
    state := .manual
    reason := call.safetyReason.getD "手动预算"
    changedAt := if changedBaseline then some call.moment else c.changedAt
    baseline := some call.baseline }

/-- The budget, of a controller that has one. -/
def budget : Budget := c.effective.getD call.baseline

/-- The budget goes by the baseline. -/
def rebased (changedBaseline : Bool) : PerformanceController :=
  if changedBaseline then
    { c with
      effective := some (if c.state = .normal then call.baseline
        else bounded (c.budget call) call.baseline)
      reason := call.safetyReason.getD "策略或资源预算已更新"
      changedAt := some call.moment
      baseline := some call.baseline }
  else { c with effective := some (bounded (c.budget call) call.baseline) }

/-- The label goes by the budget. -/
def relabelled : PerformanceController :=
  if c.effective = some call.baseline ∧ c.state = .throttled then
    { c with
      state := .normal
      reason := call.safetyReason.getD "当前预算已满足"
      changedAt := some call.moment }
  else
    match call.safetyReason with
    | some reason =>
      if c.state = .normal ∧ c.reason ≠ reason then
        { c with reason, changedAt := some call.moment }
      else c
    | none => c

/-- `_adjustable` -/
def adjustable (tick : ℚ) : Bool := c.lastAdjusted.all fun last => cooldownSeconds ≤ tick - last

/-- The label of a node that has been under pressure for long enough. -/
def throttled (reason : String) : PerformanceController :=
  if c.state ≠ .throttled ∨ c.reason ≠ reason then
    { c with state := .throttled, reason, changedAt := some call.moment }
  else c

/-- One step down, if there is one. -/
def lowered : PerformanceController :=
  let lowered := (c.budget call).lowered (computePressure call.telemetry)
  { (if lowered ≠ c.budget call then
      { c with
        effective := some lowered
        changedAt := some call.moment
        lastAdjusted := some call.tick }
    else c) with stableSince := some call.tick }

/-- A call under pressure. -/
def pressed (reason : String) : PerformanceController :=
  let c := { c with pressureSamples := c.pressureSamples + 1, stableSince := none }
  if Node.pressureSamples ≤ c.pressureSamples then
    let c := c.throttled call reason
    if c.adjustable call.tick then c.lowered call else c
  else c

/-- `self.stable_since or tick` -/
def stable : ℚ := (c.stableSince.filter (· ≠ 0)).getD call.tick

/-- One step up, if there is one. -/
def raised : PerformanceController :=
  let raised := (c.budget call).raised call.baseline
  if raised ≠ c.budget call then
    { c with
      effective := some raised
      state := if raised = call.baseline then .normal else .recovering
      reason := if raised = call.baseline then "已恢复至当前预算" else "持续稳定后小步恢复"
      changedAt := some call.moment
      lastAdjusted := some call.tick
      stableSince := some call.tick }
  else if c.budget call = call.baseline ∧ c.state = .throttled then
    { c with state := .normal, reason := "已恢复至当前预算", changedAt := some call.moment }
  else c

/-- A call without pressure. -/
def relieved : PerformanceController :=
  let c := { c with pressureSamples := 0 }
  if telemetryKnown call.telemetry then
    let stable := c.stable call
    let c := { c with stableSince := some stable }
    if (c.state = .throttled ∨ c.state = .recovering) ∧ c.adjustable call.tick ∧
        recoverySeconds ≤ call.tick - stable then
      c.raised call
    else c
  else { c with stableSince := none }

/-- The controller before its budget is adjusted. -/
def settled : PerformanceController :=
  let changedBaseline := c.baseline ≠ some call.baseline
  let c := { c with pressureActive := call.pressureReason.isSome }.entered call
  if call.policy.mode = .manual then c.manual call changedBaseline
  else (c.rebased call changedBaseline).relabelled call

/-- The controller after a call. -/
def next : PerformanceController :=
  if call.policy.mode = .manual then c.settled call
  else
    match call.pressureReason with
    | some reason => (c.settled call).pressed call reason
    | none => (c.settled call).relieved call

end PerformanceController

/-- What a call returns. -/
structure PerformanceStatus where
  effective : Option Budget
  state : PerformanceState
  reason : String
  changedAt : Option ℚ
  resources : ResourceLimits
  admissionBlocked : Bool
  baseline : Option Budget
  budgetReduced : Bool
  pressureActive : Bool
  pressureSamples : ℕ
  recoveryStableSeconds : ℤ

namespace PerformanceController

variable (c : PerformanceController) (call : Evaluation)

/-- `_result` -/
def result : PerformanceStatus :=
  { effective := c.effective, state := c.state, reason := c.reason, changedAt := c.changedAt
    resources := call.limits.limits, admissionBlocked := call.admissionBlocked
    baseline := c.baseline
    budgetReduced := c.baseline.isSome && c.effective ≠ c.baseline
    pressureActive := c.pressureActive, pressureSamples := c.pressureSamples
    recoveryStableSeconds :=
      if c.pressureActive then 0
      else (c.stableSince.map fun since => max 0 (truncated (call.tick - since))).getD 0 }

def evaluate : PerformanceController × PerformanceStatus :=
  (c.next call, (c.next call).result call)

/-- The controller after a sequence of calls. -/
def run (calls : List Evaluation) : PerformanceController :=
  calls.foldl (fun c call => (c.evaluate call).1) initial

end PerformanceController

end CameraLogs.Node
