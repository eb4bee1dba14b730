import CameraLogs.Lib.Run
import Mathlib.Logic.Function.Basic

/-!
# Acknowledged receipts

A publisher leaves a receipt for each archive it has verified, and replaces the one that is
there. A reconciler reads the receipt, registers the archive, and then acknowledges the
version it has read: it takes the receipt away under a name of its own, compares it, and
puts it back where it is another one. Between any two of its system calls the publisher, or
another acknowledgement, may run.

Putting a receipt back does not replace one that is there, which is taken to be newer. This
is so while one acknowledgement at a time holds a receipt (`Holding.newer`).
-/

namespace CameraLogs.Logs

open CameraLogs.Lib

/-- The `signature` of a receipt; no two receipts share one. -/
abbrev ReceiptVersion := Nat

/-- What `acknowledge` is about to do. -/
inductive AckStage
  /-- `os.replace(path, claimed)` -/
  | claiming
  /-- `signature(claimed) != version` -/
  | comparing (receipt : ReceiptVersion)
  /-- `os.link(claimed, path)` -/
  | linking (receipt : ReceiptVersion)
  /-- `claimed.unlink` -/
  | unlinking
  deriving DecidableEq

structure AckCall where
  version : ReceiptVersion
  stage : AckStage
  deriving DecidableEq

/-- The receipts of one archive. The last field is not on the disk: what has been removed by
an acknowledgement of its own version. -/
structure ReceiptState where
  path : Option ReceiptVersion
  /-- What has been persisted, the newest in front. -/
  persisted : List ReceiptVersion
  /-- What `load_verified` has read. -/
  read : List ReceiptVersion
  calls : Nat → Option AckCall
  acknowledged : List ReceiptVersion

namespace ReceiptState

variable (s : ReceiptState)

def setCall (k : Nat) (call : Option AckCall) : ReceiptState :=
  { s with calls := Function.update s.calls k call }

def callGoes (k : Nat) (call : AckCall) (stage : AckStage) : ReceiptState :=
  s.setCall k (some { call with stage })

/-- One system call of `acknowledge`; where it is not `ok` it raises. -/
def ackStep (k : Nat) (call : AckCall) (ok : Bool) : AckStage → ReceiptState
  | .claiming =>
    match s.path, ok with
    | some receipt, true => { s with path := none }.callGoes k call (.comparing receipt)
    | _, _ => s.setCall k none
  | .comparing receipt =>
    if ok then
      if receipt = call.version then
        { s with acknowledged := receipt :: s.acknowledged }.callGoes k call .unlinking
      else s.callGoes k call (.linking receipt)
    else s.callGoes k call .unlinking
  | .linking receipt =>
    -- an existing path is left as it is
    if ok && s.path.isNone then { s with path := some receipt }.callGoes k call .unlinking
    else s.callGoes k call .unlinking
  | .unlinking => s.setCall k none

end ReceiptState

inductive ReceiptAct
  /-- `persist_verified` -/
  | persist (version : ReceiptVersion)
  /-- `load_verified` -/
  | load
  | acknowledge (k : Nat) (version : ReceiptVersion)
  | step (k : Nat) (ok : Bool)
  deriving DecidableEq

def ReceiptAct.apply (act : ReceiptAct) (s : ReceiptState) : Option ReceiptState :=
  match act with
  | .persist version => do
    guard (version ∉ s.persisted)
    pure { s with path := some version, persisted := version :: s.persisted }
  | .load => do
    let version ← s.path
    pure { s with read := version :: s.read }
  | .acknowledge k version => do
    guard (s.calls k = none ∧ version ∈ s.read)
    pure (s.setCall k (some ⟨version, .claiming⟩))
  | .step k ok => do
    let call ← s.calls k
    pure (s.ackStep k call ok call.stage)

/-- No receipt has been persisted yet. -/
structure ReceiptStart (s : ReceiptState) : Prop where
  path : s.path = none
  persisted : s.persisted = []
  read : s.read = []
  calls : s.calls = fun _ => none
  acknowledged : s.acknowledged = []

def ReceiptStep (s t : ReceiptState) : Prop := ∃ act : ReceiptAct, act.apply s = some t

/-- The call has taken a receipt away, and has neither removed it nor put it back. -/
def Holds (s : ReceiptState) (k : Nat) (receipt : ReceiptVersion) : Prop :=
  ∃ call, s.calls k = some call ∧ (call.stage = .comparing receipt ∨ call.stage = .linking receipt)

/-- The receipt persisted last is where the next reconciliation finds it or its holder puts
it back, unless an acknowledgement of its own version has removed it. -/
def NewestKept (s : ReceiptState) : Prop :=
  ∀ receipt, s.persisted.head? = some receipt →
    receipt ∈ s.acknowledged ∨ s.path = some receipt ∨ ∃ k, Holds s k receipt

/-- A receipt is taken away while nobody else holds one, and no call of a holder raises. -/
def AcksApart (s : ReceiptState) : ReceiptAct → Prop
  | .step k ok => ∀ call, s.calls k = some call →
    (call.stage = .claiming → ∀ other receipt, ¬Holds s other receipt) ∧
    ((∃ receipt, Holds s k receipt) → ok = true)
  | _ => True

/-- The runs in which acknowledgements keep apart. -/
abbrev ApartReceipts : ReceiptState → Prop :=
  Reachable ReceiptStart fun s t => ∃ act, AcksApart s act ∧ ReceiptAct.apply act s = some t

/-! ## The invariant -/

/-- One call at most holds a receipt, and then a receipt at the path is newer. -/
structure Holding (s : ReceiptState) : Prop where
  alone : ∀ k k' receipt receipt', Holds s k receipt → Holds s k' receipt' → k = k'
  newer : ∀ k receipt current, Holds s k receipt → s.path = some current →
    s.persisted.head? = some current

structure ReceiptInv (s : ReceiptState) : Prop where
  holding : Holding s
  newest : NewestKept s
  read : ∀ receipt ∈ s.acknowledged, receipt ∈ s.read
  versions : ∀ k call, s.calls k = some call → call.version ∈ s.read

variable {s t : ReceiptState} {k k' : Nat} {call call' : AckCall} {receipt : ReceiptVersion}
  {stage : AckStage}

/-- The calls of a state that do not hold anything hold nothing after another call has
changed. -/
theorem holds_setCall (h : Holds (s.setCall k (some call)) k' receipt) :
    (k' = k ∧ (call.stage = .comparing receipt ∨ call.stage = .linking receipt)) ∨
      (k' ≠ k ∧ Holds s k' receipt) := by
  obtain ⟨found, hfound, hstage⟩ := h
  have hfound' : Function.update s.calls k (some call) k' = some found := hfound
  by_cases hne : k' = k
  · subst hne
    rw [Function.update_self] at hfound'
    cases hfound'
    exact .inl ⟨rfl, hstage⟩
  · rw [Function.update_of_ne hne] at hfound'
    exact .inr ⟨hne, found, hfound', hstage⟩

theorem holds_setCall_none (h : Holds (s.setCall k none) k' receipt) :
    k' ≠ k ∧ Holds s k' receipt := by
  obtain ⟨found, hfound, hstage⟩ := h
  have hfound' : Function.update s.calls k none k' = some found := hfound
  by_cases hne : k' = k
  · subst hne
    rw [Function.update_self] at hfound'
    cases hfound'
  · rw [Function.update_of_ne hne] at hfound'
    exact ⟨hne, found, hfound', hstage⟩

theorem Holds.other {next : Option AckCall} (h : Holds s k' receipt) (hne : k' ≠ k) :
    Holds (s.setCall k next) k' receipt := by
  obtain ⟨found, hfound, hstage⟩ := h
  exact ⟨found, (Function.update_of_ne hne _ _).trans hfound, hstage⟩

/-- What the call of a holder is about to do. -/
theorem Holds.stage_of (h : Holds s k receipt) (hcall : s.calls k = some call) :
    call.stage = .comparing receipt ∨ call.stage = .linking receipt := by
  obtain ⟨found, hfound, hstage⟩ := h
  obtain rfl := Option.some.inj (hfound.symm.trans hcall)
  exact hstage

/-- A call that holds nothing goes on to hold nothing. -/
theorem ReceiptInv.idle {next : Option AckCall} (h : ReceiptInv s)
    (hidle : ∀ receipt, ¬Holds s k receipt)
    (hnext : ∀ call, next = some call → call.version ∈ s.read ∧
      ∀ receipt, call.stage ≠ .comparing receipt ∧ call.stage ≠ .linking receipt) :
    ReceiptInv (s.setCall k next) := by
  have hback : ∀ k' receipt, Holds (s.setCall k next) k' receipt → Holds s k' receipt := by
    intro k' receipt hholds
    cases next with
    | none => exact (holds_setCall_none hholds).2
    | some call =>
      obtain ⟨-, hstage⟩ | ⟨-, hold⟩ := holds_setCall hholds
      · obtain ⟨hcomparing, hlinking⟩ := (hnext call rfl).2 receipt
        exact absurd hstage (not_or.2 ⟨hcomparing, hlinking⟩)
      · exact hold
  refine ⟨⟨fun j j' r r' hj hj' => ?_, fun j r current hj => ?_⟩, fun v hv => ?_, h.read,
    fun j found hfound => ?_⟩
  · exact h.holding.alone j j' r r' (hback j r hj) (hback j' r' hj')
  · exact h.holding.newer j r current (hback j r hj)
  · obtain hdone | hpath | ⟨j, hj⟩ := h.newest v hv
    · exact .inl hdone
    · exact .inr (.inl hpath)
    · have hne : j ≠ k := by
        rintro rfl
        exact hidle v hj
      exact .inr (.inr ⟨j, hj.other hne⟩)
  · have hfound' : Function.update s.calls k next j = some found := hfound
    by_cases hne : j = k
    · rw [hne, Function.update_self] at hfound'
      exact (hnext found hfound').1
    · rw [Function.update_of_ne hne] at hfound'
      exact h.versions j found hfound'

/-- A receipt is taken away while nobody holds one. -/
theorem ReceiptInv.take (h : ReceiptInv s) (hcall : s.calls k = some call)
    (hpath : s.path = some receipt) (hnobody : ∀ other receipt, ¬Holds s other receipt) :
    ReceiptInv ({ s with path := none }.callGoes k call (.comparing receipt)) := by
  have honly : ∀ j r, Holds ({ s with path := none }.callGoes k call (.comparing receipt)) j r →
      j = k := by
    intro j r hj
    obtain ⟨rfl, -⟩ | ⟨-, hold⟩ := holds_setCall hj
    · rfl
    · exact absurd hold (hnobody j r)
  refine ⟨⟨fun j j' r r' hj hj' => (honly j r hj).trans (honly j' r' hj').symm, nofun⟩,
    fun v hv => ?_, h.read, fun j found hfound => ?_⟩
  · obtain hdone | hthere | ⟨j, hj⟩ := h.newest v hv
    · exact .inl hdone
    · obtain rfl := Option.some.inj (hpath.symm.trans hthere)
      exact .inr (.inr ⟨k, _, Function.update_self .., .inl rfl⟩)
    · exact absurd hj (hnobody j v)
  · have hfound' : Function.update s.calls k (some { call with stage := .comparing receipt }) j =
        some found := hfound
    by_cases hne : j = k
    · rw [hne, Function.update_self] at hfound'
      cases hfound'
      exact h.versions k call hcall
    · rw [Function.update_of_ne hne] at hfound'
      exact h.versions j found hfound'

/-- The only holder lets its receipt go, once the newest is safe elsewhere. -/
theorem ReceiptInv.letGo {t : ReceiptState} (h : ReceiptInv s) (hcall : s.calls k = some call)
    (hholds : Holds s k receipt) (hpersisted : t.persisted = s.persisted) (hread : t.read = s.read)
    (hcalls : t.calls = Function.update s.calls k (some { call with stage := .unlinking }))
    (hsafe : s.persisted.head? = some receipt →
      receipt ∈ t.acknowledged ∨ t.path = some receipt)
    (hkept : ∀ v, s.persisted.head? = some v → v ∈ s.acknowledged ∨ s.path = some v →
      v ∈ t.acknowledged ∨ t.path = some v)
    (hacknowledged : ∀ v ∈ t.acknowledged, v ∈ s.read) : ReceiptInv t := by
  have hnobody : ∀ j r, ¬Holds t j r := by
    intro j r hj
    have hj' : Holds (s.setCall k (some { call with stage := .unlinking })) j r := by
      obtain ⟨found, hfound, hstage⟩ := hj
      rw [hcalls] at hfound
      exact ⟨found, hfound, hstage⟩
    obtain ⟨-, hstage⟩ | ⟨hne, hold⟩ := holds_setCall hj'
    · obtain he | he := hstage
      · cases he
      · cases he
    · exact hne (h.holding.alone j k r receipt hold hholds)
  refine ⟨⟨fun j _ r _ hj => absurd hj (hnobody j r), fun j r _ hj => absurd hj (hnobody j r)⟩,
    fun v hv => ?_, fun v hv => hread ▸ hacknowledged v hv, fun j found hfound => ?_⟩
  · rw [hpersisted] at hv
    have hsettled : v ∈ t.acknowledged ∨ t.path = some v := by
      obtain hdone | hpath | ⟨j, hj⟩ := h.newest v hv
      · exact hkept v hv (.inl hdone)
      · exact hkept v hv (.inr hpath)
      · obtain rfl := h.holding.alone j k v receipt hj hholds
        have hsame : v = receipt := by
          obtain hv' | hv' := hj.stage_of hcall <;> obtain hr | hr := hholds.stage_of hcall <;>
            rw [hv'] at hr <;> cases hr <;> rfl
        exact hsame ▸ hsafe (hsame ▸ hv)
    exact hsettled.imp_right .inl
  · rw [hread]
    rw [hcalls] at hfound
    by_cases hne : j = k
    · rw [hne, Function.update_self] at hfound
      cases hfound
      exact h.versions k call hcall
    · rw [Function.update_of_ne hne] at hfound
      exact h.versions j found hfound

/-- A receipt of another version is about to be put back. -/
theorem ReceiptInv.compared (h : ReceiptInv s) (hcall : s.calls k = some call)
    (hstage : call.stage = .comparing receipt) :
    ReceiptInv (s.callGoes k call (.linking receipt)) := by
  have hback : ∀ j r, Holds (s.callGoes k call (.linking receipt)) j r → Holds s j r := by
    intro j r hj
    obtain ⟨rfl, hlinking⟩ | ⟨-, hold⟩ := holds_setCall hj
    · obtain he | he := hlinking
      · cases he
      · cases he
        exact ⟨call, hcall, .inl hstage⟩
    · exact hold
  refine ⟨⟨fun j j' r r' hj hj' => ?_, fun j r current hj => ?_⟩, fun v hv => ?_, h.read,
    fun j found hfound => ?_⟩
  · exact h.holding.alone j j' r r' (hback j r hj) (hback j' r' hj')
  · exact h.holding.newer j r current (hback j r hj)
  · obtain hdone | hpath | ⟨j, hj⟩ := h.newest v hv
    · exact .inl hdone
    · exact .inr (.inl hpath)
    · refine .inr (.inr ⟨j, ?_⟩)
      by_cases hne : j = k
      · subst hne
        obtain hv' | hv' := hj.stage_of hcall
        · rw [hstage] at hv'
          cases hv'
          exact ⟨_, Function.update_self .., .inr rfl⟩
        · rw [hstage] at hv'
          cases hv'
      · exact hj.other hne
  · have hfound' : Function.update s.calls k (some { call with stage := .linking receipt }) j =
        some found := hfound
    by_cases hne : j = k
    · rw [hne, Function.update_self] at hfound'
      cases hfound'
      exact h.versions k call hcall
    · rw [Function.update_of_ne hne] at hfound'
      exact h.versions j found hfound'

theorem ReceiptInv.ackStep {ok : Bool} (h : ReceiptInv s) (hcall : s.calls k = some call)
    (happart : AcksApart s (.step k ok)) (hstage : call.stage = stage) :
    ReceiptInv (s.ackStep k call ok stage) := by
  obtain ⟨hnobody, hok⟩ := happart call hcall
  cases stage with
  | claiming =>
    have hends : ReceiptInv (s.setCall k none) := h.idle (hnobody hstage k) nofun
    simp only [ReceiptState.ackStep]
    split
    next _ receipt hpath => exact h.take hcall hpath (hnobody hstage)
    next => exact hends
  | comparing receipt =>
    have hholds : Holds s k receipt := ⟨call, hcall, .inl hstage⟩
    obtain rfl : ok = true := hok ⟨receipt, hholds⟩
    simp only [ReceiptState.ackStep, if_true]
    split
    next hsame =>
      refine h.letGo hcall hholds rfl rfl rfl (fun _ => .inl List.mem_cons_self)
        (fun v _ hv => hv.imp_left (List.mem_cons_of_mem _)) fun v hv => ?_
      obtain rfl | hold := List.mem_cons.1 hv
      · exact hsame ▸ h.versions k call hcall
      · exact h.read v hold
    next => exact h.compared hcall hstage
  | linking receipt =>
    have hholds : Holds s k receipt := ⟨call, hcall, .inr hstage⟩
    obtain rfl : ok = true := hok ⟨receipt, hholds⟩
    simp only [ReceiptState.ackStep, Bool.true_and]
    cases hpath : s.path with
    | none =>
      refine h.letGo hcall hholds rfl rfl rfl (fun _ => .inr rfl) (fun v _ hv => ?_) h.read
      rw [hpath] at hv
      exact .inl (hv.resolve_right nofun)
    | some current =>
      -- what is at the path has been persisted last
      refine h.letGo hcall hholds rfl rfl rfl (fun hnewest => .inr ?_) (fun _ _ hv => hv) h.read
      exact hpath.trans ((h.holding.newer k receipt current hholds hpath).symm.trans hnewest)
  | unlinking =>
    refine h.idle (fun receipt hholds => ?_) nofun
    obtain he | he := hholds.stage_of hcall
    · rw [hstage] at he
      cases he
    · rw [hstage] at he
      cases he

theorem ReceiptInv.apply {act : ReceiptAct} (h : ReceiptInv s) (happart : AcksApart s act)
    (hact : act.apply s = some t) : ReceiptInv t := by
  cases act with
  | persist version =>
    obtain ⟨_, -, he⟩ := Option.bind_eq_some_iff.1 hact
    cases he
    refine ⟨⟨h.holding.alone, fun j r current _ hpath => ?_⟩, fun v hv => ?_, h.read, h.versions⟩
    · exact hpath
    · exact .inr (.inl hv)
  | load =>
    obtain ⟨version, -, he⟩ := Option.bind_eq_some_iff.1 hact
    cases he
    exact ⟨⟨h.holding.alone, h.holding.newer⟩, h.newest,
      fun v hv => List.mem_cons_of_mem _ (h.read v hv),
      fun j found hfound => List.mem_cons_of_mem _ (h.versions j found hfound)⟩
  | acknowledge k version =>
    obtain ⟨_, hguard, he⟩ := Option.bind_eq_some_iff.1 hact
    cases he
    obtain ⟨hnone, hread⟩ := of_guard hguard
    refine h.idle (fun receipt hholds => ?_) fun call hcall => ?_
    · obtain ⟨found, hfound, -⟩ := hholds
      rw [hnone] at hfound
      cases hfound
    · cases hcall
      exact ⟨hread, fun receipt => ⟨nofun, nofun⟩⟩
  | step k ok =>
    obtain ⟨call, hcall, he⟩ := Option.bind_eq_some_iff.1 hact
    cases he
    exact h.ackStep hcall happart rfl

theorem ReceiptInv.initial (h : ReceiptStart s) : ReceiptInv s := by
  have hnobody : ∀ k receipt, ¬Holds s k receipt := by
    rintro k receipt ⟨call, hcall, -⟩
    rw [h.calls] at hcall
    cases hcall
  refine ⟨⟨fun k _ r _ hk => absurd hk (hnobody k r), fun k r _ hk => absurd hk (hnobody k r)⟩,
    ?_, ?_, ?_⟩
  · intro v hv
    rw [h.persisted] at hv
    cases hv
  · rw [h.acknowledged]
    exact nofun
  · rw [h.calls]
    exact nofun

theorem receiptInv (h : ApartReceipts s) : ReceiptInv s :=
  Reachable.invariant (fun _ => ReceiptInv.initial)
    (fun _ _ hst hinv => by
      obtain ⟨act, happart, hact⟩ := hst
      exact hinv.apply happart hact) h

def noReceipts : ReceiptState := ⟨none, [], [], fun _ => none, []⟩

theorem noReceipts_start : ReceiptStart noReceipts := ⟨rfl, rfl, rfl, rfl, rfl⟩

/-- A call that is alone keeps apart. -/
theorem apart_alone (halone : ∀ other, other ≠ k → s.calls other = none) :
    AcksApart s (.step k true) := by
  intro call hcall
  refine ⟨fun hclaiming other receipt hholds => ?_, fun _ => rfl⟩
  by_cases hne : other = k
  · subst hne
    obtain he | he := hholds.stage_of hcall
    · rw [hclaiming] at he
      cases he
    · rw [hclaiming] at he
      cases he
  · obtain ⟨found, hfound, -⟩ := hholds
    rw [halone other hne] at hfound
    cases hfound

/-- The act of a call, and that of no other. -/
def ReceiptAct.call? : ReceiptAct → Option Nat
  | .acknowledge k _ | .step k _ => some k
  | _ => none

/-- A step leaves the other calls. -/
theorem calls_apply {act : ReceiptAct} (hact : act.apply s = some t) (hother : act.call? ≠ some k) :
    t.calls k = s.calls k := by
  have hset : ∀ (s' : ReceiptState) j next, j ≠ k → (s'.setCall j next).calls k = s'.calls k :=
    fun s' j next hne => Function.update_of_ne (fun he => hne he.symm) _ _
  cases act with
  | persist version =>
    obtain ⟨_, -, he⟩ := Option.bind_eq_some_iff.1 hact
    cases he
    rfl
  | load =>
    obtain ⟨version, -, he⟩ := Option.bind_eq_some_iff.1 hact
    cases he
    rfl
  | acknowledge j version =>
    obtain ⟨_, -, he⟩ := Option.bind_eq_some_iff.1 hact
    cases he
    exact hset s j _ fun he => hother (congrArg some he)
  | step j ok =>
    have hne : j ≠ k := fun he => hother (congrArg some he)
    obtain ⟨call, -, he⟩ := Option.bind_eq_some_iff.1 hact
    cases he
    unfold ReceiptState.ackStep
    split
    · split
      · exact hset _ j _ hne
      · exact hset _ j _ hne
    · split
      · split
        · exact hset _ j _ hne
        · exact hset _ j _ hne
      · exact hset _ j _ hne
    · split
      · exact hset _ j _ hne
      · exact hset _ j _ hne
    · exact hset _ j _ hne

theorem calls_runActs {acts : List ReceiptAct} (hrun : runActs ReceiptAct.apply acts s = some t)
    (hother : ∀ act ∈ acts, act.call? ≠ some k) : t.calls k = s.calls k := by
  induction acts generalizing s with
  | nil =>
    cases hrun
    rfl
  | cons act acts ih =>
    obtain ⟨s', hact, hrest⟩ := Option.bind_eq_some_iff.1 hrun
    rw [ih hrest fun other hmem => hother other (List.mem_cons_of_mem _ hmem),
      calls_apply hact (hother act List.mem_cons_self)]

/-- A reconciler acknowledges one receipt after the other, and nothing raises. -/
def ReceiptAct.single (k : Nat) : ReceiptAct → Bool
  | .acknowledge j _ => j = k
  | .step j ok => j = k && ok
  | _ => true

theorem ApartReceipts.single {acts : List ReceiptAct} (h : ApartReceipts s)
    (halone : ∀ other, other ≠ k → s.calls other = none)
    (hrun : runActs ReceiptAct.apply acts s = some t)
    (hsingle : ∀ act ∈ acts, act.single k = true) : ApartReceipts t := by
  induction acts generalizing s with
  | nil =>
    cases hrun
    exact h
  | cons act acts ih =>
    obtain ⟨s', hact, hrest⟩ := Option.bind_eq_some_iff.1 hrun
    have hone : act.single k = true := hsingle act List.mem_cons_self
    have happart : AcksApart s act ∧ ∀ other, other ≠ k → act.call? ≠ some other := by
      cases act with
      | persist version => exact ⟨trivial, fun _ _ => nofun⟩
      | load => exact ⟨trivial, fun _ _ => nofun⟩
      | acknowledge j version =>
        obtain rfl : j = k := of_decide_eq_true hone
        exact ⟨trivial, fun other hne he => hne (Option.some.inj he).symm⟩
      | step j ok =>
        obtain ⟨hj, rfl⟩ := Bool.and_eq_true_iff.1 hone
        obtain rfl : j = k := of_decide_eq_true hj
        exact ⟨apart_alone halone, fun other hne he => hne (Option.some.inj he).symm⟩
    refine ih (h.tail ⟨act, happart.1, hact⟩) (fun other hne => ?_) hrest
      fun other hmem => hsingle other (List.mem_cons_of_mem _ hmem)
    rw [calls_apply hact (happart.2 other hne)]
    exact halone other hne

/-- A second receipt is persisted before the first is acknowledged. -/
def putBackActs : List ReceiptAct :=
  [.persist 1, .load, .acknowledge 0 1, .persist 2, .step 0 true, .step 0 true, .step 0 true,
    .step 0 true]

def putBack : ReceiptState := (runActs ReceiptAct.apply putBackActs noReceipts).getD noReceipts

/-- Two reconcilers have read the first receipt, and acknowledge it when a second and then
a third have been persisted. -/
def crossedActs : List ReceiptAct :=
  [.persist 1, .load, .acknowledge 0 1, .acknowledge 1 1, .persist 2, .step 0 true, .step 0 true,
    .persist 3, .step 1 true, .step 1 true, .step 0 true, .step 1 true, .step 0 true, .step 1 true]

def crossed : ReceiptState := (runActs ReceiptAct.apply crossedActs noReceipts).getD noReceipts

end CameraLogs.Logs
