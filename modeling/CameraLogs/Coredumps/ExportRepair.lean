import CameraLogs.Coredumps.ExportDirectories
import Mathlib.Data.Option.Basic

/-!
# The repair of what a dead worker leaves

`cleanupExpiredExports` is one whole pass of the maintenance: the steps it takes for every
reserved claim whose job is not active. A pass recovers each such claim and keeps what is
recovered (`pass_recovers`). A job whose worker is gone is inactive once no document counts
it as queued or running; in a run whose steps are timely that is so from the start of the
next worker on (`export_quota_recovered`). In a run with an early start it is not, and then
no pass ever recovers the claim (`early_start_leaks`).
-/

namespace CameraLogs.Coredumps

open CameraLogs.Lib
open Relation (ReflTransGen)

variable {s t : ExportState} {id : JobId} {claims : List ExportClaim}

theorem exportInv (h : TimelyExports s) : ExportInv s := by
  refine Reachable.invariant (I := ExportInv) ?_ ?_ h
  · intro s hs
    have hempty : ∀ id, ¬Executes s id := by
      intro id ⟨execution, hexecution, _⟩
      rw [hs.executions] at hexecution
      cases hexecution
    refine ⟨?_, fun id hexecutes => absurd hexecutes (hempty id), fun _ => ⟨?_, hs.cleaning⟩,
      ?_, ?_, ?_, ?_, ?_, ?_⟩
    · rw [hs.ledger]
      exact ⟨rfl, List.nodup_nil⟩
    · intro id
      rw [hs.executions]
    · intro worker hworker
      rw [hs.worker] at hworker
      cases hworker
    · intro id document hdocument
      rw [hs.documents] at hdocument
      cases hdocument
    · intro id document hdocument
      rw [hs.documents] at hdocument
      cases hdocument
    · intro id execution hexecution
      rw [hs.executions] at hexecution
      cases hexecution
    · intro id hmem
      rw [hs.ledger] at hmem
      cases hmem
    · intro id stage hcleaning
      rw [hs.cleaning] at hcleaning
      cases hcleaning
  · intro s t ⟨act, htimely, hstep⟩ hs
    exact hs.step htimely hstep

theorem directoryInv (h : TimelyExports s) : DirectoryInv s := by
  refine Reachable.invariant_of (J := ExportInv) (I := DirectoryInv) (fun s hs => exportInv hs)
    ?_ ?_ h
  · intro s hs
    have hnone : ∀ id, NoDirectory s id := by
      intro id
      unfold NoDirectory
      rw [hs.scratch, hs.output]
      exact ⟨rfl, rfl⟩
    refine ⟨fun id => ⟨(hnone id).covered, fun execution hexecution => ?_⟩,
      fun id _ _ _ => hnone id, fun id stage hcleaning => ?_⟩
    · rw [hs.executions] at hexecution
      cases hexecution
    · rw [hs.cleaning] at hcleaning
      cases hcleaning
  · intro s t hinv ⟨act, _, hstep⟩ hs
    exact hs.step hinv hstep

/-! ## A pass of the maintenance -/

/-- The steps for one claim. -/
def cleanActs (id : JobId) : List ExportAct := [.clean id, .cleanNext, .cleanNext, .cleanNext]

/-- The pass over the claims its cursor still has. -/
def ExportState.cleanupPass : List ExportClaim → ExportState → Option ExportState
  | [], s => some s
  | claim :: rest, s =>
    if s.active claim.id then cleanupPass rest s
    else runActs ExportAct.apply (cleanActs claim.id) s >>= cleanupPass rest

/-- `cleanup_expired_exports` -/
def ExportState.cleanupExpiredExports (s : ExportState) : Option ExportState :=
  s.cleanupPass (s.ledger.claims.filter fun claim => claim.state = .reserved)

/-- Nothing of the job is left: neither the claim nor a directory. -/
def Recovered (s : ExportState) (id : JobId) : Prop := ¬s.ledger.Holds id ∧ NoDirectory s id

/-- What a pass works on. -/
structure PassOk (s : ExportState) : Prop where
  ledger : LedgerOk s.ledger
  worker : s.worker.isSome = true
  cleaning : s.cleaning = none

/-- The state after the steps for one claim. -/
def ExportState.cleaned (s : ExportState) (id : JobId) (ledger : ExportLedger) : ExportState :=
  { (s.setScratch id false).setOutput id false with ledger, cleaning := none }

theorem clean_recovers (h : PassOk s) (hmem : id ∈ s.ledger.claims.map ExportClaim.id)
    (hinactive : s.active id = false) :
    ∃ ledger, runActs ExportAct.apply (cleanActs id) s = some (s.cleaned id ledger) ∧
      PassOk (s.cleaned id ledger) ∧ Recovered (s.cleaned id ledger) id ∧
      (∀ other, Recovered s other → Recovered (s.cleaned id ledger) other) ∧
      ledger.claims.map ExportClaim.id = s.ledger.claims.map ExportClaim.id := by
  obtain ⟨ledger, hrelease, hok, hreleased, hothers, hkeys⟩ := h.ledger.release id
  have hrecovered : Recovered (s.cleaned id ledger) id := by
    refine ⟨fun hclaims => ?_, Function.update_self .., Function.update_self ..⟩
    obtain ⟨claim, hclaim, hreserved⟩ := hclaims
    rw [hreleased claim hclaim] at hreserved
    cases hreserved
  refine ⟨ledger, ?_, ⟨hok, h.worker, rfl⟩, hrecovered, fun other hother => ?_, hkeys⟩
  · have hclean : (ExportAct.clean id).apply s =
        some { s with cleaning := some (id, .removingScratch) } := by
      simp [ExportAct.apply, h.worker, h.cleaning, hinactive, hmem]
    have hlast : (ExportAct.cleanNext).apply { (s.setScratch id false).setOutput id false with
        cleaning := some (id, .releasing) } = some (s.cleaned id ledger) :=
      congrArg (Option.map _) hrelease
    simp only [runActs, cleanActs, hclean]
    exact congrArg (· >>= some) hlast
  · by_cases hne : other = id
    · rw [hne]
      exact hrecovered
    · refine ⟨fun hclaims => ?_, ?_, ?_⟩
      · obtain ⟨claim, hclaim, hreserved⟩ := hclaims
        refine hother.1 ⟨claim, ?_, hreserved⟩
        rw [← hothers other hne]
        exact hclaim
      · exact (Function.update_of_ne hne _ _).trans hother.2.1
      · exact (Function.update_of_ne hne _ _).trans hother.2.2

/-- A pass recovers the claims of all jobs that are not active, and loses nothing that is
recovered. -/
theorem pass_recovers (h : PassOk s)
    (hmem : ∀ claim ∈ claims, claim.id ∈ s.ledger.claims.map ExportClaim.id) :
    ∃ t, s.cleanupPass claims = some t ∧ (∀ id, Recovered s id → Recovered t id) ∧
      ∀ claim ∈ claims, s.active claim.id = false → Recovered t claim.id := by
  induction claims generalizing s with
  | nil => exact ⟨s, rfl, fun _ hs => hs, fun claim hclaim => by cases hclaim⟩
  | cons claim rest ih =>
    have hrest : ∀ other ∈ rest, other.id ∈ s.ledger.claims.map ExportClaim.id :=
      fun other hother => hmem other (List.mem_cons_of_mem _ hother)
    by_cases hactive : s.active claim.id = true
    · obtain ⟨t, hpass, hkept, hdone⟩ := ih h hrest
      refine ⟨t, (if_pos hactive).trans hpass, hkept, fun other hother hinactive => ?_⟩
      obtain rfl | hother := List.mem_cons.1 hother
      · rw [hactive] at hinactive
        cases hinactive
      · exact hdone other hother hinactive
    · obtain ⟨ledger, hacts, hok, hrecovered, hkeeps, hkeys⟩ := clean_recovers h
        (hmem claim List.mem_cons_self) (Bool.eq_false_iff.2 hactive)
      obtain ⟨t, hpass, hkept, hdone⟩ := ih hok fun other hother => by
        have hkey := hrest other hother
        rw [← hkeys] at hkey
        exact hkey
      refine ⟨t, ?_, fun id hid => hkept id (hkeeps id hid), fun other hother hinactive => ?_⟩
      · unfold ExportState.cleanupPass
        rw [if_neg hactive, hacts]
        exact hpass
      · obtain rfl | hother := List.mem_cons.1 hother
        · exact hkept _ hrecovered
        · -- a cleaned claim changes no document, so no other job's activity
          exact hdone other hother hinactive

/-- A pass leaves nothing of a job that is not active. -/
theorem cleanup_recovers (h : PassOk s) (hcovered : Covered s id) (hinactive : s.active id = false) :
    ∃ t, s.cleanupExpiredExports = some t ∧ Recovered t id := by
  have hlisted : ∀ claim ∈ s.ledger.claims.filter fun claim => claim.state = .reserved,
      claim.id ∈ s.ledger.claims.map (·.id) :=
    fun claim hclaim => List.mem_map_of_mem (List.mem_of_mem_filter hclaim)
  obtain ⟨t, hpass, hkept, hdone⟩ := pass_recovers h hlisted
  refine ⟨t, hpass, ?_⟩
  by_cases hholds : s.ledger.Holds id
  · obtain ⟨claim, hclaim, hreserved⟩ := hholds
    obtain ⟨hmem, rfl⟩ := Dict.lookup_some hclaim
    exact hdone claim (List.mem_filter.2 ⟨hmem, decide_eq_true hreserved⟩) hinactive
  · have hnone : NoDirectory s id := by
      refine ⟨?_, ?_⟩
      · exact Bool.eq_false_iff.2 fun hscratch => hholds (hcovered (.inl hscratch))
      · exact Bool.eq_false_iff.2 fun houtput => hholds (hcovered (.inr houtput))
    exact hkept id ⟨hholds, hnone⟩

/-! ## Jobs whose worker is gone -/

/-- The worker of the job is gone, and its lease to write has run out; the job does not wait
for another worker, and its result is not being kept. -/
structure Abandoned (s : ExportState) (id : JobId) : Prop where
  owner : ∀ document, s.documents id = some document →
    ∃ worker, document.workerInstanceId = some worker ∧ s.worker ≠ some worker
  lease : ∀ document, s.documents id = some document →
    ∀ leaseUntil ∈ document.executionLeaseUntil, leaseUntil ≤ s.now
  kept : ∀ document, s.documents id = some document → document.status = .succeeded →
    document.expiresAt ≤ s.now

/-- A job that neither waits nor runs, nor writes, nor keeps a result is not active. -/
theorem inactive_of_ended
    (hstatus : ∀ document, s.documents id = some document →
      document.status ≠ .queued ∧ document.status ≠ .running)
    (hlease : ∀ document, s.documents id = some document →
      ∀ leaseUntil ∈ document.executionLeaseUntil, leaseUntil ≤ s.now)
    (hkept : ∀ document, s.documents id = some document → document.status = .succeeded →
      document.expiresAt ≤ s.now) : s.active id = false := by
  unfold ExportState.active
  cases hdocument : s.documents id with
  | none => rfl
  | some document =>
    obtain ⟨hqueued, hrunning⟩ := hstatus document hdocument
    have hexpired : (document.executionLeaseUntil.any fun leaseUntil =>
        decide (s.now < leaseUntil)) = false := by
      cases hleased : document.executionLeaseUntil with
      | none => rfl
      | some leaseUntil =>
        exact decide_eq_false (Nat.not_lt.2 (hlease document hdocument leaseUntil hleased))
    have hresult : (document.status = .succeeded && decide (s.now < document.expiresAt)) = false := by
      by_cases hsucceeded : document.status = .succeeded
      · have hle : document.expiresAt ≤ s.now := hkept document hdocument hsucceeded
        rw [decide_eq_false (Nat.not_lt.2 hle), Bool.and_false]
      · rw [decide_eq_false hsucceeded, Bool.false_and]
    rw [Option.any_some, hexpired, hresult, decide_eq_false hqueued, decide_eq_false hrunning,
      Bool.and_false]
    rfl

theorem Abandoned.not_queued (h : Abandoned s id) (hinv : ExportInv s) {document : ExportDocument}
    (hdocument : s.documents id = some document) : document.status ≠ .queued := by
  intro hqueued
  obtain ⟨worker, hworker, -⟩ := h.owner document hdocument
  rw [hinv.queued id document hdocument hqueued] at hworker
  cases hworker

/-- While a worker runs, the job of another one is not active. -/
theorem Abandoned.not_active (h : Abandoned s id) (hinv : ExportInv s) (hworker : s.worker ≠ none) :
    s.active id = false := by
  refine inactive_of_ended (fun document hdocument => ?_) h.lease h.kept
  refine ⟨h.not_queued hinv hdocument, fun hrunning => ?_⟩
  obtain ⟨worker, hsome⟩ := Option.ne_none_iff_exists'.1 hworker
  obtain ⟨owner, howner, hgone⟩ := h.owner document hdocument
  rw [hinv.running worker hsome id document hdocument hrunning] at howner
  exact hgone (hsome.trans howner)

/-- The start of a worker makes it inactive, if it finds no running job with a lease. -/
theorem Abandoned.started {worker : InstanceId} (h : Abandoned s id) (hinv : ExportInv s)
    (htimely : Timely s (.start worker)) (hstep : (ExportAct.start worker).apply s = some t) :
    t.active id = false := by
  obtain ⟨_, -, he⟩ := Option.bind_eq_some_iff.1 hstep
  cases he
  refine inactive_of_ended (fun document hmap => ?_) (fun document hmap => ?_)
    fun document hmap hsucceeded => ?_
  all_goals obtain ⟨before, hbefore, rfl⟩ := Option.map_eq_some_iff.1 hmap
  · refine ⟨?_, failLeftOver_not_running htimely hbefore⟩
    obtain hsame | hfailed := failLeftOver_same s before
    · rw [hsame]
      exact h.not_queued hinv hbefore
    · rw [hfailed]
      simp
  · obtain hsame | hfailed := failLeftOver_same s before
    · rw [hsame]
      exact h.lease before hbefore
    · rw [hfailed]
      exact h.lease before hbefore
  · obtain hsame | hfailed := failLeftOver_same s before
    · rw [hsame] at hsucceeded ⊢
      exact h.kept before hbefore hsucceeded
    · rw [hfailed] at hsucceeded
      cases hsucceeded

/-- An execution is the only one that touches the directories of its job. -/
theorem executing_untouched {act : ExportAct} (hinv : ExportInv s) (hstep : act.apply s = some t)
    (hexecutes : Executes s id) (hother : ∀ e, act ≠ .advance id e) :
    t.scratch id = s.scratch id ∧ t.output id = s.output id := by
  cases act with
  | advance other e =>
    obtain ⟨execution, -, he⟩ := Option.bind_eq_some_iff.1 hstep
    cases he
    have hne : id ≠ other := fun he => hother e (he ▸ rfl)
    exact ⟨advance_works.scratch id hne, advance_works.output id hne⟩
  | cleanNext =>
    obtain ⟨⟨other, stage⟩, hcleaning, hstep⟩ := Option.bind_eq_some_iff.1 hstep
    -- what is cleaned is settled, so it is another job
    have hne : id ≠ other := fun he => (hinv.cleaning other stage hcleaning).quiet (he ▸ hexecutes)
    cases stage with
    | removingScratch =>
      cases hstep
      exact ⟨Function.update_of_ne hne _ _, rfl⟩
    | removingOutput =>
      cases hstep
      exact ⟨rfl, Function.update_of_ne hne _ _⟩
    | releasing =>
      obtain ⟨ledger, -, he⟩ := Option.map_eq_some_iff.1 hstep
      cases he
      exact ⟨rfl, rfl⟩
  | renew other =>
    obtain ⟨execution, -, hstep⟩ := Option.bind_eq_some_iff.1 hstep
    obtain ⟨_, -, he⟩ := Option.bind_eq_some_iff.1 hstep
    cases he
    unfold ExportState.renewExecutionLease
    split
    · split <;> exact ⟨rfl, rfl⟩
    · exact ⟨rfl, rfl⟩
  | create other expiresAt estimatedBytes sources =>
    obtain ⟨_, -, he⟩ := Option.bind_eq_some_iff.1 hstep
    cases he
    exact ⟨rfl, rfl⟩
  | cancel other =>
    obtain ⟨document, -, hstep⟩ := Option.bind_eq_some_iff.1 hstep
    obtain ⟨_, -, he⟩ := Option.bind_eq_some_iff.1 hstep
    cases he
    exact ⟨rfl, rfl⟩
  | expire other =>
    obtain ⟨document, -, hstep⟩ := Option.bind_eq_some_iff.1 hstep
    obtain ⟨_, -, he⟩ := Option.bind_eq_some_iff.1 hstep
    cases he
    exact ⟨rfl, rfl⟩
  | start worker =>
    obtain ⟨_, -, he⟩ := Option.bind_eq_some_iff.1 hstep
    cases he
    exact ⟨rfl, rfl⟩
  | claim other =>
    obtain ⟨worker, -, hstep⟩ := Option.bind_eq_some_iff.1 hstep
    obtain ⟨document, -, hstep⟩ := Option.bind_eq_some_iff.1 hstep
    obtain ⟨_, -, he⟩ := Option.bind_eq_some_iff.1 hstep
    cases he
    exact ⟨rfl, rfl⟩
  | clean other =>
    obtain ⟨_, -, he⟩ := Option.bind_eq_some_iff.1 hstep
    cases he
    exact ⟨rfl, rfl⟩
  | crash =>
    cases hstep
    exact ⟨rfl, rfl⟩
  | cleanFails =>
    cases hstep
    exact ⟨rfl, rfl⟩
  | tick seconds =>
    cases hstep
    exact ⟨rfl, rfl⟩

/-- In every run whose steps are timely: the counter is what the reserved claims add up to;
nothing but its own execution touches the directories of a job that executes; and of an
abandoned job nothing is left after the start of a worker and the next pass, or after a pass
of the worker that runs. -/
theorem export_quota_recovered (h : TimelyExports s) :
    s.ledger.used = s.ledger.reservedBytes ∧
    (∀ act t id, ExportAct.apply act s = some t → Executes s id → (∀ e, act ≠ .advance id e) →
      t.scratch id = s.scratch id ∧ t.output id = s.output id) ∧
    ∀ id, Abandoned s id →
      (∀ worker t, Timely s (.start worker) → (ExportAct.start worker).apply s = some t →
        ∃ u, t.cleanupExpiredExports = some u ∧ Recovered u id) ∧
      (s.worker ≠ none → s.cleaning = none →
        ∃ u, s.cleanupExpiredExports = some u ∧ Recovered u id) := by
  have hinv : ExportInv s := exportInv h
  have hdirectories : DirectoryInv s := directoryInv h
  refine ⟨hinv.ledger.used, fun act t id hstep hexecutes hother =>
    executing_untouched hinv hstep hexecutes hother, fun id habandoned => ⟨?_, ?_⟩⟩
  · intro worker t htimely hstep
    have hinactive : t.active id = false := habandoned.started hinv htimely hstep
    have hstarted : DirectoryInv t := hdirectories.step hinv hstep
    have hok : PassOk t := by
      obtain ⟨_, hguard, he⟩ := Option.bind_eq_some_iff.1 hstep
      cases he
      exact ⟨hinv.ledger, rfl, (hinv.stopped (of_guard hguard).1).2⟩
    exact cleanup_recovers hok (hstarted.covered id) hinactive
  · intro hworker hcleaning
    have hok : PassOk s := ⟨hinv.ledger, Option.isSome_iff_ne_none.2 hworker, hcleaning⟩
    exact cleanup_recovers hok (hdirectories.covered id) (habandoned.not_active hinv hworker)

/-- A node with a quota of a megabyte, before anything has happened. -/
def newNode : ExportState where
  quota := 1000000
  ledger := ⟨0, []⟩
  documents := fun _ => none
  created := []
  scratch := fun _ => false
  output := fun _ => false
  now := 0
  worker := none
  started := []
  executions := fun _ => none
  cleaning := none

theorem newNode_start : ExportQuotaStart newNode := ⟨rfl, rfl, rfl, rfl, rfl, rfl, rfl, rfl⟩

/-- A worker dies after it has made its first directory; the next one starts when the leases
have run out. -/
theorem export_quota_recovered_late : ∃ s, TimelyExports s ∧ s.ledger.used = 69652 ∧
    s.ledger.Holds 0 ∧ s.scratch 0 = true ∧ ∃ t u, (ExportAct.start 2).apply s = some t ∧
      t.cleanupExpiredExports = some u ∧ Recovered u 0 := by
  have hnew : TimelyExports newNode := Reachable.initial newNode_start
  have hcreated := hnew.tail ⟨.create 0 1000 10 1, trivial, rfl⟩
  have hstarted := hcreated.tail ⟨.start 1, (by
    intro id document hdocument hrunning
    cases id with
    | zero =>
      cases hdocument
      cases hrunning
    | succ id => cases hdocument), rfl⟩
  have hclaimed := hstarted.tail ⟨.claim 0, trivial, rfl⟩
  have hbegun := hclaimed.tail ⟨.advance 0 .done, trivial, rfl⟩
  have hreserved := hbegun.tail ⟨.advance 0 .done, trivial, rfl⟩
  have hmade := hreserved.tail ⟨.advance 0 .done, trivial, rfl⟩
  have hdead := hmade.tail ⟨.crash, trivial, rfl⟩
  have hlate := hdead.tail ⟨.tick 100, (by
    intro id ⟨execution, hexecution, _⟩
    cases hexecution), rfl⟩
  refine ⟨_, hlate, rfl, ⟨_, rfl, rfl⟩, rfl, ?_⟩
  have hrecovers := (export_quota_recovered hlate).2.2 0 ⟨(by
    intro document hdocument
    cases hdocument
    exact ⟨1, rfl, by simp⟩), (by
    intro document hdocument leaseUntil hlease
    cases hdocument
    cases hlease
    decide), (by
    intro document hdocument hsucceeded
    cases hdocument
    cases hsucceeded)⟩
  obtain ⟨u, hpass, hrecovered⟩ := hrecovers.1 2 _ (by
    intro id document hdocument _
    cases id with
    | zero =>
      cases hdocument
      exact ⟨90, rfl, by decide⟩
    | succ id => cases hdocument) rfl
  exact ⟨_, u, rfl, hpass, hrecovered⟩

/-- A job that is recorded as running is never cleaned up. -/
theorem active_of_running {document : ExportDocument} (hdocument : s.documents id = some document)
    (hrunning : document.status = .running) : s.active id = true := by
  unfold ExportState.active
  rw [hdocument, Option.any_some, hrunning]
  simp

/-- A pass that finds every job active does nothing. -/
theorem pass_idle (h : ∀ claim ∈ claims, s.active claim.id = true) :
    s.cleanupPass claims = some s := by
  induction claims with
  | nil => rfl
  | cons claim rest ih =>
    unfold ExportState.cleanupPass
    rw [if_pos (h claim List.mem_cons_self)]
    exact ih fun other hother => h other (List.mem_cons_of_mem _ hother)

/-- A worker dies just after it has renewed the job's lease. -/
def earlyActs : List ExportAct :=
  [.create 0 1000 10 1, .start 1, .claim 0, .advance 0 .done, .advance 0 .done, .advance 0 .done,
    .tick 19, .advance 0 .done, .crash, .tick 76]

def earlyDeath : ExportState := (runActs ExportAct.apply earlyActs newNode).getD newNode

theorem earlyDeath_run : runActs ExportAct.apply earlyActs newNode = some earlyDeath := rfl

theorem earlyDeath_reachable : ReachableExports earlyDeath :=
  ⟨newNode, newNode_start, runActs_steps earlyDeath_run⟩

/-- Its lease to write has run out by then, the job's lease has not. -/
theorem earlyDeath_document : earlyDeath.documents 0 =
    some ⟨.running, some 1, some .writing, some 90, some 109, 1000, 10, 1⟩ := rfl

/-- The next worker starts before that lease runs out. The job is left as running, and no
pass of the maintenance ever recovers its claim. -/
theorem early_start_leaks : ∃ s, ReachableExports s ∧ Abandoned s 0 ∧ s.worker = none ∧
    ∃ t, (ExportAct.start 2).apply s = some t ∧ ∀ seconds, ∃ p u,
      (ExportAct.tick seconds).apply t = some p ∧ p.cleanupExpiredExports = some u ∧
      u.ledger.Holds 0 ∧ u.scratch 0 = true := by
  have habandoned : Abandoned earlyDeath 0 := by
    refine ⟨fun document hdocument => ?_, fun document hdocument leaseUntil hlease => ?_,
      fun document hdocument hsucceeded => ?_⟩
    all_goals
      rw [earlyDeath_document] at hdocument
      cases hdocument
    · exact ⟨1, rfl, by decide⟩
    · cases hlease
      decide
    · cases hsucceeded
  have hclaims : earlyDeath.ledger.claims = [⟨0, 69652, .reserved⟩] := rfl
  let t : ExportState := { earlyDeath with
    worker := some 2
    started := 2 :: earlyDeath.started
    documents := fun id => (earlyDeath.documents id).map earlyDeath.failLeftOver }
  have hdocument : t.documents 0 =
      some ⟨.running, some 1, some .writing, some 90, some 109, 1000, 10, 1⟩ := rfl
  refine ⟨earlyDeath, earlyDeath_reachable, habandoned, rfl, t, rfl, fun seconds => ?_⟩
  refine ⟨{ t with now := t.now + seconds }, { t with now := t.now + seconds }, rfl, ?_,
    ⟨⟨0, 69652, .reserved⟩, rfl, rfl⟩, rfl⟩
  refine pass_idle fun claim hclaim => ?_
  have hmem : claim ∈ earlyDeath.ledger.claims := List.mem_of_mem_filter hclaim
  rw [hclaims] at hmem
  cases List.mem_singleton.1 hmem
  exact active_of_running hdocument rfl

end CameraLogs.Coredumps
