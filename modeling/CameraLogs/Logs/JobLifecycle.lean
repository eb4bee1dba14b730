import CameraLogs.Logs.JobLease
import Mathlib.Data.Option.Basic

/-!
# The life of a job

`JobEffect` says what an update may do to the document of a job. From it: no update changes
a job in a terminal status, a worker's write needs the token of the document, and a token
belongs to one worker. A lease that a write asks for is only known to have been unexpired
at the clock reading of the write.
-/

namespace CameraLogs.Logs

open CameraLogs.Lib
open Relation (ReflTransGen)

variable {ρ : Type} {s t : JobState ρ} {store store' : JobStore ρ} {update : JobUpdate ρ}
  {document : JobDocument ρ} {handle : JobHandle} {handles : List JobHandle} {now next : Nat}

/-! ## What the filters ask for -/

theorem ownedBy_iff {token : ExecutionToken} {nodeId : String} :
    document.ownedBy token nodeId now = true ↔ document.status = .running ∧
      document.executionToken = some token ∧ document.nodeId = nodeId ∧
      ∃ leaseUntil, document.leaseUntil = some leaseUntil ∧ now < leaseUntil := by
  simp only [JobDocument.ownedBy, decide_eq_true_eq, Option.any_eq_true_iff_get]
  refine and_congr_right fun _ => and_congr_right fun _ => and_congr_right fun _ => ?_
  cases document.leaseUntil <;> simp

/-- The worker holds the token of the document, under a lease not expired at `now`. -/
structure Owns (document : JobDocument ρ) (handle : JobHandle) (now : Nat) : Prop where
  running : document.status = .running
  token : ∃ token, document.executionToken = some token ∧ handle.executionToken = some token
  nodeId : document.nodeId = handle.nodeId
  leaseUntil : ∃ leaseUntil, document.leaseUntil = some leaseUntil ∧ now < leaseUntil

theorem owns_of_ownedBy {token : ExecutionToken} (ht : handle.executionToken = some token)
    (h : document.ownedBy token handle.nodeId now = true) : Owns document handle now := by
  obtain ⟨hr, htoken, hnode, hlease⟩ := ownedBy_iff.mp h
  exact ⟨hr, ⟨token, htoken, ht⟩, hnode, hlease⟩

/-- A running job with a token can only be written to by its owner. -/
theorem publishable_owns (h : document.publishable handle now = true)
    (htoken : document.executionToken ≠ none) : Owns document handle now := by
  unfold JobDocument.publishable at h
  split at h
  next token ht => exact owns_of_ownedBy ht h
  next =>
    simp only [decide_eq_true_eq] at h
    exact absurd h.2 htoken

theorem completable_owns (h : document.completable handle now = true)
    (htoken : document.executionToken ≠ none) : Owns document handle now := by
  unfold JobDocument.completable at h
  split at h
  next hnone _ => exact absurd hnone htoken
  next token _ ht => exact owns_of_ownedBy ht h
  next => cases h

/-! ## What an update does -/

inductive JobEffect (store : JobStore ρ) : JobUpdate ρ → JobStore ρ → Prop
  | same (update : JobUpdate ρ) : JobEffect store update store
  | claimed {token : ExecutionToken} {instanceId nodeId : String} {now : Nat}
      (hstatus : store.document.status = .queued) :
      JobEffect store (.claim token instanceId nodeId now)
        { store with document := { store.document with
            status := .running, executionToken := some token,
            workerInstanceId := some instanceId, leaseUntil := some (now + jobLeaseSeconds) } }
  | renewed {handle : JobHandle} {nodeId : String} {now : Nat}
      (hstatus : store.document.status = .running) :
      JobEffect store (.renew handle nodeId now)
        { store with document :=
            { store.document with leaseUntil := some (now + jobLeaseSeconds) } }
  | published {handle : JobHandle} {results : List ρ} {now : Nat}
      (hstatus : store.document.status = .running)
      (howns : store.document.executionToken ≠ none → Owns store.document handle now) :
      JobEffect store (.publish handle results now)
        { store with
          document := { store.document with results }
          writes := ⟨handle, now⟩ :: store.writes
          publishedBy := some handle }
  | completed {handle : JobHandle} {update : Completion ρ} {now : Nat}
      (hstatus : store.document.status = .running)
      (howns : store.document.executionToken ≠ none → Owns store.document handle now) :
      JobEffect store (.complete handle update now)
        { document := { store.document with
            status := update.status, results := update.results.getD store.document.results }
          writes := ⟨handle, now⟩ :: store.writes
          publishedBy := if update.results.isSome then some handle else store.publishedBy
          completedBy := some handle
          terminals := update.status :: store.terminals }
  | cancelled (hstatus : store.document.status.active = true) :
      JobEffect store .cancel
        { store with
          document := { store.document with status := .cancelled }
          terminals := .cancelled :: store.terminals }
  | recovered {job : ExpiredJob} (hstatus : store.document.status = .running) :
      JobEffect store (.recover job)
        { store with
          document := { store.document with
            status := .failed, executionToken := none, leaseUntil := none }
          terminals := .failed :: store.terminals }

theorem publishable_running (h : document.publishable handle now = true) :
    document.status = .running := by
  unfold JobDocument.publishable at h
  split at h
  next => exact (ownedBy_iff.mp h).1
  next =>
    simp only [decide_eq_true_eq] at h
    exact h.1

theorem renewable_running {nodeId : String} (h : document.renewable handle nodeId now = true) :
    document.status = .running := by
  unfold JobDocument.renewable at h
  split at h
  next =>
    rw [Bool.and_eq_true] at h
    exact (ownedBy_iff.mp h.1).1
  next => cases h

theorem jobUpdate_effect (update : JobUpdate ρ) (store : JobStore ρ) :
    JobEffect store update (update.apply store) := by
  cases update with
  | claim token instanceId nodeId now =>
    simp only [JobUpdate.apply]
    split
    next h => exact .claimed h.1
    next => exact .same _
  | renew handle nodeId now =>
    simp only [JobUpdate.apply]
    split
    next h => exact .renewed (renewable_running h)
    next => exact .same _
  | publish handle results now =>
    simp only [JobUpdate.apply]
    split
    next h => exact .published (publishable_running h) (publishable_owns h)
    next => exact .same _
  | complete handle update now =>
    simp only [JobUpdate.apply]
    split
    next h => exact .completed h.1 (completable_owns h.2)
    next => exact .same _
  | cancel =>
    simp only [JobUpdate.apply]
    split
    next h => exact .cancelled h
    next => exact .same _
  | recover job =>
    simp only [JobUpdate.apply]
    split
    next h =>
      simp only [JobDocument.recoverable, decide_eq_true_eq] at h
      exact .recovered h.1
    next => exact .same _

/-- A job in a terminal status is not written to. -/
theorem JobEffect.terminal (h : JobEffect store update store')
    (hst : store.document.status.active = false) : store' = store := by
  cases h with
  | same => rfl
  | cancelled hactive =>
    rw [hst] at hactive
    cases hactive
  | _ hstatus =>
    rw [hstatus] at hst
    cases hst

/-! ## The invariant of the document -/

structure JobStoreSafe (handles : List JobHandle) (next : ExecutionToken) (store : JobStore ρ) :
    Prop where
  token : ∀ token, store.document.executionToken = some token → token < next
  queued : store.document.status = .queued →
    store.document.executionToken = none ∧ store.publishedBy = none
  running : store.document.status = .running → store.document.executionToken ≠ none
  active : store.document.status.active = true → store.terminals = [] ∧ store.completedBy = none
  terminal : store.document.status.active = false → store.terminals = [store.document.status]
  published : ∀ h, store.publishedBy = some h → h ∈ handles ∧
    (store.document.executionToken = none ∨ store.document.executionToken = h.executionToken)
  completed : ∀ h, store.completedBy = some h →
    h ∈ handles ∧ store.document.executionToken = h.executionToken
  succeeded : store.document.status = .succeeded → ∃ h, store.completedBy = some h

/-- What is known of an update that someone sends. -/
def JobUpdateOk (handles : List JobHandle) (next : ExecutionToken) (clock : Nat) :
    JobUpdate ρ → Prop
  | .claim token _ _ _ => token < next
  | .publish handle _ now | .complete handle _ now =>
    (handle.executionToken = none ∨ handle ∈ handles) ∧ now ≤ clock
  | _ => True

theorem Owns.mem (h : Owns document handle now)
    (hmem : handle.executionToken = none ∨ handle ∈ handles) : handle ∈ handles := by
  rcases hmem with hnone | hmem
  · obtain ⟨token, -, ht⟩ := h.token
    rw [hnone] at ht
    cases ht
  · exact hmem

theorem Owns.same_token (h : Owns document handle now) :
    document.executionToken = handle.executionToken := by
  obtain ⟨token, hd, hh⟩ := h.token
  exact hd.trans hh.symm

theorem JobEffect.safe {clock : Nat} (he : JobEffect store update store')
    (h : JobStoreSafe handles next store) (hok : JobUpdateOk handles next clock update) :
    JobStoreSafe handles next store' := by
  cases he with
  | same => exact h
  | claimed hstatus =>
    obtain ⟨hnone, hpub⟩ := h.queued hstatus
    obtain ⟨hterm, hcomp⟩ := h.active (by rw [hstatus]; rfl)
    exact {
      token := fun token ht => Option.some.inj ht ▸ hok
      queued := nofun
      running := fun _ => nofun
      active := fun _ => ⟨hterm, hcomp⟩
      terminal := nofun
      published := fun h hp => by rw [show store.publishedBy = some h from hp] at hpub; cases hpub
      completed := fun h hc => by rw [show store.completedBy = some h from hc] at hcomp; cases hcomp
      succeeded := nofun }
  | renewed hstatus =>
    exact ⟨h.token, h.queued, h.running, h.active, h.terminal, h.published, h.completed,
      h.succeeded⟩
  | published hstatus howns =>
    have hown := howns (h.running hstatus)
    exact {
      token := h.token
      queued := fun hq => absurd (hstatus.symm.trans hq) nofun
      running := h.running
      active := h.active
      terminal := h.terminal
      published := fun p hp => Option.some.inj hp ▸ ⟨hown.mem hok.1, Or.inr hown.same_token⟩
      completed := h.completed
      succeeded := h.succeeded }
  | @completed handle update now hstatus howns =>
    have hown := howns (h.running hstatus)
    have hterm := (h.active (by rw [hstatus]; rfl)).1
    have hdone : ∀ status, update.status = status → status.active = true → False := by
      intro status heq hact
      rw [← heq, update.terminal] at hact
      cases hact
    exact {
      token := h.token
      queued := fun hq => (hdone _ hq rfl).elim
      running := fun hr => (hdone _ hr rfl).elim
      active := fun ha => (hdone _ rfl ha).elim
      terminal := fun _ => by simp [hterm]
      published := by
        intro p hp
        simp only at hp
        split at hp
        · exact Option.some.inj hp ▸ ⟨hown.mem hok.1, Or.inr hown.same_token⟩
        · exact h.published p hp
      completed := fun c hc => Option.some.inj hc ▸ ⟨hown.mem hok.1, hown.same_token⟩
      succeeded := fun _ => ⟨handle, rfl⟩ }
  | cancelled hstatus =>
    obtain ⟨hterm, hcomp⟩ := h.active hstatus
    exact {
      token := h.token
      queued := nofun
      running := nofun
      active := nofun
      terminal := fun _ => by simp [hterm]
      published := h.published
      completed := h.completed
      succeeded := nofun }
  | recovered hstatus =>
    obtain ⟨hterm, hcomp⟩ := h.active (by rw [hstatus]; rfl)
    exact {
      token := nofun
      queued := nofun
      running := nofun
      active := nofun
      terminal := fun _ => by simp [hterm]
      published := fun p hp => ⟨(h.published p hp).1, Or.inl rfl⟩
      completed := fun c hc => by rw [show store.completedBy = some c from hc] at hcomp; cases hcomp
      succeeded := nofun }

theorem JobStoreSafe.mono {handles' : List JobHandle} {next' : ExecutionToken}
    (h : JobStoreSafe handles next store) (hsub : ∀ h ∈ handles, h ∈ handles')
    (hle : next ≤ next') : JobStoreSafe handles' next' store where
  token := fun token ht => Nat.lt_of_lt_of_le (h.token token ht) hle
  queued := h.queued
  running := h.running
  active := h.active
  terminal := h.terminal
  published := fun p hp => ⟨hsub p (h.published p hp).1, (h.published p hp).2⟩
  completed := fun c hc => ⟨hsub c (h.completed c hc).1, (h.completed c hc).2⟩
  succeeded := h.succeeded

/-! ## The invariant -/

structure JobSafe (s : JobState ρ) : Prop where
  store : JobStoreSafe s.handles s.nextToken s.db.store
  handles : ∀ h ∈ s.handles, ∃ token, h.executionToken = some token ∧ token < s.nextToken
  unique : ∀ h ∈ s.handles, ∀ h' ∈ s.handles, h.executionToken = h'.executionToken → h = h'
  late : ∀ update ∈ s.db.late, JobUpdateOk s.handles s.nextToken s.clock update

theorem JobUpdateOk.mono {handles' : List JobHandle} {next' clock clock' : Nat}
    (h : JobUpdateOk handles next clock update) (hsub : ∀ h ∈ handles, h ∈ handles')
    (hle : next ≤ next') (hclock : clock ≤ clock') : JobUpdateOk handles' next' clock' update := by
  cases update with
  | claim => exact Nat.lt_of_lt_of_le h hle
  | publish => exact ⟨h.1.imp_right (hsub _), by have := h.2; omega⟩
  | complete => exact ⟨h.1.imp_right (hsub _), by have := h.2; omega⟩
  | _ => trivial

theorem JobSafe.send {o : Outcome} (h : JobSafe s)
    (hok : JobUpdateOk s.handles s.nextToken s.clock update) : JobSafe (s.send update o) := by
  refine ⟨?_, h.handles, h.unique, fun v hv => ?_⟩
  · rcases InFlight.send_store JobUpdate.apply update s.db o with hs | hs
    · exact hs ▸ h.store
    · exact hs ▸ (jobUpdate_effect update s.db.store).safe h.store hok
  · rcases InFlight.mem_late_send hv with rfl | hv
    · exact hok
    · exact h.late v hv

/-- A new token is taken, with or without a handle that carries it. -/
theorem JobSafe.issue {handles' : List JobHandle} (h : JobSafe s)
    (hnew : handles' = s.handles ∨ ∃ instanceId nodeId,
      handles' = ⟨some s.nextToken, instanceId, nodeId⟩ :: s.handles) :
    JobSafe { s with nextToken := s.nextToken + 1, handles := handles' } := by
  have hsub : ∀ h ∈ s.handles, h ∈ handles' := by
    intro h hh
    rcases hnew with rfl | ⟨_, _, rfl⟩
    · exact hh
    · exact List.mem_cons_of_mem _ hh
  have hcases : ∀ h ∈ handles', h ∈ s.handles ∨ h.executionToken = some s.nextToken ∧
      handles' = h :: s.handles := by
    intro h hh
    rcases hnew with rfl | ⟨_, _, rfl⟩
    · exact Or.inl hh
    · rcases List.mem_cons.mp hh with rfl | hh
      · exact Or.inr ⟨rfl, rfl⟩
      · exact Or.inl hh
  have hle : s.nextToken ≤ s.nextToken + 1 := Nat.le_succ _
  refine ⟨h.store.mono hsub hle, ?_, ?_, fun v hv => (h.late v hv).mono hsub hle (Nat.le_refl _)⟩
  · intro k hk
    rcases hcases k hk with hk | ⟨ht, -⟩
    · obtain ⟨token, ht, hlt⟩ := h.handles k hk
      exact ⟨token, ht, Nat.lt_succ_of_lt hlt⟩
    · exact ⟨s.nextToken, ht, Nat.lt_succ_self _⟩
  · -- the new token is not among those of before
    have hfresh : ∀ k ∈ s.handles, k.executionToken ≠ some s.nextToken := by
      intro k hk heq
      obtain ⟨token, ht, hlt⟩ := h.handles k hk
      exact Nat.lt_irrefl _ (Option.some.inj (ht.symm.trans heq) ▸ hlt)
    intro k hk k' hk' heq
    rcases hcases k hk with hk | ⟨ht, hcons⟩
    · rcases hcases k' hk' with hk' | ⟨ht', -⟩
      · exact h.unique k hk k' hk' heq
      · exact absurd (heq.trans ht') (hfresh k hk)
    · rcases hcases k' hk' with hk' | ⟨-, hcons'⟩
      · exact absurd (heq.symm.trans ht) (hfresh k' hk')
      · exact (List.cons.inj (hcons.symm.trans hcons')).1

/-! ## What a step can do -/

/-- A step sends one update, applies a late one, or touches nothing but the bookkeeping. -/
inductive JobChange (s : JobState ρ) : JobState ρ → Prop
  | quiet (t : JobState ρ) (hdb : t.db = s.db) (hclock : s.clock ≤ t.clock)
      (hnext : t.nextToken = s.nextToken) (hhandles : t.handles = s.handles) : JobChange s t
  | claimed (token : ExecutionToken) (instanceId nodeId : String) (now : Nat) (o : Outcome)
      (handles' : List JobHandle) (htoken : token = s.nextToken)
      (hnew : handles' = s.handles ∨ ∃ instanceId nodeId,
        handles' = ⟨some token, instanceId, nodeId⟩ :: s.handles) :
      JobChange s { s.send (.claim token instanceId nodeId now) o with
        nextToken := token + 1, handles := handles' }
  | sent (update : JobUpdate ρ) (o : Outcome)
      (hok : JobUpdateOk s.handles s.nextToken s.clock update) : JobChange s (s.send update o)
  | landed {index : Nat} {update : JobUpdate ρ} (hu : s.db.late[index]? = some update) :
      JobChange s { s with db := ⟨update.apply s.db.store, s.db.late.eraseIdx index⟩ }

theorem workerAct_change {o : Outcome} (h : workerAct handle now update o s = some t)
    (hok : (handle.executionToken = none ∨ handle ∈ s.handles) → now ≤ s.clock →
      JobUpdateOk s.handles s.nextToken s.clock update) : JobChange s t := by
  simp only [workerAct, bind, Option.bind_eq_some_iff] at h
  obtain ⟨_, hnow, _, hholds, h⟩ := h
  cases h
  have hmem := of_guard hholds
  simp only [JobState.holds, decide_eq_true_eq] at hmem
  exact .sent update o (hok hmem (of_guard hnow))

theorem JobAct.change {act : JobAct ρ} (h : act.apply s = some t) : JobChange s t := by
  cases act with
  | tick =>
    cases h
    exact .quiet _ rfl (Nat.le_succ _) rfl rfl
  | claim instanceId nodeId now o =>
    simp only [JobAct.apply, claimJob, bind, Option.bind_eq_some_iff] at h
    obtain ⟨_, -, h⟩ := h
    cases h
    refine .claimed s.nextToken instanceId nodeId now o _ rfl ?_
    split
    · exact Or.inr ⟨some instanceId, nodeId, rfl⟩
    · exact Or.inl rfl
  | renew handle nodeId now o => exact workerAct_change h fun _ _ => trivial
  | publish handle results now o =>
    simp only [JobAct.apply] at h
    split at h
    next =>
      cases h
      exact .quiet s rfl (Nat.le_refl _) rfl rfl
    next => exact workerAct_change h fun hmem hnow => ⟨hmem, hnow⟩
  | complete handle update now o => exact workerAct_change h fun hmem hnow => ⟨hmem, hnow⟩
  | cancel o =>
    cases h
    exact .sent .cancel o trivial
  | scan now =>
    simp only [JobAct.apply, scanExpired, bind, Option.bind_eq_some_iff] at h
    obtain ⟨_, -, _, -, _, -, _, -, h⟩ := h
    cases h
    exact .quiet _ rfl (Nat.le_refl _) rfl rfl
  | recover index o =>
    obtain ⟨job, -, rfl⟩ := Option.map_eq_some_iff.mp h
    exact .sent (.recover job) o trivial
  | land index =>
    obtain ⟨db, hdb, rfl⟩ := Option.map_eq_some_iff.mp h
    obtain ⟨update, hu, rfl⟩ := InFlight.land_eq_some.mp hdb
    exact .landed hu

theorem JobChange.safe (hc : JobChange s t) (h : JobSafe s) : JobSafe t := by
  cases hc with
  | quiet t hdb hclock hnext hhandles =>
    refine ⟨?_, ?_, ?_, ?_⟩
    · rw [hdb, hnext, hhandles]
      exact h.store
    · rw [hnext, hhandles]
      exact h.handles
    · rw [hhandles]
      exact h.unique
    · rw [hdb, hnext, hhandles]
      exact fun v hv => (h.late v hv).mono (fun _ hm => hm) (Nat.le_refl _) hclock
  | claimed token instanceId nodeId now o handles' htoken hnew =>
    subst htoken
    have hsent : JobSafe (JobState.send { s with nextToken := s.nextToken + 1, handles := handles' }
        (.claim s.nextToken instanceId nodeId now) o) :=
      (h.issue hnew).send (Nat.lt_succ_self _)
    exact hsent
  | sent update o hok => exact h.send hok
  | @landed index update hu =>
    refine ⟨?_, h.handles, h.unique, fun v hv => h.late v (List.mem_of_mem_eraseIdx hv)⟩
    exact (jobUpdate_effect update s.db.store).safe h.store
      (h.late update (List.mem_of_getElem? hu))

theorem jobInitial_safe (h : JobInitial s) : JobSafe s where
  store := {
    token := fun token ht => absurd (h.token.symm.trans ht) nofun
    queued := fun _ => ⟨h.token, h.publishedBy⟩
    running := fun hr => absurd (h.status.symm.trans hr) nofun
    active := fun _ => ⟨h.terminals, h.completedBy⟩
    terminal := fun ha => by rw [show s.db.store.document.status = .queued from h.status] at ha; cases ha
    published := fun p hp => absurd (h.publishedBy.symm.trans hp) nofun
    completed := fun c hc => absurd (h.completedBy.symm.trans hc) nofun
    succeeded := fun hst => absurd (h.status.symm.trans hst) nofun }
  handles := fun k hk => by simp [h.handles] at hk
  unique := fun k hk => by simp [h.handles] at hk
  late := fun update hu => by simp [h.late] at hu

theorem job_safe (h : Reachable JobInitial JobStep s) : JobSafe s :=
  h.invariant (fun _ h₀ => jobInitial_safe h₀)
    (fun _ _ ⟨_, hact⟩ hs => (JobAct.change hact).safe hs)

/-- The document after a step is the one before, or comes from one known update. -/
theorem JobChange.store_cases (hc : JobChange s t) (h : JobSafe s) :
    t.db.store = s.db.store ∨ ∃ update, t.db.store = update.apply s.db.store ∧
      JobEffect s.db.store update t.db.store ∧
      JobUpdateOk s.handles (s.nextToken + 1) s.clock update := by
  have hmono : ∀ update : JobUpdate ρ, JobUpdateOk s.handles s.nextToken s.clock update →
      JobUpdateOk s.handles (s.nextToken + 1) s.clock update :=
    fun update hok => hok.mono (fun _ hm => hm) (Nat.le_succ _) (Nat.le_refl _)
  cases hc with
  | quiet t hdb _ _ _ => exact Or.inl (congrArg InFlight.store hdb)
  | claimed token instanceId nodeId now o handles' htoken hnew =>
    cases o with
    | performed =>
      subst htoken
      exact Or.inr ⟨.claim s.nextToken instanceId nodeId now, rfl, jobUpdate_effect _ _,
        Nat.lt_succ_self s.nextToken⟩
    | lost => exact Or.inl rfl
  | sent update o hok =>
    cases o with
    | performed => exact Or.inr ⟨update, rfl, jobUpdate_effect _ _, hmono update hok⟩
    | lost => exact Or.inl rfl
  | @landed index update hu =>
    exact Or.inr ⟨update, rfl, jobUpdate_effect _ _,
      hmono update (h.late update (List.mem_of_getElem? hu))⟩

/-! ## The result -/

/-- The one worker that holds the token of the running job makes a write, under a lease that
had not expired at the clock reading the write was made with. -/
structure WrittenByOwner (s : JobState ρ) (write : JobWrite) : Prop where
  owns : Owns s.document write.handle write.now
  claimed : write.handle ∈ s.handles
  only : ∀ h ∈ s.handles, h.executionToken = s.document.executionToken → h = write.handle
  read : write.now ≤ s.clock

theorem list_ne_cons_self {α : Type} {x : α} {xs : List α} (h : xs = x :: xs) : False := by
  have hlen := congrArg List.length h
  simp at hlen

theorem written_by_owner (hs : JobSafe s) (hst : JobStep s t) {write : JobWrite}
    (hw : t.db.store.writes = write :: s.db.store.writes) : WrittenByOwner s write := by
  obtain ⟨act, hact⟩ := hst
  have hmain : ∀ handle now,
      (s.db.store.document.executionToken ≠ none → Owns s.db.store.document handle now) →
      s.db.store.document.status = .running →
      (handle.executionToken = none ∨ handle ∈ s.handles) ∧ now ≤ s.clock →
      write = ⟨handle, now⟩ → WrittenByOwner s write := by
    intro handle now howns hrun hok heq
    have hown := howns (hs.store.running hrun)
    subst heq
    refine ⟨hown, hown.mem hok.1, fun h hh ht => ?_, hok.2⟩
    exact hs.unique h hh handle (hown.mem hok.1) (ht.trans hown.same_token)
  rcases (JobAct.change hact).store_cases hs with hsame | ⟨update, hstore, heffect, hok⟩
  · rw [hsame] at hw
    exact (list_ne_cons_self hw).elim
  · generalize t.db.store = store' at hw heffect
    cases heffect with
    | published hrun howns => exact hmain _ _ howns hrun hok (List.cons.inj hw).1.symm
    | completed hrun howns => exact hmain _ _ howns hrun hok (List.cons.inj hw).1.symm
    | _ => exact (list_ne_cons_self hw).elim

/-- Results appear, and a job succeeds, only by a worker's write. -/
theorem write_of_change (hs : JobSafe s) (hst : JobStep s t)
    (hne : t.document.results ≠ s.document.results ∨
      t.document.status = .succeeded ∧ s.document.status ≠ .succeeded) :
    ∃ write, t.db.store.writes = write :: s.db.store.writes := by
  obtain ⟨act, hact⟩ := hst
  rcases (JobAct.change hact).store_cases hs with hsame | ⟨update, hstore, heffect, -⟩
  · have hdoc : t.document = s.document := congrArg JobStore.document hsame
    rw [hdoc] at hne
    tauto
  · unfold JobState.document at hne
    generalize t.db.store = store' at hne heffect
    cases heffect with
    | published => exact ⟨_, rfl⟩
    | completed => exact ⟨_, rfl⟩
    | same => tauto
    | renewed => tauto
    | _ =>
      rcases hne with hne | ⟨hne, -⟩
      · exact absurd rfl hne
      · cases hne

theorem terminal_run (hs : JobSafe s) (hst : s.document.status.active = false)
    (hrun : ReflTransGen JobStep s t) : JobSafe t ∧ t.db.store = s.db.store := by
  refine sticky (I := fun t => JobSafe t ∧ t.db.store = s.db.store) ?_ hrun ⟨hs, rfl⟩
  intro u v ⟨act, hact⟩ h
  have hchange := JobAct.change hact
  refine ⟨hchange.safe h.1, ?_⟩
  rcases hchange.store_cases h.1 with hsame | ⟨update, -, heffect, -⟩
  · exact hsame.trans h.2
  · refine (heffect.terminal ?_).trans h.2
    rw [h.2]
    exact hst

/-- In every run: at most one terminal status is written, it is the status of the job, and a
job in a terminal status is never changed again; results are published and a job succeeds
only by a write of the worker that holds the token, made under a lease that had not expired
when the worker read the clock; and the results of a job that has succeeded are those of the
worker that completed it. -/
theorem job_lifecycle (s : JobState ρ) (h : Reachable JobInitial JobStep s) :
    (s.db.store.terminals.length ≤ 1 ∧
      ∀ status ∈ s.db.store.terminals, s.document.status = status) ∧
    (s.document.status.active = false →
      ∀ t, ReflTransGen JobStep s t → t.document = s.document) ∧
    (∀ t, JobStep s t → t.document.results ≠ s.document.results ∨
      t.document.status = .succeeded ∧ s.document.status ≠ .succeeded →
        ∃ write, t.db.store.writes = write :: s.db.store.writes) ∧
    (∀ t, JobStep s t → ∀ write, t.db.store.writes = write :: s.db.store.writes →
      WrittenByOwner s write) ∧
    (s.document.status = .succeeded → ∃ worker, s.db.store.completedBy = some worker ∧
      ∀ publisher, s.db.store.publishedBy = some publisher → publisher = worker) := by
  have hs := job_safe h
  refine ⟨?_, ?_, fun t hst hne => write_of_change hs hst hne,
    fun t hst write hw => written_by_owner hs hst hw, ?_⟩
  · cases hactive : s.document.status.active with
    | true =>
      rw [(hs.store.active hactive).1]
      exact ⟨Nat.zero_le _, fun _ hmem => nomatch hmem⟩
    | false =>
      rw [hs.store.terminal hactive]
      exact ⟨Nat.le_refl _, fun status hmem => (List.mem_singleton.mp hmem).symm⟩
  · intro hst t hrun
    exact congrArg JobStore.document (terminal_run hs hst hrun).2
  · intro hst
    obtain ⟨worker, hw⟩ := hs.store.succeeded hst
    obtain ⟨hmem, htoken⟩ := hs.store.completed worker hw
    refine ⟨worker, hw, fun publisher hp => ?_⟩
    obtain ⟨hpmem, hp | hp⟩ := hs.store.published publisher hp
    · -- the worker that has completed the job has a token
      obtain ⟨token, ht, -⟩ := hs.handles worker hmem
      rw [hp, ht] at htoken
      cases htoken
    · exact hs.unique publisher hpmem worker hmem (hp.symm.trans htoken)

def queuedDocument : JobDocument Nat where
  nodeId := "n"
  status := .queued
  executionToken := none
  workerInstanceId := none
  leaseUntil := none
  results := []

def submittedJob : JobState Nat where
  db := { store := ⟨queuedDocument, [], none, none, []⟩, late := [] }
  clock := 0
  nextToken := 0
  handles := []
  expired := []

theorem submittedJob_initial : JobInitial submittedJob :=
  ⟨rfl, rfl, rfl, rfl, rfl, rfl, rfl, rfl, rfl, rfl, rfl⟩

/-- A worker publishes and completes a search that is cancelled too late. -/
theorem job_lifecycle_succeeded : ∃ s, Reachable (JobInitial (ρ := Nat)) JobStep s ∧
    s.document.status = .succeeded ∧ s.document.results = [7, 8] ∧
    (∃ worker, s.db.store.completedBy = some worker) ∧
    ∀ t, ReflTransGen JobStep s t → t.document = s.document := by
  have hrun : ∃ s, runActs JobAct.apply [.claim "i" "n" 0 .performed,
      .publish ⟨some 0, some "i", "n"⟩ [7] 0 .performed, .cancel .lost,
      .complete ⟨some 0, some "i", "n"⟩ ⟨.succeeded, rfl, some [7, 8]⟩ 0 .performed, .land 0]
        submittedJob = some s ∧ s.document.status = .succeeded ∧ s.document.results = [7, 8] :=
    ⟨_, rfl, rfl, rfl⟩
  obtain ⟨s, hs, hst, hresults⟩ := hrun
  have hreach : Reachable JobInitial JobStep s := ⟨_, submittedJob_initial, runActs_steps hs⟩
  obtain ⟨-, hterminal, -, -, hworker⟩ := job_lifecycle s hreach
  obtain ⟨worker, hw, -⟩ := hworker hst
  exact ⟨s, hreach, hst, hresults, ⟨worker, hw⟩, hterminal (by rw [hst]; rfl)⟩

/-- A publication is made while the lease runs and applied after it has expired. -/
theorem published_after_expiry : ¬ ∀ s : JobState Nat, Reachable JobInitial JobStep s →
    (s.db.store.terminals.length ≤ 1 ∧
      (s.document.status.active = false →
        ∀ t, ReflTransGen JobStep s t → t.document.status = s.document.status)) ∧
    (∀ t, JobStep s t → ∀ write, t.db.store.writes = write :: s.db.store.writes →
      Owns s.document write.handle s.clock) ∧
    (s.document.status = .succeeded → ∃ worker, s.db.store.completedBy = some worker ∧
      ∀ publisher, s.db.store.publishedBy = some publisher → publisher = worker) := by
  intro hclaim
  have hrun : ∃ s t write, runActs JobAct.apply ([.claim "i" "n" 0 .performed,
      .publish ⟨some 0, some "i", "n"⟩ [7] 0 .lost] ++ List.replicate 90 .tick)
        submittedJob = some s ∧ (JobAct.land 0).apply s = some t ∧
      t.db.store.writes = write :: s.db.store.writes ∧ s.document.leaseUntil = some 90 ∧
      s.clock = 90 :=
    ⟨_, _, _, rfl, rfl, rfl, rfl, rfl⟩
  obtain ⟨s, t, write, hs, ht, hw, hlease, hclock⟩ := hrun
  have hreach : Reachable JobInitial JobStep s := ⟨_, submittedJob_initial, runActs_steps hs⟩
  obtain ⟨leaseUntil, hl, hlt⟩ := ((hclaim s hreach).2.1 t ⟨_, ht⟩ write hw).leaseUntil
  rw [hlease, Option.some.injEq] at hl
  omega

end CameraLogs.Logs
