import CameraLogs.Resources.HealthProbe
import Mathlib.Data.Option.Basic

/-!
# Results in order

The revision of a device counts its history: a claim, a committed result and an edit raise it by
one, and nothing else touches it. A call that has read the device keeps the revision it has
read, so its result meets the filter only while the history is as long as it was then
(`SnapshotOk`). Hence every result in the history was read right before it, and a
periodic one follows directly on its own claim (`HistoryOk`).

The count of failures needs the same: what a periodic result writes is one more than the
count at its claim, which is the count at the commit.
-/

namespace CameraLogs.Resources

open CameraLogs.Lib

variable {μ : Type} {s t : HealthState μ} {document : ResourceDocument μ}
  {written : ResourceDocument μ} {snapshot : HealthSnapshot μ} {events history : List HealthEvent} {i : CallId} {readAt : Nat}

/-- The revision after so many changes: the field is missing until the first one. -/
def revisionOf (changes : Nat) : Option Nat := if changes = 0 then none else some changes

@[simp] theorem revisionOf_getD (changes : Nat) : (revisionOf changes).getD 0 = changes := by
  unfold revisionOf
  split
  next h => rw [h]; rfl
  next => rfl

theorem revisionOf_succ (changes : Nat) : revisionOf (changes + 1) = some (changes + 1) :=
  if_neg (Nat.succ_ne_zero changes)

theorem revisionOf_inj {n m : Nat} (h : revisionOf n = revisionOf m) : n = m := by
  rw [← revisionOf_getD n, h, revisionOf_getD]

/-- The document agrees with the history. -/
structure DocumentOk (document : ResourceDocument μ) (history : List HealthEvent) : Prop where
  revision : document.healthRevision = revisionOf history.length
  failures : document.healthFailureCount.getD 0 = failuresSince history

/-- What may come next in a history: a claim with a fresh token, a result that was read
when the history was as it is now, or an edit. -/
def EventOk (history : List HealthEvent) : HealthEvent → Prop
  | .claim token => .claim token ∉ history
  | .result committed => committed.readAt = history.length ∧
    ∀ token, committed.token = some token → history.head? = some (.claim token)
  | .edit => True

def HistoryOk : List HealthEvent → Prop
  | [] => True
  | event :: earlier => EventOk earlier event ∧ HistoryOk earlier

/-- A call knows the device as it was when the history had the length `readAt`. -/
structure SnapshotOk (document : ResourceDocument μ) (history : List HealthEvent)
    (snapshot : HealthSnapshot μ) (readAt : Nat) : Prop where
  le : readAt ≤ history.length
  guarded : snapshot.manualHealthResult = true ∨ snapshot.healthLeaseToken.isSome = true
  revision : snapshot.healthRevision = revisionOf readAt
  failures : readAt = history.length →
    snapshot.healthFailureCount.getD 0 = failuresSince history
  credentials : readAt = history.length → snapshot.credentials = document.credentials
  claimed : readAt = history.length → ∀ token, snapshot.claim = some token →
    history.head? = some (.claim token)

/-- A device that was listed is at a revision of the past. -/
def ItemOk (history : List HealthEvent) (item : ResourceDocument μ) : Prop :=
  ∃ changes ≤ history.length, item.healthRevision = revisionOf changes

def CallOk (document : ResourceDocument μ) (history : List HealthEvent) : HealthCall μ → Prop
  | .listed item => ItemOk history item
  | .claiming item _ => ItemOk history item
  | .testing snapshot readAt => SnapshotOk document history snapshot readAt
  | .committing snapshot readAt _ => SnapshotOk document history snapshot readAt
  | .editing _ => True
  | .returned => True

/-- A write of the document: with at most one event, and the credentials stay unless there
is one. A result has tested the credentials that are there. -/
structure Landing (document : ResourceDocument μ) (history : List HealthEvent)
    (written : ResourceDocument μ) (events : List HealthEvent) : Prop where
  agrees : DocumentOk written (events ++ history)
  events : (events = [] ∧ written.credentials = document.credentials) ∨
    ∃ event, events = [event] ∧ EventOk history event ∧
      ∀ committed, event = .result committed → committed.tested = document.credentials

structure AttemptOk (resource : Versioned (ResourceDocument μ)) (history : List HealthEvent)
    (attempt : Attempt μ) : Prop where
  seen : Versioned.Seen attempt.seen resource
  lands : attempt.seen.version = resource.version →
    Landing resource.value history attempt.written attempt.events

structure HealthInv (s : HealthState μ) : Prop where
  document : DocumentOk s.resource.value s.history
  history : HistoryOk s.history
  calls : ∀ i call, s.calls i = some call → CallOk s.resource.value s.history call
  attempts : ∀ attempt ∈ s.attempts, AttemptOk s.resource s.history attempt

/-! ## Histories -/

theorem HistoryOk.split {later earlier : List HealthEvent} {event : HealthEvent}
    (h : HistoryOk (later ++ event :: earlier)) : EventOk earlier event := by
  induction later with
  | nil => exact h.1
  | cons last later ih => exact ih h.2

/-- Without a claim there is no result under its token. -/
theorem HistoryOk.no_result {token : LeaseToken} (h : HistoryOk history)
    (hclaim : .claim token ∉ history) :
    ∀ committed, .result committed ∈ history → committed.token ≠ some token := by
  intro committed hmem htoken
  obtain ⟨later, earlier, rfl⟩ := List.append_of_mem hmem
  have hhead : earlier.head? = some (.claim token) := h.split.2 token htoken
  have hmem' : HealthEvent.claim token ∈ earlier := List.mem_of_mem_head? hhead
  exact hclaim (List.mem_append_right _ (List.mem_cons_of_mem _ hmem'))

/-- The results that were committed under a token. -/
def resultsOf (token : LeaseToken) (history : List HealthEvent) : List HealthEvent :=
  history.filter fun event =>
    match event with
    | .result committed => committed.token = some token
    | _ => false

theorem resultsOf_eq_nil {token : LeaseToken} (h : HistoryOk history)
    (hclaim : .claim token ∉ history) : resultsOf token history = [] := by
  rw [resultsOf, List.filter_eq_nil_iff]
  intro event hmem
  cases event with
  | claim other => simp
  | result committed => simpa using h.no_result hclaim committed hmem
  | edit => simp

/-- A token is good for one result: the claim it follows is the only one. -/
theorem length_resultsOf {token : LeaseToken} (h : HistoryOk history) :
    (resultsOf token history).length ≤ 1 := by
  induction history with
  | nil => simp [resultsOf]
  | cons event earlier ih =>
    obtain ⟨hevent, hearlier⟩ := h
    cases event with
    | claim other => exact ih hearlier
    | edit => exact ih hearlier
    | result committed =>
      by_cases htoken : committed.token = some token
      · obtain ⟨rest, rfl⟩ : ∃ rest, earlier = .claim token :: rest :=
          List.head?_eq_some_iff.1 (hevent.2 token htoken)
        have hnone : resultsOf token rest = [] := resultsOf_eq_nil hearlier.2 hearlier.1
        have hskip : resultsOf token (.claim token :: rest) = resultsOf token rest := rfl
        have hcons : resultsOf token (.result committed :: .claim token :: rest) =
            .result committed :: resultsOf token (.claim token :: rest) := by
          simp [resultsOf, htoken]
        rw [hcons, hskip, hnone]
        exact Nat.le_refl 1
      · have hskip : resultsOf token (.result committed :: earlier) =
            resultsOf token earlier := by
          simp [resultsOf, htoken]
        rw [hskip]
        exact ih hearlier

/-! ## The writes -/

theorem ItemOk.after {item : ResourceDocument μ} (h : ItemOk history item) :
    ItemOk (events ++ history) item := by
  obtain ⟨changes, hle, hrevision⟩ := h
  refine ⟨changes, ?_, hrevision⟩
  rw [List.length_append]
  omega

/-- A call that read the device before an event knows nothing of it any more. -/
theorem SnapshotOk.after (h : SnapshotOk document history snapshot readAt)
    (hlanding : Landing document history written events) :
    SnapshotOk written (events ++ history) snapshot readAt := by
  obtain ⟨rfl, hcredentials⟩ | ⟨event, rfl, -, -⟩ := hlanding.events
  · exact ⟨h.le, h.guarded, h.revision, h.failures,
      fun hread => (h.credentials hread).trans hcredentials.symm, h.claimed⟩
  · have hlt : readAt < (event :: history).length := Nat.lt_succ_of_le h.le
    have hne : readAt ≠ ([event] ++ history).length := Nat.ne_of_lt hlt
    exact ⟨Nat.le_of_lt hlt, h.guarded, h.revision, fun hread => absurd hread hne,
      fun hread => absurd hread hne, fun hread => absurd hread hne⟩

theorem CallOk.after {call : HealthCall μ} (h : CallOk document history call)
    (hlanding : Landing document history written events) :
    CallOk written (events ++ history) call := by
  cases call with
  | listed item => exact ItemOk.after h
  | claiming item claimedAt => exact ItemOk.after h
  | testing snapshot readAt => exact SnapshotOk.after h hlanding
  | committing snapshot readAt result => exact SnapshotOk.after h hlanding
  | editing edit => trivial
  | returned => trivial

/-- An attempt that has not landed when the document is written never lands. -/
theorem AttemptOk.after {attempt : Attempt μ} {resource : Versioned (ResourceDocument μ)}
    (h : AttemptOk resource history attempt) :
    AttemptOk (resource.write written) (events ++ history) attempt where
  seen := h.seen.write
  lands := by
    intro hversion
    have hle : attempt.seen.version ≤ resource.version := h.seen.le
    have hwritten : attempt.seen.version = resource.version + 1 := hversion
    omega

theorem HealthInv.withEvent (h : HealthInv s)
    (hlanding : Landing s.resource.value s.history written events) :
    HealthInv (s.withEvent written events) where
  document := hlanding.agrees
  history := by
    show HistoryOk (events ++ s.history)
    obtain ⟨rfl, -⟩ | ⟨event, rfl, hevent, -⟩ := hlanding.events
    · exact h.history
    · exact ⟨hevent, h.history⟩
  calls := fun i call hcall => (h.calls i call hcall).after hlanding
  attempts := fun attempt hmem => (h.attempts attempt hmem).after

theorem HealthInv.setCall {call : HealthCall μ} (h : HealthInv s)
    (hcall : CallOk s.resource.value s.history call) : HealthInv (s.setCall i call) where
  document := h.document
  history := h.history
  calls := by
    intro j call' hcall'
    show CallOk s.resource.value s.history call'
    by_cases hj : j = i
    · subst hj
      have he : call' = call := by
        simpa [HealthState.setCall, eq_comm] using hcall'
      rw [he]
      exact hcall
    · exact h.calls j call' (by simpa [HealthState.setCall, hj] using hcall')
  attempts := h.attempts

theorem HealthInv.pushAttempt {attempt : Attempt μ} (h : HealthInv s)
    (hattempt : AttemptOk s.resource s.history attempt) :
    HealthInv { s with attempts := attempt :: s.attempts } where
  document := h.document
  history := h.history
  calls := h.calls
  attempts := by
    intro other hmem
    obtain rfl | hmem := List.mem_cons.1 hmem
    · exact hattempt
    · exact h.attempts other hmem

/-! ## The claim, the result and the edit -/

/-- The filter of a claim finds the device at the revision it was listed with. -/
theorem claimFilter_length {item : ResourceDocument μ} {claimedAt changes : Nat}
    (hdocument : DocumentOk document history) (hle : changes ≤ history.length)
    (hitem : item.healthRevision = revisionOf changes)
    (h : claimFilter item claimedAt document = true) : changes = history.length := by
  simp only [claimFilter, hdocument.revision, hitem, revisionOf_getD, Bool.and_eq_true,
    Bool.or_eq_true, decide_eq_true_eq, Option.isNone_iff_eq_none] at h
  obtain hsame | hmissing := h.1.2
  · rw [← revisionOf_getD history.length, hsame]
    rfl
  · -- without a revision there has been no change at all
    have hzero : history.length = 0 := by
      rw [← revisionOf_getD history.length, hmissing]
      rfl
    omega

theorem claim_lands {item : ResourceDocument μ} {claimedAt : Nat} {token : LeaseToken}
    (hdocument : DocumentOk document history) (hitem : ItemOk history item)
    (hfresh : .claim token ∉ history) (hfilter : claimFilter item claimedAt document = true) :
    Landing document history (claimedDocument claimedAt token document) [.claim token] ∧
    SnapshotOk (claimedDocument claimedAt token document) (.claim token :: history)
      (claimedSnapshot item claimedAt token document) (history.length + 1) := by
  obtain ⟨changes, hle, hrevision⟩ := hitem
  have hchanges : changes = history.length := claimFilter_length hdocument hle hrevision hfilter
  refine ⟨⟨⟨?_, hdocument.failures⟩, .inr ⟨_, rfl, hfresh, fun _ he => by cases he⟩⟩, ?_⟩
  · show some (document.healthRevision.getD 0 + 1) = revisionOf (history.length + 1)
    rw [hdocument.revision, revisionOf_getD, revisionOf_succ]
  · refine ⟨Nat.le_refl _, .inr rfl, ?_, fun _ => hdocument.failures, fun _ => rfl, ?_⟩
    · show some (item.healthRevision.getD 0 + 1) = revisionOf (history.length + 1)
      rw [hrevision, hchanges, revisionOf_getD, revisionOf_succ]
    · intro _ token' htoken
      cases htoken
      rfl

/-- A result meets its filter only while nothing has happened since its device was read. -/
theorem resultFilter_length (hsnapshot : SnapshotOk document history snapshot readAt)
    (hdocument : DocumentOk document history) (h : resultFilter snapshot document = true) :
    readAt = history.length := by
  have hsame : document.healthRevision = snapshot.healthRevision := by
    simp only [resultFilter, Bool.and_eq_true] at h
    obtain ⟨-, hguard⟩ := h
    split at hguard
    · simp only [decide_eq_true_eq] at hguard
      exact hguard.2.2
    next hperiodic =>
      have hleased : snapshot.healthLeaseToken.isSome = true :=
        hsnapshot.guarded.resolve_left hperiodic
      simp only [hleased, if_true, decide_eq_true_eq] at hguard
      exact hguard.1
  rw [hdocument.revision, hsnapshot.revision] at hsame
  exact (revisionOf_inj hsame).symm

/-- The count a result writes is the count of the history it makes. -/
theorem resultChanges_failures (hsnapshot : SnapshotOk document history snapshot readAt)
    (hread : readAt = history.length) (timestamp : Nat) (result : ProbeResult μ) :
    (resultChanges timestamp snapshot result).healthFailureCount =
      failuresSince (.result ⟨i, snapshot.claim, readAt, snapshot.credentials,
        result.accepted⟩ :: history) := by
  have hcount : snapshot.healthFailureCount.getD 0 = failuresSince history :=
    hsnapshot.failures hread
  have hperiodic : snapshot.claim.isSome = !snapshot.manualHealthResult := by
    unfold HealthSnapshot.claim
    split
    next hmanual => rw [hmanual]; rfl
    next hmanual =>
      rw [hsnapshot.guarded.resolve_left hmanual, Bool.eq_false_iff.2 hmanual]
      rfl
  have hfailure : ∀ status, (failureChanges timestamp snapshot status
      (!snapshot.manualHealthResult)).healthFailureCount =
      if snapshot.claim.isSome then failuresSince history + 1 else failuresSince history := by
    intro status
    rw [hperiodic, ← hcount]
    rfl
  cases result with
  | success metadata => rfl
  | authFailed => exact hfailure _
  | offline => exact hfailure _
  | error => exact hfailure _

theorem attemptResult_ok {result : ProbeResult μ} {attempt : Attempt μ}
    (hdocument : DocumentOk s.resource.value s.history)
    (hsnapshot : SnapshotOk s.resource.value s.history snapshot readAt)
    (h : s.attemptResult i snapshot readAt result = some attempt) :
    AttemptOk s.resource s.history attempt := by
  obtain ⟨written, hwritten, rfl⟩ := Option.map_eq_some_iff.1 h
  unfold commitHealthResult at hwritten
  split at hwritten
  next hfilter =>
    cases hwritten
    have hread : readAt = s.history.length := resultFilter_length hsnapshot hdocument hfilter
    refine ⟨Versioned.seen_refl _, fun _ => ⟨⟨?_, ?_⟩, .inr ⟨_, rfl, ⟨hread, ?_⟩, ?_⟩⟩⟩
    · show some (s.resource.value.healthRevision.getD 0 + 1) = revisionOf (s.history.length + 1)
      rw [hdocument.revision, revisionOf_getD, revisionOf_succ]
    · exact resultChanges_failures hsnapshot hread s.now result
    · exact hsnapshot.claimed hread
    · intro committed he
      cases he
      exact hsnapshot.credentials hread
  next => cases hwritten

theorem attemptEdit_ok {edit : ResourceEdit μ} {attempt : Attempt μ}
    (hdocument : DocumentOk s.resource.value s.history)
    (h : s.attemptEdit edit = some attempt) : AttemptOk s.resource s.history attempt := by
  obtain ⟨written, hwritten, rfl⟩ := Option.map_eq_some_iff.1 h
  unfold editResource at hwritten
  split at hwritten
  · split at hwritten
    next hnetwork =>
      cases hwritten
      rw [if_pos hnetwork]
      refine ⟨Versioned.seen_refl _, fun _ => ⟨⟨?_, rfl⟩, .inr ⟨_, rfl, trivial, ?_⟩⟩⟩
      · show some (s.resource.value.healthRevision.getD 0 + 1) = revisionOf (s.history.length + 1)
        rw [hdocument.revision, revisionOf_getD, revisionOf_succ]
      · intro committed he
        cases he
    next hserial =>
      cases hwritten
      rw [if_neg hserial]
      exact ⟨Versioned.seen_refl _, fun _ => ⟨⟨hdocument.revision, hdocument.failures⟩,
        .inl ⟨rfl, rfl⟩⟩⟩
  · cases hwritten

/-! ## The run -/

/-- The document has been left alone, or written by a landing. -/
def Moved (s t : HealthState μ) : Prop :=
  (t.resource = s.resource ∧ t.history = s.history) ∨
    ∃ written events, Landing s.resource.value s.history written events ∧
      t.resource = s.resource.write written ∧ t.history = events ++ s.history

theorem HealthInv.step {act : HealthAct μ} (h : HealthInv s) (hstep : act.apply s = some t) :
    HealthInv t ∧ Moved s t := by
  have hnow : ItemOk s.history s.resource.value :=
    ⟨_, Nat.le_refl _, h.document.revision⟩
  cases act with
  | list i =>
    obtain ⟨_, -, he⟩ := Option.bind_eq_some_iff.1 hstep
    cases he
    exact ⟨h.setCall hnow, .inl ⟨rfl, rfl⟩⟩
  | readClock i =>
    simp only [HealthAct.apply] at hstep
    split at hstep
    next item hcall =>
      have hitem : ItemOk s.history item := h.calls i _ hcall
      cases hstep
      exact ⟨h.setCall hitem, .inl ⟨rfl, rfl⟩⟩
    next => cases hstep
  | claim i token =>
    simp only [HealthAct.apply] at hstep
    split at hstep
    next item claimedAt hcall =>
      obtain ⟨_, hguard, hstep⟩ := Option.bind_eq_some_iff.1 hstep
      have hfresh : .claim token ∉ s.history := of_guard hguard
      split at hstep
      next hfilter =>
        cases hstep
        obtain ⟨hlanding, hsnapshot⟩ :=
          claim_lands h.document (h.calls i _ hcall) hfresh hfilter
        exact ⟨(h.withEvent hlanding).setCall hsnapshot, .inr ⟨_, _, hlanding, rfl, rfl⟩⟩
      next =>
        cases hstep
        exact ⟨h.setCall trivial, .inl ⟨rfl, rfl⟩⟩
    next => cases hstep
  | readManual i =>
    obtain ⟨_, -, he⟩ := Option.bind_eq_some_iff.1 hstep
    cases he
    refine ⟨h.setCall ?_, .inl ⟨rfl, rfl⟩⟩
    exact ⟨Nat.le_refl _, .inl rfl, h.document.revision, fun _ => h.document.failures,
      fun _ => rfl, fun _ token htoken => by cases htoken⟩
  | test i result =>
    simp only [HealthAct.apply] at hstep
    split at hstep
    next snapshot readAt hcall =>
      have hsnapshot : SnapshotOk s.resource.value s.history snapshot readAt :=
        h.calls i _ hcall
      cases hstep
      exact ⟨h.setCall hsnapshot, .inl ⟨rfl, rfl⟩⟩
    next => cases hstep
  | readEdit i edit =>
    obtain ⟨_, -, he⟩ := Option.bind_eq_some_iff.1 hstep
    cases he
    exact ⟨h.setCall trivial, .inl ⟨rfl, rfl⟩⟩
  | begin_ i =>
    simp only [HealthAct.apply] at hstep
    split at hstep
    next snapshot readAt result hcall =>
      split at hstep
      next attempt hattempt =>
        cases hstep
        exact ⟨h.pushAttempt (attemptResult_ok h.document (h.calls i _ hcall) hattempt),
          .inl ⟨rfl, rfl⟩⟩
      next =>
        cases hstep
        exact ⟨h.setCall trivial, .inl ⟨rfl, rfl⟩⟩
    next edit hcall =>
      split at hstep
      next attempt hattempt =>
        cases hstep
        exact ⟨h.pushAttempt (attemptEdit_ok h.document hattempt), .inl ⟨rfl, rfl⟩⟩
      next =>
        cases hstep
        exact ⟨h.setCall trivial, .inl ⟨rfl, rfl⟩⟩
    next => cases hstep
  | commit k =>
    obtain ⟨attempt, hattempt, hstep⟩ := Option.bind_eq_some_iff.1 hstep
    obtain ⟨_, hguard, he⟩ := Option.bind_eq_some_iff.1 hstep
    cases he
    have hlanding := (h.attempts attempt (List.mem_of_getElem? hattempt)).lands (of_guard hguard)
    exact ⟨h.withEvent hlanding, .inr ⟨_, _, hlanding, rfl, rfl⟩⟩
  | write version deleted nextHealthCheckAt =>
    cases hstep
    have hlanding : Landing s.resource.value s.history
        { s.resource.value with version, deleted, nextHealthCheckAt } [] :=
      ⟨⟨h.document.revision, h.document.failures⟩, .inl ⟨rfl, rfl⟩⟩
    exact ⟨h.withEvent hlanding, .inr ⟨_, _, hlanding, rfl, rfl⟩⟩
  | wait waiting =>
    cases hstep
    exact ⟨⟨h.document, h.history, h.calls, h.attempts⟩, .inl ⟨rfl, rfl⟩⟩
  | tick seconds =>
    cases hstep
    exact ⟨⟨h.document, h.history, h.calls, h.attempts⟩, .inl ⟨rfl, rfl⟩⟩

theorem healthInv (h : ReachableHealth s) : HealthInv s := by
  refine Reachable.invariant (I := HealthInv) ?_ ?_ h
  · intro s₀ hstart
    refine ⟨⟨?_, ?_⟩, ?_, ?_, ?_⟩
    · rw [hstart.history]
      exact hstart.revision
    · rw [hstart.history]
      exact hstart.failures
    · rw [hstart.history]
      trivial
    · intro i call hcall
      rw [hstart.calls] at hcall
      cases hcall
    · intro attempt hmem
      rw [hstart.attempts] at hmem
      cases hmem
  · intro s₁ s₂ ⟨act, hact⟩ hinv
    exact (hinv.step hact).1

/-- Results are committed in order: a result that is committed has tested the credentials
the device has, and nothing has changed the revision since they were read; a claim is
followed by its own result or by none; and the count of failures is the one of the history,
whose length the revision counts. -/
theorem health_ordered (h : ReachableHealth s) :
    (∀ later committed earlier, s.history = later ++ .result committed :: earlier →
      committed.readAt = earlier.length ∧
      ∀ token, committed.token = some token → earlier.head? = some (.claim token)) ∧
    (∀ t committed, HealthStep s t → t.history = .result committed :: s.history →
      committed.tested = s.resource.value.credentials) ∧
    (∀ token, (resultsOf token s.history).length ≤ 1) ∧
    s.resource.value.healthRevision = revisionOf s.history.length ∧
    s.resource.value.healthFailureCount.getD 0 = failuresSince s.history := by
  have hinv : HealthInv s := healthInv h
  refine ⟨?_, ?_, fun token => length_resultsOf hinv.history, hinv.document.revision,
    hinv.document.failures⟩
  · intro later committed earlier hsplit
    have hhistory : HistoryOk (later ++ .result committed :: earlier) := hsplit ▸ hinv.history
    exact hhistory.split
  · intro t committed ⟨act, hact⟩ hnew
    obtain ⟨-, ⟨-, hsame⟩ | ⟨written, events, hlanding, -, hhistory⟩⟩ := hinv.step hact
    · rw [hsame] at hnew
      exact absurd hnew.symm (List.cons_ne_self _ _)
    · have hevents : events = [.result committed] :=
        List.append_cancel_right (hhistory.symm.trans hnew)
      obtain ⟨hnone, -⟩ | ⟨event, hevent, -, htested⟩ := hlanding.events
      · rw [hnone] at hevents
        cases hevents
      · rw [hevent] at hevents
        exact htested committed (List.singleton_inj.1 hevents)

/-- A device that was just created. -/
def createdDevice : HealthState Unit where
  resource := ⟨⟨1, true, false, ⟨"admin", "secret", "digest"⟩, (), .online, some 0, some 60,
    none, none, none, none, none⟩, 0⟩
  waiting := []
  now := 60
  calls := fun _ => none
  attempts := []
  history := []

/-- A user authenticates by hand while a probe is under way, and his answer comes second. -/
theorem health_ordered_late : ∃ s : HealthState Unit, ReachableHealth s ∧
    (s.calls 1).isSome = true ∧
    s.history = [.result ⟨0, some 7, 1, ⟨"admin", "secret", "digest"⟩, false⟩, .claim 7] ∧
    s.resource.value.healthFailureCount.getD 0 = 1 := by
  have hrun : ∃ s : HealthState Unit, runActs HealthAct.apply [.list 0, .readClock 0, .claim 0 7,
      .readManual 1, .test 0 .authFailed, .begin_ 0, .begin_ 0, .commit 0, .test 1 (.success ()),
      .begin_ 1] createdDevice = some s ∧ (s.calls 1).isSome = true ∧
      s.history = [.result ⟨0, some 7, 1, ⟨"admin", "secret", "digest"⟩, false⟩, .claim 7] :=
    ⟨_, rfl, rfl, rfl⟩
  obtain ⟨s, hs, hcall, hhistory⟩ := hrun
  have hreach : ReachableHealth s :=
    ⟨createdDevice, ⟨rfl, rfl, rfl, rfl, rfl⟩, runActs_steps hs⟩
  obtain ⟨-, -, -, -, hfailures⟩ := health_ordered hreach
  refine ⟨s, hreach, hcall, hhistory, ?_⟩
  rw [hfailures, hhistory]
  rfl

end CameraLogs.Resources
