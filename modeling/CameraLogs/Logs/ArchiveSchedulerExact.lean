import CameraLogs.Logs.ArchiveScheduler

/-!
# The books of the scheduler are exact

`Booked` ties the books to the jobs that are pending: the scheduled identities and the keys
of the futures are theirs, each once, and the two retry maps have one list of keys. A
callback takes its own job out and leaves the rest booked.

That holds in every state of a run in which nothing is admitted while a close that has timed
out is under way. Such an admission is completed before its future is entered, and the future
stays behind.
-/

namespace CameraLogs.Logs

open CameraLogs.Lib

variable {π : Type} [DecidableEq π] {books : ArchiveBooks π} {s t : ArchiveScheduler π}

/-! ## The retry maps -/

structure RetryOk (books : ArchiveBooks π) : Prop where
  keys : books.retryNotBefore.map Prod.fst = books.retryAttempts.map Prod.fst
  nodup : (books.retryNotBefore.map Prod.fst).Nodup
  cap : books.retryNotBefore.length ≤ MAX_ARCHIVE_RETRY_ENTRIES

theorem map_without (identity : π) (entries : List (π × Nat)) :
    (without identity entries).map Prod.fst =
      (entries.map Prod.fst).filter fun key => key ≠ identity := by
  rw [List.filter_map]
  rfl

theorem RetryOk.forgetRetry (h : RetryOk books) (identity : π) :
    RetryOk (books.forgetRetry identity) := by
  refine ⟨?_, ?_, ?_⟩
  · simp only [ArchiveBooks.forgetRetry, map_without, h.keys]
  · simp only [ArchiveBooks.forgetRetry, map_without]
    exact h.nodup.filter _
  · exact (List.length_filter_le _ _).trans h.cap

/-- Dropping the oldest key of a dictionary leaves the rest of its keys. -/
theorem filter_head {oldest : π} {rest : List π} (h : (oldest :: rest).Nodup) :
    (oldest :: rest).filter (fun key => key ≠ oldest) = rest := by
  have hnew := (List.nodup_cons.mp h).1
  rw [List.filter_cons_of_neg (by simp)]
  refine List.filter_eq_self.mpr fun key hkey => decide_eq_true fun heq => hnew ?_
  exact heq ▸ hkey

/-- The attempts of an archive have been counted, and it is not kept off yet. -/
structure RetryCounted (identity : π) (books : ArchiveBooks π) : Prop where
  old : identity ∈ books.retryNotBefore.map Prod.fst →
    books.retryAttempts.map Prod.fst = books.retryNotBefore.map Prod.fst
  new : identity ∉ books.retryNotBefore.map Prod.fst →
    books.retryAttempts.map Prod.fst = books.retryNotBefore.map Prod.fst ++ [identity]
  nodup : (books.retryNotBefore.map Prod.fst).Nodup
  cap : books.retryNotBefore.length ≤ MAX_ARCHIVE_RETRY_ENTRIES

theorem RetryOk.countAttempt (h : RetryOk books) (identity : π) :
    RetryCounted identity (books.countAttempt identity) := by
  refine ⟨fun hmem => ?_, fun hmem => ?_, h.nodup, h.cap⟩
  · rw [ArchiveBooks.countAttempt, Dict.map_upsert_of_mem (h.keys ▸ hmem), h.keys]
  · rw [ArchiveBooks.countAttempt, Dict.upsert_of_not_mem (h.keys ▸ hmem), List.map_append, h.keys]
    rfl

theorem RetryCounted.makeRoom {identity : π} (h : RetryCounted identity books) :
    RetryCounted identity (books.makeRoom identity) ∧
      (identity ∈ (books.makeRoom identity).retryNotBefore.map Prod.fst ∨
        (books.makeRoom identity).retryNotBefore.length < MAX_ARCHIVE_RETRY_ENTRIES) := by
  simp only [ArchiveBooks.makeRoom]
  split
  · rename_i oldest rest hretry
    split
    · rename_i hfull
      -- the oldest key goes from both maps, and the new one is another
      obtain ⟨hnew, -⟩ := hfull
      have hkeys := h.new hnew
      have hnodup := h.nodup
      have hcap := h.cap
      rw [hretry, List.map_cons] at hkeys hnodup hnew
      rw [hretry, List.length_cons] at hcap
      have hne : identity ≠ oldest.1 := fun heq => hnew (heq ▸ List.mem_cons_self)
      have hleft : (books.forgetRetry oldest.1).retryNotBefore.map Prod.fst =
          rest.map Prod.fst := by
        rw [ArchiveBooks.forgetRetry, map_without, hretry, List.map_cons, filter_head hnodup]
      have hlength : (books.forgetRetry oldest.1).retryNotBefore.length = rest.length := by
        rw [← List.length_map Prod.fst, hleft, List.length_map]
      refine ⟨⟨fun hmem => ?_, fun _ => ?_, ?_, ?_⟩, .inr ?_⟩
      · rw [hleft] at hmem
        exact absurd (List.mem_cons_of_mem _ hmem) hnew
      · rw [hleft]
        rw [ArchiveBooks.forgetRetry, map_without, hkeys, List.filter_append, filter_head hnodup,
          List.filter_cons_of_pos (by simpa using hne)]
        rfl
      · rw [hleft]
        exact (List.nodup_cons.mp hnodup).2
      · rw [hlength]
        omega
      · rw [hlength]
        omega
    · rename_i hroom
      refine ⟨h, ?_⟩
      by_cases hmem : identity ∈ books.retryNotBefore.map Prod.fst
      · exact .inl hmem
      · exact .inr (Nat.lt_of_not_le fun hfull => hroom ⟨hmem, hfull⟩)
  · rename_i hretry
    refine ⟨h, .inr ?_⟩
    rw [hretry]
    exact Nat.lt_of_sub_eq_succ rfl

theorem RetryCounted.keepOff {identity : π} {notBefore : Nat} (h : RetryCounted identity books)
    (hroom : identity ∈ books.retryNotBefore.map Prod.fst ∨
      books.retryNotBefore.length < MAX_ARCHIVE_RETRY_ENTRIES) :
    RetryOk (books.keepOff identity notBefore) := by
  refine ⟨?_, Dict.nodup_upsert h.nodup, ?_⟩
  · by_cases hmem : identity ∈ books.retryNotBefore.map Prod.fst
    · rw [ArchiveBooks.keepOff, Dict.map_upsert_of_mem hmem, h.old hmem]
    · rw [ArchiveBooks.keepOff, Dict.upsert_of_not_mem hmem, List.map_append, h.new hmem]
      rfl
  · rw [ArchiveBooks.keepOff]
    by_cases hmem : identity ∈ books.retryNotBefore.map Prod.fst
    · rw [← List.length_map Prod.fst, Dict.map_upsert_of_mem hmem, List.length_map]
      exact h.cap
    · rw [Dict.upsert_of_not_mem hmem, List.length_append, List.length_singleton]
      exact hroom.resolve_left hmem

theorem RetryOk.noteFailure (h : RetryOk books) (identity : π) (tick : Nat) :
    RetryOk (books.noteFailure identity tick) := by
  have ⟨hcounted, hroom⟩ := (h.countAttempt identity).makeRoom
  exact hcounted.keepOff hroom

/-! ## What is booked -/

/-- The books say what is pending: its identities, each once, and its futures. -/
structure Booked (books : ArchiveBooks π) (pending : List (ArchiveJob π)) : Prop where
  identities : (pending.map (·.identity)).Nodup
  targets : ∀ identity, identity ∈ books.scheduledTargets ↔
    identity ∈ pending.map (·.identity)
  futures : books.scheduledFutures.Perm (pending.map fun job => (job.identity, job.token))
  retry : RetryOk books

omit [DecidableEq π] in
theorem Booked.withRetry {books' : ArchiveBooks π} {pending : List (ArchiveJob π)}
    (h : Booked books pending) (hretry : RetryOk books')
    (htargets : books'.scheduledTargets = books.scheduledTargets)
    (hfutures : books'.scheduledFutures = books.scheduledFutures) : Booked books' pending := by
  refine ⟨h.identities, ?_, ?_, hretry⟩
  · rw [htargets]
    exact h.targets
  · rw [hfutures]
    exact h.futures

theorem makeRoom_books (books : ArchiveBooks π) (identity : π) :
    (books.makeRoom identity).scheduledTargets = books.scheduledTargets ∧
      (books.makeRoom identity).scheduledFutures = books.scheduledFutures ∧
      (books.makeRoom identity).completed = books.completed := by
  simp only [ArchiveBooks.makeRoom]
  split
  · split
    · exact ⟨rfl, rfl, rfl⟩
    · exact ⟨rfl, rfl, rfl⟩
  · exact ⟨rfl, rfl, rfl⟩

theorem without_cons {identity : π} {token : Nat} {entries : List (π × Nat)}
    (hnew : identity ∉ entries.map Prod.fst) :
    without identity ((identity, token) :: entries) = entries := by
  rw [without, List.filter_cons_of_neg (by simp)]
  refine List.filter_eq_self.mpr fun entry hentry => decide_eq_true fun heq => hnew ?_
  exact heq ▸ List.mem_map_of_mem hentry

theorem Booked.release {job : ArchiveJob π} {rest : List (ArchiveJob π)}
    (h : Booked books (job :: rest)) : Booked (books.release job) rest := by
  have hnodup := h.identities
  rw [List.map_cons, List.nodup_cons] at hnodup
  refine ⟨hnodup.2, fun identity => ?_, ?_, ⟨h.retry.keys, h.retry.nodup, h.retry.cap⟩⟩
  · rw [ArchiveBooks.release, Finset.mem_erase, h.targets, List.map_cons, List.mem_cons]
    constructor
    · intro ⟨hne, hmem⟩
      exact hmem.resolve_left hne
    · intro hmem
      exact ⟨fun heq => hnodup.1 (heq ▸ hmem), .inr hmem⟩
  · have hnew : job.identity ∉ (rest.map fun job => (job.identity, job.token)).map Prod.fst := by
      rw [List.map_map]
      exact hnodup.1
    have hfilter := h.futures.filter fun entry => entry.1 ≠ job.identity
    rw [List.map_cons] at hfilter
    rwa [← without, ← without, without_cons hnew] at hfilter

/-- The callback of a pending job takes it out of the books. -/
theorem Booked.complete {job : ArchiveJob π} {rest : List (ArchiveJob π)}
    (outcome : ArchiveOutcome) (tick : Nat) (h : Booked books (job :: rest)) :
    Booked (books.complete job outcome tick) rest := by
  have hreleased := h.release
  cases outcome with
  | succeeded => exact hreleased.withRetry (hreleased.retry.forgetRetry job.identity) rfl rfl
  | cancelled => exact hreleased
  | failed =>
    have ⟨htargets, hfutures, _⟩ := makeRoom_books
      ((books.release job).countAttempt job.identity) job.identity
    exact hreleased.withRetry (hreleased.retry.noteFailure job.identity tick) htargets hfutures

theorem completed_complete (job : ArchiveJob π) (outcome : ArchiveOutcome) (tick : Nat) :
    (books.complete job outcome tick).completed = books.completed ++ [job.token] := by
  cases outcome with
  | succeeded | cancelled => rfl
  | failed =>
    exact (makeRoom_books ((books.release job).countAttempt job.identity) job.identity).2.2

/-- Giving up a queue runs the callback of each of its jobs. -/
theorem Booked.cancelAll {jobs : List (ArchiveJob π)}
    (h : Booked books (jobs.filter (·.callback))) :
    Booked (books.cancelAll jobs) [] ∧ (books.cancelAll jobs).completed =
      books.completed ++ (jobs.filter (·.callback)).map (·.token) := by
  induction jobs generalizing books with
  | nil => exact ⟨h, (List.append_nil _).symm⟩
  | cons job jobs ih =>
    cases hcallback : job.callback with
    | false =>
      have hsettle : books.cancelAll (job :: jobs) = books.cancelAll jobs := by
        simp [ArchiveBooks.cancelAll, ArchiveBooks.settle, hcallback]
      rw [List.filter_cons_of_neg (by simp [hcallback])] at h ⊢
      rw [hsettle]
      exact ih h
    | true =>
      have hsettle : books.cancelAll (job :: jobs) =
          (books.complete job .cancelled 0).cancelAll jobs := by
        simp [ArchiveBooks.cancelAll, ArchiveBooks.settle, hcallback]
      rw [List.filter_cons_of_pos hcallback] at h ⊢
      have ⟨hbooked, hcompleted⟩ := ih (h.complete .cancelled 0)
      rw [hsettle]
      refine ⟨hbooked, ?_⟩
      rw [hcompleted, completed_complete, List.map_cons, List.append_assoc,
        List.singleton_append]

/-! ## The invariant -/

/-- The jobs with a callback that are queued or running. -/
def pendingJobs (running : Option (ArchiveJob π)) (jobs : List (ArchiveJob π)) :
    List (ArchiveJob π) :=
  (running.toList ++ jobs).filter (·.callback)

def ArchiveScheduler.pending (s : ArchiveScheduler π) : List (ArchiveJob π) :=
  pendingJobs s.running s.archiveJobs

omit [DecidableEq π] in
theorem pendingJobs_append {running : Option (ArchiveJob π)} {jobs : List (ArchiveJob π)}
    {job : ArchiveJob π} (hcallback : job.callback = true) :
    pendingJobs running (jobs ++ [job]) = pendingJobs running jobs ++ [job] := by
  rw [pendingJobs, ← List.append_assoc, List.filter_append, List.filter_cons_of_pos hcallback]
  rfl

omit [DecidableEq π] in
theorem pendingJobs_append_plain {running : Option (ArchiveJob π)} {jobs : List (ArchiveJob π)}
    {job : ArchiveJob π} (hplain : job.callback = false) :
    pendingJobs running (jobs ++ [job]) = pendingJobs running jobs := by
  rw [pendingJobs, ← List.append_assoc, List.filter_append,
    List.filter_cons_of_neg (by simp [hplain]), List.filter_nil, List.append_nil]
  rfl

/-- Of the jobs admitted below a limit there are at most so many. -/
def CapsOk (pending : List (ArchiveJob π)) : Prop :=
  (∀ job ∈ pending, job.admissionLimit ≤ MAX_SCHEDULED_ARCHIVES) ∧
  ∀ limit, (pending.filter fun job => job.admissionLimit ≤ limit).length ≤ limit

structure SchedulerInv (s : ArchiveScheduler π) : Prop where
  booked : Booked s.books s.pending
  caps : CapsOk s.pending
  once : (s.books.completed ++ s.pending.map (·.token)).Perm s.admitted
  admitted : s.admitted.Nodup ∧ ∀ token ∈ s.admitted, token < s.nextToken
  drained : s.drainedAt ≤ s.nextToken ∧ ∀ job ∈ s.pending, s.drainedAt ≤ job.token
  busy : s.running ≠ none → s.dispatcher = .started
  queued : s.archiveJobs ≠ [] → s.dispatcher ≠ .absent
  closing : s.closing = true → s.close = .terminating ∨ (s.close = .pools ∧ s.pending = [])

namespace SchedulerInv

omit [DecidableEq π] in
theorem start (h : ArchiveStart s) : SchedulerInv s := by
  rw [h]
  have hretry : RetryOk (⟨∅, [], [], [], []⟩ : ArchiveBooks π) :=
    ⟨rfl, List.nodup_nil, Nat.zero_le _⟩
  exact ⟨⟨List.nodup_nil, by simp [ArchiveScheduler.pending, pendingJobs], .nil, hretry⟩, ⟨nofun, fun _ => Nat.zero_le _⟩,
    .nil, ⟨List.nodup_nil, nofun⟩, ⟨Nat.le_refl _, nofun⟩, nofun, nofun, nofun⟩

/-- As many are scheduled as are pending. -/
theorem card_targets (h : Booked books (s.pending)) :
    books.scheduledTargets.card = s.pending.length := by
  have hsame : books.scheduledTargets = (s.pending.map (·.identity)).toFinset := by
    ext identity
    rw [h.targets, List.mem_toFinset]
  rw [hsame, List.toFinset_card_of_nodup h.identities, List.length_map]

/-- The books with a new job at the end of what is pending. -/
theorem Booked.accept {pending : List (ArchiveJob π)} {job : ArchiveJob π}
    (h : Booked books pending) (hnew : job.identity ∉ books.scheduledTargets) :
    Booked { books with
      scheduledTargets := insert job.identity books.scheduledTargets
      scheduledFutures := Dict.upsert Prod.fst (job.identity, job.token) books.scheduledFutures }
      (pending ++ [job]) := by
  have hnotPending : job.identity ∉ pending.map (·.identity) := fun hmem =>
    hnew ((h.targets job.identity).mpr hmem)
  have hkeys : job.identity ∉ books.scheduledFutures.map Prod.fst := by
    intro hmem
    have := (h.futures.map Prod.fst).mem_iff.mp hmem
    rw [List.map_map] at this
    exact hnotPending this
  refine ⟨?_, fun identity => ?_, ?_, ⟨h.retry.keys, h.retry.nodup, h.retry.cap⟩⟩
  · rw [List.map_append, List.map_singleton, ← List.concat_eq_append]
    exact h.identities.concat hnotPending
  · rw [Finset.mem_insert, h.targets, List.map_append, List.mem_append, List.map_singleton,
      List.mem_singleton, or_comm]
  · rw [Dict.upsert_of_not_mem hkeys, List.map_append]
    exact h.futures.append_right _

theorem start_ne_absent (dispatcher : ArchiveDispatcher) : dispatcher.start ≠ .absent := by
  cases dispatcher <;> exact nofun

theorem accept (h : SchedulerInv s) (hopen : s.closing = false) {kind : ArchiveKind} {identity : π}
    {limit tick : Nat} (hlimit : limit ≤ MAX_SCHEDULED_ARCHIVES)
    (hadmits : s.Admits identity limit true tick) : SchedulerInv (s.accept kind identity limit) := by
  obtain ⟨-, hnew, -, hcard⟩ := hadmits
  have hpending : pendingJobs s.running (s.archiveJobs ++ [s.newJob kind identity limit true]) =
      s.pending ++ [s.newJob kind identity limit true] := pendingJobs_append rfl
  have hfresh : s.nextToken ∉ s.admitted := fun hmem =>
    Nat.lt_irrefl _ (h.admitted.2 s.nextToken hmem)
  rw [card_targets h.booked] at hcard
  simp only [ArchiveScheduler.accept, ArchiveScheduler.enqueue, hopen, Bool.false_eq_true, if_false]
  refine ⟨?_, ?_, ?_, ?_, ?_, ?_, ?_, ?_⟩
  · show Booked _ (pendingJobs _ _)
    rw [hpending]
    exact @Booked.accept π _ s.books s.pending (s.newJob kind identity limit true) h.booked hnew
  · show CapsOk (pendingJobs _ _)
    rw [hpending]
    refine ⟨fun job hjob => ?_, fun bound => ?_⟩
    · obtain hold | hnew := List.mem_append.mp hjob
      · exact h.caps.1 job hold
      · rw [List.mem_singleton.mp hnew]
        exact hlimit
    rw [List.filter_append, List.length_append]
    by_cases hbound : limit ≤ bound
    · have hall := List.length_filter_le (fun job : ArchiveJob π => job.admissionLimit ≤ bound)
        s.pending
      have hone := List.length_filter_le (fun job : ArchiveJob π => job.admissionLimit ≤ bound)
        [s.newJob kind identity limit true]
      rw [List.length_singleton] at hone
      omega
    · have hnone : [s.newJob kind identity limit true].filter
          (fun job => job.admissionLimit ≤ bound) = [] :=
        List.filter_cons_of_neg fun hle => hbound (of_decide_eq_true hle)
      rw [hnone]
      exact h.caps.2 bound
  · show (_ ++ (pendingJobs _ _).map _).Perm _
    rw [hpending, List.map_append, ← List.append_assoc]
    exact h.once.append_right _
  · refine ⟨?_, fun token htoken => ?_⟩
    · show (s.admitted ++ [s.nextToken]).Nodup
      rw [← List.concat_eq_append]
      exact h.admitted.1.concat hfresh
    · obtain hold | hnew := List.mem_append.mp htoken
      · exact Nat.lt_succ_of_lt (h.admitted.2 token hold)
      · rw [List.mem_singleton.mp hnew]
        exact Nat.lt_succ_self _
  · refine ⟨Nat.le_succ_of_le h.drained.1, fun job hjob => ?_⟩
    have hjob : job ∈ pendingJobs s.running
        (s.archiveJobs ++ [s.newJob kind identity limit true]) := hjob
    rw [hpending] at hjob
    obtain hold | hnew := List.mem_append.mp hjob
    · exact h.drained.2 job hold
    · rw [List.mem_singleton.mp hnew]
      exact h.drained.1
  · intro hrunning
    show s.dispatcher.start = .started
    rw [h.busy hrunning]
    rfl
  · intro _
    exact start_ne_absent s.dispatcher
  · nofun

/-- A job that is waited for is not pending in the books. -/
theorem compress (h : SchedulerInv s) {kind : ArchiveKind} {identity : π} :
    SchedulerInv (s.compress kind identity) := by
  simp only [ArchiveScheduler.compress, ArchiveScheduler.enqueue]
  split
  · exact ⟨h.booked, h.caps, h.once,
      ⟨h.admitted.1, fun token htoken => Nat.lt_succ_of_lt (h.admitted.2 token htoken)⟩,
      ⟨Nat.le_succ_of_le h.drained.1, h.drained.2⟩, h.busy, h.queued, h.closing⟩
  · have hpending : pendingJobs s.running (s.archiveJobs ++ [s.newJob kind identity 0 false]) =
        s.pending := pendingJobs_append_plain rfl
    refine ⟨?_, ?_, ?_, ⟨h.admitted.1, fun token htoken =>
      Nat.lt_succ_of_lt (h.admitted.2 token htoken)⟩, ⟨Nat.le_succ_of_le h.drained.1, ?_⟩, ?_,
      fun _ => start_ne_absent s.dispatcher, ?_⟩
    · show Booked _ (pendingJobs _ _)
      rw [hpending]
      exact h.booked
    · show CapsOk (pendingJobs _ _)
      rw [hpending]
      exact h.caps
    · show (_ ++ (pendingJobs _ _).map _).Perm _
      rw [hpending]
      exact h.once
    · show ∀ job ∈ pendingJobs _ _, _
      rw [hpending]
      exact h.drained.2
    · intro hrunning
      show s.dispatcher.start = .started
      rw [h.busy hrunning]
      rfl
    · intro hclosing
      rename_i hopen
      exact absurd hclosing hopen

/-- What an archive's schedule call does where it is not refused. -/
theorem scheduleArchive (h : SchedulerInv s) {kind : ArchiveKind} {identity : π} {limit tick : Nat}
    {pathExists : Bool} (hlimit : limit ≤ MAX_SCHEDULED_ARCHIVES)
    (hopen : ¬ (s.closing = true ∧ s.Admits identity limit pathExists tick)) :
    SchedulerInv (s.scheduleArchive kind identity limit pathExists tick) := by
  simp only [ArchiveScheduler.scheduleArchive]
  split
  · exact ⟨h.booked.withRetry (h.booked.retry.forgetRetry identity) rfl rfl, h.caps, h.once,
      h.admitted, h.drained, h.busy, h.queued, h.closing⟩
  · split
    · rename_i hadmits
      have hclosing : s.closing = false := by
        cases hclosing : s.closing with
        | false => rfl
        | true => exact absurd ⟨hclosing, hadmits⟩ hopen
      have hexists := hadmits.1
      subst hexists
      exact h.accept hclosing hlimit hadmits
    · exact h

omit [DecidableEq π] in
/-- Taking the next job leaves what is pending. -/
theorem dispatch (h : SchedulerInv s) (hidle : s.running = none) : SchedulerInv s.dispatch := by
  simp only [ArchiveScheduler.dispatch]
  split
  · rename_i job jobs hjobs
    have hpending : pendingJobs (some job) jobs = s.pending := by
      rw [ArchiveScheduler.pending, hidle, hjobs]
      rfl
    refine ⟨?_, ?_, ?_, h.admitted, ⟨h.drained.1, ?_⟩, fun _ => rfl, fun _ => nofun, ?_⟩
    · show Booked _ (pendingJobs _ _)
      rw [hpending]
      exact h.booked
    · show CapsOk (pendingJobs _ _)
      rw [hpending]
      exact h.caps
    · show (_ ++ (pendingJobs _ _).map _).Perm _
      rw [hpending]
      exact h.once
    · show ∀ job ∈ pendingJobs _ _, _
      rw [hpending]
      exact h.drained.2
    · intro hclosing
      obtain hterminating | ⟨hpools, hnone⟩ := h.closing hclosing
      · exact .inl hterminating
      · exact .inr ⟨hpools, hpending.trans hnone⟩
  · rename_i hnone
    exact ⟨h.booked, h.caps, h.once, h.admitted, h.drained,
      fun hrunning => absurd hidle hrunning, fun hqueued => absurd hnone hqueued, h.closing⟩

/-- The books after the job of the dispatcher, with the jobs that are left. -/
structure Settled (s : ArchiveScheduler π) (books : ArchiveBooks π)
    (pending : List (ArchiveJob π)) : Prop where
  booked : Booked books pending
  sublist : pending.Sublist s.pending
  once : (books.completed ++ pending.map (·.token)).Perm s.admitted

theorem settled_job (h : SchedulerInv s) {job : ArchiveJob π} (hrunning : s.running = some job)
    (outcome : ArchiveOutcome) (tick : Nat) :
    Settled s (s.books.settle job outcome tick) (pendingJobs none s.archiveJobs) := by
  have hpending : s.pending = (job :: s.archiveJobs).filter (·.callback) := by
    rw [ArchiveScheduler.pending, hrunning]
    rfl
  have hbooked := h.booked
  have honce := h.once
  cases hcallback : job.callback with
  | false =>
    rw [List.filter_cons_of_neg (by simp [hcallback])] at hpending
    rw [hpending] at hbooked honce
    rw [ArchiveBooks.settle, hcallback, if_neg Bool.false_ne_true]
    exact ⟨hbooked, hpending ▸ List.Sublist.refl _, honce⟩
  | true =>
    rw [List.filter_cons_of_pos hcallback] at hpending
    rw [hpending] at hbooked honce
    rw [ArchiveBooks.settle, hcallback, if_pos rfl]
    refine ⟨hbooked.complete outcome tick, hpending ▸ List.sublist_cons_self _ _, ?_⟩
    rw [completed_complete, List.append_assoc]
    exact honce

/-- Giving up the queue as well leaves nothing pending. -/
theorem Settled.cancelAll {books : ArchiveBooks π} {jobs : List (ArchiveJob π)}
    (h : Settled s books (pendingJobs none jobs)) : Settled s (books.cancelAll jobs) [] := by
  have ⟨hbooked, hcompleted⟩ := @Booked.cancelAll π _ books jobs h.booked
  refine ⟨hbooked, List.nil_sublist _, ?_⟩
  rw [hcompleted, List.map_nil, List.append_nil]
  exact h.once

omit [DecidableEq π] in
theorem CapsOk.sublist {pending rest : List (ArchiveJob π)} (h : CapsOk pending)
    (hsub : rest.Sublist pending) : CapsOk rest :=
  ⟨fun job hjob => h.1 job (hsub.subset hjob),
    fun limit => (hsub.filter _).length_le.trans (h.2 limit)⟩

theorem finish (h : SchedulerInv s) {job : ArchiveJob π} (hrunning : s.running = some job)
    (outcome : ArchiveOutcome) (tick : Nat) : SchedulerInv (s.finish job outcome tick) := by
  have hstarted : s.dispatcher = .started := h.busy (by rw [hrunning]; exact nofun)
  have hsettled := h.settled_job hrunning outcome tick
  have hclosing : ∀ rest : List (ArchiveJob π), rest.Sublist s.pending → s.closing = true →
      s.close = .terminating ∨ (s.close = .pools ∧ rest = []) := by
    intro rest hsub hclosing
    obtain hterminating | ⟨hpools, hnone⟩ := h.closing hclosing
    · exact .inl hterminating
    · exact .inr ⟨hpools, List.sublist_nil.mp (hnone ▸ hsub)⟩
  have hleft : SchedulerInv
      { s with books := s.books.settle job outcome tick, running := none } :=
    ⟨hsettled.booked, CapsOk.sublist h.caps hsettled.sublist, hsettled.once, h.admitted,
      ⟨h.drained.1, fun job hjob => h.drained.2 job (hsettled.sublist.subset hjob)⟩, nofun,
      h.queued, hclosing _ hsettled.sublist⟩
  cases outcome with
  | succeeded | failed => exact hleft
  | cancelled =>
    have hnone := hsettled.cancelAll
    exact ⟨hnone.booked, CapsOk.sublist h.caps hnone.sublist, hnone.once, h.admitted,
      ⟨h.drained.1, nofun⟩, nofun, nofun, hclosing _ hnone.sublist⟩

omit [DecidableEq π] in
/-- When the dispatcher is gone nothing is pending. -/
theorem pending_of_absent (h : SchedulerInv s) (habsent : s.dispatcher = .absent) :
    s.running = none ∧ s.archiveJobs = [] ∧ s.pending = [] := by
  have hrunning : s.running = none := by
    by_contra hsome
    rw [h.busy hsome] at habsent
    cases habsent
  have hjobs : s.archiveJobs = [] := by
    by_contra hsome
    exact h.queued hsome habsent
  refine ⟨hrunning, hjobs, ?_⟩
  rw [ArchiveScheduler.pending, hrunning, hjobs]
  rfl

theorem drain (h : SchedulerInv s) (habsent : s.dispatcher = .absent) : SchedulerInv s.drained := by
  obtain ⟨hrunning, hjobs, hpending⟩ := h.pending_of_absent habsent
  have hnone : ∀ job ∈ s.pending, s.nextToken ≤ job.token := by
    rw [hpending]
    exact nofun
  have hbooks : s.drained =
      { s with close := .pools, drainedAt := s.nextToken } := by
    simp only [ArchiveScheduler.drained]
    split
    · rw [hjobs]
      obtain ⟨⟩ := s
      simp only at hjobs
      rw [hjobs]
      rfl
    · rfl
  rw [hbooks]
  exact ⟨h.booked, h.caps, h.once, h.admitted, ⟨Nat.le_refl _, hnone⟩, h.busy, h.queued,
    fun _ => .inr ⟨rfl, hpending⟩⟩

omit [DecidableEq π] in
theorem timeout (h : SchedulerInv s) : SchedulerInv s.timeout := by
  refine ⟨h.booked, h.caps, h.once, h.admitted, h.drained, fun hrunning => ?_, fun hjobs => ?_,
    fun _ => .inl rfl⟩
  · show (if s.dispatcher = .created then _ else s.dispatcher) = _
    rw [h.busy hrunning]
    rfl
  · show (if s.dispatcher = .created then _ else s.dispatcher) ≠ _
    split
    · exact nofun
    · exact h.queued hjobs

omit [DecidableEq π] in
/-- The close has come to its end, by its own steps or not. -/
theorem closed (h : SchedulerInv s) : SchedulerInv { s with close := .idle, closing := false } :=
  ⟨h.booked, h.caps, h.once, h.admitted, h.drained, h.busy, h.queued, nofun⟩

theorem step (h : SchedulerInv s) (hstep : OpenStep s t) : SchedulerInv t := by
  obtain ⟨act, hact, hopen⟩ := hstep
  cases act with
  | schedulePending identity recovery pathExists tick =>
    cases hact
    refine h.scheduleArchive ?_ hopen
    cases recovery <;> decide
  | scheduleRecovery identity pathExists tick =>
    cases hact
    exact h.scheduleArchive (Nat.le_refl _) hopen
  | compress kind identity =>
    cases hact
    exact h.compress
  | dispatch =>
    simp only [ArchiveAct.apply, Option.bind_eq_bind, Option.bind_eq_some_iff] at hact
    obtain ⟨_, hguard, heq⟩ := hact
    cases heq
    exact h.dispatch (of_guard hguard).1
  | finish outcome tick =>
    simp only [ArchiveAct.apply, Option.bind_eq_bind, Option.bind_eq_some_iff] at hact
    obtain ⟨job, hrunning, heq⟩ := hact
    cases heq
    exact h.finish hrunning outcome tick
  | close =>
    simp only [ArchiveAct.apply, Option.bind_eq_bind, Option.bind_eq_some_iff] at hact
    obtain ⟨_, hguard, heq⟩ := hact
    have hidle := of_guard hguard
    cases heq
    refine ⟨h.booked, h.caps, h.once, h.admitted, h.drained, h.busy, h.queued, fun hclosing => ?_⟩
    obtain hterminating | ⟨hpools, _⟩ := h.closing hclosing
    · rw [hidle] at hterminating
      cases hterminating
    · rw [hidle] at hpools
      cases hpools
  | timeout =>
    simp only [ArchiveAct.apply, Option.bind_eq_bind, Option.bind_eq_some_iff] at hact
    obtain ⟨_, _, heq⟩ := hact
    cases heq
    exact h.timeout
  | drained =>
    simp only [ArchiveAct.apply, Option.bind_eq_bind, Option.bind_eq_some_iff] at hact
    obtain ⟨_, hguard, heq⟩ := hact
    cases heq
    exact h.drain (of_guard hguard).2
  | closed | abandoned =>
    simp only [ArchiveAct.apply, Option.bind_eq_bind, Option.bind_eq_some_iff] at hact
    obtain ⟨_, _, heq⟩ := hact
    cases heq
    exact h.closed

end SchedulerInv

/-! ## The scheduler -/

theorem schedulerInv (h : Reachable ArchiveStart OpenStep s) : SchedulerInv s :=
  Reachable.invariant (fun _ => SchedulerInv.start) (fun _ _ hst hs => hs.step hst) h

/-- In every run in which no archive is admitted between the time-out of a close and its
return: the scheduled targets are the keys of the scheduled futures; at most eight archives
are scheduled, and at most six that a writer has sealed; each admitted job is pending or its
callback has run, once; the retry maps have one list of keys within its cap; and what was
admitted before a close had drained the dispatcher is not scheduled any more, and after a
time-out nothing is until the close returns. -/
theorem archive_books_exact (h : Reachable ArchiveStart OpenStep s) :
    (∀ identity, identity ∈ s.books.scheduledTargets ↔
      identity ∈ s.books.scheduledFutures.map Prod.fst) ∧
    (s.books.scheduledFutures.map Prod.fst).Nodup ∧
    s.books.scheduledTargets.card ≤ MAX_SCHEDULED_ARCHIVES ∧
    (s.pending.filter fun job =>
      job.admissionLimit ≤ MAX_SCHEDULED_ARCHIVES - RESERVED_RECOVERY_ARCHIVES).length ≤
      MAX_SCHEDULED_ARCHIVES - RESERVED_RECOVERY_ARCHIVES ∧
    (s.books.completed ++ s.pending.map (·.token)).Perm s.admitted ∧ s.admitted.Nodup ∧
    s.books.retryNotBefore.map Prod.fst = s.books.retryAttempts.map Prod.fst ∧
    s.books.retryNotBefore.length ≤ MAX_ARCHIVE_RETRY_ENTRIES ∧
    (∀ entry ∈ s.books.scheduledFutures, s.drainedAt ≤ entry.2) ∧
    (s.close = .pools → s.closing = true → s.books.scheduledFutures = []) := by
  have hinv := schedulerInv h
  have hkeys := hinv.booked.futures.map Prod.fst
  rw [List.map_map] at hkeys
  refine ⟨fun identity => ?_, ?_, ?_, hinv.caps.2 _, hinv.once, hinv.admitted.1,
    hinv.booked.retry.keys, hinv.booked.retry.cap, fun entry hentry => ?_, fun hpools hclosing => ?_⟩
  · rw [hinv.booked.targets, hkeys.mem_iff]
    rfl
  · exact hkeys.nodup_iff.mpr hinv.booked.identities
  · have hall : s.pending.filter (fun job => job.admissionLimit ≤ MAX_SCHEDULED_ARCHIVES) =
        s.pending :=
      List.filter_eq_self.mpr fun job hjob => decide_eq_true (hinv.caps.1 job hjob)
    have hcap := hinv.caps.2 MAX_SCHEDULED_ARCHIVES
    rw [hall] at hcap
    rwa [SchedulerInv.card_targets hinv.booked]
  · obtain ⟨job, hjob, rfl⟩ := List.mem_map.mp (hinv.booked.futures.mem_iff.mp hentry)
    exact hinv.drained.2 job hjob
  · obtain hterminating | ⟨_, hnone⟩ := hinv.closing hclosing
    · rw [hpools] at hterminating
      cases hterminating
    · have hfutures := hinv.booked.futures
      rw [hnone] at hfutures
      exact List.perm_nil.mp hfutures

/-- The scheduler at the start of a node, with archives numbered. -/
def idleScheduler : ArchiveScheduler Nat :=
  { books := ⟨∅, [], [], [], []⟩, archiveJobs := [], running := none, dispatcher := .absent,
    closing := false, close := .idle, nextToken := 0, admitted := [], drainedAt := 0 }

def scheduledOne : ArchiveScheduler Nat := idleScheduler.schedulePending 1 false true 5

def runningOne : ArchiveScheduler Nat := scheduledOne.dispatch

def failedOne : ArchiveScheduler Nat :=
  runningOne.finish ⟨.spool, 1, 0, 6, true⟩ .failed 40

/-- An archive has failed: it is kept off, and nothing is scheduled. -/
theorem archive_books_exact_failed :
    failedOne.books.retryNotBefore.map Prod.fst = failedOne.books.retryAttempts.map Prod.fst ∧
    (failedOne.books.completed ++ failedOne.pending.map (·.token)).Perm failedOne.admitted ∧
    failedOne.books.retryNotBefore = [(1, 70)] ∧ failedOne.admitted = [0] := by
  have hstart : ArchiveStart idleScheduler := rfl
  have hscheduled : Reachable ArchiveStart OpenStep scheduledOne :=
    (Reachable.initial hstart).tail ⟨.schedulePending 1 false true 5, rfl, fun h => nomatch h.1⟩
  have hrunning : Reachable ArchiveStart OpenStep runningOne :=
    hscheduled.tail ⟨.dispatch, rfl, id⟩
  have hfailed : Reachable ArchiveStart OpenStep failedOne :=
    hrunning.tail ⟨.finish .failed 40, rfl, id⟩
  obtain ⟨-, -, -, -, honce, -, hretry, -⟩ := archive_books_exact hfailed
  exact ⟨hretry, honce, by decide +kernel, by decide +kernel⟩

/-- An archive is published while a close waits; the wait times out, and another one is
scheduled before the close has returned. -/
def lateArchive : List (ArchiveAct Nat) :=
  [.schedulePending 1 false true 5, .dispatch, .close, .timeout, .schedulePending 2 false true 6,
    .finish .cancelled 7, .drained, .closed]

def lateState : ArchiveScheduler Nat :=
  (runActs ArchiveAct.apply lateArchive idleScheduler).getD idleScheduler

/-- The future of the late archive stays in the books, of an archive that is not scheduled. -/
theorem late_future_stays :
    Reachable ArchiveStart ArchiveStep lateState ∧ lateState.close = .idle ∧
      2 ∈ lateState.books.scheduledFutures.map Prod.fst ∧
      2 ∉ lateState.books.scheduledTargets := by
  have hrun : Reachable ArchiveStart ArchiveStep lateState :=
    ⟨idleScheduler, rfl, runActs_steps (eq_some_getD (by decide +kernel) idleScheduler)⟩
  exact ⟨hrun, by decide +kernel, by decide +kernel, by decide +kernel⟩

end CameraLogs.Logs
