import CameraLogs.Logs.Retention

/-!
# Retention and protected files

`FileFate` follows every document there was at the start: it is still there, with another
protection at most; or it has been claimed while unprotected, and is `DELETING` or gone.
A pass only gets to unlink an archive when no document of the group is in the first case,
and a document that a job has protected stays in it until the protection has run out.
-/

namespace CameraLogs.Logs

open CameraLogs.Lib
open Relation (ReflTransGen)

variable {s₀ s t : RetentionState} {store store' : RetentionStore} {c₀ : Catalog}
  {id : CatalogId} {file : CatalogFile} {path : String} {p : PassId}

/-- The file has been claimed, and not before its protection had run out. -/
def ClaimedUnprotected (store : RetentionStore) (id : CatalogId) (path : String) : Prop :=
  ∃ claim ∈ store.claims, claim.id = id ∧ claim.path = path ∧
    ∀ u, claim.retainUntil = some u → u ≤ claim.now

inductive FileFate (c₀ : Catalog) (store : RetentionStore) (id : CatalogId) : Prop
  | absent (h₀ : c₀.find id = none) (h : store.files.find id = none)
  | kept (file : CatalogFile) (retainUntil : Option Nat) (h₀ : c₀.find id = some file)
      (h : store.files.find id = some { file with retainUntil })
  | claimed (file : CatalogFile) (h₀ : c₀.find id = some file)
      (hclaim : ClaimedUnprotected store id file.path)
      (h : ∀ document, store.files.find id = some document →
        ∃ retainUntil, document = { file with status := .deleting, retainUntil })

/-- Nothing of the group is left but what is `DELETING`. -/
def AllDeleting (c : Catalog) (path : String) : Prop :=
  ∀ id file, c.find id = some file → file.path = path → file.status = .deleting

/-- What a step may do to the documents, at a time up to `clock`. -/
inductive StoreStep (clock : Nat) (store : RetentionStore) : RetentionStore → Prop
  | same : StoreStep clock store store
  | protected_ (files : Catalog) (h : Protects store.files files) :
      StoreStep clock store { store with files }
  | claim (attempt : Attempt) (id : CatalogId) (now : Nat) (h : now ≤ clock) :
      StoreStep clock store ((RetentionUpdate.claim attempt id now).apply store)
  | delete (path : String) : StoreStep clock store ((RetentionUpdate.delete path).apply store)

/-! ## One update of the documents -/

theorem protects_find {c c' : Catalog} (h : Protects c c') {file' : CatalogFile}
    (hf : c'.find id = some file') : ∃ file retainUntil, c.find id = some file ∧
      file' = { file with retainUntil } := by
  cases hold : c.find id with
  | none =>
    rw [h.none id hold] at hf
    cases hf
  | some file =>
    obtain ⟨r, hr, -⟩ := h.some id file hold
    exact ⟨file, r, rfl, Option.some.inj (hf.symm.trans hr)⟩

/-- A claim turns one `READY` document that is not protected, and remembers it. -/
theorem claim_cases (store : RetentionStore) (attempt : Attempt) (id : CatalogId) (now : Nat) :
    ((RetentionUpdate.claim attempt id now).apply store = store ∧
        store.claim? attempt id now = none) ∨
      ∃ file claim, store.files.find id = some file ∧ claimable now file = true ∧
        store.claim? attempt id now = some claim ∧
        claim = { attempt, id, path := file.path, retainUntil := file.retainUntil, now } ∧
        (RetentionUpdate.claim attempt id now).apply store =
          { files := store.files.put { file with status := .deleting }
            claims := claim :: store.claims } := by
  cases hfile : store.files.find id with
  | none => exact Or.inl (by simp [RetentionUpdate.apply, RetentionStore.claim?, claimFile, hfile])
  | some file =>
    by_cases hclaim : claimable now file = true
    · refine Or.inr ⟨file, _, rfl, hclaim, ?_, rfl, ?_⟩
      · simp [RetentionStore.claim?, hfile, hclaim]
      · simp [RetentionUpdate.apply, RetentionStore.claim?, claimFile, hfile, hclaim]
    · refine Or.inl ⟨?_, ?_⟩
      · simp [RetentionUpdate.apply, RetentionStore.claim?, claimFile, hfile, hclaim]
      · simp [RetentionStore.claim?, hfile, hclaim]

theorem claimable_unprotected {now : Nat} (h : claimable now file = true) :
    ∀ u, file.retainUntil = some u → u ≤ now := by
  intro u hu
  simp only [claimable, hu, Option.all_some, decide_eq_true_eq] at h
  exact h.2

theorem ClaimedUnprotected.mono (h : ClaimedUnprotected store id path)
    (hsub : ∀ claim ∈ store.claims, claim ∈ store'.claims) : ClaimedUnprotected store' id path := by
  obtain ⟨claim, hmem, hrest⟩ := h
  exact ⟨claim, hsub claim hmem, hrest⟩

theorem StoreStep.fate {clock : Nat} (hst : StoreStep clock store store')
    (hfresh : ∀ id file, c₀.find id = some file → file.status ≠ .deleting)
    (h : FileFate c₀ store id) : FileFate c₀ store' id := by
  cases hst with
  | same => exact h
  | protected_ files hp =>
    cases h with
    | absent h₀ h => exact .absent h₀ (hp.none id h)
    | kept file r h₀ h =>
      obtain ⟨r', hr', -⟩ := hp.some id _ h
      exact .kept file r' h₀ hr'
    | claimed file h₀ hclaim h =>
      refine .claimed file h₀ hclaim fun document hd => ?_
      obtain ⟨old, r, hold, rfl⟩ := protects_find hp hd
      obtain ⟨r', rfl⟩ := h old hold
      exact ⟨r, rfl⟩
  | claim attempt other now _ =>
    rcases claim_cases store attempt other now with
      ⟨hsame, -⟩ | ⟨old, claim, hold, hc, -, hrec, happly⟩
    · rw [hsame]
      exact h
    rw [happly]
    have hoid := Catalog.find_id hold
    by_cases hid : id = other
    · subst hid
      have hfind : (store.files.put { old with status := .deleting }).find id =
          some { old with status := .deleting } := Catalog.find_put.trans (if_pos hoid)
      cases h with
      | absent _ h =>
        rw [hold] at h
        cases h
      | kept file r h₀ h =>
        rw [hold, Option.some.injEq] at h
        subst h
        refine .claimed file h₀ ⟨claim, List.mem_cons_self, ?_⟩ fun document hd => ?_
        · rw [hrec]
          exact ⟨rfl, rfl, claimable_unprotected hc⟩
        · exact ⟨r, Option.some.inj (hd.symm.trans hfind)⟩
      | claimed file h₀ hclaim h =>
        -- a document that has been claimed before cannot be claimed again
        obtain ⟨r, rfl⟩ := h old hold
        exact absurd (claimable_ready hc) (by simp)
    · have hne : (store.files.put { old with status := .deleting }).find id =
          store.files.find id := Catalog.find_put_ne fun he => hid (he.symm.trans hoid)
      cases h with
      | absent h₀ h => exact .absent h₀ (hne.trans h)
      | kept file r h₀ h => exact .kept file r h₀ (hne.trans h)
      | claimed file h₀ hclaim h =>
        exact .claimed file h₀ (hclaim.mono fun _ hm => List.mem_cons_of_mem _ hm)
          fun document hd => h document (hne.symm.trans hd)
  | delete path =>
    rcases deleteGroup_find store.files path id with hsame | ⟨old, hold, hdel, -, hnone⟩
    · cases h with
      | absent h₀ h => exact .absent h₀ (hsame.trans h)
      | kept file r h₀ h => exact .kept file r h₀ (hsame.trans h)
      | claimed file h₀ hclaim h =>
        exact .claimed file h₀ hclaim fun document hd => h document (hsame.symm.trans hd)
    · cases h with
      | absent h₀ h => exact .absent h₀ hnone
      | kept file r h₀ h =>
        rw [hold, Option.some.injEq] at h
        subst h
        exact absurd hdel (hfresh id file h₀)
      | claimed file h₀ hclaim h =>
        exact .claimed file h₀ hclaim fun document hd => by
          rw [show ((RetentionUpdate.delete path).apply store).files.find id = none from hnone] at hd
          cases hd

theorem StoreStep.allDeleting {clock : Nat} (hst : StoreStep clock store store')
    (h : AllDeleting store.files path) : AllDeleting store'.files path := by
  intro id file hf hpath
  cases hst with
  | same => exact h id file hf hpath
  | protected_ files hp =>
    obtain ⟨old, r, hold, rfl⟩ := protects_find hp hf
    exact h id old hold hpath
  | claim attempt other now _ =>
    rcases claim_cases store attempt other now with
      ⟨hsame, -⟩ | ⟨old, claim, hold, -, -, -, happly⟩
    · rw [hsame] at hf
      exact h id file hf hpath
    · rw [happly] at hf
      by_cases hid : old.id = id
      · rw [Catalog.find_put, if_pos hid, Option.some.injEq] at hf
        subst hf
        rfl
      · have hsame : (store.files.put { old with status := .deleting }).find id =
            store.files.find id := Catalog.find_put_ne hid
        exact h id file (hsame.symm.trans hf) hpath
  | delete other =>
    rcases deleteGroup_find store.files other id with hsame | ⟨_, -, -, -, hnone⟩
    · exact h id file (hsame.symm.trans hf) hpath
    · rw [show ((RetentionUpdate.delete other).apply store).files.find id = none from hnone] at hf
      cases hf

/-- What is protected beyond the time of a step stays protected. -/
theorem StoreStep.protectedUntil {clock executionExpires : Nat}
    (hst : StoreStep clock store store') (hst' : file.status ≠ .deleting)
    (hlt : clock < executionExpires) (h : ProtectedUntil store.files file executionExpires) :
    ProtectedUntil store'.files file executionExpires := by
  obtain ⟨u, hfind, hle⟩ := h
  cases hst with
  | same => exact ⟨u, hfind, hle⟩
  | protected_ files hp => exact hp.protectedUntil ⟨u, hfind, hle⟩
  | claim attempt other now hnow =>
    rcases claim_cases store attempt other now with
      ⟨hsame, -⟩ | ⟨old, claim, hold, hc, -, -, happly⟩
    · rw [hsame]
      exact ⟨u, hfind, hle⟩
    · rw [happly]
      refine ⟨u, ?_, hle⟩
      refine (Catalog.find_put_ne fun hid => ?_).trans hfind
      -- the claim would have come while the file was protected
      have hother : other = file.id := (Catalog.find_id hold).symm.trans hid
      rw [hother, hfind, Option.some.injEq] at hold
      subst hold
      have := claimable_unprotected hc u rfl
      omega
  | delete path =>
    rcases deleteGroup_find store.files path file.id with hsame | ⟨old, hold, hdel, -, -⟩
    · exact ⟨u, hsame.trans hfind, hle⟩
    · rw [hfind, Option.some.injEq] at hold
      subst hold
      exact absurd hdel hst'

/-! ## The invariant -/

namespace RetentionState

/-- The archive has been unlinked, or a pass is about to do it. -/
def Settled (s : RetentionState) (path : String) : Prop :=
  s.unlinked path = true ∨ ∃ p pass, s.passes p = some pass ∧ pass.stage = .unlinking path

end RetentionState

structure RetentionSafe (s₀ s : RetentionState) : Prop where
  fate : ∀ id, FileFate s₀.db.store.files s.db.store id
  settled : ∀ path, s.Settled path → AllDeleting s.db.store.files path
  jobs : ∀ job ∈ s.jobs, ∀ file ∈ job.files, file.status ≠ .deleting →
    s.clock < job.executionExpires → ProtectedUntil s.db.store.files file job.executionExpires
  late : ∀ attempt id now, .claim attempt id now ∈ s.db.late → now ≤ s.clock

/-- What a step does, as far as the invariant is concerned. -/
structure RetentionSafe.Next (s t : RetentionState) : Prop where
  store : StoreStep s.clock s.db.store t.db.store
  clock : s.clock ≤ t.clock
  settled : ∀ path, t.Settled path → s.Settled path ∨ AllDeleting s.db.store.files path
  jobs : ∀ job ∈ t.jobs,
    (∃ old ∈ s.jobs, old.files = job.files ∧ old.executionExpires = job.executionExpires) ∨
      ∀ file ∈ job.files, file.status ≠ .deleting →
        ProtectedUntil t.db.store.files file job.executionExpires
  late : ∀ attempt id now, .claim attempt id now ∈ t.db.late →
    .claim attempt id now ∈ s.db.late ∨ now ≤ s.clock

theorem RetentionSafe.next (h : RetentionSafe s₀ s) (h₀ : RetentionInitial s₀)
    (hnext : RetentionSafe.Next s t) : RetentionSafe s₀ t where
  fate := fun id => hnext.store.fate h₀.unclaimed (h.fate id)
  settled := by
    intro path hpath
    rcases hnext.settled path hpath with hold | hall
    · exact hnext.store.allDeleting (h.settled path hold)
    · exact hnext.store.allDeleting hall
  jobs := by
    intro job hjob file hf hst hlt
    have hclock := hnext.clock
    rcases hnext.jobs job hjob with ⟨old, hold, hfiles, hexp⟩ | hnew
    · have hbefore := h.jobs old hold file (hfiles ▸ hf) hst (by omega)
      rw [hexp] at hbefore
      exact hnext.store.protectedUntil hst (by omega) hbefore
    · exact hnew file hf hst
  late := by
    intro attempt id now hu
    have hclock := hnext.clock
    rcases hnext.late attempt id now hu with hold | hnow
    · have := h.late attempt id now hold
      omega
    · omega

/-- A pass that goes on settles no path but the one it goes on to unlink. -/
theorem setPass_settled (s : RetentionState) (p : PassId) (pass : RetentionPass)
    (h : (s.setPass p pass).Settled path) (hne : pass.stage ≠ .unlinking path) :
    s.Settled path := by
  rcases h with h | ⟨q, other, hq, hst⟩
  · exact Or.inl h
  · refine Or.inr ⟨q, other, ?_, hst⟩
    by_cases hqp : q = p
    · subst hqp
      rw [show (s.setPass q pass).passes q = some pass from Function.update_self ..,
        Option.some.injEq] at hq
      exact absurd hst (hq ▸ hne)
    · rw [show (s.setPass p pass).passes q = s.passes q from Function.update_of_ne hqp ..] at hq
      exact hq

theorem mem_jobs_self {jobs : List LogJob} (job : LogJob) (h : job ∈ jobs) :
    ∃ old ∈ jobs, old.files = job.files ∧ old.executionExpires = job.executionExpires :=
  ⟨job, h, rfl, rfl⟩

theorem RetentionEffect.next {act : RetentionAct} (h : RetentionEffect s act t)
    (hs : RetentionSafe s₀ s) : RetentionSafe.Next s t := by
  cases h with
  | ticked =>
    exact ⟨.same, Nat.le_succ _, fun _ h => Or.inl h, fun job hj => Or.inl (mem_jobs_self job hj),
      fun _ _ _ hu => Or.inl hu⟩
  | submitted hok =>
    obtain ⟨hprotects, -, -, hall⟩ := submitJob_ok hok
    refine ⟨.protected_ _ hprotects, Nat.le_refl _, fun _ h => Or.inl h, fun job hj => ?_,
      fun _ _ _ hu => Or.inl hu⟩
    rcases List.mem_cons.mp hj with rfl | hj
    · exact Or.inr hall
    · exact Or.inl (mem_jobs_self job hj)
  | settled jobs hjobs =>
    exact ⟨.same, Nat.le_refl _, fun _ h => Or.inl h, fun job hj => Or.inl (hjobs job hj),
      fun _ _ _ hu => Or.inl hu⟩
  | moved p pass _ hm =>
    exact ⟨.same, Nat.le_refl _, fun path h => Or.inl (setPass_settled _ _ _ h (hm.unlinking path)),
      fun job hj => Or.inl (mem_jobs_self job hj), fun _ _ _ hu => Or.inl hu⟩
  | claimed hpass hstage hnow hclaim =>
    exact ⟨.claim _ _ _ hnow, Nat.le_refl _,
      fun path h => Or.inl (setPass_settled _ _ _ h (claimStage_ne _ path _)),
      fun job hj => Or.inl (mem_jobs_self job hj), fun _ _ _ hu => Or.inl hu⟩
  | @refused p now pass path file rest hpass hstage hnow hclaim =>
    refine ⟨.claim _ _ _ hnow, Nat.le_refl _, fun path h => Or.inl ?_,
      fun job hj => Or.inl (mem_jobs_self job hj), fun _ _ _ hu => Or.inl hu⟩
    exact setPass_settled s p { pass with stage := .scanning } h nofun
  | @raised p now pass path file rest hpass hstage hnow =>
    refine ⟨.same, Nat.le_refl _, fun path h => Or.inl ?_,
      fun job hj => Or.inl (mem_jobs_self job hj), fun attempt id now hu => ?_⟩
    · exact setPass_settled s p { pass with stage := .over } h nofun
    · rcases InFlight.mem_late_send hu with hu | hu
      · cases hu
        exact Or.inr hnow
      · exact Or.inl hu
  | @confirmed p pass path hpass hstage hall =>
    refine ⟨.same, Nat.le_refl _, fun path' h => ?_, fun job hj => Or.inl (mem_jobs_self job hj),
      fun _ _ _ hu => Or.inl hu⟩
    by_cases hpath : path' = path
    · subst hpath
      refine Or.inr fun id file hf hp => hall file (Catalog.mem_group.mpr ⟨?_, hp⟩)
      rw [Catalog.find_id hf]
      exact hf
    · exact Or.inl (setPass_settled _ _ _ h fun he => hpath (PassStage.unlinking.inj he).symm)
  | @unlinked p pass path hpass hstage =>
    refine ⟨.same, Nat.le_refl _, fun path' h => Or.inl ?_,
      fun job hj => Or.inl (mem_jobs_self job hj), fun _ _ _ hu => Or.inl hu⟩
    rcases h with h | h
    · by_cases hpath : path' = path
      · subst hpath
        exact Or.inr ⟨p, pass, hpass, hstage⟩
      · exact Or.inl ((Function.update_of_ne hpath _ s.unlinked).symm.trans h)
    · exact setPass_settled s p { pass with stage := .deleting path } (Or.inr h) nofun
  | @deleted p pass path o hpass hstage =>
    refine ⟨?_, Nat.le_refl _, fun path h => Or.inl ?_,
      fun job hj => Or.inl (mem_jobs_self job hj), fun attempt id now hu => ?_⟩
    · cases o with
      | performed => exact .delete path
      | lost => exact .same
    · exact setPass_settled s p { pass with stage := .scanning } h nofun
    · rcases InFlight.mem_late_send hu with hu | hu
      · cases hu
      · exact Or.inl hu
  | @landed index update hu =>
    refine ⟨?_, Nat.le_refl _, fun _ h => Or.inl h, fun job hj => Or.inl (mem_jobs_self job hj),
      fun _ _ _ hu => Or.inl (List.mem_of_mem_eraseIdx hu)⟩
    cases update with
    | claim attempt id now =>
      exact .claim attempt id now (hs.late attempt id now (List.mem_of_getElem? hu))
    | delete path => exact .delete path

theorem retentionInitial_safe (h : RetentionInitial s) : RetentionSafe s s where
  fate := by
    intro id
    cases hf : s.db.store.files.find id with
    | none => exact .absent hf hf
    | some file => exact .kept file file.retainUntil hf hf
  settled := by
    intro path hpath
    rcases hpath with hun | ⟨p, pass, hp, -⟩
    · rw [h.unlinked path] at hun
      cases hun
    · rw [h.passes p] at hp
      cases hp
  jobs := fun job hj => by simp [h.jobs] at hj
  late := fun _ _ _ hu => by simp [h.late] at hu

theorem retention_safe (h₀ : RetentionInitial s₀) (hrun : ReflTransGen RetentionStep s₀ s) :
    RetentionSafe s₀ s := by
  refine sticky (fun s t hst hs => ?_) hrun (retentionInitial_safe h₀)
  obtain ⟨act, hact⟩ := hst
  exact hs.next h₀ ((RetentionAct.effect hact).next hs)

/-! ## The result -/

/-- The document is there as the job has frozen it, and so is its archive. -/
def RetentionState.Readable (s : RetentionState) (file : CatalogFile) : Prop :=
  (∃ retainUntil, s.db.store.files.find file.id = some { file with retainUntil }) ∧
    s.unlinked file.path = false

theorem ProtectedUntil.readable {executionExpires : Nat} (hs : RetentionSafe s₀ s)
    (hst : file.status ≠ .deleting)
    (h : ProtectedUntil s.db.store.files file executionExpires) : s.Readable file := by
  obtain ⟨u, hfind, -⟩ := h
  refine ⟨⟨some u, hfind⟩, Bool.eq_false_iff.mpr fun hun => ?_⟩
  have hdel := hs.settled file.path (Or.inl hun) file.id { file with retainUntil := some u } hfind rfl
  exact hst hdel

/-- Only a pass that is about to unlink an archive unlinks it. -/
theorem RetentionEffect.unlinked_settled {act : RetentionAct} (h : RetentionEffect s act t)
    (hbefore : s.unlinked path = false) (hafter : t.unlinked path = true) : s.Settled path := by
  cases h with
  | @unlinked p pass path' hpass hstage =>
    by_cases hpath : path = path'
    · subst hpath
      exact Or.inr ⟨p, pass, hpass, hstage⟩
    · have hsame := Function.update_of_ne hpath true s.unlinked
      exact absurd (hbefore.symm.trans (hsame.symm.trans hafter)) nofun
  | _ => exact absurd (hbefore.symm.trans hafter) nofun

/-- In every run of passes, submissions and ends of jobs: an archive is unlinked only when
every file of its group has been claimed, by that pass or one before it, while its
protection had run out; and a file that a job has frozen, and that was not being deleted
then, stays readable until the protection of the job runs out. -/
theorem retention_spares_protected (s₀ s : RetentionState) (h₀ : RetentionInitial s₀)
    (hrun : ReflTransGen RetentionStep s₀ s) :
    (∀ t, RetentionStep s t → ∀ path, s.unlinked path = false → t.unlinked path = true →
      ∀ file ∈ s₀.db.store.files.group path, ClaimedUnprotected s.db.store file.id path) ∧
    (∀ job ∈ s.jobs, ∀ file ∈ job.files, file.status ≠ .deleting →
      s.clock < job.executionExpires → s.Readable file) := by
  have hs := retention_safe h₀ hrun
  refine ⟨?_, ?_⟩
  · intro t hst path hbefore hafter file hfile
    obtain ⟨act, hact⟩ := hst
    have hall := hs.settled path ((RetentionAct.effect hact).unlinked_settled hbefore hafter)
    obtain ⟨hfind, hpath⟩ := Catalog.mem_group.mp hfile
    cases hs.fate file.id with
    | absent hnone _ =>
      rw [hfind] at hnone
      cases hnone
    | kept old r hold hkept =>
      -- a file nobody has claimed would have the status it had at the start
      rw [hfind, Option.some.injEq] at hold
      subst hold
      exact absurd (hall file.id _ hkept hpath) (h₀.unclaimed file.id file hfind)
    | claimed old hold hclaim _ =>
      rw [hfind, Option.some.injEq] at hold
      subst hold
      exact hpath ▸ hclaim
  · intro job hjob file hf hst hlt
    exact (hs.jobs job hjob file hf hst hlt).readable hs hst

def oldFile (id : CatalogId) (hour : Nat) (path : String) : CatalogFile :=
  { id, owner := { taskId := "t", runId := "r", sessionId := "s", nodeId := "n" }, hour, path,
    bytes := 8, status := .ready, retainUntil := none }

def oldRules : RetentionRules := { nodeId := "n", cutoff := 5, development := none }

def retentionStart (files : Catalog) : RetentionState where
  db := { store := { files, claims := [] }, late := [] }
  jobs := []
  clock := 0
  passes := fun _ => none
  unlinked := fun _ => false
  gaveUp := []

theorem retentionStart_initial {files : Catalog}
    (h : ∀ file ∈ files.files, file.status ≠ .deleting) :
    RetentionInitial (retentionStart files) where
  unclaimed := fun _ file hf => h file (Catalog.find_eq_some.mp hf).1
  claims := rfl
  late := rfl
  jobs := rfl
  passes := fun _ => rfl
  unlinked := fun _ => rfl
  gaveUp := rfl

def twoHours : Catalog := ⟨[oldFile 0 3 "03.tar.gz", oldFile 1 4 "04.tar.gz"], by decide⟩

/-- A search has frozen one of two hours: a pass skips it, and takes the other. -/
theorem retention_spares_searched : ∃ s t, ReflTransGen RetentionStep (retentionStart twoHours) s ∧
    RetentionStep s t ∧ t.unlinked "04.tar.gz" = true ∧
    ClaimedUnprotected s.db.store 1 "04.tar.gz" ∧ s.Readable (oldFile 0 3 "03.tar.gz") := by
  have h₀ : RetentionInitial (retentionStart twoHours) := retentionStart_initial (by decide)
  have hruns : ∃ s t, runActs RetentionAct.apply [.submit 0 "t" "n" (.search 3 3) 0 0,
      .start 0 oldRules, .fetch 0 0, .fetch 0 1, .next 0 false, .read 0, .check 0 0 false,
      .next 0 false, .read 0, .check 0 0 false, .claim 0 0 .performed, .reread 0]
        (retentionStart twoHours) = some s ∧
      (RetentionAct.unlink 0).apply s = some t ∧ s.unlinked "04.tar.gz" = false ∧
      t.unlinked "04.tar.gz" = true ∧ ∃ job, s.jobs = [job] ∧ s.clock < job.executionExpires ∧
        job.files = [oldFile 0 3 "03.tar.gz"] :=
    ⟨_, _, rfl, rfl, rfl, rfl, _, rfl, by decide, rfl⟩
  obtain ⟨s, t, hs, ht, hbefore, hafter, job, hjobs, hclock, hfiles⟩ := hruns
  obtain ⟨hclaimed, hreadable⟩ := retention_spares_protected _ s h₀ (runActs_steps hs)
  refine ⟨s, t, runActs_steps hs, ⟨_, ht⟩, hafter, ?_, ?_⟩
  · exact hclaimed t ⟨_, ht⟩ "04.tar.gz" hbefore hafter (oldFile 1 4 "04.tar.gz") (by decide)
  · exact hreadable job (by simp [hjobs]) _ (by simp [hfiles]) nofun hclock

/-- A pass ends between its claim and the deletion; the next one deletes what it has not
claimed itself. -/
theorem unlinked_by_next_pass : ¬ ∀ s₀ s : RetentionState, RetentionInitial s₀ →
    ReflTransGen RetentionStep s₀ s →
    (∀ p t, (RetentionAct.unlink p).apply s = some t → ∀ path, s.unlinked path = false →
      t.unlinked path = true → ∀ file ∈ s₀.db.store.files.group path,
        ∃ claim ∈ s.db.store.claims, claim.attempt.pass = p ∧ claim.id = file.id) ∧
    (∀ job ∈ s.jobs, ∀ file ∈ job.files, s.clock < job.executionExpires → s.Readable file) := by
  intro hclaim
  have h₀ : RetentionInitial (retentionStart twoHours) := retentionStart_initial (by decide)
  have hruns : ∃ s t, runActs RetentionAct.apply [.start 0 oldRules, .fetch 0 0, .next 0 false,
      .read 0, .check 0 0 false, .claim 0 0 .performed, .abort 0, .start 1 oldRules, .fetch 1 0,
      .next 1 false, .read 1, .check 1 0 false, .reread 1] (retentionStart twoHours) = some s ∧
      (RetentionAct.unlink 1).apply s = some t ∧ s.unlinked "03.tar.gz" = false ∧
      t.unlinked "03.tar.gz" = true ∧ ∃ claim, s.db.store.claims = [claim] ∧
        claim.attempt.pass = 0 :=
    ⟨_, _, rfl, rfl, rfl, rfl, _, rfl, rfl⟩
  obtain ⟨s, t, hs, ht, hbefore, hafter, claim, hclaims, hpass⟩ := hruns
  obtain ⟨other, hmem, hother, -⟩ := (hclaim _ s h₀ (runActs_steps hs)).1 1 t ht "03.tar.gz" hbefore
    hafter (oldFile 0 3 "03.tar.gz") (by decide)
  rw [hclaims, List.mem_singleton] at hmem
  subst hmem
  rw [hpass] at hother
  cases hother

end CameraLogs.Logs
