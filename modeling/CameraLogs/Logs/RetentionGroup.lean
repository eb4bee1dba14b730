import CameraLogs.Logs.RetentionSafe

/-!
# Claiming a whole group

An attempt that cannot claim some member of its group leaves the loop, and the members it
has claimed before stay `DELETING`. So the group is claimed as a whole, or not at all, just
when no attempt fails after its first claim, and no claim whose call has raised is applied
after all. `ClaimsWhole` says this of a step.
-/

namespace CameraLogs.Logs

open CameraLogs.Lib
open Relation (ReflTransGen)

variable {s₀ s t : RetentionState} {act : RetentionAct} {p : PassId} {path : String}

/-- An attempt that has claimed a member goes on to claim the next, and a claim that is
applied late finds nothing to claim. -/
def ClaimsWhole (s : RetentionState) : RetentionAct → Prop
  | .claim p now o => ∀ pass path file rest, s.passes p = some pass →
    pass.stage = .claiming path (file :: rest) →
    (∃ claim ∈ s.db.store.claims, claim.attempt = pass.attempt p) →
      o = .performed ∧ s.db.store.claim? (pass.attempt p) file.id now ≠ none
  | .land index => ∀ attempt id now, s.db.late[index]? = some (.claim attempt id now) →
    s.db.store.claim? attempt id now = none
  | _ => True

def WholeStep (s t : RetentionState) : Prop :=
  ∃ act : RetentionAct, ClaimsWhole s act ∧ act.apply s = some t

/-- An attempt that has given up has claimed nothing. -/
def NothingClaimed (s : RetentionState) : Prop :=
  ∀ attempt ∈ s.gaveUp, ∀ claim ∈ s.db.store.claims, claim.attempt ≠ attempt

/-- An attempt that has given up is over, and a claim in flight is one that has raised. -/
structure AttemptsOver (s : RetentionState) : Prop where
  gaveUp : ∀ attempt ∈ s.gaveUp, ∃ pass, s.passes attempt.pass = some pass ∧
    (attempt.number < pass.number ∨ attempt.number = pass.number ∧ pass.stage.waiting = true)
  late : ∀ attempt id now, .claim attempt id now ∈ s.db.late → attempt ∈ s.gaveUp

/-- The attempt a pass is in the middle of has not given up. -/
theorem AttemptsOver.taken {pass : RetentionPass} (h : AttemptsOver s)
    (hpass : s.passes p = some pass) (htaken : pass.stage.waiting = false) :
    ∀ attempt ∈ s.gaveUp, attempt.pass = p → attempt.number < pass.number := by
  intro attempt hmem hp
  obtain ⟨other, hother, hnumber⟩ := h.gaveUp attempt hmem
  rw [hp, hpass, Option.some.injEq] at hother
  subst hother
  rcases hnumber with hlt | ⟨-, hwaiting⟩
  · exact hlt
  · rw [htaken] at hwaiting
    cases hwaiting

theorem AttemptsOver.attempt_not_mem {pass : RetentionPass} (h : AttemptsOver s)
    (hpass : s.passes p = some pass) (htaken : pass.stage.waiting = false) :
    pass.attempt p ∉ s.gaveUp :=
  fun hmem => Nat.lt_irrefl _ (h.taken hpass htaken _ hmem rfl)

/-- Where one pass moves on, the attempts that are over stay over. -/
theorem AttemptsOver.move {pass : RetentionPass} (h : AttemptsOver s) (hm : Moves s p pass) :
    ∀ attempt ∈ s.gaveUp, ∃ pass', (s.setPass p pass).passes attempt.pass = some pass' ∧
      (attempt.number < pass'.number ∨
        attempt.number = pass'.number ∧ pass'.stage.waiting = true) := by
  intro attempt hmem
  obtain ⟨old, hold, hnumber⟩ := h.gaveUp attempt hmem
  by_cases hp : attempt.pass = p
  · refine ⟨pass, hp ▸ Function.update_self .., ?_⟩
    rw [hp] at hold
    rcases hm.number old hold with hlt | ⟨heq, hkeep⟩
    · exact Or.inl (by omega)
    · rcases hnumber with hlt | ⟨hn, hw⟩
      · exact Or.inl (by omega)
      · exact Or.inr ⟨by omega, hkeep hw⟩
  · exact ⟨old, (Function.update_of_ne hp ..).trans hold, hnumber⟩

/-- A pass in the middle of a group may go anywhere. -/
theorem AttemptsOver.moveTaken {pass : RetentionPass} (h : AttemptsOver s)
    (hpass : s.passes p = some pass) (htaken : pass.stage.waiting = false) (stage : PassStage) :
    ∀ attempt ∈ s.gaveUp, ∃ pass', (s.setStage p pass stage).passes attempt.pass = some pass' ∧
      (attempt.number < pass'.number ∨
        attempt.number = pass'.number ∧ pass'.stage.waiting = true) := by
  intro attempt hmem
  by_cases hp : attempt.pass = p
  · exact ⟨{ pass with stage }, hp ▸ Function.update_self ..,
      Or.inl (h.taken hpass htaken attempt hmem hp)⟩
  · obtain ⟨old, hold, hnumber⟩ := h.gaveUp attempt hmem
    exact ⟨old, (Function.update_of_ne hp ..).trans hold, hnumber⟩

/-- The attempt that gives up is over with the step in which it does. -/
theorem AttemptsOver.giveUp {pass : RetentionPass} {stage : PassStage} (h : AttemptsOver s)
    (hpass : s.passes p = some pass) (htaken : pass.stage.waiting = false)
    (hstage : stage.waiting = true) :
    ∀ attempt ∈ pass.attempt p :: s.gaveUp, ∃ pass',
      (s.setStage p pass stage).passes attempt.pass = some pass' ∧
        (attempt.number < pass'.number ∨
          attempt.number = pass'.number ∧ pass'.stage.waiting = true) := by
  intro attempt hmem
  rcases List.mem_cons.mp hmem with rfl | hmem
  · exact ⟨{ pass with stage }, Function.update_self .., Or.inr ⟨rfl, hstage⟩⟩
  · exact h.moveTaken hpass htaken stage attempt hmem

theorem AttemptsOver.next (h : AttemptsOver s) (he : RetentionEffect s act t) :
    AttemptsOver t := by
  cases he with
  | ticked => exact ⟨h.gaveUp, h.late⟩
  | submitted _ => exact ⟨h.gaveUp, h.late⟩
  | settled _ _ => exact ⟨h.gaveUp, h.late⟩
  | moved p pass _ hm => exact ⟨h.move hm, h.late⟩
  | claimed hpass hstage _ _ =>
    exact ⟨h.moveTaken hpass (by rw [hstage]; rfl) _, h.late⟩
  | refused hpass hstage _ _ =>
    exact ⟨h.giveUp hpass (by rw [hstage]; rfl) rfl,
      fun attempt id now hu => List.mem_cons_of_mem _ (h.late attempt id now hu)⟩
  | raised hpass hstage _ =>
    refine ⟨h.giveUp hpass (by rw [hstage]; rfl) rfl, fun attempt id now hu => ?_⟩
    rcases InFlight.mem_late_send hu with hu | hu
    · cases hu
      exact List.mem_cons_self
    · exact List.mem_cons_of_mem _ (h.late attempt id now hu)
  | confirmed hpass hstage _ => exact ⟨h.moveTaken hpass (by rw [hstage]; rfl) _, h.late⟩
  | unlinked hpass hstage => exact ⟨h.moveTaken hpass (by rw [hstage]; rfl) _, h.late⟩
  | deleted hpass hstage =>
    refine ⟨h.moveTaken hpass (by rw [hstage]; rfl) _, fun attempt id now hu => ?_⟩
    rcases InFlight.mem_late_send hu with hu | hu
    · cases hu
    · exact h.late attempt id now hu
  | landed hu =>
    exact ⟨h.gaveUp, fun attempt id now hu => h.late attempt id now (List.mem_of_mem_eraseIdx hu)⟩

theorem attempts_over (h₀ : RetentionInitial s₀) (hrun : ReflTransGen RetentionStep s₀ s) :
    AttemptsOver s := by
  refine sticky (fun s t hst hs => ?_) hrun ⟨?_, ?_⟩
  · obtain ⟨act, hact⟩ := hst
    exact hs.next (RetentionAct.effect hact)
  · intro attempt hmem
    simp [h₀.gaveUp] at hmem
  · intro attempt id now hu
    simp [h₀.late] at hu

/-! ## Whole groups -/

theorem claim?_attempt {store : RetentionStore} {attempt : Attempt} {id : CatalogId} {now : Nat}
    {claim : RetentionClaim} (h : store.claim? attempt id now = some claim) :
    claim.attempt = attempt ∧ claim.id = id := by
  rcases claim_cases store attempt id now with ⟨-, hnone⟩ | ⟨_, _, -, -, hsome, hrec, -⟩
  · rw [h] at hnone
    cases hnone
  · rw [h, Option.some.injEq] at hsome
    subst hsome
    rw [hrec]
    exact ⟨rfl, rfl⟩

theorem NothingClaimed.next (h : NothingClaimed s) (hover : AttemptsOver s)
    (hwhole : ClaimsWhole s act) (he : RetentionEffect s act t) : NothingClaimed t := by
  cases he with
  | ticked => exact h
  | submitted _ => exact h
  | settled _ _ => exact h
  | moved _ _ _ _ => exact h
  | @claimed p now pass path file rest claim hpass hstage _ hclaim =>
    intro attempt hmem other hother
    have hother : other ∈ (s.db.store.claim? (pass.attempt p) file.id now).toList ++
        s.db.store.claims := hother
    rw [hclaim] at hother
    rcases List.mem_cons.mp hother with rfl | hother
    · -- the attempt that claims has not given up
      rw [(claim?_attempt hclaim).1]
      exact fun heq => hover.attempt_not_mem hpass (by rw [hstage]; rfl) (heq ▸ hmem)
    · exact h attempt hmem other hother
  | @refused p now pass path file rest hpass hstage _ hclaim =>
    intro attempt hmem other hother
    have hother : other ∈ (s.db.store.claim? (pass.attempt p) file.id now).toList ++
        s.db.store.claims := hother
    rw [hclaim] at hother
    rcases List.mem_cons.mp hmem with rfl | hmem
    · intro heq
      exact (hwhole pass path file rest hpass hstage ⟨other, hother, heq⟩).2 hclaim
    · exact h attempt hmem other hother
  | @raised p now pass path file rest hpass hstage _ =>
    intro attempt hmem other hother heq
    rcases List.mem_cons.mp hmem with rfl | hmem
    · cases (hwhole pass path file rest hpass hstage ⟨other, hother, heq⟩).1
    · exact h attempt hmem other hother heq
  | confirmed _ _ _ => exact h
  | unlinked _ _ => exact h
  | @deleted p pass path o _ _ =>
    cases o with
    | performed => exact h
    | lost => exact h
  | @landed index update hu =>
    cases update with
    | claim attempt id now =>
      intro a hmem other hother
      have hother : other ∈ (s.db.store.claim? attempt id now).toList ++ s.db.store.claims := hother
      rw [hwhole attempt id now hu] at hother
      exact h a hmem other hother
    | delete path => exact h

/-- A step that does not meet the condition leaves a member claimed by an attempt that has
given up. -/
theorem claimed_of_not_whole (hover : AttemptsOver s) (he : RetentionEffect s act t)
    (hnot : ¬ ClaimsWhole s act) : ¬ NothingClaimed t := by
  intro hnothing
  refine hnot ?_
  cases he with
  | moved p pass hact _ =>
    cases act with
    | claim => cases hact
    | land => cases hact
    | _ => trivial
  | @claimed p now pass path file rest claim hpass hstage _ hclaim =>
    intro pass' path' file' rest' hpass' hstage' _
    obtain rfl := Option.some.inj (hpass.symm.trans hpass')
    obtain ⟨-, hrest⟩ := PassStage.claiming.inj (hstage.symm.trans hstage')
    obtain ⟨rfl, -⟩ := List.cons.inj hrest
    exact ⟨rfl, fun hnone => by rw [hclaim] at hnone; cases hnone⟩
  | @refused p now pass path file rest hpass hstage _ hclaim =>
    intro pass' path' file' rest' hpass' hstage' hmade
    obtain rfl := Option.some.inj (hpass.symm.trans hpass')
    obtain ⟨claim, hmem, heq⟩ := hmade
    exact absurd heq (hnothing _ List.mem_cons_self claim (List.mem_append_right _ hmem))
  | @raised p now pass path file rest hpass hstage _ =>
    intro pass' path' file' rest' hpass' hstage' hmade
    obtain rfl := Option.some.inj (hpass.symm.trans hpass')
    obtain ⟨claim, hmem, heq⟩ := hmade
    exact absurd heq (hnothing _ List.mem_cons_self claim hmem)
  | @landed index update hu =>
    intro attempt id now hlate
    cases hu.symm.trans hlate
    cases hclaim : s.db.store.claim? attempt id now with
    | none => rfl
    | some claim =>
      -- the claim in flight is of an attempt that has given up
      have hmem : claim ∈ (s.db.store.claim? attempt id now).toList ++ s.db.store.claims := by
        rw [hclaim]
        exact List.mem_cons_self
      exact absurd (claim?_attempt hclaim).1 (hnothing attempt
        (hover.late attempt id now (List.mem_of_getElem? hlate)) claim hmem)
  | _ => trivial

/-- A file that no attempt has claimed is readable. -/
theorem unclaimed_readable {file : CatalogFile} (hs : RetentionSafe s₀ s)
    (h₀ : RetentionInitial s₀) (hfile : s₀.db.store.files.find file.id = some file)
    (hfree : ∀ claim ∈ s.db.store.claims, claim.id ≠ file.id) : s.Readable file := by
  cases hs.fate file.id with
  | absent hnone _ =>
    rw [hfile] at hnone
    cases hnone
  | kept old r hold hkept =>
    rw [hfile, Option.some.injEq] at hold
    subst hold
    refine ⟨⟨r, hkept⟩, Bool.eq_false_iff.mpr fun hun => ?_⟩
    have hdel := hs.settled file.path (Or.inl hun) file.id _ hkept rfl
    exact h₀.unclaimed file.id file hfile hdel
  | claimed old hold hclaim _ =>
    obtain ⟨claim, hmem, hid, -⟩ := hclaim
    exact absurd hid (hfree claim hmem)

theorem whole_reachable (hrun : ReflTransGen WholeStep s₀ s) : ReflTransGen RetentionStep s₀ s :=
  ReflTransGen.mono (fun _ _ ⟨act, _, hact⟩ => ⟨act, hact⟩) _ _ hrun

theorem nothing_claimed (h₀ : RetentionInitial s₀) (hrun : ReflTransGen WholeStep s₀ s) :
    NothingClaimed s := by
  have hboth : AttemptsOver s ∧ NothingClaimed s := by
    refine sticky (I := fun s => AttemptsOver s ∧ NothingClaimed s) (fun s t hst hs => ?_) hrun
      ⟨attempts_over h₀ .refl, ?_⟩
    · obtain ⟨act, hwhole, hact⟩ := hst
      have heffect := RetentionAct.effect hact
      exact ⟨hs.1.next heffect, hs.2.next hs.1 hwhole heffect⟩
    · intro attempt hmem
      simp [h₀.gaveUp] at hmem
  exact hboth.2

/-- In every run whose steps claim whole groups: an attempt that gives up has claimed
nothing, and a file that only such attempts were after is as it was. In every run, a step
that does not leaves a file claimed by an attempt that has given up. -/
theorem group_claimed_whole (s₀ s : RetentionState) (h₀ : RetentionInitial s₀) :
    (ReflTransGen WholeStep s₀ s → NothingClaimed s ∧
      ∀ file ∈ s₀.db.store.files.files,
        (∀ claim ∈ s.db.store.claims, claim.id = file.id → claim.attempt ∈ s.gaveUp) →
          s.Readable file) ∧
    (ReflTransGen RetentionStep s₀ s → ∀ act t, act.apply s = some t → ¬ ClaimsWhole s act →
      ¬ NothingClaimed t) := by
  refine ⟨fun hrun => ?_, fun hrun act t hact hnot => ?_⟩
  · have hnothing := nothing_claimed h₀ hrun
    have hs := retention_safe h₀ (whole_reachable hrun)
    refine ⟨hnothing, fun file hfile honly => ?_⟩
    refine unclaimed_readable hs h₀ (Catalog.find_eq_some.mpr ⟨hfile, rfl⟩) ?_
    exact fun claim hmem hid => hnothing _ (honly claim hmem hid) claim hmem rfl
  · exact claimed_of_not_whole (attempts_over h₀ hrun) (RetentionAct.effect hact) hnot

/-! ## Half a group -/

def sharedHour : Catalog := ⟨[oldFile 0 3 "03.tar.gz", oldFile 1 3 "03.tar.gz"], by decide⟩

/-- Both members are protected just before the first claim: the attempt gives up, with
nothing claimed. -/
theorem group_claimed_whole_protected : ∃ s, ReflTransGen WholeStep (retentionStart sharedHour) s ∧
    s.gaveUp = [⟨0, 1⟩] ∧ NothingClaimed s ∧ ∀ file ∈ sharedHour.files, s.Readable file := by
  have h₀ : RetentionInitial (retentionStart sharedHour) := retentionStart_initial (by decide)
  have hruns : ∃ s, runActs RetentionAct.apply [.start 0 oldRules, .fetch 0 0, .next 0 false,
      .read 0, .check 0 0 false, .check 0 0 false, .submit 0 "t" "n" (.search 3 3) 0 0,
      .claim 0 0 .performed] (retentionStart sharedHour) = some s ∧ s.gaveUp = [⟨0, 1⟩] ∧
      s.db.store.claims = [] ∧ ReflTransGen WholeStep (retentionStart sharedHour) s := by
    refine ⟨_, rfl, rfl, rfl, ?_⟩
    refine .head ⟨.start 0 oldRules, trivial, rfl⟩ ?_
    refine .head ⟨.fetch 0 0, trivial, rfl⟩ ?_
    refine .head ⟨.next 0 false, trivial, rfl⟩ ?_
    refine .head ⟨.read 0, trivial, rfl⟩ ?_
    refine .head ⟨.check 0 0 false, trivial, rfl⟩ ?_
    refine .head ⟨.check 0 0 false, trivial, rfl⟩ ?_
    refine .head ⟨.submit 0 "t" "n" (.search 3 3) 0 0, trivial, rfl⟩ ?_
    -- the claim that fails is the first one
    refine .head ⟨.claim 0 0 .performed, fun pass path file rest _ _ hmade => ?_, rfl⟩ .refl
    obtain ⟨claim, hmem, -⟩ := hmade
    cases hmem
  obtain ⟨s, -, hgave, hclaims, hrun⟩ := hruns
  obtain ⟨hnothing, hreadable⟩ := (group_claimed_whole _ s h₀).1 hrun
  refine ⟨s, hrun, hgave, hnothing, fun file hfile => hreadable file hfile ?_⟩
  intro claim hmem
  rw [hclaims] at hmem
  cases hmem

/-- A download protects the second member after the first has been claimed. -/
theorem half_group_claimed : ¬ ∀ s₀ s : RetentionState, RetentionInitial s₀ →
    ReflTransGen RetentionStep s₀ s → NothingClaimed s := by
  intro hclaim
  have h₀ : RetentionInitial (retentionStart sharedHour) := retentionStart_initial (by decide)
  have hrun : ∃ s, runActs RetentionAct.apply [.start 0 oldRules, .fetch 0 0, .next 0 false,
      .read 0, .check 0 0 false, .check 0 0 false, .claim 0 0 .performed,
      .submit 0 "t" "n" (.download [3] true) 0 0, .claim 0 0 .performed]
        (retentionStart sharedHour) = some s ∧ s.gaveUp = [⟨0, 1⟩] ∧
      ∃ claim, s.db.store.claims = [claim] ∧ claim.attempt = ⟨0, 1⟩ :=
    ⟨_, rfl, rfl, _, rfl, rfl⟩
  obtain ⟨s, hs, hgave, claim, hclaims, hattempt⟩ := hrun
  exact hclaim _ s h₀ (runActs_steps hs) ⟨0, 1⟩ (by simp [hgave]) claim (by simp [hclaims]) hattempt

end CameraLogs.Logs
