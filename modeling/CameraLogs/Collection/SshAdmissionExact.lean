import CameraLogs.Collection.SshAdmission
import CameraLogs.Lib.Run

/-!
# Admission is exact under unknown outcomes

`AdmissionSafe` is the bundle every step keeps. Its two parts with an argument are about a
claim that a call may have written without knowing it. `late`: an acquire in flight is
bound to an epoch that the endpoint has reached, and has passed once a reconcile of that
token has advanced it; so from then on the update does not match. `placed`: a claim that
did get into a document is where its call wanted it, with the owner and the epoch that the
reconcile pulls by; so the pull removes it.

Both need the reconcile to be about the place of the acquire. It computes endpoint and owner
from the task it is given, not from the exception, and a slave session connects by another
port than its task's: `reconciled_slave_claim` is a run where the claim is there after its
reconcile. `InPlace` is the condition.
-/

namespace CameraLogs.Collection

open CameraLogs.Lib
open Relation (ReflTransGen)

variable {ipAddress : String → Option String} {s t : AdmissionState} {slots slots' : Slots}
  {endpoint endpoint' : String} {token : Token} {call call' : AdmissionCall} {claim : SlotClaim}
  {epoch : Nat} {o : Outcome} {update : SlotUpdate}

/-! ## What an update does to a document -/

theorem claimsAt_pullClaims (condition : SlotClaim → Bool) :
    claimsAt (pullClaims slots endpoint condition) endpoint' =
      if endpoint' = endpoint then (claimsAt slots endpoint').filter fun c => !condition c
      else claimsAt slots endpoint' := by
  unfold pullClaims
  split
  next hnone =>
    split
    next he => simp [claimsAt, he, hnone]
    next => rfl
  next doc hdoc =>
    split
    next he => simp [claimsAt, he, hdoc]
    next he => simp [claimsAt, Function.update_of_ne he]

theorem epochAt_pullClaims (condition : SlotClaim → Bool) :
    epochAt (pullClaims slots endpoint condition) endpoint' = epochAt slots endpoint' := by
  unfold pullClaims
  split
  next => rfl
  next doc hdoc =>
    by_cases he : endpoint' = endpoint
    · simp [epochAt, he, hdoc]
    · simp [epochAt, Function.update_of_ne he]

theorem claimsAt_fence :
    claimsAt ((SlotUpdate.fence endpoint).apply slots) endpoint' = claimsAt slots endpoint' := by
  simp only [SlotUpdate.apply]
  by_cases he : endpoint' = endpoint
  · subst he
    cases hdoc : slots endpoint' <;> simp [claimsAt, hdoc]
  · split <;> simp [claimsAt, Function.update_of_ne he]

theorem epochAt_fence :
    epochAt ((SlotUpdate.fence endpoint).apply slots) endpoint' =
      if endpoint' = endpoint then epochAt slots endpoint' + 1 else epochAt slots endpoint' := by
  simp only [SlotUpdate.apply]
  by_cases he : endpoint' = endpoint
  · subst he
    cases hdoc : slots endpoint' <;> simp [epochAt, hdoc]
  · rw [if_neg he]
    split <;> simp [epochAt, Function.update_of_ne he]

theorem push_refused (claim : SlotClaim) (h : admits slots endpoint epoch = false) :
    (SlotUpdate.push endpoint claim epoch).apply slots = slots := by
  simp [SlotUpdate.apply, h]

theorem claimsAt_push (h : admits slots endpoint epoch = true) :
    claimsAt ((SlotUpdate.push endpoint claim epoch).apply slots) endpoint' =
      if endpoint' = endpoint then claimsAt slots endpoint' ++ [claim]
      else claimsAt slots endpoint' := by
  simp only [SlotUpdate.apply, h, if_true]
  by_cases he : endpoint' = endpoint
  · subst he
    cases hdoc : slots endpoint' <;> simp [claimsAt, hdoc]
  · rw [if_neg he]
    split <;> simp [claimsAt, Function.update_of_ne he]

theorem admits_room (h : admits slots endpoint epoch = true) :
    (claimsAt slots endpoint).length < maxSshConnectionsPerDevice := by
  unfold admits at h
  unfold claimsAt
  split
  next => decide
  next doc hdoc => simp_all

/-- An acquire that is admitted has read the epoch the document still has. -/
theorem admits_epoch (h : admits slots endpoint epoch = true) (hle : epoch ≤ epochAt slots endpoint) :
    epoch = epochAt slots endpoint := by
  unfold admits at h
  unfold epochAt at hle ⊢
  cases hdoc : slots endpoint with
  | none =>
    simp only [hdoc] at hle
    exact Nat.le_zero.mp hle
  | some doc =>
    have hfilter : epochFilter doc epoch = true := by
      simp only [hdoc, Bool.decide_and, Bool.and_eq_true, decide_eq_true_eq] at h
      exact h.1
    unfold epochFilter at hfilter
    by_cases hz : epoch = 0
    · simp only [hz, if_true, decide_eq_true_eq] at hfilter
      rcases hfilter with hf | hf <;> simp [hf, hz]
    · simp only [hz, if_false, decide_eq_true_eq] at hfilter
      simp [hfilter]

theorem epochAt_push (h : admits slots endpoint epoch = true)
    (hle : epoch ≤ epochAt slots endpoint) :
    epochAt ((SlotUpdate.push endpoint claim epoch).apply slots) endpoint' =
      epochAt slots endpoint' := by
  have heq := admits_epoch h hle
  simp only [SlotUpdate.apply, h, if_true]
  by_cases he : endpoint' = endpoint
  · subst he
    rw [← heq]
    split <;> simp [epochAt]
  · split <;> simp [epochAt, Function.update_of_ne he]

/-- What every update but a push does: claims may go, epochs may grow. -/
structure Shrinks (slots slots' : Slots) : Prop where
  claims : ∀ endpoint, (claimsAt slots' endpoint).Sublist (claimsAt slots endpoint)
  epoch : ∀ endpoint, epochAt slots endpoint ≤ epochAt slots' endpoint

theorem shrinks_refl (slots : Slots) : Shrinks slots slots :=
  ⟨fun _ => List.Sublist.refl _, fun _ => Nat.le_refl _⟩

theorem shrinks_pullClaims (condition : SlotClaim → Bool) :
    Shrinks slots (pullClaims slots endpoint condition) := by
  refine ⟨fun e => ?_, fun e => Nat.le_of_eq (epochAt_pullClaims condition).symm⟩
  rw [claimsAt_pullClaims]
  split
  · exact List.filter_sublist
  · exact List.Sublist.refl _

def SlotUpdate.isPush : SlotUpdate → Bool
  | .push .. => true
  | _ => false

theorem shrinks_apply (h : update.isPush = false) : Shrinks slots (update.apply slots) := by
  cases update with
  | push => cases h
  | release endpoint claim => exact shrinks_pullClaims _
  | pull endpoint exact => exact shrinks_pullClaims _
  | releaseTask endpoint owner => exact shrinks_pullClaims _
  | fence endpoint =>
    refine ⟨fun e => ?_, fun e => ?_⟩
    · rw [claimsAt_fence]
    · rw [epochAt_fence]
      split <;> omega

/-! ## The invariant -/

/-- A claim where its call wanted it, as the reconcile of the call describes it. -/
structure PushedBy (call : AdmissionCall) (endpoint : String) (claim : SlotClaim) : Prop where
  place : call.endpoint = endpoint
  owner : claim.owner = call.claim.owner
  epoch : claim.admissionEpoch = call.admissionEpoch

/-- The phases in which a claim of the call can be in a document. -/
def AdmissionPhase.mayHold : AdmissionPhase → Prop
  | .admitted | .uncertain | .fenced => True
  | _ => False

/-- The phases in which an acquire of the call can be in flight. -/
def AdmissionPhase.mayLand : AdmissionPhase → Prop
  | .uncertain | .fenced | .reconciled => True
  | _ => False

/-- The fields of a call that are about what it was made from. -/
structure CallWellFormed (ipAddress : String → Option String) (token : Token)
    (call : AdmissionCall) : Prop where
  place : call.task.endpoint ipAddress = some call.endpoint
  owner : claimOwner call.task token = some call.claim.owner
  epoch : call.claim.admissionEpoch = call.admissionEpoch
  held : ∀ claim, call.held = some claim → claim.owner = call.claim.owner

structure AdmissionSafe (ipAddress : String → Option String) (s : AdmissionState) : Prop where
  room : ∀ endpoint, (claimsAt s.db.store endpoint).length ≤ maxSshConnectionsPerDevice
  tokens : ∀ endpoint, ∀ claim ∈ claimsAt s.db.store endpoint, claim.owner.token < s.nextToken
  calls : ∀ token call, s.calls token = some call →
    token < s.nextToken ∧ CallWellFormed ipAddress token call
  ready : ∀ token call, s.calls token = some call → call.phase = .writing →
    ∀ epoch, call.admissionEpoch = some epoch → epoch ≤ epochAt s.db.store call.endpoint
  placed : ∀ endpoint, ∀ claim ∈ claimsAt s.db.store endpoint,
    ∀ call, s.calls claim.owner.token = some call →
      PushedBy call endpoint claim ∧ call.phase.mayHold
  late : ∀ endpoint claim epoch, .push endpoint claim epoch ∈ s.db.late →
    ∃ call, s.calls claim.owner.token = some call ∧ PushedBy call endpoint claim ∧
      call.admissionEpoch = some epoch ∧ call.phase.mayLand ∧
      epoch ≤ epochAt s.db.store endpoint ∧
      (call.phase ≠ .uncertain → epoch < epochAt s.db.store endpoint)

theorem claimOwner_token {task : SshTask} {owner : ClaimOwner}
    (h : claimOwner task token = some owner) : owner.token = token := by
  unfold claimOwner at h
  simp only [bind, Option.bind_eq_some_iff, pure, Option.some.injEq] at h
  obtain ⟨_, _, _, _, _, _, _, _, rfl⟩ := h
  rfl

theorem CallWellFormed.owner_token (h : CallWellFormed ipAddress token call) :
    call.claim.owner.token = token := claimOwner_token h.owner

theorem admissionInitial_safe (h : AdmissionInitial s) : AdmissionSafe ipAddress s where
  room := h.room
  tokens := h.tokens
  calls := fun token call hc => by simp [h.calls] at hc
  ready := fun token call hc => by simp [h.calls] at hc
  placed := fun endpoint claim _ call hc => by simp [h.calls] at hc
  late := fun endpoint claim epoch hu => by simp [h.late] at hu

/-! ## What keeps it -/

/-- Nothing is pushed, and no push comes into flight. -/
theorem AdmissionSafe.shrink (h : AdmissionSafe ipAddress s) {db : InFlight Slots SlotUpdate}
    (hs : Shrinks s.db.store db.store)
    (hl : ∀ update ∈ db.late, update.isPush = true → update ∈ s.db.late) :
    AdmissionSafe ipAddress { s with db } where
  room := fun endpoint => Nat.le_trans (hs.claims endpoint).length_le (h.room endpoint)
  tokens := fun endpoint claim hc => h.tokens endpoint claim ((hs.claims endpoint).subset hc)
  calls := h.calls
  ready := fun token call hc hp epoch he =>
    Nat.le_trans (h.ready token call hc hp epoch he) (hs.epoch call.endpoint)
  placed := fun endpoint claim hc => h.placed endpoint claim ((hs.claims endpoint).subset hc)
  late := by
    intro endpoint claim epoch hu
    obtain ⟨call, hc, hp, he, hm, hle, hlt⟩ := h.late endpoint claim epoch (hl _ hu rfl)
    have hmono := hs.epoch endpoint
    exact ⟨call, hc, hp, he, hm, Nat.le_trans hle hmono,
      fun hne => Nat.lt_of_lt_of_le (hlt hne) hmono⟩

theorem AdmissionSafe.send (h : AdmissionSafe ipAddress s) (hu : update.isPush = false) :
    AdmissionSafe ipAddress (s.send update o) := by
  refine h.shrink ?_ ?_
  · rcases InFlight.send_store SlotUpdate.apply update s.db o with hs | hs
    · exact hs ▸ shrinks_refl _
    · exact hs ▸ shrinks_apply hu
  · intro v hv hpush
    rcases InFlight.mem_late_send hv with hv | hv
    · rw [hv, hu] at hpush
      cases hpush
    · exact hv

/-- A call changes. What has to be shown is about the claims and the acquires of its token. -/
theorem AdmissionSafe.setCall (h : AdmissionSafe ipAddress s) (ht : token < s.nextToken)
    (hwf : CallWellFormed ipAddress token call')
    (hready : call'.phase = .writing →
      ∀ epoch, call'.admissionEpoch = some epoch → epoch ≤ epochAt s.db.store call'.endpoint)
    (hplaced : ∀ endpoint, ∀ claim ∈ claimsAt s.db.store endpoint, claim.owner.token = token →
      PushedBy call' endpoint claim ∧ call'.phase.mayHold)
    (hlate : ∀ endpoint claim epoch, .push endpoint claim epoch ∈ s.db.late →
      claim.owner.token = token →
      PushedBy call' endpoint claim ∧ call'.admissionEpoch = some epoch ∧ call'.phase.mayLand ∧
        epoch ≤ epochAt s.db.store endpoint ∧
        (call'.phase ≠ .uncertain → epoch < epochAt s.db.store endpoint)) :
    AdmissionSafe ipAddress (s.setCall token call') where
  room := h.room
  tokens := h.tokens
  calls := by
    intro other call hc
    by_cases ho : other = token
    · subst ho
      simp only [AdmissionState.setCall, Function.update_self, Option.some.injEq] at hc
      exact hc ▸ ⟨ht, hwf⟩
    · simp only [AdmissionState.setCall, Function.update_of_ne ho] at hc
      exact h.calls other call hc
  ready := by
    intro other call hc
    by_cases ho : other = token
    · subst ho
      simp only [AdmissionState.setCall, Function.update_self, Option.some.injEq] at hc
      exact hc ▸ hready
    · simp only [AdmissionState.setCall, Function.update_of_ne ho] at hc
      exact h.ready other call hc
  placed := by
    intro endpoint claim hm call hc
    by_cases ho : claim.owner.token = token
    · simp only [AdmissionState.setCall, ho, Function.update_self, Option.some.injEq] at hc
      exact hc ▸ hplaced endpoint claim hm ho
    · simp only [AdmissionState.setCall, Function.update_of_ne ho] at hc
      exact h.placed endpoint claim hm call hc
  late := by
    intro endpoint claim epoch hu
    by_cases ho : claim.owner.token = token
    · refine ⟨call', ?_, hlate endpoint claim epoch hu ho⟩
      simp [AdmissionState.setCall, ho]
    · obtain ⟨call, hc, hrest⟩ := h.late endpoint claim epoch hu
      refine ⟨call, ?_, hrest⟩
      simpa [AdmissionState.setCall, Function.update_of_ne ho] using hc

/-- A call that has not sent its update yet, or whose update has been refused, has nothing
in a document and nothing in flight; it may become any call that has neither. -/
theorem AdmissionSafe.setCall_before (h : AdmissionSafe ipAddress s)
    (hc : s.calls token = some call) (hhold : ¬ call.phase.mayHold) (hland : ¬ call.phase.mayLand)
    (hwf : CallWellFormed ipAddress token call')
    (hready : call'.phase = .writing →
      ∀ epoch, call'.admissionEpoch = some epoch → epoch ≤ epochAt s.db.store call'.endpoint) :
    AdmissionSafe ipAddress (s.setCall token call') := by
  refine h.setCall (h.calls token call hc).1 hwf hready ?_ ?_
  · intro endpoint claim hm ho
    exact absurd (h.placed endpoint claim hm call (ho ▸ hc)).2 hhold
  · intro endpoint claim epoch hu ho
    obtain ⟨call₁, hc₁, -, -, hm, -⟩ := h.late endpoint claim epoch hu
    rw [ho, hc, Option.some.injEq] at hc₁
    exact absurd (hc₁ ▸ hm) hland

/-- An acquire is applied, for a call that may hold a claim. -/
theorem AdmissionSafe.push (h : AdmissionSafe ipAddress s)
    (hc : s.calls claim.owner.token = some call) (hp : PushedBy call endpoint claim)
    (hhold : call.phase.mayHold) (hle : epoch ≤ epochAt s.db.store endpoint) :
    AdmissionSafe ipAddress (s.send (.push endpoint claim epoch) .performed) := by
  by_cases hadm : admits s.db.store endpoint epoch = true
  swap
  · have hsame := push_refused claim (Bool.eq_false_iff.mpr hadm)
    have heq : s.send (.push endpoint claim epoch) .performed = s := by
      simp [AdmissionState.send, InFlight.send, hsame]
    rw [heq]
    exact h
  have hclaims : ∀ e c, c ∈ claimsAt ((SlotUpdate.push endpoint claim epoch).apply s.db.store) e →
      c ∈ claimsAt s.db.store e ∨ e = endpoint ∧ c = claim := by
    intro e c hm
    rw [claimsAt_push hadm] at hm
    split at hm
    next he =>
      rcases List.mem_append.mp hm with hm | hm
      · exact Or.inl hm
      · exact Or.inr ⟨he, List.mem_singleton.mp hm⟩
    next => exact Or.inl hm
  have hepoch : ∀ e, epochAt ((SlotUpdate.push endpoint claim epoch).apply s.db.store) e =
      epochAt s.db.store e := fun e => epochAt_push hadm hle
  exact {
    room := by
      intro e
      show (claimsAt ((SlotUpdate.push endpoint claim epoch).apply s.db.store) e).length ≤ _
      rw [claimsAt_push hadm]
      split
      next he =>
        have hroom := admits_room hadm
        rw [he, List.length_append, List.length_singleton]
        exact hroom
      next => exact h.room e
    tokens := by
      intro e c hm
      rcases hclaims e c hm with hm | ⟨-, rfl⟩
      · exact h.tokens e c hm
      · exact (h.calls _ call hc).1
    calls := h.calls
    ready := fun other k hk hph n hn =>
      Nat.le_trans (h.ready other k hk hph n hn) (Nat.le_of_eq (hepoch _).symm)
    placed := by
      intro e c hm k hk
      rcases hclaims e c hm with hm | ⟨rfl, rfl⟩
      · exact h.placed e c hm k hk
      · have hk' : k = call := Option.some.inj (hk.symm.trans hc)
        exact hk' ▸ ⟨hp, hhold⟩
    late := by
      intro e c n hu
      obtain ⟨k, hk, hpk, hek, hmk, hlek, hltk⟩ := h.late e c n hu
      have hsame := Nat.le_of_eq (hepoch e).symm
      exact ⟨k, hk, hpk, hek, hmk, Nat.le_trans hlek hsame,
        fun hne => Nat.lt_of_lt_of_le (hltk hne) hsame⟩ }

/-- An acquire goes out and nobody learns what becomes of it. -/
theorem AdmissionSafe.pushLost (h : AdmissionSafe ipAddress s)
    (hc : s.calls claim.owner.token = some call) (hp : PushedBy call endpoint claim)
    (hph : call.phase = .uncertain) (he : call.admissionEpoch = some epoch)
    (hle : epoch ≤ epochAt s.db.store endpoint) :
    AdmissionSafe ipAddress (s.send (.push endpoint claim epoch) .lost) where
  room := h.room
  tokens := h.tokens
  calls := h.calls
  ready := h.ready
  placed := h.placed
  late := by
    intro e c n hu
    rcases InFlight.mem_late_send hu with hu | hu
    · obtain ⟨rfl, rfl, rfl⟩ := SlotUpdate.push.inj hu
      exact ⟨call, hc, hp, he, hph ▸ trivial, hle, fun hne => absurd hph hne⟩
    · exact h.late e c n hu

/-! ## What each act does -/

theorem startAct_cases {task : SshTask} {now : Nat} (h : startAct ipAddress task now s = some t) :
    ∃ call, CallWellFormed ipAddress s.nextToken call ∧ call.phase = .reading ∧
      t = { s.setCall s.nextToken call with nextToken := s.nextToken + 1 } := by
  simp only [startAct, bind, Option.bind_eq_some_iff, pure, Option.some.injEq] at h
  obtain ⟨endpoint, he, owner, ho, rfl⟩ := h
  refine ⟨_, ⟨he, ho, rfl, ?_⟩, rfl, rfl⟩
  intro claim hc
  cases hc

theorem readAct_cases {now : Nat} (h : readAct token now o s = some t) :
    ∃ call call', s.calls token = some call ∧ call.phase = .reading ∧ t = s.setCall token call' ∧
      call'.task = call.task ∧ call'.endpoint = call.endpoint ∧
      call'.claim.owner = call.claim.owner ∧
      (call'.phase = .writing ∧ call'.held = call.held ∧
          call'.admissionEpoch = some (epochAt s.db.store call.endpoint) ∧
          call'.claim.admissionEpoch = call'.admissionEpoch ∨
        call'.phase = .uncertain ∧ call'.held = some call.claim ∧ call'.claim = call.claim ∧
          call'.admissionEpoch = call.admissionEpoch) := by
  simp only [readAct, bind, Option.bind_eq_some_iff, pure] at h
  obtain ⟨call, hc, h⟩ := h
  split at h
  next => cases h
  next hph =>
    have hreading : call.phase = .reading := Decidable.not_not.mp hph
    cases o with
    | performed =>
      cases h
      exact ⟨call, _, hc, hreading, rfl, rfl, rfl, rfl, Or.inl ⟨rfl, rfl, rfl, rfl⟩⟩
    | lost =>
      cases h
      exact ⟨call, _, hc, hreading, rfl, rfl, rfl, rfl, Or.inr ⟨rfl, rfl, rfl, rfl⟩⟩

/-- The call after its update, with the phase the outcome puts it in. -/
theorem writeAct_cases (h : writeAct token o s = some t) :
    ∃ call epoch, s.calls token = some call ∧ call.phase = .writing ∧
      call.admissionEpoch = some epoch ∧
      (o = .lost ∧ t = (s.send (.push call.endpoint call.claim epoch) .lost).setCall token
          { call with phase := .uncertain, held := some call.claim } ∨
        o = .performed ∧ t = (s.send (.push call.endpoint call.claim epoch) .performed).setCall
          token { call with phase := .admitted, held := some call.claim } ∨
        o = .performed ∧ ∃ phase attempt, (phase = .full ∨ phase = .reading) ∧
          admits s.db.store call.endpoint epoch = false ∧
          t = (s.send (.push call.endpoint call.claim epoch) .performed).setCall token
            { call with phase, attempt }) := by
  simp only [writeAct, bind, Option.bind_eq_some_iff, pure] at h
  obtain ⟨call, hc, epoch, he, h⟩ := h
  split at h
  next => cases h
  next hph =>
    refine ⟨call, epoch, hc, Decidable.not_not.mp hph, he, ?_⟩
    cases o with
    | lost =>
      cases h
      exact Or.inl ⟨rfl, rfl⟩
    | performed =>
      simp only at h
      split at h
      next =>
        cases h
        exact Or.inr (Or.inl ⟨rfl, rfl⟩)
      next hadm =>
        refine Or.inr (Or.inr ⟨rfl, ?_⟩)
        split at h
        next =>
          cases h
          exact ⟨.full, _, Or.inl rfl, Bool.eq_false_iff.mpr hadm, rfl⟩
        next =>
          cases h
          exact ⟨.reading, _, Or.inr rfl, Bool.eq_false_iff.mpr hadm, rfl⟩

theorem releaseAct_cases (h : releaseAct token o s = some t) :
    ∃ call claim, s.calls token = some call ∧ call.held = some claim ∧
      (t = s.send (.release call.endpoint claim) o ∨
        t = (s.send (.release call.endpoint claim) o).setCall token { call with held := none }) := by
  simp only [releaseAct, bind, Option.bind_eq_some_iff, pure] at h
  obtain ⟨call, hc, claim, hh, h⟩ := h
  refine ⟨call, claim, hc, hh, ?_⟩
  cases o with
  | performed =>
    cases h
    exact Or.inr rfl
  | lost =>
    cases h
    exact Or.inl rfl

theorem fenceAct_cases {task : SshTask} (h : fenceAct ipAddress token task o s = some t) :
    ∃ call endpoint, s.calls token = some call ∧ task.endpoint ipAddress = some endpoint ∧
      call.phase.mayLand ∧
      (o = .lost ∧ t = s.send (.fence endpoint) .lost ∨
        o = .performed ∧ t = (s.send (.fence endpoint) .performed).setCall token
          { call with phase := call.phase.afterFence }) := by
  simp only [fenceAct, bind, Option.bind_eq_some_iff, pure] at h
  obtain ⟨call, hc, endpoint, he, _, -, h⟩ := h
  split at h
  next => cases h
  next hph =>
    refine ⟨call, endpoint, hc, he, ?_, ?_⟩
    · unfold AdmissionPhase.mayLand
      cases hp : call.phase <;> simp_all
    · cases o with
      | performed =>
        cases h
        exact Or.inr ⟨rfl, rfl⟩
      | lost =>
        cases h
        exact Or.inl ⟨rfl, rfl⟩

theorem pullAct_cases {task : SshTask} (h : pullAct ipAddress token task o s = some t) :
    ∃ call endpoint owner, s.calls token = some call ∧ task.endpoint ipAddress = some endpoint ∧
      claimOwner task token = some owner ∧ (call.phase = .fenced ∨ call.phase = .reconciled) ∧
      (o = .lost ∧ t = s.send (.pull endpoint ⟨owner, none, call.admissionEpoch⟩) .lost ∨
        o = .performed ∧ t = (s.send (.pull endpoint ⟨owner, none, call.admissionEpoch⟩)
          .performed).setCall token { call with phase := .reconciled }) := by
  simp only [pullAct, bind, Option.bind_eq_some_iff, pure] at h
  obtain ⟨call, hc, endpoint, he, owner, ho, h⟩ := h
  split at h
  next => cases h
  next hph =>
    refine ⟨call, endpoint, owner, hc, he, ho, by tauto, ?_⟩
    cases o with
    | performed =>
      cases h
      exact Or.inr ⟨rfl, rfl⟩
    | lost =>
      cases h
      exact Or.inl ⟨rfl, rfl⟩

/-! ## One step -/

/-- A reconcile is given a task with the endpoint and the owner fields of the acquire. -/
def InPlace (ipAddress : String → Option String) (s : AdmissionState) : AdmissionAct → Prop
  | .fence token task _ | .pull token task _ =>
    ∀ call, s.calls token = some call →
      task.endpoint ipAddress = call.task.endpoint ipAddress ∧
        claimOwner task token = claimOwner call.task token
  | _ => True

def InPlaceStep (ipAddress : String → Option String) (s t : AdmissionState) : Prop :=
  ∃ act : AdmissionAct, InPlace ipAddress s act ∧ act.apply ipAddress s = some t

theorem AdmissionSafe.start {task : SshTask} {now : Nat} (h : AdmissionSafe ipAddress s)
    (ha : startAct ipAddress task now s = some t) : AdmissionSafe ipAddress t := by
  obtain ⟨call, hwf, hph, rfl⟩ := startAct_cases ha
  -- the next token first becomes an issued one that no call has
  have hnext : AdmissionSafe ipAddress { s with nextToken := s.nextToken + 1 } := {
    h with
    tokens := fun e c hc => Nat.lt_succ_of_lt (h.tokens e c hc)
    calls := fun token call hc =>
      ⟨Nat.lt_succ_of_lt (h.calls token call hc).1, (h.calls token call hc).2⟩ }
  have hlt : s.nextToken < s.nextToken + 1 := Nat.lt_succ_self _
  refine hnext.setCall hlt hwf ?_ ?_ ?_
  · intro hw
    rw [hph] at hw
    cases hw
  · intro e c hc ho
    exact absurd ho (Nat.ne_of_lt (h.tokens e c hc))
  · intro e c n hu ho
    obtain ⟨k, hk, -⟩ := h.late e c n hu
    exact absurd ho (Nat.ne_of_lt (h.calls _ k hk).1)

theorem AdmissionSafe.read {now : Nat} (h : AdmissionSafe ipAddress s)
    (ha : readAct token now o s = some t) : AdmissionSafe ipAddress t := by
  obtain ⟨call, call', hc, hph, rfl, htask, hplace, howner, hcase⟩ := readAct_cases ha
  have hwf := (h.calls token call hc).2
  refine h.setCall_before hc (by simp [hph, AdmissionPhase.mayHold])
    (by simp [hph, AdmissionPhase.mayLand]) ?_ ?_
  · refine ⟨by rw [htask, hplace]; exact hwf.place, by rw [htask, howner]; exact hwf.owner, ?_, ?_⟩
    · rcases hcase with ⟨-, -, -, he⟩ | ⟨-, -, hcl, he⟩
      · exact he
      · rw [hcl, he]
        exact hwf.epoch
    · intro claim hheld
      rw [howner]
      rcases hcase with ⟨-, hh, -⟩ | ⟨-, hh, -⟩
      · exact hwf.held claim (hh ▸ hheld)
      · rw [hh, Option.some.injEq] at hheld
        exact hheld ▸ rfl
  · intro hw epoch he
    rcases hcase with ⟨-, -, hep, -⟩ | ⟨hu, -⟩
    · rw [hep, Option.some.injEq] at he
      rw [hplace]
      exact Nat.le_of_eq he.symm
    · rw [hu] at hw
      cases hw

theorem AdmissionSafe.write (h : AdmissionSafe ipAddress s)
    (ha : writeAct token o s = some t) : AdmissionSafe ipAddress t := by
  obtain ⟨call, epoch, hc, hph, he, hcase⟩ := writeAct_cases ha
  have hwf := (h.calls token call hc).2
  have hle := h.ready token call hc hph epoch he
  -- with its claim noted the call is well formed in every phase
  have hheld : ∀ phase, CallWellFormed ipAddress token
      { call with phase, held := some call.claim } := fun phase =>
    ⟨hwf.place, hwf.owner, hwf.epoch, fun claim hcl => by cases hcl; rfl⟩
  have hhold : ¬ call.phase.mayHold := by simp [hph, AdmissionPhase.mayHold]
  have hland : ¬ call.phase.mayLand := by simp [hph, AdmissionPhase.mayLand]
  have hself : ∀ call', (s.setCall token call').calls call.claim.owner.token = some call' := by
    intro call'
    rw [hwf.owner_token]
    exact Function.update_self ..
  rcases hcase with ⟨-, rfl⟩ | ⟨-, rfl⟩ | ⟨-, phase, attempt, hphase, hadm, rfl⟩
  · -- lost: the call waits as an uncertain one, with its update in flight
    have hset := h.setCall_before hc hhold hland (hheld .uncertain) (fun hw => nomatch hw)
    exact hset.pushLost (hself _) ⟨rfl, rfl, hwf.epoch⟩ rfl he hle
  · have hset := h.setCall_before hc hhold hland (hheld .admitted) (fun hw => nomatch hw)
    exact hset.push (hself _) ⟨rfl, rfl, hwf.epoch⟩ trivial hle
  · -- refused: nothing is written, the call gives up or reads again
    have hsame : s.send (.push call.endpoint call.claim epoch) .performed = s := by
      simp [AdmissionState.send, InFlight.send, push_refused call.claim hadm]
    rw [hsame]
    refine h.setCall_before hc hhold hland ⟨hwf.place, hwf.owner, hwf.epoch, hwf.held⟩ ?_
    intro hw
    rcases hphase with rfl | rfl <;> cases hw

theorem AdmissionSafe.release (h : AdmissionSafe ipAddress s)
    (ha : releaseAct token o s = some t) : AdmissionSafe ipAddress t := by
  obtain ⟨call, claim, hc, -, hcase⟩ := releaseAct_cases ha
  have hsent : AdmissionSafe ipAddress (s.send (.release call.endpoint claim) o) := h.send rfl
  rcases hcase with rfl | rfl
  · exact hsent
  · have hwf := (h.calls token call hc).2
    refine hsent.setCall (h.calls token call hc).1
      ⟨hwf.place, hwf.owner, hwf.epoch, fun claim hcl => nomatch hcl⟩
      (hsent.ready token call hc) ?_ ?_
    · intro e c hm ho
      obtain ⟨hp, hm⟩ := hsent.placed e c hm call (ho ▸ hc)
      exact ⟨⟨hp.place, hp.owner, hp.epoch⟩, hm⟩
    · intro e c n hu ho
      obtain ⟨k, hk, hp, hrest⟩ := hsent.late e c n hu
      have hk' : k = call := Option.some.inj (hk.symm.trans (ho ▸ hc))
      subst hk'
      exact ⟨⟨hp.place, hp.owner, hp.epoch⟩, hrest⟩

/-- The epoch an acquire in flight is bound to has been passed once the fence has returned. -/
theorem AdmissionSafe.fence {task : SshTask} (h : AdmissionSafe ipAddress s)
    (hin : InPlace ipAddress s (.fence token task o))
    (ha : fenceAct ipAddress token task o s = some t) : AdmissionSafe ipAddress t := by
  obtain ⟨call, endpoint, hc, he, hland, hcase⟩ := fenceAct_cases ha
  rcases hcase with ⟨-, rfl⟩ | ⟨-, rfl⟩
  · exact h.send rfl
  · have hsent : AdmissionSafe ipAddress (s.send (.fence endpoint) .performed) := h.send rfl
    have hwf := (h.calls token call hc).2
    have hplace : call.endpoint = endpoint := by
      have heq := (hin call hc).1
      rw [he, hwf.place, Option.some.injEq] at heq
      exact heq.symm
    have hafter : call.phase.afterFence.mayLand := by
      unfold AdmissionPhase.afterFence
      cases call.phase <;> trivial
    refine hsent.setCall (h.calls token call hc).1 ⟨hwf.place, hwf.owner, hwf.epoch, hwf.held⟩
      ?_ ?_ ?_
    · intro hw
      unfold AdmissionPhase.afterFence at hw
      cases hp : call.phase <;> rw [hp] at hw <;> cases hw
    · intro e c hm ho
      obtain ⟨hp, hm⟩ := hsent.placed e c hm call (ho ▸ hc)
      refine ⟨⟨hp.place, hp.owner, hp.epoch⟩, ?_⟩
      unfold AdmissionPhase.afterFence
      cases hph : call.phase <;> simp_all [AdmissionPhase.mayHold]
    · intro e c n hu ho
      obtain ⟨k, hk, hp, hek, -, hle, -⟩ := h.late e c n hu
      have hk' : k = call := Option.some.inj (hk.symm.trans (ho ▸ hc))
      subst hk'
      have hlt : n < epochAt ((SlotUpdate.fence endpoint).apply s.db.store) e := by
        rw [epochAt_fence, if_pos (hp.place.symm.trans hplace)]
        exact Nat.lt_succ_of_le hle
      exact ⟨⟨hp.place, hp.owner, hp.epoch⟩, hek, hafter, Nat.le_of_lt hlt, fun _ => hlt⟩

/-- The pull removes every claim of its token. -/
theorem pull_claims {task : SshTask} {owner : ClaimOwner} (h : AdmissionSafe ipAddress s)
    (hc : s.calls token = some call) (he : task.endpoint ipAddress = some endpoint)
    (ho : claimOwner task token = some owner)
    (hin : task.endpoint ipAddress = call.task.endpoint ipAddress ∧
      claimOwner task token = claimOwner call.task token)
    (hm : claim ∈ claimsAt ((SlotUpdate.pull endpoint ⟨owner, none, call.admissionEpoch⟩).apply
      s.db.store) endpoint') :
    claim.owner.token ≠ token := by
  intro htoken
  have hwf := (h.calls token call hc).2
  have hplace : call.endpoint = endpoint := by
    have heq := hin.1
    rw [he, hwf.place, Option.some.injEq] at heq
    exact heq.symm
  have howner : owner = call.claim.owner := by
    have heq := hin.2
    rw [ho, hwf.owner, Option.some.injEq] at heq
    exact heq
  simp only [SlotUpdate.apply] at hm
  rw [claimsAt_pullClaims] at hm
  split at hm
  next heq =>
    obtain ⟨hmem, hnot⟩ := List.mem_filter.mp hm
    have hp := (h.placed _ claim hmem call (htoken ▸ hc)).1
    simp [ClaimPattern.matches, hp.owner, hp.epoch, howner] at hnot
  next hne =>
    have hp := (h.placed _ claim hm call (htoken ▸ hc)).1
    exact hne (hp.place.symm.trans hplace)

theorem AdmissionSafe.pull {task : SshTask} (h : AdmissionSafe ipAddress s)
    (hin : InPlace ipAddress s (.pull token task o))
    (ha : pullAct ipAddress token task o s = some t) : AdmissionSafe ipAddress t := by
  obtain ⟨call, endpoint, owner, hc, he, ho, hph, hcase⟩ := pullAct_cases ha
  rcases hcase with ⟨-, rfl⟩ | ⟨-, rfl⟩
  · exact h.send rfl
  · have hsent : AdmissionSafe ipAddress
        (s.send (.pull endpoint ⟨owner, none, call.admissionEpoch⟩) .performed) := h.send rfl
    have hwf := (h.calls token call hc).2
    refine hsent.setCall (h.calls token call hc).1 ⟨hwf.place, hwf.owner, hwf.epoch, hwf.held⟩
      (fun hw => nomatch hw) ?_ ?_
    · intro e c hm htoken
      exact absurd htoken (pull_claims h hc he ho (hin call hc) hm)
    · intro e c n hu htoken
      obtain ⟨k, hk, hp, hek, -, hle, hlt⟩ := hsent.late e c n hu
      have hk' : k = call := Option.some.inj (hk.symm.trans (htoken ▸ hc))
      subst hk'
      refine ⟨⟨hp.place, hp.owner, hp.epoch⟩, hek, trivial, hle, fun _ => hlt ?_⟩
      rcases hph with hph | hph <;> simp [hph]

/-- A late acquire is applied only if no reconcile of its token has advanced the epoch. -/
theorem AdmissionSafe.land {index : Nat} (h : AdmissionSafe ipAddress s)
    {db : InFlight Slots SlotUpdate} (ha : InFlight.land SlotUpdate.apply index s.db = some db) :
    AdmissionSafe ipAddress { s with db } := by
  obtain ⟨update, hu, hstore, hlate⟩ := InFlight.land_cases ha
  -- the list only loses an update, so it is enough to follow the store
  have hforget : ∀ {slots}, AdmissionSafe ipAddress { s with db := { s.db with store := slots } } →
      db.store = slots → AdmissionSafe ipAddress { s with db } := by
    intro slots hsafe heq
    exact hsafe.shrink (heq ▸ shrinks_refl _) (fun v hv _ => hlate v hv)
  cases hpush : update.isPush with
  | false =>
    refine h.shrink ?_ (fun v hv _ => hlate v hv)
    exact hstore ▸ shrinks_apply hpush
  | true =>
    cases update with
    | push endpoint claim epoch =>
      obtain ⟨call, hc, hp, he, hm, hle, hlt⟩ := h.late endpoint claim epoch hu
      by_cases hunc : call.phase = .uncertain
      · exact hforget (h.push hc hp (hunc ▸ trivial) hle) hstore
      · have hadm : admits s.db.store endpoint epoch = false := by
          refine Bool.eq_false_iff.mpr fun hadm => ?_
          exact absurd (admits_epoch hadm hle) (Nat.ne_of_lt (hlt hunc))
        rw [push_refused _ hadm] at hstore
        exact hforget h hstore
    | _ => cases hpush

theorem InPlaceStep.safe (hst : InPlaceStep ipAddress s t) (h : AdmissionSafe ipAddress s) :
    AdmissionSafe ipAddress t := by
  obtain ⟨act, hin, ha⟩ := hst
  cases act with
  | start task now => exact h.start ha
  | read token now o => exact h.read ha
  | write token o => exact h.write ha
  | release token o => exact h.release ha
  | fence token task o => exact h.fence hin ha
  | pull token task o => exact h.pull hin ha
  | releaseTask endpoint owner o =>
    cases ha
    exact h.send rfl
  | land index =>
    obtain ⟨db, hdb, rfl⟩ := Option.map_eq_some_iff.mp ha
    exact h.land hdb

theorem admission_safe (h : Reachable AdmissionInitial (InPlaceStep ipAddress) s) :
    AdmissionSafe ipAddress s :=
  h.invariant (fun _ h₀ => admissionInitial_safe h₀) (fun _ _ hst hs => hst.safe hs)

/-! ## Reconciled for good -/

def Reconciled (s : AdmissionState) (token : Token) : Prop :=
  ∃ call, s.calls token = some call ∧ call.phase = .reconciled

theorem Reconciled.setCall {other : Token} (h : Reconciled s token)
    (hc : s.calls other = some call) (hph : call.phase = .reconciled → call'.phase = .reconciled) :
    Reconciled (s.setCall other call') token := by
  obtain ⟨k, hk, hkph⟩ := h
  by_cases ho : token = other
  · subst ho
    have hkc : k = call := Option.some.inj (hk.symm.trans hc)
    exact ⟨call', Function.update_self .., hph (hkc ▸ hkph)⟩
  · exact ⟨k, (Function.update_of_ne ho ..).trans hk, hkph⟩

theorem InPlaceStep.reconciled (hsafe : AdmissionSafe ipAddress s)
    (hst : InPlaceStep ipAddress s t) (h : Reconciled s token) : Reconciled t token := by
  obtain ⟨act, -, ha⟩ := hst
  cases act with
  | start task now =>
    obtain ⟨call, -, -, rfl⟩ := startAct_cases ha
    obtain ⟨k, hk, hph⟩ := h
    have hne := Nat.ne_of_lt (hsafe.calls token k hk).1
    exact ⟨k, (Function.update_of_ne hne ..).trans hk, hph⟩
  | read other now o =>
    obtain ⟨call, call', hc, hph, rfl, -⟩ := readAct_cases ha
    exact h.setCall hc (fun he => by rw [hph] at he; cases he)
  | write other o =>
    obtain ⟨call, epoch, hc, hph, -, hcase⟩ := writeAct_cases ha
    have hne : call.phase ≠ .reconciled := by simp [hph]
    rcases hcase with ⟨-, rfl⟩ | ⟨-, rfl⟩ | ⟨-, _, _, -, -, rfl⟩
    · exact Reconciled.setCall (s := s) h hc (fun he => absurd he hne)
    · exact Reconciled.setCall (s := s) h hc (fun he => absurd he hne)
    · exact Reconciled.setCall (s := s) h hc (fun he => absurd he hne)
  | release other o =>
    obtain ⟨call, claim, hc, -, hcase⟩ := releaseAct_cases ha
    rcases hcase with rfl | rfl
    · exact h
    · exact Reconciled.setCall (s := s) h hc id
  | fence other task o =>
    obtain ⟨call, endpoint, hc, -, -, hcase⟩ := fenceAct_cases ha
    rcases hcase with ⟨-, rfl⟩ | ⟨-, rfl⟩
    · exact h
    · exact Reconciled.setCall (s := s) h hc (fun he => by simp [he, AdmissionPhase.afterFence])
  | pull other task o =>
    obtain ⟨call, endpoint, owner, hc, -, -, -, hcase⟩ := pullAct_cases ha
    rcases hcase with ⟨-, rfl⟩ | ⟨-, rfl⟩
    · exact h
    · exact Reconciled.setCall (s := s) h hc (fun _ => rfl)
  | releaseTask endpoint owner o =>
    cases ha
    exact h
  | land index =>
    obtain ⟨db, -, rfl⟩ := Option.map_eq_some_iff.mp ha
    exact h

theorem AdmissionSafe.absent (h : AdmissionSafe ipAddress s) (hr : Reconciled s token)
    (hm : claim ∈ claimsAt s.db.store endpoint) : claim.owner.token ≠ token := by
  intro htoken
  obtain ⟨call, hc, hph⟩ := hr
  have hhold := (h.placed endpoint claim hm call (htoken ▸ hc)).2
  rw [hph] at hhold
  exact hhold

/-- What holds of a token once its reconcile has returned holds along the rest of the run. -/
theorem reconciled_run (hs : AdmissionSafe ipAddress s) (hr : Reconciled s token)
    (hrun : ReflTransGen (InPlaceStep ipAddress) s t) :
    AdmissionSafe ipAddress t ∧ Reconciled t token := by
  refine sticky (I := fun s => AdmissionSafe ipAddress s ∧ Reconciled s token) ?_ hrun ⟨hs, hr⟩
  intro s t hst h
  exact ⟨hst.safe h.1, hst.reconciled h.1 h.2⟩

/-! ## A release -/

/-- The claims of the other tokens. -/
def others (token : Token) (claims : List SlotClaim) : List SlotClaim :=
  claims.filter fun claim => claim.owner.token ≠ token

/-- The token whose release an act is: one of a client, or one that is applied late. -/
def AdmissionAct.releasing (s : AdmissionState) : AdmissionAct → Option Token
  | .release token _ => some token
  | .land index =>
    match s.db.late[index]? with
    | some (.release _ claim) => some claim.owner.token
    | _ => none
  | _ => none

theorem others_release (slots : Slots) (endpoint endpoint' : String) (claim : SlotClaim) :
    others claim.owner.token
        (claimsAt ((SlotUpdate.release endpoint claim).apply slots) endpoint') =
      others claim.owner.token (claimsAt slots endpoint') := by
  simp only [SlotUpdate.apply]
  rw [claimsAt_pullClaims]
  split
  · unfold others
    rw [List.filter_filter]
    refine List.filter_congr fun c _ => ?_
    -- a claim of another token is not the one the release pulls
    by_cases hc : c.owner.token = claim.owner.token
    · simp [hc]
    · have hne : c.owner ≠ claim.owner := fun he => hc (he ▸ rfl)
      simp [hc, hne, SlotClaim.whole, ClaimPattern.matches]
  · rfl

theorem releasing_others (hs : AdmissionSafe ipAddress s) {act : AdmissionAct}
    (hr : act.releasing s = some token) (ha : act.apply ipAddress s = some t)
    (endpoint : String) :
    others token (claimsAt t.db.store endpoint) = others token (claimsAt s.db.store endpoint) := by
  cases act with
  | release token' o =>
    cases hr
    obtain ⟨call, claim, hc, hheld, hcase⟩ := releaseAct_cases ha
    have hwf := (hs.calls token call hc).2
    have htoken : claim.owner.token = token := by
      rw [hwf.held claim hheld]
      exact hwf.owner_token
    have hsent : others token (claimsAt (s.send (.release call.endpoint claim) o).db.store endpoint)
        = others token (claimsAt s.db.store endpoint) := by
      cases o with
      | performed => exact htoken ▸ others_release ..
      | lost => rfl
    rcases hcase with rfl | rfl <;> exact hsent
  | land index =>
    obtain ⟨db, hdb, rfl⟩ := Option.map_eq_some_iff.mp ha
    obtain ⟨update, hu, rfl⟩ := InFlight.land_eq_some.mp hdb
    simp only [AdmissionAct.releasing, hu] at hr
    cases update with
    | release endpoint' claim =>
      cases hr
      exact others_release ..
    | _ => cases hr
  | _ => cases hr

/-! ## The result -/

/-- In every run whose reconciles are in place: an endpoint never holds more claims than
allowed, a release leaves the claims of every other token, whenever it is applied, and from
the return of a reconcile on its token is in no document. -/
theorem admission_exact (ipAddress : String → Option String) (s : AdmissionState)
    (h : Reachable AdmissionInitial (InPlaceStep ipAddress) s) :
    (∀ endpoint, (claimsAt s.db.store endpoint).length ≤ maxSshConnectionsPerDevice) ∧
    (∀ act token t, AdmissionAct.releasing s act = some token → act.apply ipAddress s = some t →
      ∀ endpoint, others token (claimsAt t.db.store endpoint) =
        others token (claimsAt s.db.store endpoint)) ∧
    (∀ token, Reconciled s token → ∀ t, ReflTransGen (InPlaceStep ipAddress) s t →
      ∀ endpoint, ∀ claim ∈ claimsAt t.db.store endpoint, claim.owner.token ≠ token) := by
  have hs := admission_safe h
  refine ⟨hs.room, ?_, ?_⟩
  · intro act token t hr ha endpoint
    exact releasing_others hs hr ha endpoint
  · intro token hr t hrun endpoint claim hm
    obtain ⟨ht, hrt⟩ := reconciled_run hs hr hrun
    exact ht.absent hrt hm

def admissionRun (ipAddress : String → Option String) :
    List AdmissionAct → AdmissionState → Option AdmissionState
  | [], s => some s
  | act :: acts, s => act.apply ipAddress s >>= admissionRun ipAddress acts

theorem admissionRun_steps {acts : List AdmissionAct} (h : admissionRun ipAddress acts s = some t) :
    ReflTransGen (AdmissionStep ipAddress) s t := by
  induction acts generalizing s with
  | nil =>
    cases h
    exact ReflTransGen.refl
  | cons act acts ih =>
    obtain ⟨s₁, h₁, h₂⟩ := Option.bind_eq_some_iff.mp h
    exact ReflTransGen.head ⟨act, h₁⟩ (ih h₂)

def hostTask : SshTask :=
  { id := some "task-1", runId := some "run-1", generation := some 1, nodeId := some "node-1",
    ip := "10.0.0.1", port := some 22 }

def emptyAdmission : AdmissionState :=
  { db := { store := fun _ => none, late := [] }, calls := fun _ => none, nextToken := 0 }

theorem emptyAdmission_initial : AdmissionInitial emptyAdmission where
  calls := fun _ => rfl
  late := rfl
  room := fun _ => Nat.zero_le _
  tokens := fun _ _ hc => nomatch hc

/-- An acquire that is applied after the reconcile of its token. -/
theorem admission_exact_late : ∃ s t, Reachable AdmissionInitial (InPlaceStep some) s ∧
    Reconciled s 0 ∧ s.db.late ≠ [] ∧ InPlaceStep some s t ∧ t.db.late = [] ∧
    ∀ endpoint, ∀ claim ∈ claimsAt t.db.store endpoint, claim.owner.token ≠ 0 := by
  have h₀ : Reachable AdmissionInitial (InPlaceStep some) emptyAdmission :=
    Reachable.initial emptyAdmission_initial
  have h₁ := h₀.tail ⟨.start hostTask 0, trivial, rfl⟩
  have h₂ := h₁.tail ⟨.read 0 1 .performed, trivial, rfl⟩
  have h₃ := h₂.tail ⟨.write 0 .lost, trivial, rfl⟩
  have h₄ := h₃.tail
    ⟨.fence 0 hostTask .performed, fun call hc => by cases hc; exact ⟨rfl, rfl⟩, rfl⟩
  have h₅ := h₄.tail
    ⟨.pull 0 hostTask .performed, fun call hc => by cases hc; exact ⟨rfl, rfl⟩, rfl⟩
  refine ⟨_, _, h₅, ⟨_, rfl, rfl⟩, List.cons_ne_nil _ _, ⟨.land 0, trivial, rfl⟩, rfl, ?_⟩
  exact (admission_exact some _ h₅).2.2 0 ⟨_, rfl, rfl⟩ _
    (ReflTransGen.single ⟨.land 0, trivial, rfl⟩)

/-- A slave session: its acquire is lost, the run is stopped and reconciles by its own task,
and then the acquire is applied. -/
theorem reconciled_slave_claim : ¬ ∀ s, Reachable AdmissionInitial (AdmissionStep some) s →
    ∀ token, Reconciled s token → ∀ t, ReflTransGen (AdmissionStep some) s t →
    ∀ endpoint, ∀ claim ∈ claimsAt t.db.store endpoint, claim.owner.token ≠ token := by
  intro h
  have hrun : ∃ s, admissionRun some [.start (connectSlaveConfig hostTask 18080) 0,
      .read 0 1 .performed, .write 0 .lost, .fence 0 hostTask .performed,
      .pull 0 hostTask .performed] emptyAdmission = some s ∧ Reconciled s 0 ∧
      ∃ t, admissionRun some [.land 0] s = some t ∧
        ∃ claim ∈ claimsAt t.db.store "10.0.0.1:18080", claim.owner.token = 0 :=
    ⟨_, rfl, ⟨_, rfl, rfl⟩, _, rfl, _, List.mem_singleton_self _, rfl⟩
  obtain ⟨s, hs, hr, t, ht, claim, hm, htoken⟩ := hrun
  exact h s ⟨_, emptyAdmission_initial, admissionRun_steps hs⟩ 0 hr t (admissionRun_steps ht)
    _ claim hm htoken

end CameraLogs.Collection
