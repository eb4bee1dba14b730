import CameraLogs.Coredumps.SnapshotLedger

/-!
# Is the account of the snapshots exact?

As long as the mark of a freeze does not reach a claim that has been released in the
meantime, the account is exact in every run (`snapshot_ledger_exact`). The mark that does
makes the claim count again, and nothing of it is in the account (`late_mark_revives`).
-/

namespace CameraLogs.Coredumps

open CameraLogs.Lib
open Relation (ReflTransGen)

variable {s t : SnapshotState} {store : SnapshotStore} {update : SnapshotUpdate} {token k : Token}
  {o : Outcome} {claim : SnapshotClaim}

/-! ## The steps -/

/-- The mark a step applies finds a claim that has not been released. -/
def MarksInTime (s : SnapshotState) : SnapshotAct → Prop
  | .freeze token (.sent .performed) => ∀ call, s.freezes token = some call →
    call.stage = .marking → ∀ claim, s.store.claim? token = some claim → claim.state ≠ .released
  | .land index => ∀ token expiresAt, s.db.late[index]? = some (.markPublished token expiresAt) →
    ∀ claim, s.store.claim? token = some claim → claim.state ≠ .released
  | _ => True

/-- What a step does to the account: nothing, an update that it sends, or one that lands. -/
inductive LedgerEffect (s t : SnapshotState) : Prop
  | quiet (hlate : t.db.late = s.db.late) (haccount : SameAccount s.store t.store)
      (hissued : t.store.issued = s.store.issued) (hkept : FreezesKept s.freezes t.freezes)
  | sent (update : SnapshotUpdate) (o : Outcome)
      (hdb : t.db = InFlight.send SnapshotUpdate.apply update o s.db)
      (hreserves : update.reserves = none) (htime : o = .performed → InTime s.store update)
      (hkept : FreezesKept s.freezes t.freezes)
  | begun (update : SnapshotUpdate) (token : Token) (call : FreezeCall)
      (hdb : t.db = InFlight.send SnapshotUpdate.apply update .performed s.db)
      (hnew : token ∉ s.store.issued) (hclaims : update.claims = some token)
      (hmatched : (update.run s.store).isSome = true)
      (hfreezes : t.freezes = Function.update s.freezes token (some call))
  | reserved (token : Token) (id : FileId) (size version expiresAt : Nat) (o : Outcome)
      (call : FreezeCall)
      (hdb : t.db = InFlight.send SnapshotUpdate.apply
        (.reserve token id size version expiresAt) o s.db)
      (hcall : s.freezes token = some call) (hearly : call.stage.early = true)
      (hkept : FreezesKept s.freezes t.freezes)
      (hleft : ∀ call', t.freezes token = some call' → call'.stage.early = false)
  | landed (index : Nat) (update : SnapshotUpdate) (hupdate : s.db.late[index]? = some update)
      (hdb : t.db = ⟨update.apply s.db.store, s.db.late.eraseIdx index⟩)
      (htime : InTime s.store update) (hfreezes : t.freezes = s.freezes)

theorem freezesKept_refl (freezes : Token → Option FreezeCall) : FreezesKept freezes freezes :=
  fun _ call hcall => ⟨call, hcall, fun h => h⟩

theorem freezesKept_update {freezes : Token → Option FreezeCall} {call : FreezeCall}
    {next : Option FreezeStage} (hcall : freezes token = some call)
    (hnext : ∀ stage, next = some stage → stage.early = true → call.stage.early = true) :
    FreezesKept freezes
      (Function.update freezes token (next.map fun stage => { call with stage })) := by
  intro k call' hcall'
  by_cases hne : k = token
  · subst hne
    rw [Function.update_self] at hcall'
    obtain ⟨stage, hstage, rfl⟩ := Option.map_eq_some_iff.1 hcall'
    exact ⟨call, hcall, hnext stage hstage⟩
  · rw [Function.update_of_ne hne] at hcall'
    exact ⟨call', hcall', fun h => h⟩

theorem quiet_of_db (hdb : t.db = s.db) (hkept : FreezesKept s.freezes t.freezes) :
    LedgerEffect s t := by
  have hstore : t.store = s.store := congrArg InFlight.store hdb
  refine .quiet (congrArg InFlight.late hdb) ?_ (congrArg SnapshotStore.issued hstore) hkept
  rw [hstore]
  exact ⟨rfl, rfl, rfl, rfl⟩

/-- A freeze goes on, but not to where it has still to reserve. -/
def NotEarly (next : Option FreezeStage) : Prop :=
  ∀ stage, next = some stage → stage.early = false

theorem notEarly_none : NotEarly none := fun _ h => by cases h

theorem notEarly_some {stage : FreezeStage} (h : stage.early = false) : NotEarly (some stage) :=
  fun _ he => by cases he; exact h

variable {call : FreezeCall} {event : SnapshotEvent} {stage : FreezeStage}
  {next next' raised : Option FreezeStage}

theorem freezeTo_effect (hcall : s.freezes token = some call)
    (hdb : t.db = s.db) (hfreezes : t.freezes = s.freezes)
    (hnext : stage.early = true → call.stage.early = true) :
    LedgerEffect s (t.freezeTo token call stage) := by
  refine quiet_of_db hdb ?_
  show FreezesKept s.freezes (Function.update t.freezes token _)
  rw [hfreezes]
  have hkept := freezesKept_update hcall (fun other (h : some stage = some other) => by
    cases h
    exact hnext)
  exact hkept

theorem freezeEnds_effect (hcall : s.freezes token = some call) :
    LedgerEffect s (s.freezeEnds token) := by
  have hkept := freezesKept_update hcall (fun other (h : none = some other) => by cases h)
  exact quiet_of_db rfl hkept

/-- Wherever an update of a freeze leads to. -/
theorem freezeSends_notEarly (hnext : NotEarly next) (hnext' : NotEarly next')
    (hraised : NotEarly raised) : NotEarly (if s.matched update o then next
      else if o = .performed then next' else raised) := by
  split
  · exact hnext
  split
  · exact hnext'
  · exact hraised

theorem freezeSends_kept (hcall : s.freezes token = some call) (hnext : NotEarly next)
    (hnext' : NotEarly next') (hraised : NotEarly raised) :
    FreezesKept s.freezes (s.freezeSends token call update o next next' raised).freezes := by
  refine freezesKept_update hcall fun stage hstage hearly => ?_
  rw [freezeSends_notEarly hnext hnext' hraised stage hstage] at hearly
  cases hearly

theorem freezeSends_left (hnext : NotEarly next) (hnext' : NotEarly next')
    (hraised : NotEarly raised) : ∀ call',
    (s.freezeSends token call update o next next' raised).freezes token = some call' →
      call'.stage.early = false := by
  intro call' hcall'
  simp only [SnapshotState.freezeSends, SnapshotState.setFreeze, Function.update_self] at hcall'
  obtain ⟨stage, hstage, rfl⟩ := Option.map_eq_some_iff.1 hcall'
  exact freezeSends_notEarly hnext hnext' hraised stage hstage

theorem freezeSends_effect (hcall : s.freezes token = some call)
    (hreserves : update.reserves = none) (htime : o = .performed → InTime s.store update)
    (hnext : NotEarly next) (hnext' : NotEarly next') (hraised : NotEarly raised) :
    LedgerEffect s (s.freezeSends token call update o next next' raised) :=
  .sent update o rfl hreserves htime (freezeSends_kept hcall hnext hnext' hraised)

/-- One step of a freeze: it reserves once, and marks its claim in time. -/
theorem freezeStep_effect (hcall : s.freezes token = some call) (hstage : call.stage = stage)
    (htime : MarksInTime s (.freeze token event))
    (h : s.freezeStep token call stage event = some t) : LedgerEffect s t := by
  have hquiet : ∀ next : FreezeStage, next.early = false → next.early = true →
      call.stage.early = true := by
    intro next hlate hearly
    rw [hlate] at hearly
    cases hearly
  cases stage with
  | opening =>
    cases event with
    | opened size =>
      simp only [SnapshotState.freezeStep] at h
      split at h
      all_goals cases h
      · exact freezeTo_effect hcall rfl rfl fun _ => by rw [hstage]; rfl
      · exact freezeTo_effect hcall rfl rfl (hquiet _ rfl)
    | done ok =>
      cases h
      exact freezeTo_effect hcall rfl rfl (hquiet _ rfl)
    | _ => cases h
  | reserving size =>
    cases event with
    | sent o =>
      cases h
      have hcopying : NotEarly (some (.copying size)) := notEarly_some rfl
      have hremoving : NotEarly (some (.removing false)) := notEarly_some rfl
      have hconfirming : NotEarly (some (.confirming size)) := notEarly_some rfl
      exact .reserved token call.id size call.version _ o call rfl hcall (by rw [hstage]; rfl)
        (freezeSends_kept hcall hcopying hremoving hconfirming)
        (freezeSends_left hcopying hremoving hconfirming)
    | _ => cases h
  | confirming size =>
    cases event with
    | done ok =>
      simp only [SnapshotState.freezeStep] at h
      split at h
      all_goals cases h
      · exact freezeTo_effect hcall rfl rfl (hquiet _ rfl)
      · exact freezeTo_effect hcall rfl rfl (hquiet _ rfl)
    | _ => cases h
  | copying size =>
    cases event with
    | written =>
      cases h
      exact quiet_of_db rfl (freezesKept_refl _)
    | sent o =>
      cases h
      exact freezeSends_effect hcall rfl (fun _ => trivial) (notEarly_some rfl) (notEarly_some rfl)
        (notEarly_some rfl)
    | done ok =>
      cases h
      refine freezeTo_effect hcall rfl rfl (hquiet _ ?_)
      cases ok <;> rfl
    | _ => cases h
  | replacing size =>
    cases event with
    | done ok =>
      simp only [SnapshotState.freezeStep] at h
      split at h
      all_goals cases h
      · exact freezeTo_effect hcall rfl rfl (hquiet _ rfl)
      · exact freezeTo_effect hcall rfl rfl (hquiet _ rfl)
    | _ => cases h
  | publishing size =>
    cases event with
    | sent o =>
      cases h
      exact freezeSends_effect hcall rfl (fun _ => trivial) (notEarly_some rfl) (notEarly_some rfl)
        notEarly_none
    | _ => cases h
  | marking =>
    cases event with
    | sent o =>
      cases h
      refine freezeSends_effect hcall rfl (fun ho => ?_) notEarly_none notEarly_none notEarly_none
      subst ho
      exact htime call hcall hstage
    | _ => cases h
  | checking =>
    cases event with
    | done ok =>
      simp only [SnapshotState.freezeStep] at h
      split at h
      all_goals cases h
      · exact freezeTo_effect hcall rfl rfl (hquiet _ rfl)
      · exact freezeEnds_effect hcall
    | _ => cases h
  | unlinking =>
    cases event with
    | done ok =>
      simp only [SnapshotState.freezeStep] at h
      split at h
      all_goals cases h
      · exact freezeTo_effect hcall rfl rfl (hquiet _ rfl)
      · exact freezeEnds_effect hcall
    | _ => cases h
  | releasing =>
    cases event with
    | sent o =>
      cases h
      exact freezeSends_effect hcall rfl (fun _ => trivial) notEarly_none notEarly_none notEarly_none
    | _ => cases h
  | removing reserved =>
    cases event with
    | done ok =>
      simp only [SnapshotState.freezeStep] at h
      split at h
      all_goals cases h
      · refine freezeTo_effect hcall rfl rfl (hquiet _ ?_)
        cases reserved <;> rfl
      · exact freezeEnds_effect hcall
    | _ => cases h
  | givingBack =>
    cases event with
    | sent o =>
      cases h
      exact freezeSends_effect hcall rfl (fun _ => trivial) (notEarly_some rfl) notEarly_none
        (notEarly_some rfl)
    | _ => cases h
  | confirmingRelease =>
    cases event with
    | done ok =>
      simp only [SnapshotState.freezeStep] at h
      split at h
      all_goals cases h
      · exact freezeTo_effect hcall rfl rfl (hquiet _ rfl)
      · exact freezeEnds_effect hcall
    | _ => cases h
  | unclaiming =>
    cases event with
    | sent o =>
      cases h
      exact freezeSends_effect hcall rfl (fun _ => trivial) notEarly_none notEarly_none notEarly_none
    | _ => cases h

/-- The updates of the maintenance and of readers. -/
def SnapshotUpdate.maintains : SnapshotUpdate → Bool
  | .claim _ _ _ _ _ | .reserve _ _ _ _ _ | .markPublished _ _ => false
  | _ => true

theorem local_effect (hdb : t.db = s.db) (hfreezes : t.freezes = s.freezes) : LedgerEffect s t :=
  quiet_of_db hdb (hfreezes ▸ freezesKept_refl _)

theorem maintains_effect (hmaintains : update.maintains = true)
    (hdb : t.db = InFlight.send SnapshotUpdate.apply update o s.db)
    (hfreezes : t.freezes = s.freezes) : LedgerEffect s t := by
  have hboth : update.reserves = none ∧ InTime s.store update := by
    cases update with
    | claim _ _ _ _ _ | reserve _ _ _ _ _ | markPublished _ _ => cases hmaintains
    | _ => exact ⟨rfl, trivial⟩
  exact .sent update o hdb hboth.1 (fun _ => hboth.2) (hfreezes ▸ freezesKept_refl _)

theorem begins_effect {begun : List SnapshotTask} (hmaintains : update.maintains = true) :
    LedgerEffect s (s.begins update o begun) := by
  unfold SnapshotState.begins
  split
  · exact maintains_effect hmaintains rfl rfl
  · exact maintains_effect hmaintains rfl rfl

theorem removeOwned_effect (s : SnapshotState) (temporary : Option CopyPath) (token : Token) :
    (s.removeOwned temporary token).db = s.db ∧
      (s.removeOwned temporary token).freezes = s.freezes := by
  unfold SnapshotState.removeOwned
  split
  · split <;> exact ⟨rfl, rfl⟩
  · exact ⟨rfl, rfl⟩

theorem taskStep_effect {i : Nat} {task : SnapshotTask}
    (h : s.taskStep i task event = some t) : LedgerEffect s t := by
  cases task with
  | removeTemporary temporary final =>
    obtain ⟨hdb, hfreezes⟩ := removeOwned_effect s temporary final.token
    cases event with
    | done ok =>
      cases ok with
      | false =>
        cases h
        exact local_effect rfl rfl
      | true =>
        cases h
        exact local_effect hdb hfreezes
    | _ => cases h
  | removeFinal _ | delete _ _ | deleteOwned _ | deleteOwnedFinal _ | confirmRelease _ _ =>
    cases event with
    | done ok =>
      cases ok with
      | false =>
        cases h
        exact local_effect rfl rfl
      | true =>
        cases h
        exact local_effect rfl rfl
    | _ => cases h
  | release _ | confirmPublished _ | retire _ _ | giveBack _ _ | clear _ _ | reclaim _ =>
    cases event with
    | done ok =>
      cases ok with
      | false =>
        cases h
        exact local_effect rfl rfl
      | true => cases h
    | sent o =>
      cases h
      exact maintains_effect rfl rfl rfl
    | _ => cases h

theorem readerStep_effect {reader : ReaderId} {r : SnapshotReader} {stage : ReaderStage}
    (h : s.readerStep reader r o stage = some t) : LedgerEffect s t := by
  cases stage with
  | invalidated => cases h
  | _ =>
    cases h
    exact maintains_effect rfl rfl rfl

theorem act_effect {act : SnapshotAct} (htime : MarksInTime s act) (h : act.apply s = some t) :
    LedgerEffect s t := by
  cases act with
  | discover id version source =>
    obtain ⟨_, -, he⟩ := Option.bind_eq_some_iff.1 h
    cases he
    exact .quiet rfl ⟨rfl, rfl, rfl, rfl⟩ rfl (freezesKept_refl _)
  | observe id source o =>
    cases h
    exact maintains_effect rfl rfl rfl
  | read id =>
    obtain ⟨document, -, he⟩ := Option.bind_eq_some_iff.1 h
    cases he
    exact local_effect rfl rfl
  | readClaim token =>
    obtain ⟨claim, -, he⟩ := Option.bind_eq_some_iff.1 h
    cases he
    exact local_effect rfl rfl
  | claim index token o =>
    obtain ⟨⟨id, document⟩, -, h⟩ := Option.bind_eq_some_iff.1 h
    obtain ⟨_, -, h⟩ := Option.bind_eq_some_iff.1 h
    obtain ⟨_, hguard, he⟩ := Option.bind_eq_some_iff.1 h
    have hnew : token ∉ s.store.issued := of_guard hguard
    cases he
    split
    next hmatched =>
      obtain ⟨ho, hfound⟩ := Bool.and_eq_true_iff.1 hmatched
      obtain rfl := of_decide_eq_true ho
      exact .begun _ token _ rfl hnew rfl hfound rfl
    next => exact .sent _ o rfl rfl (fun _ => trivial) (freezesKept_refl _)
  | freeze token event =>
    obtain ⟨call, hcall, hstep⟩ := Option.bind_eq_some_iff.1 h
    exact freezeStep_effect hcall rfl htime hstep
  | expireFreeze index stamp o =>
    obtain ⟨⟨id, document⟩, -, h⟩ := Option.bind_eq_some_iff.1 h
    obtain ⟨_, -, h⟩ := Option.bind_eq_some_iff.1 h
    obtain ⟨token, -, h⟩ := Option.bind_eq_some_iff.1 h
    obtain ⟨leaseUntil, -, h⟩ := Option.bind_eq_some_iff.1 h
    obtain ⟨_, -, he⟩ := Option.bind_eq_some_iff.1 h
    cases he
    exact begins_effect rfl
  | checkClaim index stamp =>
    obtain ⟨claim, -, h⟩ := Option.bind_eq_some_iff.1 h
    obtain ⟨_, -, h⟩ := Option.bind_eq_some_iff.1 h
    obtain ⟨_, -, h⟩ := Option.bind_eq_some_iff.1 h
    obtain ⟨document, -, h⟩ := Option.bind_eq_some_iff.1 h
    obtain ⟨_, -, he⟩ := Option.bind_eq_some_iff.1 h
    cases he
    exact local_effect rfl rfl
  | checkRetention index stamp =>
    obtain ⟨⟨id, document⟩, -, h⟩ := Option.bind_eq_some_iff.1 h
    obtain ⟨_, -, h⟩ := Option.bind_eq_some_iff.1 h
    obtain ⟨snapshot, -, h⟩ := Option.bind_eq_some_iff.1 h
    obtain ⟨_, -, h⟩ := Option.bind_eq_some_iff.1 h
    obtain ⟨claim, -, h⟩ := Option.bind_eq_some_iff.1 h
    obtain ⟨_, -, he⟩ := Option.bind_eq_some_iff.1 h
    cases he
    exact local_effect rfl rfl
  | pull id stamp o =>
    obtain ⟨_, -, he⟩ := Option.bind_eq_some_iff.1 h
    cases he
    exact maintains_effect rfl rfl rfl
  | finish index stamp o =>
    obtain ⟨⟨id, document⟩, -, h⟩ := Option.bind_eq_some_iff.1 h
    obtain ⟨_, -, h⟩ := Option.bind_eq_some_iff.1 h
    obtain ⟨snapshot, -, h⟩ := Option.bind_eq_some_iff.1 h
    obtain ⟨token, -, h⟩ := Option.bind_eq_some_iff.1 h
    obtain ⟨_, -, h⟩ := Option.bind_eq_some_iff.1 h
    split at h
    next =>
      obtain ⟨_, -, he⟩ := Option.bind_eq_some_iff.1 h
      cases he
      exact begins_effect rfl
    next =>
      cases h
      exact local_effect rfl rfl
    next => cases h
  | checkOrphan index stamp =>
    obtain ⟨claim, -, h⟩ := Option.bind_eq_some_iff.1 h
    obtain ⟨_, -, h⟩ := Option.bind_eq_some_iff.1 h
    obtain ⟨_, -, h⟩ := Option.bind_eq_some_iff.1 h
    obtain ⟨_, -, he⟩ := Option.bind_eq_some_iff.1 h
    cases he
    exact local_effect rfl rfl
  | task index event =>
    obtain ⟨task, -, hstep⟩ := Option.bind_eq_some_iff.1 h
    exact taskStep_effect hstep
  | openReader reader index parent =>
    obtain ⟨⟨id, document⟩, -, h⟩ := Option.bind_eq_some_iff.1 h
    obtain ⟨snapshot, -, h⟩ := Option.bind_eq_some_iff.1 h
    obtain ⟨_, -, he⟩ := Option.bind_eq_some_iff.1 h
    cases he
    exact local_effect rfl rfl
  | stepReader reader o =>
    obtain ⟨r, -, hstep⟩ := Option.bind_eq_some_iff.1 h
    exact readerStep_effect hstep
  | closeReader reader o =>
    obtain ⟨r, -, he⟩ := Option.bind_eq_some_iff.1 h
    cases he
    exact maintains_effect rfl rfl rfl
  | land index =>
    obtain ⟨update, hupdate, h⟩ := Option.bind_eq_some_iff.1 h
    obtain ⟨_, -, h⟩ := Option.bind_eq_some_iff.1 h
    obtain ⟨db, hland, he⟩ := Option.bind_eq_some_iff.1 h
    cases he
    obtain ⟨update', hupdate', rfl⟩ := InFlight.land_eq_some.1 hland
    obtain rfl := Option.some.inj (hupdate.symm.trans hupdate')
    refine .landed index update hupdate rfl ?_ rfl
    cases update with
    | markPublished token expiresAt => exact htime token expiresAt hupdate
    | _ => trivial
  | drop token =>
    cases h
    refine quiet_of_db rfl fun k call' hcall' => ?_
    have hkept : Function.update s.freezes token none k = some call' := hcall'
    by_cases hne : k = token
    · rw [hne, Function.update_self] at hkept
      cases hkept
    · rw [Function.update_of_ne hne] at hkept
      exact ⟨call', hkept, fun hearly => hearly⟩
  | crash =>
    cases h
    exact quiet_of_db rfl fun k call' hcall' => by cases hcall'
  | tick seconds =>
    cases h
    exact local_effect rfl rfl

/-! ## The run -/

structure LedgerInv (s : SnapshotState) : Prop where
  exact : LedgerExact s.store
  once : ReserveOnce s.db s.freezes

theorem LedgerInv.preserved (h : LedgerInv s) (heffect : LedgerEffect s t) : LedgerInv t := by
  obtain ⟨hexact, honce⟩ := h
  have hplain : ∀ update : SnapshotUpdate, update.reserves = none → ∀ token id size version e,
      update = .reserve token id size version e → s.store.claim? token = none := by
    rintro update hnone token id size version e rfl
    cases hnone
  cases heffect with
  | quiet hlate haccount hissued hkept =>
    refine ⟨haccount.exact hexact, ?_⟩
    have hkeep := honce.kept hkept
    have hclaim : ∀ k, t.store.claim? k = s.store.claim? k := by
      intro k
      unfold SnapshotStore.claim?
      rw [haccount.claims]
    refine ⟨fun update hupdate k hk => ?_, ?_, fun k call hcall => ?_, fun k hk => ?_⟩
    · rw [hlate] at hupdate
      obtain ⟨hki, hnone, hearly⟩ := hkeep.late update hupdate k hk
      exact ⟨hissued.symm ▸ hki, (hclaim k).trans hnone, hearly⟩
    · rw [hlate]
      exact hkeep.nodup
    · obtain ⟨hki, hnone⟩ := hkeep.calls k call hcall
      exact ⟨hissued.symm ▸ hki, fun hearly => (hclaim k).trans (hnone hearly)⟩
    · exact (hclaim k).trans (hkeep.claims k (hissued ▸ hk))
  | sent update o hdb hreserves htime hkept =>
    have hstore : t.store = (InFlight.send SnapshotUpdate.apply update o s.db).store :=
      congrArg InFlight.store hdb
    refine ⟨?_, hdb ▸ (honce.kept hkept).send hreserves⟩
    rw [hstore]
    cases o with
    | performed => exact hexact.apply (htime rfl) (hplain update hreserves)
    | lost => exact hexact
  | begun update token call hdb hnew hclaims hmatched hfreezes =>
    have hstore : t.store = update.apply s.store := congrArg InFlight.store hdb
    refine ⟨?_, hdb ▸ hfreezes ▸ honce.begin_ hnew hclaims hmatched⟩
    rw [hstore]
    cases update with
    | claim _ _ _ _ _ => exact hexact.apply trivial (hplain _ rfl)
    | _ => cases hclaims
  | reserved token id size version expiresAt o call hdb hcall hearly hkept hleft =>
    have hstore : t.store = (InFlight.send SnapshotUpdate.apply
        (.reserve token id size version expiresAt) o s.db).store := congrArg InFlight.store hdb
    refine ⟨?_, hdb ▸ honce.sendReserve hcall hearly rfl hkept hleft⟩
    rw [hstore]
    cases o with
    | performed =>
      refine hexact.apply trivial fun _ _ _ _ _ he => ?_
      cases he
      exact (honce.calls token call hcall).2 hearly
    | lost => exact hexact
  | landed index update hupdate hdb htime hfreezes =>
    have hstore : t.store = update.apply s.store := congrArg InFlight.store hdb
    refine ⟨?_, hdb ▸ hfreezes ▸ honce.land hupdate⟩
    rw [hstore]
    refine hexact.apply htime ?_
    rintro token id size version e rfl
    exact (honce.late _ (List.mem_of_getElem? hupdate) token rfl).2.1

/-- A step in which no mark comes too late. -/
def MarkedStep (s t : SnapshotState) : Prop :=
  ∃ act : SnapshotAct, MarksInTime s act ∧ act.apply s = some t

abbrev MarkedSnapshots : SnapshotState → Prop := Reachable SnapshotStart MarkedStep

theorem ledgerInv (h : MarkedSnapshots s) : LedgerInv s := by
  refine Reachable.invariant (I := LedgerInv) ?_ ?_ h
  · intro s hs
    have hclaims : ∀ k, s.store.claim? k = none := by
      intro k
      unfold SnapshotStore.claim?
      rw [hs.claims]
      rfl
    refine ⟨?_, ?_⟩
    · refine ⟨?_, ?_, fun token => ?_, ?_, ?_, fun token => ?_⟩
      · rw [hs.claims]
        exact List.nodup_nil
      · rw [hs.claims, hs.account]
        rfl
      · rw [hs.claims, hs.account]
        simp
      · rw [hs.account]
        exact Nat.zero_le _
      · rw [hs.returned]
        exact List.nodup_nil
      · rw [hs.claims, hs.returned]
        simp
    · refine ⟨fun update hupdate => ?_, ?_, fun k call hcall => ?_, fun k _ => hclaims k⟩
      · rw [hs.late] at hupdate
        cases hupdate
      · rw [hs.late]
        exact List.nodup_nil
      · rw [hs.freezes] at hcall
        cases hcall
  · intro s t ⟨act, htime, hstep⟩ hs
    exact hs.preserved (act_effect htime hstep)

theorem returned_apply (update : SnapshotUpdate) (store : SnapshotStore)
    (h : k ∈ store.returned) : k ∈ (update.apply store).returned := by
  unfold SnapshotUpdate.apply
  cases hrun : update.run store with
  | none => exact h
  | some written =>
    show k ∈ written.returned
    cases honClaim : update.onClaim with
    | false =>
      rw [(run_account honClaim hrun).returned]
      exact h
    | true =>
      cases update with
      | markPublished token expiresAt | confirmPublished token expiresAt | reclaim token =>
        obtain ⟨claim, -, -, rfl⟩ := updateClaim_some hrun
        exact h
      | reserve token id size version expiresAt =>
        simp only [SnapshotUpdate.run, SnapshotStore.reserve] at hrun
        split at hrun
        · cases hrun
          exact h
        split at hrun
        · cases hrun
          exact h
        · cases hrun
      | release token =>
        obtain rfl | ⟨claim, -, -, -, rfl⟩ := release_some hrun
        · exact h
        · exact List.mem_cons_of_mem _ h
      | _ => cases honClaim

/-- What has been returned stays returned. -/
theorem LedgerEffect.returned (h : LedgerEffect s t) (hk : k ∈ s.store.returned) :
    k ∈ t.store.returned := by
  have hsend : ∀ (update : SnapshotUpdate) (o : Outcome),
      k ∈ (InFlight.send SnapshotUpdate.apply update o s.db).store.returned := by
    intro update o
    cases o with
    | performed => exact returned_apply update _ hk
    | lost => exact hk
  cases h with
  | quiet _ haccount _ _ =>
    rw [haccount.returned]
    exact hk
  | sent update o hdb _ _ _ =>
    unfold SnapshotState.store
    rw [hdb]
    exact hsend update o
  | begun update _ _ hdb _ _ _ _ =>
    unfold SnapshotState.store
    rw [hdb]
    exact hsend update .performed
  | reserved _ _ _ _ _ o _ hdb _ _ _ _ =>
    unfold SnapshotState.store
    rw [hdb]
    exact hsend _ o
  | landed _ update _ hdb _ _ =>
    unfold SnapshotState.store
    rw [hdb]
    exact returned_apply update _ hk

/-- A mark that comes too late takes a claim out of its last state. -/
theorem revived {expiresAt : Nat} (h : LedgerExact store) (hclaim : store.claim? token = some claim)
    (hreleased : claim.state = .released) :
    ¬LedgerExact ((SnapshotUpdate.markPublished token expiresAt).apply store) := by
  intro hafter
  obtain ⟨hmem, rfl⟩ := claim?_some hclaim
  have hreturned : claim.id ∈ store.returned := (h.returned claim.id).2 ⟨claim, hmem, rfl, hreleased⟩
  obtain ⟨other, hother, hotherid, hstate⟩ :=
    (hafter.returned claim.id).1 (returned_apply _ store hreturned)
  have hwritten : (SnapshotUpdate.markPublished claim.id expiresAt).apply store = { store with
      claims := Dict.upsert SnapshotClaim.id { claim with state := .published, expiresAt }
        store.claims } := by
    simp [SnapshotUpdate.apply, SnapshotUpdate.run, SnapshotStore.updateClaim, hclaim]
  have hids := hafter.ids
  rw [hwritten] at hother hids
  have hsame := List.inj_on_of_nodup_map hids hother (Dict.mem_upsert_self _ _) hotherid
  rw [hsame] at hstate
  cases hstate

/-- A step whose mark comes too late makes the account inexact. -/
theorem not_exact_of_late {act : SnapshotAct} (h : LedgerExact s.store) (hlate : ¬MarksInTime s act)
    (hstep : act.apply s = some t) : ¬LedgerExact t.store := by
  cases act with
  | freeze token event =>
    cases event with
    | sent o =>
      cases o with
      | performed =>
        simp only [MarksInTime, not_forall, not_not, ne_eq, exists_prop] at hlate
        obtain ⟨call, hcall, hmarking, claim, hclaim, hreleased⟩ := hlate
        obtain ⟨call', hcall', hstep⟩ := Option.bind_eq_some_iff.1 hstep
        obtain rfl := Option.some.inj (hcall.symm.trans hcall')
        rw [hmarking] at hstep
        cases hstep
        exact revived h hclaim hreleased
      | lost => exact absurd trivial hlate
    | _ => exact absurd trivial hlate
  | land index =>
    simp only [MarksInTime, not_forall, not_not, ne_eq, exists_prop] at hlate
    obtain ⟨token, expiresAt, hupdate, claim, hclaim, hreleased⟩ := hlate
    obtain ⟨update, -, hstep⟩ := Option.bind_eq_some_iff.1 hstep
    obtain ⟨_, -, hstep⟩ := Option.bind_eq_some_iff.1 hstep
    obtain ⟨db, hland, he⟩ := Option.bind_eq_some_iff.1 hstep
    cases he
    obtain ⟨update', hupdate', rfl⟩ := InFlight.land_eq_some.1 hland
    obtain rfl := Option.some.inj (hupdate.symm.trans hupdate')
    exact revived h hclaim hreleased
  | _ => exact absurd trivial hlate

/-- In every run in which no mark comes too late, the account is exact, and stays so with the
next step just if that step's mark is not too late. A claim that has been released stays so
along the run. -/
theorem snapshot_ledger_exact (h : MarkedSnapshots s) :
    LedgerExact s.store ∧
    (∀ act t, SnapshotAct.apply act s = some t → (LedgerExact t.store ↔ MarksInTime s act)) ∧
    ∀ t, ReflTransGen MarkedStep s t → ∀ claim ∈ s.store.claims, claim.state = .released →
      ∃ claim' ∈ t.store.claims, claim'.id = claim.id ∧ claim'.state = .released := by
  have hinv : LedgerInv s := ledgerInv h
  refine ⟨hinv.exact, fun act t hstep => ⟨fun hexact => ?_, fun htime => ?_⟩,
    fun t hrun claim hclaim hreleased => ?_⟩
  · by_contra hlate
    exact not_exact_of_late hinv.exact hlate hstep hexact
  · exact (hinv.preserved (act_effect htime hstep)).exact
  · have hreturned : claim.id ∈ s.store.returned :=
      (hinv.exact.returned claim.id).2 ⟨claim, hclaim, rfl, hreleased⟩
    have hkept : claim.id ∈ t.store.returned := by
      refine sticky (I := fun s => claim.id ∈ s.store.returned) (fun p q hpq hp => ?_) hrun hreturned
      obtain ⟨act, htime, hstep⟩ := hpq
      exact (act_effect htime hstep).returned hp
    have hreached : MarkedSnapshots t := by
      obtain ⟨s₀, hstart, hsteps⟩ := h
      exact ⟨s₀, hstart, hsteps.trans hrun⟩
    exact ((ledgerInv hreached).exact.returned claim.id).1 hkept

/-- A node with a quota of a hundred bytes that keeps snapshots for an hour. -/
def newSnapshots : SnapshotState where
  db := ⟨⟨100, [], fun _ => none, [], ⟨0, []⟩, [], fun _ => none, []⟩, []⟩
  disk := fun _ => false
  now := 0
  maxBytes := 50
  retention := 3600
  files := []
  claims := []
  freezes := fun _ => none
  tasks := []
  readers := fun _ => none
  readerIds := []

theorem newSnapshots_start : SnapshotStart newSnapshots :=
  ⟨rfl, rfl, rfl, rfl, rfl, rfl, rfl, rfl, rfl, rfl, rfl, rfl, rfl⟩

/-- A file of ten bytes is frozen and published under the token 5. -/
def publishActs : List SnapshotAct :=
  [.discover 0 1 7, .read 0, .claim 0 5 .performed, .freeze 5 (.opened 10),
    .freeze 5 (.sent .performed), .freeze 5 .written, .freeze 5 (.done true),
    .freeze 5 (.done true), .freeze 5 (.sent .performed)]

/-- The maintenance confirms the claim, and an hour later removes the snapshot. -/
def retireActs : List SnapshotAct :=
  [.tick 900, .readClaim 5, .checkClaim 0 900, .task 0 (.sent .performed), .tick 3600, .read 0,
    .checkRetention 0 4500, .task 0 (.sent .performed), .read 0, .finish 0 4500 .performed,
    .task 0 (.done true), .task 0 (.sent .performed), .task 0 (.sent .performed)]

/-- The snapshot is published, and its mark is sent right away. -/
theorem snapshot_ledger_exact_marked : ∃ s, MarkedSnapshots s ∧
    s.store.claims = [⟨5, 0, 1, 10, .published, 3600⟩] ∧ LedgerExact s.store := by
  have hnew : MarkedSnapshots newSnapshots := Reachable.initial newSnapshots_start
  have hfound := hnew.tail ⟨.discover 0 1 7, trivial, rfl⟩
  have hread := hfound.tail ⟨.read 0, trivial, rfl⟩
  have hclaimed := hread.tail ⟨.claim 0 5 .performed, trivial, rfl⟩
  have hopened := hclaimed.tail ⟨.freeze 5 (.opened 10), trivial, rfl⟩
  have hreserved := hopened.tail ⟨.freeze 5 (.sent .performed), (by
    intro call hcall hmarking
    cases hcall
    cases hmarking), rfl⟩
  have hwritten := hreserved.tail ⟨.freeze 5 .written, trivial, rfl⟩
  have hcopied := hwritten.tail ⟨.freeze 5 (.done true), trivial, rfl⟩
  have hreplaced := hcopied.tail ⟨.freeze 5 (.done true), trivial, rfl⟩
  have hpublished := hreplaced.tail ⟨.freeze 5 (.sent .performed), (by
    intro call hcall hmarking
    cases hcall
    cases hmarking), rfl⟩
  have hmarked := hpublished.tail ⟨.freeze 5 (.sent .performed), (by
    intro call hcall _ claim hclaim
    cases hclaim
    decide), rfl⟩
  exact ⟨_, hmarked, rfl, (snapshot_ledger_exact hmarked).1⟩

/-- Where the mark is still on its way when the snapshot has been removed. -/
def lateMark : SnapshotState :=
  (runActs SnapshotAct.apply (publishActs ++ retireActs) newSnapshots).getD newSnapshots

def revivedClaim : SnapshotState :=
  ((SnapshotAct.freeze 5 (.sent .performed)).apply lateMark).getD lateMark

/-- The mark of a freeze reaches the claim when it has been released: the claim is published
again, its bytes are not in the account, and its token is not active. -/
theorem late_mark_revives : ∃ s t, ReachableSnapshots s ∧ SnapshotStep s t ∧
    s.store.claims = [⟨5, 0, 1, 10, .released, 4500⟩] ∧
    t.store.claims = [⟨5, 0, 1, 10, .published, 8100⟩] ∧ t.store.account = ⟨0, []⟩ ∧
    ¬LedgerExact t.store := by
  have hpossible : (runActs SnapshotAct.apply (publishActs ++ retireActs) newSnapshots).isSome =
      true := by decide +kernel
  have hreached : ReachableSnapshots lateMark :=
    ⟨newSnapshots, newSnapshots_start, runActs_steps (eq_some_getD hpossible newSnapshots)⟩
  have hmarks : ((SnapshotAct.freeze 5 (.sent .performed)).apply lateMark).isSome = true := by
    decide +kernel
  have hstep : (SnapshotAct.freeze 5 (.sent .performed)).apply lateMark = some revivedClaim :=
    eq_some_getD hmarks lateMark
  have hreleased : lateMark.store.claims = [⟨5, 0, 1, 10, .released, 4500⟩] := by decide +kernel
  have hpublished : revivedClaim.store.claims = [⟨5, 0, 1, 10, .published, 8100⟩] := by
    decide +kernel
  have haccount : revivedClaim.store.account = ⟨0, []⟩ := by decide +kernel
  refine ⟨lateMark, revivedClaim, hreached, ⟨_, hstep⟩, hreleased, hpublished, haccount,
    fun hexact => ?_⟩
  have hused := hexact.used
  rw [hpublished, haccount] at hused
  cases hused

end CameraLogs.Coredumps
