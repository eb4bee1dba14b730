import CameraLogs.Coredumps.SnapshotSystem

/-!
# The account of the snapshots

A reservation charges the account and makes the claim, a release returns its bytes and
records that it did, each in one transaction. Everything else that is written to a claim
keeps it on its side of the line: `reclaim` and the maintenance's `confirmPublished` name the
states they may leave. `markPublished`, which a freeze sends after it has published, names
none (`InTime`). A reservation is sent once for a token, by a freeze that has claimed its file
under it (`ReserveOnce`).
-/

namespace CameraLogs.Coredumps

open CameraLogs.Lib

variable {store store' : SnapshotStore} {update : SnapshotUpdate} {token k : Token} {id : FileId}
  {o : Outcome} {claim : SnapshotClaim} {db : InFlight SnapshotStore SnapshotUpdate}

/-! ## One update -/

/-- The account of the node agrees with its claims. -/
structure LedgerExact (store : SnapshotStore) : Prop where
  ids : (store.claims.map SnapshotClaim.id).Nodup
  used : store.account.used = tally SnapshotClaim.counted store.claims
  active : ∀ token, token ∈ store.account.activeTokens ↔
    ∃ claim ∈ store.claims, claim.id = token ∧ claim.state ≠ .released
  quota : store.account.used ≤ store.quota
  once : store.returned.Nodup
  returned : ∀ token, token ∈ store.returned ↔
    ∃ claim ∈ store.claims, claim.id = token ∧ claim.state = .released

theorem claim?_some (h : store.claim? token = some claim) : claim ∈ store.claims ∧ claim.id = token :=
  Dict.lookup_some h

/-- Two stores with the same claims and the same account. -/
structure SameAccount (store store' : SnapshotStore) : Prop where
  quota : store'.quota = store.quota
  claims : store'.claims = store.claims
  account : store'.account = store.account
  returned : store'.returned = store.returned

theorem SameAccount.exact (hsame : SameAccount store store') (h : LedgerExact store) :
    LedgerExact store' := by
  obtain ⟨hquota, hclaims, haccount, hreturned⟩ := hsame
  refine ⟨?_, ?_, ?_, ?_, ?_, ?_⟩
  · rw [hclaims]
    exact h.ids
  · rw [haccount, hclaims]
    exact h.used
  · rw [haccount, hclaims]
    exact h.active
  · rw [haccount, hquota]
    exact h.quota
  · rw [hreturned]
    exact h.once
  · rw [hreturned, hclaims]
    exact h.returned

theorem updateFile_some {filter : FileDocument → Bool} {change : FileDocument → FileDocument}
    (h : store.updateFile id filter change = some store') :
    ∃ document, store.documents id = some document ∧ filter document = true ∧
      store' = { store with
        documents := Function.update store.documents id (some (change document)) } := by
  unfold SnapshotStore.updateFile at h
  split at h
  next document hdocument =>
    split at h
    next hfilter =>
      cases h
      exact ⟨document, hdocument, hfilter, rfl⟩
    next => cases h
  next => cases h

theorem updateFile_account {filter : FileDocument → Bool} {change : FileDocument → FileDocument}
    (h : store.updateFile id filter change = some store') : SameAccount store store' := by
  obtain ⟨document, -, -, rfl⟩ := updateFile_some h
  exact ⟨rfl, rfl, rfl, rfl⟩

theorem updateClaim_some {filter : SnapshotClaim → Bool} {change : SnapshotClaim → SnapshotClaim}
    (h : store.updateClaim token filter change = some store') :
    ∃ claim, store.claim? token = some claim ∧ filter claim = true ∧
      store' = { store with
        claims := Dict.upsert SnapshotClaim.id (change claim) store.claims } := by
  unfold SnapshotStore.updateClaim at h
  split at h
  next claim hclaim =>
    split at h
    next hfilter =>
      cases h
      exact ⟨claim, hclaim, hfilter, rfl⟩
    next => cases h
  next => cases h

/-- The updates of claims, and the transactions. -/
def SnapshotUpdate.onClaim : SnapshotUpdate → Bool
  | .markPublished _ _ | .confirmPublished _ _ | .reclaim _ | .reserve _ _ _ _ _ | .release _ => true
  | _ => false

theorem run_account (honClaim : update.onClaim = false) (h : update.run store = some store') :
    SameAccount store store' := by
  cases update with
  | claim id source token leaseUntil temporary =>
    obtain ⟨written, hwritten, rfl⟩ := Option.map_eq_some_iff.1 h
    obtain ⟨hquota, hclaims, haccount, hreturned⟩ := updateFile_account hwritten
    exact ⟨hquota, hclaims, haccount, hreturned⟩
  | acquire id token reader parent stamp expiresAt =>
    obtain ⟨written, hwritten, rfl⟩ := Option.map_eq_some_iff.1 h
    obtain ⟨hquota, hclaims, haccount, hreturned⟩ := updateFile_account hwritten
    exact ⟨hquota, hclaims, haccount, hreturned⟩
  | renewReader id token reader expiresAt =>
    obtain ⟨written, hwritten, rfl⟩ := Option.map_eq_some_iff.1 h
    obtain ⟨hquota, hclaims, haccount, hreturned⟩ := updateFile_account hwritten
    exact ⟨hquota, hclaims, haccount, hreturned⟩
  | closeReader id token reader =>
    obtain ⟨written, hwritten, rfl⟩ := Option.map_eq_some_iff.1 h
    obtain ⟨hquota, hclaims, haccount, hreturned⟩ := updateFile_account hwritten
    exact ⟨hquota, hclaims, haccount, hreturned⟩
  | observe _ _ | renewFreeze _ _ _ | unclaim _ _ | publish _ _ _ _ | expireFreeze _ _ _
  | retire _ _ | startDelete _ _ _ | clear _ _ | pullReaders _ _ => exact updateFile_account h
  | markPublished _ _ | confirmPublished _ _ | reclaim _ | reserve _ _ _ _ _ | release _ =>
    cases honClaim

/-- A claim that keeps its bytes and stays on its side of the line. -/
theorem LedgerExact.rewrite {claim' : SnapshotClaim} (h : LedgerExact store)
    (hclaim : store.claim? token = some claim) (hid : claim'.id = claim.id)
    (hbytes : claim'.bytes = claim.bytes) (hbefore : claim.state ≠ .released)
    (hafter : claim'.state ≠ .released) :
    LedgerExact { store with claims := Dict.upsert SnapshotClaim.id claim' store.claims } := by
  obtain ⟨hmem, rfl⟩ := claim?_some hclaim
  have hcounted : claim'.counted = claim.counted := by
    unfold SnapshotClaim.counted
    rw [if_neg hbefore, if_neg hafter, hbytes]
  have hlookup : Dict.lookup SnapshotClaim.id claim'.id store.claims = some claim := by
    rw [hid]
    exact hclaim
  -- which tokens have a claim in a state does not change
  have hstate : ∀ (p : SnapshotClaimState → Prop) (token : Token), (p claim'.state ↔ p claim.state) →
      ((∃ other ∈ Dict.upsert SnapshotClaim.id claim' store.claims,
        other.id = token ∧ p other.state) ↔
      ∃ other ∈ store.claims, other.id = token ∧ p other.state) := by
    intro p token hp
    constructor
    · rintro ⟨other, hother, hotherid, hpstate⟩
      obtain rfl | hother := Dict.mem_upsert hother
      · exact ⟨claim, hmem, hid.symm.trans hotherid, hp.1 hpstate⟩
      · exact ⟨other, hother, hotherid, hpstate⟩
    · rintro ⟨other, hother, hotherid, hpstate⟩
      by_cases hsame : other.id = claim.id
      · have heq : other = claim := List.inj_on_of_nodup_map h.ids hother hmem hsame
        rw [heq] at hpstate hotherid
        exact ⟨claim', Dict.mem_upsert_self claim' _, hid.trans hotherid, hp.2 hpstate⟩
      · exact ⟨other, Dict.mem_upsert_of_mem hother (fun he => hsame (he.trans hid)), hotherid,
          hpstate⟩
  refine ⟨Dict.nodup_upsert h.ids, ?_, fun token => ?_, h.quota, h.once, fun token => ?_⟩
  · have hmove : tally SnapshotClaim.counted (Dict.upsert SnapshotClaim.id claim' store.claims) +
        claim.counted = tally SnapshotClaim.counted store.claims + claim'.counted :=
      tally_upsert hlookup
    rw [hcounted] at hmove
    exact h.used.trans (Nat.add_right_cancel hmove).symm
  · rw [hstate (· ≠ .released) token ⟨fun _ => hbefore, fun _ => hafter⟩]
    exact h.active token
  · rw [hstate (· = .released) token ⟨fun he => absurd he hafter, fun he => absurd he hbefore⟩]
    exact h.returned token

theorem LedgerExact.updateClaim {filter : SnapshotClaim → Bool}
    {change : SnapshotClaim → SnapshotClaim} (h : LedgerExact store)
    (hrun : store.updateClaim token filter change = some store')
    (hid : ∀ claim, (change claim).id = claim.id) (hbytes : ∀ claim, (change claim).bytes = claim.bytes)
    (hbefore : ∀ claim, store.claim? token = some claim → filter claim = true →
      claim.state ≠ .released)
    (hafter : ∀ claim, (change claim).state ≠ .released) : LedgerExact store' := by
  obtain ⟨claim, hclaim, hfilter, rfl⟩ := updateClaim_some hrun
  exact h.rewrite hclaim (hid claim) (hbytes claim) (hbefore claim hclaim hfilter) (hafter claim)

/-- A reservation for a token that has no claim yet. -/
theorem LedgerExact.reserve {size version expiresAt : Nat} (h : LedgerExact store)
    (hnone : store.claim? token = none)
    (hrun : store.reserve token id size version expiresAt = some store') : LedgerExact store' := by
  unfold SnapshotStore.reserve at hrun
  rw [hnone] at hrun
  have hnew : token ∉ store.claims.map SnapshotClaim.id := Dict.lookup_none.1 hnone
  have hother : ∀ claim ∈ store.claims, claim.id ≠ token :=
    fun claim hclaim he => hnew (he ▸ List.mem_map_of_mem hclaim)
  simp only [Option.any_none, Bool.false_eq_true, if_false] at hrun
  split at hrun
  next hroom =>
    cases hrun
    let claim : SnapshotClaim := ⟨token, id, version, size, .reserved, expiresAt⟩
    have hmem : ∀ other, other ∈ Dict.upsert SnapshotClaim.id claim store.claims ↔
        other = claim ∨ other ∈ store.claims := by
      intro other
      refine ⟨Dict.mem_upsert, ?_⟩
      rintro (rfl | hold)
      · exact Dict.mem_upsert_self claim _
      · exact Dict.mem_upsert_of_mem hold (hother other hold)
    refine ⟨Dict.nodup_upsert h.ids, ?_, fun k => ?_, hroom.1, h.once, fun k => ?_⟩
    · show store.account.used + size = tally _ (Dict.upsert SnapshotClaim.id claim store.claims)
      rw [tally_upsert_new hnew, h.used]
      rfl
    · show k ∈ token :: store.account.activeTokens ↔ _
      rw [List.mem_cons, h.active k]
      constructor
      · rintro (rfl | ⟨other, hold, hrest⟩)
        · exact ⟨claim, (hmem claim).2 (.inl rfl), rfl, by simp [claim]⟩
        · exact ⟨other, (hmem other).2 (.inr hold), hrest⟩
      · rintro ⟨other, hold, hotherid, hstate⟩
        obtain rfl | hold := (hmem other).1 hold
        · exact .inl hotherid.symm
        · exact .inr ⟨other, hold, hotherid, hstate⟩
    · rw [h.returned k]
      constructor
      · rintro ⟨other, hold, hrest⟩
        exact ⟨other, (hmem other).2 (.inr hold), hrest⟩
      · rintro ⟨other, hold, hotherid, hstate⟩
        obtain rfl | hold := (hmem other).1 hold
        · cases hstate
        · exact ⟨other, hold, hotherid, hstate⟩
  next => cases hrun

/-- A release finds nothing to do, or a claim that counts. -/
theorem release_some (hrun : store.release token = some store') : store' = store ∨
    ∃ claim, store.claim? token = some claim ∧ claim.state ≠ .released ∧
      claim.bytes ≤ store.account.used ∧ store' = { store with
        account := { used := store.account.used - claim.bytes
                     activeTokens := store.account.activeTokens.filter (· ≠ token) }
        claims := Dict.upsert SnapshotClaim.id { claim with state := .released } store.claims
        returned := token :: store.returned } := by
  unfold SnapshotStore.release at hrun
  split at hrun
  · cases hrun
    exact .inl rfl
  next claim hclaim =>
    split at hrun
    · cases hrun
      exact .inl rfl
    next hcounts =>
      split at hrun
      next hfits =>
        cases hrun
        exact .inr ⟨claim, hclaim, fun he => hcounts (.inr he), hfits.2, rfl⟩
      next => cases hrun

theorem LedgerExact.release (h : LedgerExact store) (hrun : store.release token = some store') :
    LedgerExact store' := by
  obtain rfl | ⟨claim, hclaim, hcounts, hle, rfl⟩ := release_some hrun
  · exact h
  obtain ⟨hmem, rfl⟩ := claim?_some hclaim
  let claim' : SnapshotClaim := { claim with state := .released }
  have hcases : ∀ other, other ∈ Dict.upsert SnapshotClaim.id claim' store.claims ↔
      other = claim' ∨ (other ∈ store.claims ∧ other.id ≠ claim.id) := by
    intro other
    constructor
    · intro hother
      by_cases hsame : other.id = claim.id
      · have hnodup : ((Dict.upsert SnapshotClaim.id claim' store.claims).map
            SnapshotClaim.id).Nodup := Dict.nodup_upsert h.ids
        exact .inl (List.inj_on_of_nodup_map hnodup hother (Dict.mem_upsert_self claim' _) hsame)
      · obtain rfl | hold := Dict.mem_upsert hother
        · exact .inl rfl
        · exact .inr ⟨hold, hsame⟩
    · rintro (rfl | ⟨hold, hne⟩)
      · exact Dict.mem_upsert_self claim' _
      · exact Dict.mem_upsert_of_mem hold hne
  have hnot : claim.id ∉ store.returned := by
    rw [h.returned]
    rintro ⟨other, hother, hotherid, hreleased⟩
    rw [List.inj_on_of_nodup_map h.ids hother hmem hotherid] at hreleased
    exact hcounts hreleased
  refine ⟨Dict.nodup_upsert h.ids, ?_, fun k => ?_, ?_, List.nodup_cons.2 ⟨hnot, h.once⟩,
    fun k => ?_⟩
  · have hmove : tally SnapshotClaim.counted (Dict.upsert SnapshotClaim.id claim' store.claims) +
        claim.counted = tally SnapshotClaim.counted store.claims + claim'.counted :=
      tally_upsert hclaim
    have hzero : claim'.counted = 0 := if_pos rfl
    have hcounted : claim.counted = claim.bytes := if_neg hcounts
    have hused := h.used
    rw [hzero, hcounted] at hmove
    show store.account.used - claim.bytes =
      tally SnapshotClaim.counted (Dict.upsert SnapshotClaim.id claim' store.claims)
    omega
  · show k ∈ store.account.activeTokens.filter (· ≠ claim.id) ↔ _
    rw [List.mem_filter, h.active k, decide_eq_true_eq]
    constructor
    · rintro ⟨⟨other, hother, hotherid, hstate⟩, hne⟩
      exact ⟨other, (hcases other).2 (.inr ⟨hother, fun he => hne (hotherid.symm.trans he)⟩),
        hotherid, hstate⟩
    · rintro ⟨other, hother, hotherid, hstate⟩
      obtain rfl | ⟨hold, hne⟩ := (hcases other).1 hother
      · exact absurd rfl hstate
      · exact ⟨⟨other, hold, hotherid, hstate⟩, fun he => hne (hotherid.trans he)⟩
  · exact (Nat.sub_le _ _).trans h.quota
  · show k ∈ claim.id :: store.returned ↔ _
    rw [List.mem_cons, h.returned k]
    constructor
    · rintro (rfl | ⟨other, hother, hotherid, hstate⟩)
      · exact ⟨claim', (hcases claim').2 (.inl rfl), rfl, rfl⟩
      · have hne : other.id ≠ claim.id := by
          intro he
          rw [List.inj_on_of_nodup_map h.ids hother hmem he] at hstate
          exact hcounts hstate
        exact ⟨other, (hcases other).2 (.inr ⟨hother, hne⟩), hotherid, hstate⟩
    · rintro ⟨other, hother, hotherid, hstate⟩
      obtain rfl | ⟨hold, -⟩ := (hcases other).1 hother
      · exact .inl hotherid.symm
      · exact .inr ⟨other, hold, hotherid, hstate⟩

/-- The update finds the claim as its sender expects it: a reservation none, and the mark
of a freeze one that has not been released. -/
def InTime (store : SnapshotStore) : SnapshotUpdate → Prop
  | .markPublished token _ => ∀ claim, store.claim? token = some claim → claim.state ≠ .released
  | _ => True

theorem LedgerExact.apply (h : LedgerExact store) (htime : InTime store update)
    (hreserve : ∀ token id size version expiresAt,
      update = .reserve token id size version expiresAt → store.claim? token = none) :
    LedgerExact (update.apply store) := by
  unfold SnapshotUpdate.apply
  cases hrun : update.run store with
  | none => exact h
  | some written =>
    show LedgerExact written
    cases honClaim : update.onClaim with
    | false => exact (run_account honClaim hrun).exact h
    | true =>
      cases update with
      | markPublished token expiresAt =>
        exact h.updateClaim hrun (fun _ => rfl) (fun _ => rfl) (fun claim hclaim _ =>
          htime claim hclaim) fun _ => by simp
      | confirmPublished token expiresAt =>
        refine h.updateClaim hrun (fun _ => rfl) (fun _ => rfl) (fun claim _ hfilter => ?_)
          fun _ => by simp
        rw [of_decide_eq_true hfilter]
        simp
      | reclaim token =>
        exact h.updateClaim hrun (fun _ => rfl) (fun _ => rfl)
          (fun _ _ hfilter => of_decide_eq_true hfilter) fun _ => by simp
      | reserve token id size version expiresAt =>
        exact h.reserve (hreserve token id size version expiresAt rfl) hrun
      | release token => exact h.release hrun
      | _ => cases honClaim

/-! ## One reservation a token -/

/-- The token an update reserves for. -/
def SnapshotUpdate.reserves : SnapshotUpdate → Option Token
  | .reserve token _ _ _ _ => some token
  | _ => none

/-- The token an update claims a file with. -/
def SnapshotUpdate.claims : SnapshotUpdate → Option Token
  | .claim _ _ token _ _ => some token
  | _ => none

/-- A freeze that has not yet reserved. -/
def FreezeStage.early : FreezeStage → Bool
  | .opening | .reserving _ => true
  | _ => false

/-- The tokens of the claims after an update. -/
theorem claim?_apply (hreserve : update.reserves ≠ some k) (hnone : store.claim? k = none) :
    (update.apply store).claim? k = none := by
  unfold SnapshotUpdate.apply
  cases hrun : update.run store with
  | none => exact hnone
  | some written =>
    show written.claim? k = none
    have hwrites : ∀ claim claim' : SnapshotClaim, claim'.id = claim.id →
        store.claim? claim.id = some claim →
        Dict.lookup SnapshotClaim.id k (Dict.upsert SnapshotClaim.id claim' store.claims) = none := by
      intro claim claim' hid hclaim
      rw [Dict.lookup_upsert, if_neg]
      · exact hnone
      · intro he
        rw [← hid, he, hnone] at hclaim
        cases hclaim
    cases honClaim : update.onClaim with
    | false =>
      unfold SnapshotStore.claim?
      rw [(run_account honClaim hrun).claims]
      exact hnone
    | true =>
      cases update with
      | markPublished token expiresAt | confirmPublished token expiresAt | reclaim token =>
        obtain ⟨claim, hclaim, -, rfl⟩ := updateClaim_some hrun
        obtain ⟨-, rfl⟩ := claim?_some hclaim
        exact hwrites claim _ rfl hclaim
      | reserve token id size version expiresAt =>
        have hne : token ≠ k := fun he => hreserve (congrArg some he)
        simp only [SnapshotUpdate.run, SnapshotStore.reserve] at hrun
        split at hrun
        · cases hrun
          exact hnone
        split at hrun
        · cases hrun
          exact (Dict.lookup_upsert ..).trans ((if_neg hne).trans hnone)
        · cases hrun
      | release token =>
        obtain rfl | ⟨claim, hclaim, -, -, rfl⟩ := release_some hrun
        · exact hnone
        · obtain ⟨-, rfl⟩ := claim?_some hclaim
          exact hwrites claim _ rfl hclaim
      | _ => cases honClaim

/-- Only a claim of a file issues a token. -/
theorem issued_apply (update : SnapshotUpdate) (store : SnapshotStore) :
    (update.apply store).issued = store.issued ∨
      ∃ token, update.claims = some token ∧ (update.apply store).issued = token :: store.issued := by
  unfold SnapshotUpdate.apply
  cases hrun : update.run store with
  | none => exact .inl rfl
  | some written =>
    have hfile : ∀ id filter change, ∀ written : SnapshotStore,
        store.updateFile id filter change = some written → written.issued = store.issued := by
      intro id filter change written hwritten
      obtain ⟨document, -, -, rfl⟩ := updateFile_some hwritten
      rfl
    cases update with
    | claim id source token leaseUntil temporary =>
      obtain ⟨written', hwritten, rfl⟩ := Option.map_eq_some_iff.1 hrun
      exact .inr ⟨token, rfl, congrArg (token :: ·) (hfile _ _ _ written' hwritten)⟩
    | acquire id token reader parent stamp expiresAt =>
      obtain ⟨written', hwritten, rfl⟩ := Option.map_eq_some_iff.1 hrun
      exact .inl (hfile _ _ _ written' hwritten)
    | renewReader id token reader expiresAt =>
      obtain ⟨written', hwritten, rfl⟩ := Option.map_eq_some_iff.1 hrun
      exact .inl (hfile _ _ _ written' hwritten)
    | closeReader id token reader =>
      obtain ⟨written', hwritten, rfl⟩ := Option.map_eq_some_iff.1 hrun
      exact .inl (hfile _ _ _ written' hwritten)
    | observe _ _ | renewFreeze _ _ _ | unclaim _ _ | publish _ _ _ _ | expireFreeze _ _ _
    | retire _ _ | startDelete _ _ _ | clear _ _ | pullReaders _ _ =>
      exact .inl (hfile _ _ _ written hrun)
    | markPublished token expiresAt | confirmPublished token expiresAt | reclaim token =>
      obtain ⟨claim, -, -, rfl⟩ := updateClaim_some hrun
      exact .inl rfl
    | reserve token id size version expiresAt =>
      simp only [SnapshotUpdate.run, SnapshotStore.reserve] at hrun
      split at hrun
      · cases hrun
        exact .inl rfl
      split at hrun
      · cases hrun
        exact .inl rfl
      · cases hrun
    | release token =>
      obtain rfl | ⟨claim, -, -, -, rfl⟩ := release_some hrun
      · exact .inl rfl
      · exact .inl rfl

theorem mem_issued_apply (h : k ∈ store.issued) : k ∈ (update.apply store).issued := by
  obtain hsame | ⟨token, -, hissued⟩ := issued_apply update store
  · rw [hsame]
    exact h
  · rw [hissued]
    exact List.mem_cons_of_mem _ h

/-- A freeze that is early was early before. -/
def FreezesKept (before after : Token → Option FreezeCall) : Prop :=
  ∀ k call', after k = some call' → ∃ call, before k = some call ∧
    (call'.stage.early = true → call.stage.early = true)

/-- A reservation is sent once for a token, before it has a claim. -/
structure ReserveOnce (db : InFlight SnapshotStore SnapshotUpdate)
    (freezes : Token → Option FreezeCall) : Prop where
  late : ∀ update ∈ db.late, ∀ k, update.reserves = some k → k ∈ db.store.issued ∧
    db.store.claim? k = none ∧ ∀ call, freezes k = some call → call.stage.early = false
  nodup : (db.late.filterMap SnapshotUpdate.reserves).Nodup
  calls : ∀ k call, freezes k = some call → k ∈ db.store.issued ∧
    (call.stage.early = true → db.store.claim? k = none)
  claims : ∀ k, k ∉ db.store.issued → db.store.claim? k = none

theorem ReserveOnce.kept {freezes freezes' : Token → Option FreezeCall} (h : ReserveOnce db freezes)
    (hkept : FreezesKept freezes freezes') : ReserveOnce db freezes' where
  late := by
    intro update hupdate k hreserves
    obtain ⟨hissued, hnone, hearly⟩ := h.late update hupdate k hreserves
    refine ⟨hissued, hnone, fun call' hcall' => ?_⟩
    obtain ⟨call, hcall, hkeep⟩ := hkept k call' hcall'
    have hlate := hearly call hcall
    cases hstage : call'.stage.early with
    | false => rfl
    | true => exact (hkeep hstage).symm.trans hlate
  nodup := h.nodup
  calls := by
    intro k call' hcall'
    obtain ⟨call, hcall, hkeep⟩ := hkept k call' hcall'
    obtain ⟨hissued, hnone⟩ := h.calls k call hcall
    exact ⟨hissued, fun hearly => hnone (hkeep hearly)⟩
  claims := h.claims

theorem ReserveOnce.send {freezes : Token → Option FreezeCall} (h : ReserveOnce db freezes)
    (hreserves : update.reserves = none) :
    ReserveOnce (InFlight.send SnapshotUpdate.apply update o db) freezes := by
  have hne : ∀ k, update.reserves ≠ some k := fun k he => by rw [hreserves] at he; cases he
  cases o with
  | performed =>
    refine ⟨fun other hother k hk => ?_, h.nodup, fun k call hcall => ?_, fun k hk => ?_⟩
    · obtain ⟨hissued, hnone, hearly⟩ := h.late other hother k hk
      exact ⟨mem_issued_apply hissued, claim?_apply (hne k) hnone, hearly⟩
    · obtain ⟨hissued, hnone⟩ := h.calls k call hcall
      exact ⟨mem_issued_apply hissued, fun hearly => claim?_apply (hne k) (hnone hearly)⟩
    · exact claim?_apply (hne k) (h.claims k fun hissued => hk (mem_issued_apply hissued))
  | lost =>
    refine ⟨fun other hother k hk => ?_, ?_, h.calls, h.claims⟩
    · obtain rfl | hother := List.mem_cons.1 hother
      · exact absurd hk (hne k)
      · exact h.late other hother k hk
    · show ((update :: db.late).filterMap SnapshotUpdate.reserves).Nodup
      rw [List.filterMap_cons_none hreserves]
      exact h.nodup

/-- The reservation of a freeze that is early up to then, and not any more. -/
theorem ReserveOnce.sendReserve {freezes freezes' : Token → Option FreezeCall} {call : FreezeCall}
    (h : ReserveOnce db freezes) (hcall : freezes token = some call)
    (hearly : call.stage.early = true) (hreserves : update.reserves = some token)
    (hkept : FreezesKept freezes freezes')
    (hleft : ∀ call', freezes' token = some call' → call'.stage.early = false) :
    ReserveOnce (InFlight.send SnapshotUpdate.apply update o db) freezes' := by
  have hnext : ReserveOnce db freezes' := h.kept hkept
  obtain ⟨hissued, hnone⟩ := h.calls token call hcall
  have hnot : ∀ other ∈ db.late, other.reserves ≠ some token := by
    intro other hother he
    have hquiet := (h.late other hother token he).2.2 call hcall
    rw [hearly] at hquiet
    cases hquiet
  have hne : ∀ k, k ≠ token → update.reserves ≠ some k := by
    intro k hk he
    rw [hreserves] at he
    exact hk (Option.some.inj he).symm
  cases o with
  | performed =>
    refine ⟨fun other hother k hk => ?_, h.nodup, fun k call' hcall' => ?_, fun k hk => ?_⟩
    · obtain ⟨hkissued, hknone, hkearly⟩ := hnext.late other hother k hk
      have hkne : k ≠ token := fun he => hnot other hother (he ▸ hk)
      exact ⟨mem_issued_apply hkissued, claim?_apply (hne k hkne) hknone, hkearly⟩
    · obtain ⟨hkissued, hknone⟩ := hnext.calls k call' hcall'
      refine ⟨mem_issued_apply hkissued, fun hkearly => ?_⟩
      by_cases hkne : k = token
      · subst hkne
        rw [hleft call' hcall'] at hkearly
        cases hkearly
      · exact claim?_apply (hne k hkne) (hknone hkearly)
    · have hkne : k ≠ token := fun he => hk (he ▸ mem_issued_apply hissued)
      exact claim?_apply (hne k hkne) (h.claims k fun hki => hk (mem_issued_apply hki))
  | lost =>
    refine ⟨fun other hother k hk => ?_, ?_, hnext.calls, hnext.claims⟩
    · obtain rfl | hother := List.mem_cons.1 hother
      · rw [hreserves] at hk
        cases hk
        exact ⟨hissued, hnone hearly, hleft⟩
      · exact hnext.late other hother k hk
    · show ((update :: db.late).filterMap SnapshotUpdate.reserves).Nodup
      rw [List.filterMap_cons_some hreserves]
      refine List.nodup_cons.2 ⟨fun hmem => ?_, h.nodup⟩
      obtain ⟨other, hother, he⟩ := List.mem_filterMap.1 hmem
      exact hnot other hother he

theorem ReserveOnce.land {freezes : Token → Option FreezeCall} {index : Nat}
    (h : ReserveOnce db freezes) (hupdate : db.late[index]? = some update) :
    ReserveOnce ⟨update.apply db.store, db.late.eraseIdx index⟩ freezes := by
  have hmem : update ∈ db.late := List.mem_of_getElem? hupdate
  have honce : ∀ k, update.reserves = some k →
      ∀ other ∈ db.late.eraseIdx index, other.reserves ≠ some k := by
    intro k hk
    exact (InFlight.late_once hupdate h.nodup).2 hk
  refine ⟨fun other hother k hk => ?_, (InFlight.late_once (k := 0) hupdate h.nodup).1,
    fun k call hcall => ?_, fun k hk => ?_⟩
  · obtain ⟨hissued, hnone, hearly⟩ := h.late other (List.mem_of_mem_eraseIdx hother) k hk
    exact ⟨mem_issued_apply hissued, claim?_apply (fun he => honce k he other hother hk) hnone,
      hearly⟩
  · obtain ⟨hissued, hnone⟩ := h.calls k call hcall
    refine ⟨mem_issued_apply hissued, fun hearly => claim?_apply (fun he => ?_) (hnone hearly)⟩
    have hquiet := (h.late update hmem k he).2.2 call hcall
    rw [hearly] at hquiet
    cases hquiet
  · have hknot : k ∉ db.store.issued := fun hissued => hk (mem_issued_apply hissued)
    exact claim?_apply (fun he => hknot (h.late update hmem k he).1) (h.claims k hknot)

theorem mem_issued_claim (hclaims : update.claims = some token)
    (hmatched : (update.run store).isSome = true) : token ∈ (update.apply store).issued := by
  cases update with
  | claim id source token' leaseUntil temporary =>
    cases hclaims
    obtain ⟨written, hrun⟩ := Option.isSome_iff_exists.1 hmatched
    unfold SnapshotUpdate.apply
    rw [hrun]
    obtain ⟨written', -, rfl⟩ := Option.map_eq_some_iff.1 hrun
    exact List.mem_cons_self
  | _ => cases hclaims

/-- A freeze begins with a token that has just been issued. -/
theorem ReserveOnce.begin_ {freezes : Token → Option FreezeCall} {call : FreezeCall}
    (h : ReserveOnce db freezes) (hnew : token ∉ db.store.issued)
    (hclaims : update.claims = some token) (hmatched : (update.run db.store).isSome = true) :
    ReserveOnce (InFlight.send SnapshotUpdate.apply update .performed db)
      (Function.update freezes token (some call)) := by
  have hreserves : update.reserves = none := by
    cases update with
    | claim _ _ _ _ _ => rfl
    | _ => cases hclaims
  obtain ⟨hlate, hnodup, hcalls, hnone⟩ := h.send (o := .performed) hreserves
  refine ⟨fun other hother k hk => ?_, hnodup, fun k call' hcall' => ?_, hnone⟩
  · obtain ⟨hissued, hclaim, hearly⟩ := hlate other hother k hk
    refine ⟨hissued, hclaim, fun call' hcall' => ?_⟩
    -- what is in flight is of a token that was issued before
    have hne : k ≠ token := fun he => hnew (he ▸ (h.late other hother k hk).1)
    rw [Function.update_of_ne hne] at hcall'
    exact hearly call' hcall'
  · by_cases hne : k = token
    · subst hne
      refine ⟨mem_issued_claim hclaims hmatched, fun _ => ?_⟩
      exact claim?_apply (fun he => by rw [hreserves] at he; cases he) (h.claims k hnew)
    · rw [Function.update_of_ne hne] at hcall'
      exact hcalls k call' hcall'

end CameraLogs.Coredumps
