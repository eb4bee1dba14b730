import CameraLogs.Lib.Run
import CameraLogs.Tasks.Records

/-!
# Accounts and login sessions

A session lets its holder in as an account for as long as the account's `authVersion` is the
one it was opened with. Every change of an account is one transaction. A login, or a change
of the own password, is checked against a copy of the account that was read before, and
hashing takes its time: the transaction gets that copy, whatever it is by then.

Each step leaves an account as it is or raises its `authVersion` (`Step.moves`). So what
once `Vouches` for a password does so for good, and what is older than a change is void.
-/

namespace CameraLogs.Users

open Lib
open Relation (ReflTransGen)
open Tasks (Refusal refuseIf bind_eq_ok)

/-- A secret, by its digest. -/
abbrev Digest := Nat

structure User where
  passwordHash : String
  builtin : Bool
  enabled : Bool
  deletedAt : Option Nat
  version : Nat
  authVersion : Nat

/-- The condition `{"enabled": True, "deletedAt": None}`. -/
def User.active (user : User) : Bool := user.enabled && user.deletedAt.isNone

/-- A session. Behind the source's own fields: the password it was opened with. -/
structure Session where
  userId : String
  authVersion : Nat
  expiresAt : Nat
  password : String

/-- The collections, and behind them the secrets that were ever drawn. -/
structure Accounts where
  now : Nat
  users : String → Option User
  sessions : Digest → Option Session
  issued : List Digest

namespace Accounts

def setUser (id : String) (user : User) (accounts : Accounts) : Accounts :=
  { accounts with users := Function.update accounts.users id (some user) }

/-- `claimed` is the answer of `claim_account_manager`. -/
def create (claimed : Except Refusal Unit) (id passwordHash : String) (enabled : Bool)
    (accounts : Accounts) : Except Refusal Accounts := do
  claimed
  return accounts.setUser id ⟨passwordHash, false, enabled, none, 1, 1⟩

/-- What editing, a reset of the password and a deletion do alike. -/
def update (claimed : Except Refusal Unit) (id : String) (version : Nat) (updates : User → User)
    (accounts : Accounts) : Except Refusal Accounts := do
  let target ← (accounts.users id).elim (.error ⟨404, "记录不存在"⟩) .ok
  claimed
  refuseIf (¬(target.version = version ∧ target.deletedAt = none ∧ target.builtin = false))
    409 "账号版本已变化或已删除"
  return accounts.setUser id
    { updates target with
      version := target.version + 1, authVersion := target.authVersion + 1 }

/-- The account with a new password. -/
def renew (user : User) (passwordHash : String) : User :=
  { user with
    passwordHash, version := user.version + 1, authVersion := user.authVersion + 1 }

/-- A login with a password that agrees with a copy of the account, or with the hash of a new
password a change to that one. -/
def rotateSession (id : String) (verified : User) (password : String) (oldToken : Option Digest)
    (passwordHash : Option String) (token : Digest) (expiresAt : Nat) (accounts : Accounts) :
    Except Refusal Accounts := do
  let current ← ((accounts.users id).filter fun user =>
    user.authVersion = verified.authVersion && user.passwordHash = verified.passwordHash &&
      user.active).elim (.error ⟨409, "账号已变化，请重新登录"⟩) .ok
  let old := oldToken.bind fun token => (accounts.sessions token).filter (·.userId = id)
  refuseIf (passwordHash.isSome = true ∧ ¬old.any (fun session =>
    session.authVersion = verified.authVersion && accounts.now < session.expiresAt) = true)
    409 "原登录会话已变化，请重新登录"
  let changed := passwordHash.elim current (renew current)
  let kept := fun token => (accounts.sessions token).filter fun session =>
    decide ¬(oldToken = some token ∧ session.userId = id)
  return { accounts.setUser id changed with
    sessions := Function.update kept token <|
      some { userId := id, authVersion := changed.authVersion, expiresAt, password }
    issued := token :: accounts.issued }

/-- A logout; the index on `expiresAt` drops a session in the same way. -/
def revokeSession (token : Digest) (accounts : Accounts) : Accounts :=
  { accounts with sessions := Function.update accounts.sessions token none }

/-- Whom a session lets in. -/
def sessionIdentity (token : Digest) (accounts : Accounts) : Option (String × User) := do
  let session ← (accounts.sessions token).filter fun session => accounts.now < session.expiresAt
  let user ← (accounts.users session.userId).filter fun user =>
    user.active && user.authVersion = session.authVersion
  return (session.userId, user)

end Accounts

/-- One step. An account is created under a new id and a session under a new secret, and the
password agrees with the new hash or else with the hash in the copy. -/
inductive Step (verifyPassword : String → String → Bool) (accounts : Accounts) : Accounts → Prop
  | tick (seconds : Nat) : Step _ accounts { accounts with now := accounts.now + seconds }
  | create {claimed id passwordHash enabled next} (hnew : accounts.users id = none)
      (h : accounts.create claimed id passwordHash enabled = .ok next) : Step _ accounts next
  | update {claimed id version updates next}
      (h : accounts.update claimed id version updates = .ok next) : Step _ accounts next
  | rotateSession {id verified password oldToken passwordHash token expiresAt next}
      (hverified : verifyPassword password (passwordHash.getD verified.passwordHash) = true)
      (hfresh : token ∉ accounts.issued)
      (h : accounts.rotateSession id verified password oldToken passwordHash token expiresAt =
        .ok next) : Step _ accounts next
  | revokeSession (token : Digest) : Step _ accounts (accounts.revokeSession token)

/-- Whatever accounts there are, nobody is let in yet. -/
def Initial (accounts : Accounts) : Prop := accounts.sessions = fun _ => none

/-! ## What a step does -/

section

variable {verifyPassword : String → String → Bool} {accounts next later : Accounts} {id : String}
  {user : User} {token : Digest}

theorem elim_eq_ok {α : Type} {x : Option α} {e : Refusal} {a : α}
    (h : x.elim (Except.error e) Except.ok = .ok a) : x = some a := by
  cases x with
  | none => cases h
  | some b =>
    cases h
    rfl

/-- A rotation opens one session, and leaves others as they are or deletes them. -/
theorem rotateSession_eq_ok {verified : User} {password : String} {oldToken : Option Digest}
    {passwordHash : Option String} {expiresAt : Nat}
    (h : accounts.rotateSession id verified password oldToken passwordHash token expiresAt =
      .ok next) :
    ∃ current changed, accounts.users id = some current ∧
      current.passwordHash = verified.passwordHash ∧
      changed = passwordHash.elim current (Accounts.renew current) ∧
      next.users = (accounts.setUser id changed).users ∧ next.issued = token :: accounts.issued ∧
      ∀ token' session, next.sessions token' = some session →
        accounts.sessions token' = some session ∨ token' = token ∧ session.userId = id ∧
          session.authVersion = changed.authVersion ∧ session.password = password := by
  obtain ⟨current, hcurrent, h⟩ := bind_eq_ok.mp h
  obtain ⟨-, -, h⟩ := bind_eq_ok.mp h
  obtain ⟨huser, hsame⟩ := Option.filter_eq_some_iff.mp (elim_eq_ok hcurrent)
  simp only [Bool.and_eq_true, decide_eq_true_eq] at hsame
  cases h
  refine ⟨current, _, huser, hsame.1.2, rfl, rfl, rfl, ?_⟩
  intro token' session hsession
  by_cases heq : token' = token
  · subst heq
    simp only [Function.update_self, Option.some.injEq] at hsession
    exact Or.inr ⟨rfl, by simp [← hsession]⟩
  · simp only [Function.update_of_ne heq] at hsession
    exact Or.inl (Option.filter_eq_some_iff.mp hsession).1

/-- An account is as it was, or sessions of it that were opened before are not valid. -/
def Ages (old new : User) : Prop := new = old ∨ old.authVersion < new.authVersion

theorem Ages.newer {old new : User} {n : Nat} (h : Ages old new) (hlt : n < old.authVersion) :
    n < new.authVersion := by
  rcases h with rfl | h
  · exact hlt
  · exact Nat.lt_trans hlt h

/-- The password agrees with the account if that has not changed since the session. -/
def Vouches (verifyPassword : String → String → Bool) (accounts : Accounts) (session : Session) :
    Prop :=
  ∃ user, accounts.users session.userId = some user ∧ session.authVersion ≤ user.authVersion ∧
    (session.authVersion = user.authVersion →
      verifyPassword session.password user.passwordHash = true)

/-- What a step does: accounts age, secrets stay drawn, and what they open has been there or is
opened now. -/
structure Moves (verifyPassword : String → String → Bool) (accounts next : Accounts) : Prop where
  account : ∀ id user, accounts.users id = some user → ∃ new, next.users id = some new ∧ Ages user new
  issued : accounts.issued ⊆ next.issued
  sessions : ∀ token session, next.sessions token = some session →
    accounts.sessions token = some session ∨
      token ∉ accounts.issued ∧ token ∈ next.issued ∧ Vouches verifyPassword next session

theorem moves_setUser (h : ∀ old, accounts.users id = some old → Ages old user) :
    Moves verifyPassword accounts (accounts.setUser id user) := by
  refine ⟨fun id' user' huser => ?_, fun _ h => h, fun _ _ h => Or.inl h⟩
  by_cases heq : id' = id
  · subst heq
    exact ⟨user, Function.update_self .., h user' huser⟩
  · exact ⟨user', (Function.update_of_ne heq ..).trans huser, Or.inl rfl⟩

theorem Step.moves (h : Step verifyPassword accounts next) :
    Moves verifyPassword accounts next := by
  have hsame : ∀ id user, accounts.users id = some user →
      ∃ new, accounts.users id = some new ∧ Ages user new := fun _ user h => ⟨user, h, Or.inl rfl⟩
  cases h with
  | tick => exact ⟨hsame, fun _ h => h, fun _ _ h => Or.inl h⟩
  | create hnew h =>
    obtain ⟨-, -, h⟩ := bind_eq_ok.mp h
    cases h
    refine moves_setUser fun old hold => ?_
    cases hnew.symm.trans hold
  | update h =>
    obtain ⟨target, htarget, h⟩ := bind_eq_ok.mp h
    obtain ⟨-, -, h⟩ := bind_eq_ok.mp h
    obtain ⟨-, -, h⟩ := bind_eq_ok.mp h
    cases h
    refine moves_setUser fun old hold => Or.inr ?_
    cases (elim_eq_ok htarget).symm.trans hold
    exact Nat.lt_succ_self _
  | revokeSession token =>
    refine ⟨hsame, fun _ h => h, fun token' session h => Or.inl ?_⟩
    by_cases heq : token' = token
    · simp [Accounts.revokeSession, heq] at h
    · exact (Function.update_of_ne heq _ _).symm.trans h
  | @rotateSession id _ _ _ passwordHash _ _ _ hverified hfresh h =>
    obtain ⟨current, changed, hcurrent, hhash, hchanged, husers, hissued, hsessions⟩ :=
      rotateSession_eq_ok h
    have hset : Moves verifyPassword accounts (accounts.setUser id changed) := by
      refine moves_setUser fun old hold => ?_
      cases hcurrent.symm.trans hold
      cases passwordHash with
      | none => exact Or.inl hchanged
      | some passwordHash => exact Or.inr (hchanged ▸ Nat.lt_succ_self _)
    refine ⟨husers ▸ hset.account, fun t ht => hissued ▸ List.mem_cons_of_mem _ ht,
      fun token' session hsession => ?_⟩
    rcases hsessions token' session hsession with hold | ⟨rfl, rfl, hauth, rfl⟩
    · exact Or.inl hold
    refine Or.inr ⟨hfresh, hissued ▸ List.mem_cons_self, changed, ?_, by omega, fun _ => ?_⟩
    · rw [husers]
      exact Function.update_self ..
    · rw [hchanged]
      cases passwordHash with
      | none => exact hhash ▸ hverified
      | some passwordHash => exact hverified

theorem Vouches.moves {session : Session} (h : Vouches verifyPassword accounts session)
    (hmoves : Moves verifyPassword accounts next) : Vouches verifyPassword next session := by
  obtain ⟨user, huser, hle, hagrees⟩ := h
  obtain ⟨new, hnew, rfl | hlt⟩ := hmoves.account _ _ huser
  · exact ⟨new, hnew, hle, hagrees⟩
  · exact ⟨new, hnew, by omega, fun heq => by omega⟩

theorem Moves.trans (h : Moves verifyPassword accounts next)
    (hlater : Moves verifyPassword next later) : Moves verifyPassword accounts later := by
  refine ⟨fun id user huser => ?_, fun _ hin => hlater.issued (h.issued hin),
    fun token session hsession => ?_⟩
  · obtain ⟨new, hnew, hages⟩ := h.account id user huser
    obtain ⟨last, hlast, hages'⟩ := hlater.account id new hnew
    refine ⟨last, hlast, ?_⟩
    rcases hages with rfl | hlt
    · exact hages'
    · exact Or.inr (hages'.newer hlt)
  · rcases hlater.sessions token session hsession with hold | ⟨hfresh, hin, hvouches⟩
    · rcases h.sessions token session hold with hold | ⟨hfresh, hin, hvouches⟩
      · exact Or.inl hold
      · exact Or.inr ⟨hfresh, hlater.issued hin, hvouches.moves hlater⟩
    · exact Or.inr ⟨fun hold => hfresh (h.issued hold), hin, hvouches⟩

/-- What a step does a run does. -/
theorem run_moves (hrun : ReflTransGen (Step verifyPassword) accounts next) :
    Moves verifyPassword accounts next := by
  induction hrun with
  | refl => exact ⟨fun _ user h => ⟨user, h, Or.inl rfl⟩, fun _ h => h, fun _ _ h => Or.inl h⟩
  | tail _ hstep ih => exact ih.trans hstep.moves

/-- Every session has a drawn secret and goes back to a password of its account. -/
def Sound (verifyPassword : String → String → Bool) (accounts : Accounts) : Prop :=
  ∀ token session, accounts.sessions token = some session →
    token ∈ accounts.issued ∧ Vouches verifyPassword accounts session

theorem reachable_sound (h : Reachable Initial (Step verifyPassword) accounts) :
    Sound verifyPassword accounts := by
  obtain ⟨start, hstart, hrun⟩ := h
  intro token session hsession
  rcases (run_moves hrun).sessions token session hsession with hold | ⟨-, hin, hvouches⟩
  · rw [hstart] at hold
    cases hold
  · exact ⟨hin, hvouches⟩

/-! ## Who is let in -/

theorem sessionIdentity_eq_some (h : accounts.sessionIdentity token = some (id, user)) :
    ∃ session, accounts.sessions token = some session ∧ session.userId = id ∧
      accounts.users id = some user ∧ user.authVersion = session.authVersion := by
  obtain ⟨session, hsession, h⟩ := Option.bind_eq_some_iff.mp h
  obtain ⟨user', huser, h⟩ := Option.bind_eq_some_iff.mp h
  cases h
  obtain ⟨huser, hvalid⟩ := Option.filter_eq_some_iff.mp huser
  simp only [Bool.and_eq_true, decide_eq_true_eq] at hvalid
  exact ⟨session, (Option.filter_eq_some_iff.mp hsession).1, rfl, huser, hvalid.2⟩

/-- **Whoever a session lets in has given the password that the account has now**, when the
session was opened. -/
theorem let_in_by_password (h : Reachable Initial (Step verifyPassword) accounts)
    (hin : accounts.sessionIdentity token = some (id, user)) :
    ∃ session, accounts.sessions token = some session ∧ session.userId = id ∧
      verifyPassword session.password user.passwordHash = true := by
  obtain ⟨session, hsession, rfl, huser, hversion⟩ := sessionIdentity_eq_some hin
  obtain ⟨-, user', huser', -, hagrees⟩ := reachable_sound h token session hsession
  cases huser.symm.trans huser'
  exact ⟨session, hsession, rfl, hagrees hversion.symm⟩

/-- An account, and its first login. -/
def oneAccount : Accounts :=
  { now := 0, sessions := fun _ => none, issued := []
    users := fun id => if id = "u" then some ⟨"h", false, true, none, 1, 1⟩ else none }

def loggedIn : Accounts :=
  ((oneAccount.rotateSession "u" ⟨"h", false, true, none, 1, 1⟩ "h" none none 7 60).toOption).getD
    oneAccount

theorem loggedIn_reachable : Reachable Initial (Step (· == ·)) loggedIn := by
  have h : oneAccount.rotateSession "u" ⟨"h", false, true, none, 1, 1⟩ "h" none none 7 60 =
      .ok loggedIn := rfl
  have hstep : Step (· == ·) oneAccount loggedIn := Step.rotateSession rfl List.not_mem_nil h
  exact ⟨oneAccount, rfl, ReflTransGen.single hstep⟩

theorem let_in_by_password_first : ∃ session, loggedIn.sessions 7 = some session ∧
    session.userId = "u" ∧ (session.password == "h") = true :=
  let_in_by_password loggedIn_reachable
    (show loggedIn.sessionIdentity 7 = some ("u", ⟨"h", false, true, none, 1, 1⟩) from rfl)

/-- **A change of an account ends what went before it, for good.** No secret drawn until then
lets anyone in as the account, and no login goes through with a copy from before. -/
theorem change_ends_sessions (h : Reachable Initial (Step verifyPassword) accounts)
    (hstep : Step verifyPassword accounts next) (huser : accounts.users id = some user)
    (hchange : next.users id ≠ some user)
    (hrun : ReflTransGen (Step verifyPassword) next later) :
    (∀ token ∈ accounts.issued, ∀ user', later.sessionIdentity token ≠ some (id, user')) ∧
    ∀ verified : User, verified.authVersion ≤ user.authVersion →
      ∀ password oldToken passwordHash token expiresAt,
        later.rotateSession id verified password oldToken passwordHash token expiresAt =
          .error ⟨409, "账号已变化，请重新登录"⟩ := by
  obtain ⟨new, hnew, hages⟩ := hstep.moves.account id user huser
  have hlt : user.authVersion < new.authVersion := hages.resolve_left fun heq => hchange (heq ▸ hnew)
  have hmoves := run_moves hrun
  obtain ⟨now, hnow, hages'⟩ := hmoves.account id new hnew
  have hless := hages'.newer hlt
  refine ⟨fun token hin user' hlet => ?_, ?_⟩
  · -- a secret of old opens what it opened then, and that is older than the account
    obtain ⟨session, hsession, rfl, huser', hversion⟩ := sessionIdentity_eq_some hlet
    have hopened := ((hstep.moves.trans hmoves).sessions token session hsession).resolve_right
      fun h => h.1 hin
    obtain ⟨-, old, hold, hle, -⟩ := reachable_sound h token session hopened
    cases huser.symm.trans hold
    cases hnow.symm.trans huser'
    omega
  · intro verified hle password oldToken passwordHash token expiresAt
    have hne : ¬now.authVersion = verified.authVersion := by omega
    simp [Accounts.rotateSession, hnow, hne, Option.filter, Bind.bind, Except.bind]

/-- The account is disabled. -/
def disabled : Accounts :=
  ((loggedIn.update (.ok ()) "u" 1 fun user => { user with enabled := false }).toOption).getD
    loggedIn

theorem change_ends_sessions_disabled :
    disabled.sessionIdentity 7 ≠ some ("u", ⟨"h", false, false, none, 2, 2⟩) ∧
    disabled.rotateSession "u" ⟨"h", false, true, none, 1, 1⟩ "h" none none 8 60 =
      .error ⟨409, "账号已变化，请重新登录"⟩ := by
  have h : loggedIn.update (.ok ()) "u" 1 (fun user => { user with enabled := false }) =
      .ok disabled := rfl
  have hchange : disabled.users "u" ≠ loggedIn.users "u" := fun heq =>
    absurd (congrArg (Option.map User.version) heq) (by decide)
  obtain ⟨hended, hrefused⟩ :=
    change_ends_sessions loggedIn_reachable (Step.update h) rfl hchange ReflTransGen.refl
  exact ⟨hended 7 (List.mem_singleton_self 7) _, hrefused _ (Nat.le_refl 1) "h" none none 8 60⟩

end

end CameraLogs.Users
