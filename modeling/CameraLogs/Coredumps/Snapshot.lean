import Mathlib.Logic.Function.Basic
import CameraLogs.Lib.Tally

/-!
# The documents of the coredump snapshots

A coredump file has a document, and at most one snapshot: an immutable copy under a token
of its own. The token also names a claim, which the quota of the node is charged with while
the claim is not released. `SnapshotUpdate` are the updates the procedures send: those of
one document with their filters, and the two transactions that change a claim and the
account of the node together. Each is applied at one moment, and finds what it finds.
-/

namespace CameraLogs.Coredumps

open CameraLogs.Lib

abbrev FileId := Nat
abbrev Token := Nat
abbrev ReaderId := Nat

inductive FileStatus
  | receiving
  | freezing
  | frozen
  | retiring
  | deleting
  deriving DecidableEq

/-- A name under the root of the snapshots: `_final`, or else `_temporary`. -/
structure CopyPath where
  file : FileId
  version : Nat
  token : Token
  final : Bool
  deriving DecidableEq

structure FileSnapshot where
  path : CopyPath
  size : Nat
  reservationToken : Token
  deriving DecidableEq

/-- An entry of `snapshotReaders`. -/
structure ReaderLease where
  id : ReaderId
  expiresAt : Nat
  deriving DecidableEq

/-- A document of `coredump_files`; `source` stands for the stat fields it is compared by. -/
structure FileDocument where
  status : FileStatus
  version : Nat
  source : Nat
  freezeToken : Option Token
  freezeLeaseUntil : Option Nat
  freezeTemporaryPath : Option CopyPath
  snapshot : Option FileSnapshot
  retireToken : Option Token
  snapshotReaders : List ReaderLease
  deriving DecidableEq

inductive SnapshotClaimState
  | reserved
  | published
  | reclaiming
  | released
  deriving DecidableEq

/-- A document of `coredump_snapshot_claims`. -/
structure SnapshotClaim where
  id : Token
  fileId : FileId
  version : Nat
  bytes : Nat
  state : SnapshotClaimState
  expiresAt : Nat
  deriving DecidableEq

/-- What a claim counts for in the account of its node. -/
def SnapshotClaim.counted (claim : SnapshotClaim) : Nat :=
  if claim.state = .released then 0 else claim.bytes

/-- The document of the node in `coredump_snapshot_reservations`. -/
structure SnapshotAccount where
  used : Nat
  activeTokens : List Token
  deriving DecidableEq

/-- What a reader has been granted. -/
structure ReaderGrant where
  file : FileId
  token : Token
  expiresAt : Nat
  deriving DecidableEq

/-- The documents of one node. The last three fields are not in the database: the tokens
that have claimed a file, what each reader has been granted last, and the tokens whose bytes
have been returned. -/
structure SnapshotStore where
  quota : Nat
  fileIds : List FileId
  documents : FileId → Option FileDocument
  claims : List SnapshotClaim
  account : SnapshotAccount
  issued : List Token
  grants : ReaderId → Option ReaderGrant
  returned : List Token

inductive SnapshotUpdate
  /-- `observe_file` of the scanner. -/
  | observe (id : FileId) (source : Nat)
  | claim (id : FileId) (source : Nat) (token : Token) (leaseUntil : Nat) (temporary : CopyPath)
  | renewFreeze (id : FileId) (token : Token) (leaseUntil : Nat)
  /-- A freeze that has failed gives the file back. -/
  | unclaim (id : FileId) (token : Token)
  | publish (id : FileId) (token : Token) (source : Nat) (snapshot : FileSnapshot)
  /-- The claim of a published snapshot, as `freeze` records it. -/
  | markPublished (token : Token) (expiresAt : Nat)
  | reserve (token : Token) (id : FileId) (size version expiresAt : Nat)
  | release (token : Token)
  | expireFreeze (id : FileId) (token : Token) (leaseUntil : Nat)
  /-- The same, as `reconcile_snapshots` records it. -/
  | confirmPublished (token : Token) (expiresAt : Nat)
  | retire (id : FileId) (token : Token)
  | startDelete (id : FileId) (token : Token) (stamp : Nat)
  | clear (id : FileId) (token : Token)
  | reclaim (token : Token)
  | pullReaders (id : FileId) (stamp : Nat)
  | acquire (id : FileId) (token : Token) (reader : ReaderId) (parent : Option ReaderId)
      (stamp expiresAt : Nat)
  | renewReader (id : FileId) (token : Token) (reader : ReaderId) (expiresAt : Nat)
  | closeReader (id : FileId) (token : Token) (reader : ReaderId)
  deriving DecidableEq

namespace FileDocument

variable (document : FileDocument)

/-- The filter on `snapshot.reservationToken`. -/
def holds (token : Token) : Bool :=
  document.snapshot.any fun snapshot => snapshot.reservationToken = token

/-- The document without the fields of a freeze. -/
def unfreeze : FileDocument :=
  { document with freezeToken := none, freezeLeaseUntil := none, freezeTemporaryPath := none }

/-- A reader whose lease has not expired. -/
def hasReader (stamp : Nat) : Bool :=
  document.snapshotReaders.any fun lease => stamp < lease.expiresAt

/-- The states in which a reader may acquire a lease: a snapshot that retires is only for
those a reader with a lease of its own sends. -/
def admits (parent : Option ReaderId) (stamp : Nat) : Bool :=
  document.status = .frozen ||
    parent.any fun parent => document.status = .retiring &&
      document.snapshotReaders.any fun lease => lease.id = parent && stamp < lease.expiresAt

/-- `snapshotReaders.$.expiresAt`: the first entry of the reader is set. -/
def setLease (reader : ReaderId) (expiresAt : Nat) : List ReaderLease → List ReaderLease
  | [] => []
  | lease :: rest =>
    if lease.id = reader then { lease with expiresAt } :: rest
    else lease :: setLease reader expiresAt rest

end FileDocument

namespace SnapshotStore

variable (s : SnapshotStore)

def claim? (token : Token) : Option SnapshotClaim := Dict.lookup SnapshotClaim.id token s.claims

/-- Some file refers to the token. -/
def references (token : Token) : Bool :=
  s.fileIds.any fun id => (s.documents id).any fun document =>
    document.freezeToken = some token || document.holds token

/-- The update of one file that meets the filter; `none` where none does. -/
def updateFile (id : FileId) (filter : FileDocument → Bool) (change : FileDocument → FileDocument) :
    Option SnapshotStore :=
  match s.documents id with
  | some document =>
    if filter document then
      some { s with documents := Function.update s.documents id (some (change document)) }
    else none
  | none => none

/-- The update of one claim that meets the filter. -/
def updateClaim (token : Token) (filter : SnapshotClaim → Bool)
    (change : SnapshotClaim → SnapshotClaim) : Option SnapshotStore :=
  match s.claim? token with
  | some claim =>
    if filter claim then
      some { s with claims := Dict.upsert SnapshotClaim.id (change claim) s.claims }
    else none
  | none => none

/-- The transaction of `_reserve`; `none` where it answers that it did not. -/
def reserve (token : Token) (id : FileId) (size version expiresAt : Nat) : Option SnapshotStore :=
  if (s.claim? token).any fun claim => claim.state = .reserved ∨ claim.state = .published then some s
  else if s.account.used + size ≤ s.quota ∧ token ∉ s.account.activeTokens then
    some { s with
      account := { used := s.account.used + size
                   activeTokens := token :: s.account.activeTokens }
      claims := Dict.upsert SnapshotClaim.id ⟨token, id, version, size, .reserved, expiresAt⟩
        s.claims }
  else none

/-- The transaction of `_release`. -/
def release (token : Token) : Option SnapshotStore :=
  match s.claim? token with
  | none => some s
  | some claim =>
    if claim.bytes = 0 ∨ claim.state = .released then some s
    else if token ∈ s.account.activeTokens ∧ claim.bytes ≤ s.account.used then
      some { s with
        account := { used := s.account.used - claim.bytes
                     activeTokens := s.account.activeTokens.filter (· ≠ token) }
        claims := Dict.upsert SnapshotClaim.id { claim with state := .released } s.claims
        returned := token :: s.returned }
    else none

/-- A grant is noted with the update that makes it. -/
def grant (reader : ReaderId) (given : Option ReaderGrant) : SnapshotStore :=
  { s with grants := Function.update s.grants reader given }

end SnapshotStore

/-- The documents after an update that finds something to change; `none` where it does
not. -/
def SnapshotUpdate.run (s : SnapshotStore) : SnapshotUpdate → Option SnapshotStore
  | .observe id source =>
    s.updateFile id (fun document => document.status = .receiving ∧ document.snapshot = none)
      fun document => { document with source }
  | .claim id source token leaseUntil temporary =>
    (s.updateFile id (fun document => document.status = .receiving ∧ document.source = source ∧
        document.snapshot = none)
      fun document => { document with
        status := .freezing
        freezeToken := some token
        freezeLeaseUntil := some leaseUntil
        freezeTemporaryPath := some temporary }).map
      fun s => { s with issued := token :: s.issued }
  | .renewFreeze id token leaseUntil =>
    s.updateFile id
      (fun document => document.status = .freezing ∧ document.freezeToken = some token)
      fun document => { document with freezeLeaseUntil := some leaseUntil }
  | .unclaim id token =>
    s.updateFile id
      (fun document => document.status = .freezing ∧ document.freezeToken = some token)
      fun document => { document.unfreeze with status := .receiving }
  | .publish id token source snapshot =>
    s.updateFile id (fun document => document.status = .freezing ∧
        document.freezeToken = some token ∧ document.source = source ∧ document.snapshot = none)
      fun document => { document.unfreeze with status := .frozen, snapshot := some snapshot }
  | .markPublished token expiresAt =>
    s.updateClaim token (fun _ => true) fun claim => { claim with state := .published, expiresAt }
  | .reserve token id size version expiresAt => s.reserve token id size version expiresAt
  | .release token => s.release token
  | .expireFreeze id token leaseUntil =>
    s.updateFile id (fun document => document.status = .freezing ∧
        document.freezeToken = some token ∧ document.freezeLeaseUntil = some leaseUntil)
      fun document => { document.unfreeze with status := .receiving }
  | .confirmPublished token expiresAt =>
    s.updateClaim token (fun claim => claim.state = .reserved)
      fun claim => { claim with state := .published, expiresAt }
  | .retire id token =>
    s.updateFile id (fun document => document.status = .frozen ∧ document.holds token)
      fun document => { document with status := .retiring, retireToken := some token }
  | .startDelete id token stamp =>
    s.updateFile id (fun document => document.status = .retiring ∧
        document.retireToken = some token ∧ ¬document.hasReader stamp)
      fun document => { document with status := .deleting }
  | .clear id token =>
    s.updateFile id
      (fun document => document.status = .deleting ∧ document.retireToken = some token)
      fun document => { document with
        status := .receiving, snapshot := none, snapshotReaders := [], retireToken := none }
  | .reclaim token =>
    s.updateClaim token (fun claim => claim.state ≠ .released)
      fun claim => { claim with state := .reclaiming }
  | .pullReaders id stamp =>
    s.updateFile id (fun _ => true) fun document => { document with
      snapshotReaders := document.snapshotReaders.filter fun lease => stamp < lease.expiresAt }
  | .acquire id token reader parent stamp expiresAt =>
    (s.updateFile id (fun document => document.holds token ∧ document.admits parent stamp)
      fun document => { document with
        snapshotReaders := document.snapshotReaders ++ [⟨reader, expiresAt⟩] }).map
      fun s => s.grant reader (some ⟨id, token, expiresAt⟩)
  | .renewReader id token reader expiresAt =>
    (s.updateFile id (fun document => document.holds token ∧
        (document.snapshotReaders.any fun lease => lease.id = reader) ∧
        (document.status = .frozen ∨ document.status = .retiring))
      fun document => { document with
        snapshotReaders := FileDocument.setLease reader expiresAt document.snapshotReaders }).map
      fun s => s.grant reader (some ⟨id, token, expiresAt⟩)
  | .closeReader id token reader =>
    (s.updateFile id (fun document => document.holds token) fun document => { document with
        snapshotReaders := document.snapshotReaders.filter fun lease => lease.id ≠ reader }).map
      fun s => s.grant reader none

def SnapshotUpdate.apply (update : SnapshotUpdate) (s : SnapshotStore) : SnapshotStore :=
  (update.run s).getD s

/-- No two files are claimed with the same token. -/
def SnapshotUpdate.fresh (s : SnapshotStore) : SnapshotUpdate → Bool
  | .claim _ _ token _ _ => token ∉ s.issued
  | _ => true

end CameraLogs.Coredumps
