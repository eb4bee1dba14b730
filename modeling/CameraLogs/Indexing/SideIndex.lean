import CameraLogs.Lib.Dict
import CameraLogs.Lib.Escape
import CameraLogs.Lib.Run
import CameraLogs.Logs.Utf8Text

/-!
# The side index of one source

`index_stream` reads a source in blocks, sends a document for each block to the index
service in batches, and saves how far it got in a local checkpoint after each confirmed
batch. At the end it compares the digest, counts the documents, and puts a manifest. A
run that starts again reads all of the source, but sends only from the checkpoint on,
and from the start when the documents in front of it are not all there.

Between any two of its calls a run may end. A call that raised may have been carried out
in part, and the rest of it may still be carried out later. Documents, manifests and
checkpoints may be removed at any time.

The documents are those of one revision: what identifies the source, its size and its
digest are part of their key.
-/

namespace CameraLogs.Indexing

open Lib Logs

/-- The bytes of a block. -/
def chunkBytes : Nat := 32 * 1024

/-- The bytes before a block that its text begins with. -/
def overlap : Nat := 16

/-- What is indexed: the stream as opened, and what the catalog says about the file. -/
structure Source where
  content : Bytes
  size : Nat
  bytes : Nat
  sha256 : Option String

structure ChunkDoc where
  offset : Nat
  length : Nat
  text : List Char
  deriving DecidableEq

structure Manifest where
  bytes : Nat
  chunks : Nat
  head : Bytes
  tail : Bytes
  hasNewline : Bool
  deriving DecidableEq

/-- A checkpoint. -/
structure Position where
  offset : Nat
  chunks : Nat
  deriving DecidableEq

/-- The local variables of `index_stream`; the digest by the bytes it was fed. -/
structure Pass where
  state : Position
  digest : Bytes
  offset : Nat
  chunks : Nat
  head : Bytes
  tail : Bytes
  newline : Bool
  batch : List ChunkDoc
  deriving DecidableEq

/-- Where a run is; `last` says that the source is read to its end. -/
inductive Phase
  | idle
  | reading (pass : Pass)
  | sending (pass : Pass) (last : Bool)
  | saving (pass : Pass) (last : Bool)
  | checking (pass : Pass)
  | proving (pass : Pass)
  | closing (pass : Pass)
  deriving DecidableEq

/-- The documents of the revision, the local checkpoint, and what calls that raised may
still bring. -/
structure World where
  docs : List ChunkDoc
  manifest : Option Manifest
  checkpoint : Option Position
  lateDocs : List ChunkDoc
  lateProofs : List Manifest
  phase : Phase
  deriving DecidableEq

def World.initial : World :=
  { docs := [], manifest := none, checkpoint := none, lateDocs := [], lateProofs := [], phase := .idle }

/-- The text of a block behind the last bytes before it. -/
def chunkText (tail data : Bytes) : List Char := (decodeReplace (tail ++ data).length (tail ++ data)).1

/-! ## Asking -/

/-- The wildcard pattern for the first three characters of a keyword. -/
def wildcard (keyword : List Char) : List Char :=
  '*' :: escape '\\' ['*', '?', '\\'] (keyword.take 3) ++ ['*']

/-- `evidence` for one file: what its manifest says, if all its documents are there. -/
def evidence (matchesPattern : List Char → List Char → Bool) (source : Source)
    (keyword : Option (List Char)) (world : World) : Option Checked :=
  match world.manifest with
  | none => none
  | some item =>
    if item.bytes ≠ source.bytes ∨ world.docs.length ≠ item.chunks then none
    else
      some
        { bytes := item.bytes, head := item.head, tail := item.tail, hasNewline := item.hasNewline
          mayMatch :=
            match keyword with
            | none => true
            | some keyword =>
              0 < (world.docs.filter fun doc => matchesPattern (wildcard keyword) doc.text).length }

/-! ## A run -/

def Pass.initial (state : Position) : Pass :=
  { state, digest := [], offset := 0, chunks := 0, head := [], tail := [], newline := false, batch := [] }

/-- Where sending goes on: the checkpoint, unless documents in front of it are missing. -/
def resumeAt (world : World) : Position :=
  let state := world.checkpoint.getD { offset := 0, chunks := 0 }
  if (world.docs.filter (·.offset < state.offset)).length ≠ state.chunks then { offset := 0, chunks := 0 }
  else state

/-- Take in a block. -/
def Pass.take (pass : Pass) (data : Bytes) : Pass :=
  let doc := { offset := pass.offset, length := data.length, text := chunkText pass.tail data }
  { pass with
    digest := pass.digest ++ data
    head := if pass.offset = 0 then data.take overlap else pass.head
    newline := pass.newline || decide (Logs.newline ∈ data)
    batch := if pass.state.offset ≤ pass.offset then pass.batch ++ [doc] else pass.batch
    offset := pass.offset + data.length
    chunks := pass.chunks + 1
    tail := (pass.tail ++ data).rtake overlap }

def Pass.proof (pass : Pass) : Manifest :=
  { bytes := pass.offset, chunks := pass.chunks, head := pass.head, tail := pass.tail
    hasNewline := pass.newline }

/-- What can happen. -/
inductive Act
  | start
  | read
  | bulk (applied : ChunkDoc → Bool)
  | save
  | verify
  | prove (applied : Bool)
  | finish
  | crash
  | arrive (doc : ChunkDoc)
  | arriveProof (proof : Manifest)
  | remove (keep : ChunkDoc → Bool) (keepManifest : Bool)
  | prune

section system

variable (sha256 : Bytes → String) (batchChunks : Nat) (source : Source)

/-- The next block: with a full batch it is sent, and what is left at the end. -/
def readBlock (pass : Pass) : Phase :=
  let data := (source.content.drop pass.offset).take chunkBytes
  if data = [] then
    if pass.batch = [] then .checking pass else .sending pass true
  else
    let pass := pass.take data
    if batchChunks ≤ pass.batch.length then .sending pass false else .reading pass

/-- One act; `none` when it cannot happen. -/
def act (world : World) : Act → Option World
  | .start =>
    match world.phase with
    | .idle =>
      if (evidence (fun _ _ => true) source none world).isSome ∨ source.size ≠ source.bytes then some world
      else some { world with phase := .reading (Pass.initial (resumeAt world)) }
    | _ => none
  | .read =>
    match world.phase with
    | .reading pass => some { world with phase := readBlock batchChunks source pass }
    | _ => none
  | .bulk applied =>
    match world.phase with
    | .sending pass last =>
      some
        { world with
          docs := Dict.upsertAll (·.offset) world.docs (pass.batch.filter applied)
          lateDocs := pass.batch.filter (fun doc => !applied doc) ++ world.lateDocs
          phase := if pass.batch.all applied then .saving pass last else .idle }
    | _ => none
  | .save =>
    match world.phase with
    | .saving pass last =>
      some
        { world with
          checkpoint := some { offset := pass.offset, chunks := pass.chunks }
          phase := if last then .checking pass else .reading { pass with batch := [] } }
    | _ => none
  | .verify =>
    match world.phase with
    | .checking pass =>
      if pass.offset ≠ source.bytes ∨ source.sha256 ≠ some (sha256 pass.digest) ∨
          world.docs.length ≠ pass.chunks then some { world with phase := .idle }
      else some { world with phase := .proving pass }
    | _ => none
  | .prove applied =>
    match world.phase with
    | .proving pass =>
      if applied then some { world with manifest := some pass.proof, phase := .closing pass }
      else some { world with lateProofs := pass.proof :: world.lateProofs, phase := .idle }
    | _ => none
  | .finish =>
    match world.phase with
    | .closing pass =>
      some
        { world with
          checkpoint := some { offset := pass.offset, chunks := pass.chunks }
          phase := .idle }
    | _ => none
  | .crash => some { world with phase := .idle }
  | .arrive doc =>
    if doc ∈ world.lateDocs then some { world with docs := Dict.upsert (·.offset) doc world.docs } else none
  | .arriveProof proof =>
    if proof ∈ world.lateProofs then some { world with manifest := some proof } else none
  | .remove keep keepManifest =>
    some
      { world with
        docs := world.docs.filter keep
        manifest := if keepManifest then world.manifest else none }
  | .prune => some { world with checkpoint := none }

/-- One step of any history. -/
def Step (world next : World) : Prop := ∃ event, act sha256 batchChunks source world event = some next

end system

end CameraLogs.Indexing
