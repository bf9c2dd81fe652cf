import Nasiko.Oci.Authz

/-!
# Blob operations

Blobs are stored under the digest of their bytes and shared by all repositories; a row of
`oci_blob_refs` links one to a repository. Every change of the links of a digest happens under the
lock of that digest: `claimBlob` links it, `deleteBlob` unlinks it and queues it for reclaim once
nothing links it, and `sweepBlob` removes the bytes of a queued digest.

A chunked upload is a row of `oci_uploads` with the number of bytes received and a buffer in memory
with the bytes.
-/

namespace Nasiko.Oci

open Nasiko.Concurrency Program Command

/-- A transaction is open while `body` runs. Where `body` has not committed, its end rolls back. -/
def withTx {α : Type} (body : Prog α) : Prog α := do
  perform begin
  let r ← attempt body
  perform rollback
  ofExcept r

/-- A program whose failure only reaches the log. -/
def bestEffort {α : Type} (p : Prog α) : Prog Unit := do
  let _ ← attempt p
  pure ()

def natText (n : Nat) : Str := Nat.toDigits 10 n

/-! ## Links -/

variable (repository digest : Str)

def blobLinked : Prog Bool := sql (.selectRef digest repository)

def blobNotFound (digest : Str) : OciError :=
  .blobUnknown ("blob " ++ digest ++ " not found")

def getBlobBytes : Prog Bytes := do
  if ← blobLinked repository digest then
    if ← perform (blobExists digest) then perform (getBlob digest)
    else fail (blobNotFound digest)
  else fail (blobNotFound digest)

/-- Cancel a queued reclaim, confirm that the bytes are there, then link the digest. -/
def claimBlob (absentCode : OciCode) : Prog Unit := do
  perform (lockBlobDigest digest)
  sql (.deleteGc digest)
  if ← perform (blobExists digest) then sql (.insertRef digest repository)
  else fail (.oci absentCode
    ("blob " ++ digest ++ " is not present in the registry"))

/-- Reclaim one queued digest, unless something has linked it again. -/
def sweepBlob (digest : Str) : Prog Unit := withTx do
  perform (lockBlobDigest digest)
  if ← sql (.selectGc digest) then
    if ← sql (.selectRefs digest) then pure () else perform (deleteBlob digest)
    sql (.deleteGc digest)
    perform commit
  else pure ()

/-- Drain the reclaim queue, as the server does when it starts. -/
def sweepPendingBlobGc : Prog Unit := do
  match ← attempt (sql .selectQueue) with
  | .error _ => pure ()
  | .ok queued => forEach (fun digest => bestEffort (sweepBlob digest)) queued

/-- Unlink a digest from a repository; if that was the last link, queue it and try to reclaim it. -/
def deleteBlob : Prog Unit := do
  let stillReferenced ← withTx do
    perform (lockBlobDigest digest)
    let removed ← sql (.deleteRef digest repository)
    if removed = 0 then
      fail (.blobUnknown ("blob " ++ digest ++ " not referenced by repository '" ++
        repository ++ "'"))
    else
      let stillReferenced ← sql (.selectRefs digest)
      if stillReferenced then pure () else sql (.insertGc digest)
      perform commit
      pure stillReferenced
  if stillReferenced then pure () else bestEffort (sweepBlob digest)

/-- Link a digest that the repository `source` has. `false` where the mount is not possible, so that
the client uploads the blob instead. -/
def mountBlob (source : Option Str) : Prog Bool :=
  match source with
  | none => pure false
  | some source => do
    if ← blobLinked source digest then
      if ← perform (blobExists digest) then
        withTx do
          claimBlob repository digest .blobUnknown
          perform commit
        pure true
      else pure false
    else pure false

/-! ## Uploads -/

/-- `MAX_UPLOAD_TOTAL_BYTES`, 5 GiB. -/
def maxUploadTotalBytes : Nat := 5 * 1024 * 1024 * 1024

/-- `uploadId` is what `Uuid::new_v4` drew. -/
def initiateUpload (repository : Str) (uploadId : Uuid) : Prog Uuid := do
  sql (.insertUpload uploadId repository)
  pure uploadId

def sessionNotFound : OciError := .uploadUnknown "upload session not found"

def uploadOffset (repository : Str) (uploadId : Uuid) : Prog Nat := do
  match ← sql (.selectOffset uploadId repository) with
  | some offset => pure offset
  | none => fail sessionNotFound

def cancelUpload (repository : Str) (uploadId : Uuid) : Prog Unit := do
  let removed ← sql (.deleteUpload uploadId (some repository))
  if removed = 0 then fail sessionNotFound
  else
    let _ ← perform (removeBuffer uploadId)
    pure ()

/-- Tear down a session that grows over the limit, and answer with the error for that. -/
def abortOversized (repository : Str) (uploadId : Uuid) : Prog OciError := do
  let _ ← perform (removeBuffer uploadId)
  bestEffort (sql (.deleteUpload uploadId (some repository)))
  pure (.oci .blobUploadInvalid ("upload exceeds maximum total size of " ++
    natText maxUploadTotalBytes ++ " bytes"))

structure ChunkResult where
  uploadId : Uuid
  newOffset : Nat

/-- Add a chunk to a session: its offset is committed first, then the buffer grows. `declaredStart`
is where the client says that the chunk starts. -/
def appendChunk (repository : Str) (uploadId : Uuid) (chunk : Bytes) (declaredStart : Option Nat) :
    Prog ChunkResult := do
  let newOffset ← withTx do
    match ← perform (selectOffsetForUpdate uploadId repository) with
    | none => fail sessionNotFound
    | some currentOffset =>
      match declaredStart.filter fun start => start ≠ currentOffset with
      | some start =>
        fail (.oci .rangeNotSatisfiable ("chunk starts at " ++ natText start ++
          " but the session is at " ++ natText currentOffset))
      | none =>
        let newOffset := currentOffset + chunk.length
        if newOffset > maxUploadTotalBytes then
          perform rollback
          let e ← abortOversized repository uploadId
          fail e
        else
          sql (.updateOffset newOffset uploadId)
          perform commit
          pure newOffset
  perform (extendBuffer uploadId chunk)
  pure ⟨uploadId, newOffset⟩

variable (env : Env)

/-- Store bytes under their digest and link them. The bytes are put outside the transaction. -/
def storeAndClaim (repository : Str) (data : Bytes) (expectedDigest : Option Str) : Prog Str :=
  let computed := env.sha256Of data
  match expectedDigest.filter fun expected => expected ≠ computed with
  | some expected =>
    fail (.digestInvalid ("digest mismatch: expected " ++ expected ++ ", got " ++
      computed))
  | none => do
    let _ ← perform (putBlob computed data)
    withTx do
      claimBlob repository computed .blobUnknown
      perform commit
    pure computed

/-- The whole blob in one request. -/
def uploadBlobMonolithic (repository : Str) (data : Bytes) (expectedDigest : Str) : Prog Str :=
  storeAndClaim env repository data (some expectedDigest)

/-- Finish a session with a last chunk. -/
def completeUpload (repository : Str) (uploadId : Uuid) (finalChunk : Bytes)
    (expectedDigest : Option Str) : Prog Str := do
  match ← sql (.selectOffset uploadId repository) with
  | none => fail sessionNotFound
  | some offsetBytes =>
    if offsetBytes + finalChunk.length > maxUploadTotalBytes then
      let e ← abortOversized repository uploadId
      fail e
    else
      let buffer ← perform (removeBuffer uploadId)
      let data := match buffer with
        | some buf => buf ++ finalChunk
        | none => finalChunk
      let digest ← storeAndClaim env repository data expectedDigest
      let _ ← sql (.deleteUpload uploadId none)
      pure digest

end Nasiko.Oci
