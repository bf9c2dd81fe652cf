import Nasiko.Json.Reader
import Nasiko.Oci.Manifests

/-!
# The registry as a system

`Request` has one constructor for each route of the registry that reads or changes blobs, uploads
and manifests, one for the sweep at the start of the server, and one for the changes that the host
makes to its agents. `handle` is what the routes do, and `registry` runs any number of requests at
once.
-/

namespace Nasiko.Oci

open Nasiko.Concurrency Program List State

/-- What reading the body of a request gives: its bytes, or the error of the connection. -/
abbrev Body := Except Str Bytes

structure Response where
  status : Nat
  headers : List (Str × Str)
  body : Bytes

/-- The query of `POST …/blobs/uploads/`. -/
structure InitiateUploadParams where
  digest : Option Str
  mount : Option Str
  source : Option Str

inductive Request where
  | headBlob (caller : Caller) (owner repo digest : Str)
  | getBlob (caller : Caller) (owner repo digest : Str)
  | deleteBlob (caller : CallerIdentity) (owner repo digest : Str)
  /-- `uploadId` is what `Uuid::new_v4` draws if a session is opened. -/
  | initiateUpload (writer : Writer) (owner repo : Str) (params : InitiateUploadParams)
      (body : Body) (uploadId : Uuid)
  | uploadStatus (writer : Writer) (owner repo uuid : Str)
  | cancelUpload (writer : Writer) (owner repo uuid : Str)
  | patchUpload (writer : Writer) (owner repo uuid : Str) (contentRange : Option Str) (body : Body)
  | completeUpload (writer : Writer) (owner repo uuid : Str) (digest : Option Str) (body : Body)
  | getManifest (caller : Caller) (owner repo reference : Str)
  | putManifest (writer : Writer) (owner repo reference : Str) (contentType : Option Str)
      (body : Body)
  | deleteManifest (caller : CallerIdentity) (owner repo reference : Str)
  | sweepPendingBlobGc
  | setAgents (agents : List Agent) (connectors : List Connector)

/-- `MAX_CHUNK_BYTES`, 512 MiB. -/
def maxChunkBytes : Nat := 512 * 1024 * 1024

/-- The limit of a manifest, 4 MiB. -/
def maxManifestBytes : Nat := 4 * 1024 * 1024

/-- `axum::body::to_bytes`. -/
def toBytes (body : Body) (limit : Nat) : Except Str Bytes :=
  match body with
  | .error e => .error e
  | .ok b => if b.length ≤ limit then .ok b else .error "length limit exceeded"

def readBody (body : Body) (limit : Nat) (code : OciCode) : Prog Bytes :=
  match toBytes body limit with
  | .ok b => pure b
  | .error e => fail (.oci code e)

/-- The repository of a path. -/
def repoName (owner repo : Str) : Str := owner ++ "/" ++ repo

/-- `rsplit('/').next()`: what stands after the last slash. -/
def lastSegment (name : Str) : Str := (name.reverse.takeWhile fun c => c ≠ '/').reverse

def digitsValue (ds : Str) : Nat := ds.foldl (fun n c => n * 10 + (c.toNat - '0'.toNat)) 0

/-- `str::parse::<i64>` for a text without a minus sign. -/
def parseI64 (s : Str) : Option Nat :=
  let ds := match s with
    | '+' :: rest => rest
    | _ => s
  if ds = [] ∨ ds.any (fun c => !c.isDigit) ∨ digitsValue ds ≥ 2 ^ 63 then none
  else some (digitsValue ds)

/-- Where a `Content-Range` header says that its chunk starts. -/
def declaredStart (contentRange : Option Str) : Option Nat :=
  contentRange.bind fun v => parseI64 (Str.trim (v.takeWhile fun c => c ≠ '-'))

/-- `0-{}` with the last byte that is held. -/
def rangeText (offset : Nat) : Str := "0-" ++ natText (offset - 1)

def blobResponse (digest : Str) (size : Nat) (body : Bytes) : Response where
  status := 200
  headers := [("Content-Length", natText size), ("Docker-Content-Digest", digest),
    ("Content-Type", "application/octet-stream")]
  body := body

def createdResponse (name digest : Str) : Response where
  status := 201
  headers := [("Location", "/v2/" ++ name ++ "/blobs/" ++ digest),
    ("Docker-Content-Digest", digest), ("Content-Length", "0")]
  body := []

def uploadLocation (name uuid : Str) : Str :=
  "/v2/" ++ name ++ "/blobs/uploads/" ++ uuid

def uploadResponse (status : Nat) (location range uuid : Str) : Response where
  status := status
  headers := [("Location", location), ("Range", range),
    ("Docker-Upload-UUID", uuid)]
  body := []

/-- The refusal of a chunk, with the offset at which the client has to go on. -/
def rangeResponse (offset : Nat) (message : Str) : Response where
  status := OciCode.rangeNotSatisfiable.status
  headers := [("Range", rangeText offset),
    ("Content-Type", "application/json")]
  body := asBytes ("\x7b\"errors\":[\x7b\"code\":\"" ++ OciCode.rangeNotSatisfiable.asStr ++
    "\",\"message\":\"" ++ message ++ "\"\x7d]\x7d")

def defaultManifestType : Str := "application/vnd.oci.image.manifest.v1+json"

variable (env : Env)

def parseUploadId (raw : Str) : Except OciError Uuid :=
  match env.parseUuid raw with
  | some uuid => .ok uuid
  | none => .error (.uploadUnknown "invalid upload UUID")

def headerValue (raw : Str) : Except OciError Str :=
  if env.headerOk raw then .ok raw
  else .error (.manifestInvalid ("value '" ++ raw ++ "' cannot be sent as a header"))

namespace Routes

variable (caller : Caller)

def headBlob (owner repo digest : Str) : Prog Response := do
  checkPullAccess env caller repo
  if ← blobLinked (repoName owner repo) digest then
    let size ← perform (Command.blobSize digest)
    pure (blobResponse digest size [])
  else fail (blobNotFound digest)

def getBlob (owner repo digest : Str) : Prog Response := do
  checkPullAccess env caller repo
  let data ← getBlobBytes (repoName owner repo) digest
  pure (blobResponse digest data.length data)

def deleteBlob (caller : CallerIdentity) (owner repo digest : Str) : Prog Response := do
  checkRepoDeleteAccess env caller repo
  Oci.deleteBlob (repoName owner repo) digest
  pure ⟨202, [], []⟩

variable (writer : Writer)

/-- The mount that a request asks for. Its source is checked as its target is. -/
def tryMount (name digest : Str) (source : Option Str) : Prog Bool := do
  match source with
  | some source => checkWriteAccess env writer (lastSegment source)
  | none => pure ()
  mountBlob name digest source

/-- What follows when nothing was mounted: a blob in one request, or a new session. -/
def beginUpload (name : Str) (expected : Option Str) (body : Body) (uploadId : Uuid) :
    Prog Response := do
  match expected with
  | some expected =>
    let data ← readBody body maxChunkBytes .blobUploadInvalid
    let digest ← uploadBlobMonolithic env name data expected
    pure (createdResponse name digest)
  | none =>
    let uploadId ← Oci.initiateUpload name uploadId
    let uuid := env.uuidText uploadId
    pure (uploadResponse 202 (uploadLocation name uuid) "0-0" uuid)

def initiateUpload (owner repo : Str) (params : InitiateUploadParams) (body : Body)
    (uploadId : Uuid) : Prog Response := do
  checkWriteAccess env writer repo
  let name := repoName owner repo
  match params.mount with
  | some digest =>
    if ← tryMount env writer name digest params.source then pure (createdResponse name digest)
    else beginUpload env name params.digest body uploadId
  | none => beginUpload env name params.digest body uploadId

variable (owner repo uuid : Str)

def uploadStatus : Prog Response := do
  checkWriteAccess env writer repo
  let name := repoName owner repo
  let uploadId ← ofExcept (parseUploadId env uuid)
  let offset ← uploadOffset name uploadId
  pure (uploadResponse 204 (uploadLocation name (env.uuidText uploadId)) (rangeText offset) uuid)

def cancelUpload : Prog Response := do
  checkWriteAccess env writer repo
  let uploadId ← ofExcept (parseUploadId env uuid)
  Oci.cancelUpload (repoName owner repo) uploadId
  pure ⟨204, [], []⟩

/-- The answer to a chunk; a refused range comes with the offset the registry is at. -/
def patchAnswer (name : Str) (uploadId : Uuid) :
    Except OciError ChunkResult → Prog Response
  | .ok result =>
    let uuid := env.uuidText uploadId
    pure (uploadResponse 202 (uploadLocation name uuid) (rangeText result.newOffset) uuid)
  | .error (.oci .rangeNotSatisfiable message) => do
    match ← attempt (uploadOffset name uploadId) with
    | .ok offset => pure (rangeResponse offset message)
    | .error _ => pure (rangeResponse 0 message)
  | .error e => fail e

def patchUpload (contentRange : Option Str) (body : Body) : Prog Response := do
  checkWriteAccess env writer repo
  let name := repoName owner repo
  let uploadId ← ofExcept (parseUploadId env uuid)
  let chunk ← readBody body maxChunkBytes .blobUploadInvalid
  let result ← attempt (appendChunk name uploadId chunk (declaredStart contentRange))
  patchAnswer env name uploadId result

def completeUpload (digest : Option Str) (body : Body) : Prog Response := do
  checkWriteAccess env writer repo
  let name := repoName owner repo
  let uploadId ← ofExcept (parseUploadId env uuid)
  let chunk ← readBody body maxChunkBytes .blobUploadInvalid
  let stored ← Oci.completeUpload env name uploadId chunk digest
  pure (createdResponse name stored)

def getManifest (owner repo reference : Str) : Prog Response := do
  checkPullAccess env caller repo
  let m ← Oci.getManifest env (repoName owner repo) reference
  pure ⟨200, [("content-type", m.mediaType), ("docker-content-digest", m.digest)],
    asBytes m.content⟩

/-- The answer to a push. It is built after the push has been committed. -/
def putAnswer (name : Str) (result : PutManifestResult) : Except OciError Response := do
  let location ← headerValue env ("/v2/".toList ++ name ++ "/manifests/".toList ++ result.digest)
  let digest ← headerValue env result.digest
  let headers := [("Location".toList, location), ("Docker-Content-Digest".toList, digest),
    ("Content-Length".toList, "0".toList)]
  match result.subject with
  | some subject =>
    let subject ← headerValue env subject
    pure ⟨201, headers ++ [("OCI-Subject".toList, subject)], []⟩
  | none => pure ⟨201, headers, []⟩

def putManifest (owner repo reference : Str) (contentType : Option Str)
    (body : Body) : Prog Response := do
  checkWriteAccess env writer repo
  let name := repoName owner repo
  let body ← readBody body maxManifestBytes .manifestInvalid
  let result ← Oci.putManifest env name reference (contentType.getD defaultManifestType) body
  ofExcept (putAnswer env name result)

def deleteManifest (caller : CallerIdentity) (owner repo reference : Str) : Prog Response := do
  checkRepoDeleteAccess env caller repo
  Oci.deleteManifest (repoName owner repo) reference
  pure ⟨202, [], []⟩

end Routes

def handle : Request → Prog Response
  | .headBlob caller owner repo digest => Routes.headBlob env caller owner repo digest
  | .getBlob caller owner repo digest => Routes.getBlob env caller owner repo digest
  | .deleteBlob caller owner repo digest => Routes.deleteBlob env caller owner repo digest
  | .initiateUpload writer owner repo params body uploadId =>
    Routes.initiateUpload env writer owner repo params body uploadId
  | .uploadStatus writer owner repo uuid => Routes.uploadStatus env writer owner repo uuid
  | .cancelUpload writer owner repo uuid => Routes.cancelUpload env writer owner repo uuid
  | .patchUpload writer owner repo uuid contentRange body =>
    Routes.patchUpload env writer owner repo uuid contentRange body
  | .completeUpload writer owner repo uuid digest body =>
    Routes.completeUpload env writer owner repo uuid digest body
  | .getManifest caller owner repo reference => Routes.getManifest env caller owner repo reference
  | .putManifest writer owner repo reference contentType body =>
    Routes.putManifest env writer owner repo reference contentType body
  | .deleteManifest caller owner repo reference =>
    Routes.deleteManifest env caller owner repo reference
  | .sweepPendingBlobGc => do
    sweepPendingBlobGc
    pure ⟨200, [], []⟩
  | .setAgents agents connectors => do
    sql (.setAgents agents connectors)
    pure ⟨200, [], []⟩

/-- The registry with its database, its storage and its memory. -/
def registry : System Request Command Reply OciError Response where
  State := State
  exec := exec env
  release := endTx
  crash := crash
  handle := handle env

/-- The registry before its first request. -/
def start : Config (registry env) where
  state := empty
  tasks := []

/-! ## A registry to evaluate -/

def asciiText (b : Bytes) : Option Str :=
  if b.all fun x => x < 128 then some (b.map fun x => Char.ofNat x.toNat) else none

/-- An environment in which runs can be evaluated: JSON and UTF-8 for ASCII texts, and the digests
that `hashes` lists. All digests share one lock, as they may under `hashtext`. -/
def sample (hashes : List (Bytes × Str)) : Env where
  sha256Of b := match hashes.find? fun x => x.1 = b with
    | some x => x.2
    | none => "sha256:"
  fromSlice b := match (asciiText b).bind (Json.readDoc some) with
    | some v => .ok v.toValue
    | none => .error "expected value"
  fromUtf8 b := match asciiText b with
    | some s => .ok s
    | none => .error "invalid utf-8 sequence"
  parseUuid := Uuid.parseStr
  uuidText := Uuid.toStr
  headerOk s := s.all fun c => ' ' ≤ c ∧ c ≠ Char.ofNat 127
  hashtext _ := 0

theorem utf8EncodeChar_ascii : ∀ n : Fin 128,
    String.utf8EncodeChar (Char.ofNat n) = [UInt8.ofNat n] := by decide +kernel

theorem sample_keepsBytes (hashes : List (Bytes × Str)) : (sample hashes).KeepsBytes := by
  intro b s h
  simp only [sample, asciiText] at h
  split at h
  · rename_i t ht
    obtain rfl := Except.ok.inj h
    split at ht
    · rename_i hasc
      cases ht
      rw [asBytes, flatMap_map]
      refine (flatMap_congr fun x hx => ?_).trans (flatMap_singleton' b)
      have hlt : x.toNat < 128 := by simpa [UInt8.lt_iff_toNat_lt] using all_eq_true.1 hasc x hx
      simpa using utf8EncodeChar_ascii ⟨x.toNat, hlt⟩
    · cases ht
  · cases h

/-- Put a blob into a repository in one request. -/
def uploadOf (repo digest : Str) (data : Bytes) : Request :=
  .initiateUpload .buildService "nasiko" repo ⟨some digest, none, none⟩ (.ok data) 0

def hello : Bytes := asBytes "hello"

def helloDigest : Str :=
  "sha256:2cf24dba5fb0a30e26e83b2ac5b9e29e1b161e5c1fa7425e73043362938b9824"

end Nasiko.Oci
