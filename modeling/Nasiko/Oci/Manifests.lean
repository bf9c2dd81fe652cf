import Nasiko.Oci.Blobs
import Nasiko.Json.Serde

/-!
# Manifest operations

A manifest is immutable content under its own hash, and a tag points at one. A push stores the
manifest, moves the tag and claims every blob the manifest lists, in one transaction.
-/

namespace Nasiko.Oci

open Nasiko.Concurrency Program Json

/-- `serde_json::Value::get`: the member of an object. -/
def member (v : Json Str) (key : Str) : Option (Json Str) :=
  match v with
  | .object fields => Entries.get? fields key
  | _ => none

def isDigestReference (reference : Str) : Bool := reference.contains ':'

def asBytes (s : Str) : Bytes := s.flatMap String.utf8EncodeChar

/-- `String::from_utf8` keeps the bytes. -/
def Env.KeepsBytes (env : Env) : Prop := ∀ b s, env.fromUtf8 b = .ok s → asBytes s = b

def digestOf (descriptor : Json Str) : Option Str :=
  (member descriptor "digest").bind asStr

/-- The blobs that an image manifest lists: its config and its layers. An index lists manifests and
no blobs. -/
def extractReferencedBlobDigests (content : Json Str) : List Str :=
  if ((member content "manifests").bind asArray).isSome then []
  else
    ((member content "config").bind digestOf).toList ++
      (((member content "layers").bind asArray).getD []).filterMap digestOf

/-- `Vec::dedup`: of equal neighbours, one stays. -/
def dedup : List Str → List Str
  | a :: b :: rest => if a = b then dedup (b :: rest) else a :: dedup (b :: rest)
  | l => l

/-- The order in which a push takes the locks of its blobs. -/
def claimOrder (digests : List Str) : List Str := dedup (digests.insertionSort (· ≤ ·))

theorem mem_dedup {d : Str} {ds : List Str} : d ∈ dedup ds ↔ d ∈ ds := by
  fun_induction dedup ds with
  | case1 b rest ih => simp [ih]
  | case2 a b rest hne ih => simp [ih]
  | case3 l => rfl

@[simp] theorem mem_claimOrder {d : Str} {ds : List Str} : d ∈ claimOrder ds ↔ d ∈ ds := by
  rw [claimOrder, mem_dedup, List.mem_insertionSort]

structure PutManifestResult where
  digest : Str
  subject : Option Str

/-- The row that `oci_referrers` gets for a manifest with a subject. -/
def referrerRow (content : Json Str) (repository digest : Str) (sizeBytes : Nat)
    (subjectDigest : Str) : Referrer where
  subjectDigest := subjectDigest
  repository := repository
  referrerDigest := digest
  artifactType := (member content "artifactType").bind asStr
  annotations := member content "annotations"
  sizeBytes := sizeBytes

variable (env : Env) (repository reference : Str)

def notFoundManifest : OciError :=
  .manifestUnknown ("manifest " ++ repository ++ ":" ++ reference ++
    " not found")

def getManifest : Prog Manifest := do
  match ← sql (.selectManifest repository reference) with
  | none => fail (notFoundManifest repository reference)
  | some manifest =>
    let computed := env.sha256Of (asBytes manifest.content)
    if computed = manifest.digest then pure manifest
    else fail (.storage ("manifest " ++ repository ++ ":" ++ reference ++
      ": stored content hashes to " ++ computed ++ ", not " ++ manifest.digest ++
      " — integrity check failed"))

/-- What a push checks before it opens its transaction: the document and its text. -/
def readManifest (reference : Str) (body : Bytes) : Except OciError (Json Str × Str) :=
  if isDigestReference reference && reference ≠ env.sha256Of body then
    .error (.digestInvalid ("digest mismatch: reference " ++ reference ++
      " does not match computed digest " ++ env.sha256Of body))
  else
    match env.fromSlice body with
    | .error e => .error (.manifestInvalid ("invalid JSON manifest: " ++ e))
    | .ok content =>
      match env.fromUtf8 body with
      | .error e => .error (.manifestInvalid ("manifest is not valid UTF-8: " ++ e))
      | .ok rawBody => .ok (content, rawBody)

variable {env} in
theorem readManifest_ok {reference : Str} {body : Bytes} {content : Json Str} {rawBody : Str}
    (h : readManifest env reference body = .ok (content, rawBody)) :
    env.fromSlice body = .ok content ∧ env.fromUtf8 body = .ok rawBody := by
  unfold readManifest at h
  split at h
  · cases h
  · split at h
    · cases h
    · rename_i content' hcont
      split at h
      · cases h
      · rename_i rawBody' hraw
        cases h
        exact ⟨hcont, hraw⟩

/-- The last statements of a push: the referrer, if the manifest has a subject. -/
def recordReferrer (repository : Str) (content : Json Str) (digest : Str) (size : Nat)
    (subject : Option Str) : Prog Unit := do
  match subject with
  | some subjectDigest =>
    sql (.insertReferrer (referrerRow content repository digest size subjectDigest))
  | none => pure ()
  perform Command.commit

/-- How a push ends: the blobs of the manifest are linked and its referrer is recorded. -/
def linkManifest (repository : Str) (content : Json Str) (digest : Str) (size : Nat) :
    Prog Unit := do
  forEach (fun d => claimBlob repository d .manifestBlobUnknown)
    (claimOrder (extractReferencedBlobDigests content))
  recordReferrer repository content digest size ((member content "subject").bind digestOf)

def putManifest (repository reference contentType : Str) (body : Bytes) :
    Prog PutManifestResult := do
  let digest := env.sha256Of body
  let (content, rawBody) ← ofExcept (readManifest env reference body)
  withTx do
    sql (.insertManifest ⟨digest, repository, contentType, rawBody, body.length⟩)
    if isDigestReference reference then pure ()
    else sql (.upsertTag ⟨repository, reference, digest⟩)
    linkManifest repository content digest body.length
  pure ⟨digest, (member content "subject").bind digestOf⟩

def deleteManifest : Prog Unit := do
  let rows ← sql (.deleteManifest repository reference)
  if rows = 0 then fail (notFoundManifest repository reference) else pure ()

end Nasiko.Oci
