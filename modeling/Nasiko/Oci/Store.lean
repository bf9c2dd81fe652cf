import Nasiko.Concurrency.System
import Nasiko.Text.Uuid

/-!
# What the registry keeps

The registry's state has three parts. The tables live in Postgres: a request reads what is committed
and, inside a transaction, what it has written itself; its writes wait in the transaction until the
commit, and the locks it takes are held until the transaction ends. The bytes of the blobs live in a
storage that takes no part in transactions. The buffers of unfinished uploads live in the memory of
the server and are gone after a crash.

`State.exec` carries out one command of a request. A command that fails ends the transaction; a
command that is carried out without an answer ends it too, except that a commit has then happened.
-/

namespace Nasiko.Oci

open Nasiko.Concurrency Function

abbrev Bytes := List UInt8

/-- What the registry takes from other crates and from Postgres. -/
structure Env where
  /-- `sha256:` and the hash in hexadecimal. -/
  sha256Of : Bytes → Str
  /-- `serde_json::from_slice`; the numbers of a document are kept as they were written. -/
  fromSlice : Bytes → Except Str (Json Str)
  /-- `String::from_utf8`. -/
  fromUtf8 : Bytes → Except Str Str
  /-- `Uuid::from_str` and its `Display`. -/
  parseUuid : Str → Option Uuid
  uuidText : Uuid → Str
  /-- What `HeaderValue::from_str` accepts. -/
  headerOk : Str → Bool
  /-- The hash of Postgres that turns a digest into the key of its lock. -/
  hashtext : Str → Int

/-! ## Errors -/

/-- The codes of the Distribution Spec that the registry uses. -/
inductive OciCode where
  | blobUnknown
  | blobUploadUnknown
  | blobUploadInvalid
  | digestInvalid
  | manifestBlobUnknown
  | manifestInvalid
  | manifestUnknown
  | rangeNotSatisfiable
  deriving DecidableEq

def OciCode.asStr : OciCode → Str
  | .blobUnknown => "BLOB_UNKNOWN"
  | .blobUploadUnknown => "BLOB_UPLOAD_UNKNOWN"
  | .blobUploadInvalid => "BLOB_UPLOAD_INVALID"
  | .digestInvalid => "DIGEST_INVALID"
  | .manifestBlobUnknown => "MANIFEST_BLOB_UNKNOWN"
  | .manifestInvalid => "MANIFEST_INVALID"
  | .manifestUnknown => "MANIFEST_UNKNOWN"
  | .rangeNotSatisfiable => "BLOB_UPLOAD_INVALID"

def OciCode.status : OciCode → Nat
  | .blobUnknown | .blobUploadUnknown | .manifestBlobUnknown | .manifestUnknown => 404
  | .blobUploadInvalid | .digestInvalid | .manifestInvalid => 400
  | .rangeNotSatisfiable => 416

/-- The texts of Postgres and of the storage backend only reach the log and are not modelled. -/
inductive OciError where
  | oci (code : OciCode) (message : Str)
  | notFound (message : Str)
  | database
  | storage (message : Str)
  | forbidden (message : Str)
  deriving DecidableEq

namespace OciError

variable (message : Str)

def manifestUnknown : OciError := .oci .manifestUnknown message
def blobUnknown : OciError := .oci .blobUnknown message
def digestInvalid : OciError := .oci .digestInvalid message
def manifestInvalid : OciError := .oci .manifestInvalid message
def uploadUnknown : OciError := .oci .blobUploadUnknown message

end OciError

/-! ## The tables -/

/-- A row of `oci_manifests`. -/
structure Manifest where
  digest : Str
  repository : Str
  mediaType : Str
  content : Str
  sizeBytes : Nat
  deriving DecidableEq

/-- A row of `oci_tags`. -/
structure Tag where
  repository : Str
  tag : Str
  digest : Str
  deriving DecidableEq

/-- A row of `oci_referrers`. -/
structure Referrer where
  subjectDigest : Str
  repository : Str
  referrerDigest : Str
  artifactType : Option Str
  annotations : Option (Json Str)
  sizeBytes : Nat

/-- A row of `oci_uploads`. -/
structure Upload where
  uuid : Uuid
  repository : Str
  offsetBytes : Nat
  deriving DecidableEq

/-- A row of `agents`; `deleted` says whether `deleted_at` is set. -/
structure Agent where
  id : Uuid
  name : Str
  ownerId : Uuid
  deleted : Bool
  deriving DecidableEq

/-- A row of `mcp_connectors`. -/
structure Connector where
  id : Uuid
  name : Str
  deriving DecidableEq

structure Tables where
  /-- `oci_blob_refs`: digest and repository. -/
  refs : List (Str × Str)
  /-- `oci_blob_gc`: the digests queued for reclaim. -/
  gc : List Str
  manifests : List Manifest
  tags : List Tag
  referrers : List Referrer
  uploads : List Upload
  agents : List Agent
  connectors : List Connector

/-- What a statement writes. -/
inductive Write where
  | insertRef (digest repository : Str)
  | deleteRef (digest repository : Str)
  | insertGc (digest : Str)
  | deleteGc (digest : Str)
  | insertManifest (m : Manifest)
  | deleteManifest (repository digest : Str)
  | upsertTag (t : Tag)
  | insertReferrer (r : Referrer)
  | insertUpload (u : Upload)
  | setOffset (uuid : Uuid) (offset : Nat)
  | deleteUpload (uuid : Uuid)
  | setAgents (agents : List Agent) (connectors : List Connector)

namespace Tables

variable (t : Tables)

def manifest? (repository digest : Str) : Option Manifest :=
  t.manifests.find? fun m => m.repository = repository ∧ m.digest = digest

/-- The session with this id. -/
def upload? (uuid : Uuid) : Option Upload := t.uploads.find? fun u => u.uuid = uuid

/-- The session with this id, if it belongs to the repository. -/
def uploadOf? (uuid : Uuid) (repository : Str) : Option Upload :=
  (t.upload? uuid).filter fun u => u.repository = repository

/-- The user owns a live agent of this name. -/
def owns (repo : Str) (owner : Uuid) : Bool :=
  t.agents.any fun a => a.name = repo ∧ a.ownerId = owner ∧ a.deleted = false

/-- Some user owns a live agent of this name. -/
def claimed (repo : Str) : Bool :=
  t.agents.any fun a => a.name = repo ∧ a.deleted = false

/-- `COALESCE((SELECT t.digest FROM oci_tags …), $2)`. -/
def resolve (repository reference : Str) : Str :=
  match t.tags.find? fun x => x.repository = repository ∧ x.tag = reference with
  | some x => x.digest
  | none => reference

def apply : Write → Tables
  | .insertRef d r => { t with refs := if (d, r) ∈ t.refs then t.refs else (d, r) :: t.refs }
  | .deleteRef d r => { t with refs := t.refs.filter fun x => x ≠ (d, r) }
  | .insertGc d => { t with gc := if d ∈ t.gc then t.gc else d :: t.gc }
  | .deleteGc d => { t with gc := t.gc.filter fun x => x ≠ d }
  | .insertManifest m =>
    { t with manifests := if (t.manifest? m.repository m.digest).isSome then t.manifests
        else m :: t.manifests }
  -- The foreign keys of `oci_tags` and `oci_referrers` cascade.
  | .deleteManifest r d =>
    { t with
      manifests := t.manifests.filter fun m => ¬ (m.repository = r ∧ m.digest = d)
      tags := t.tags.filter fun x => ¬ (x.repository = r ∧ x.digest = d)
      referrers := t.referrers.filter fun x => ¬ (x.repository = r ∧ x.referrerDigest = d) }
  | .upsertTag x =>
    { t with tags := x :: t.tags.filter fun y => ¬ (y.repository = x.repository ∧ y.tag = x.tag) }
  | .insertReferrer x =>
    { t with referrers :=
        if t.referrers.any fun y => y.repository = x.repository ∧
          y.subjectDigest = x.subjectDigest ∧ y.referrerDigest = x.referrerDigest
        then t.referrers else x :: t.referrers }
  | .insertUpload u => { t with uploads := u :: t.uploads }
  | .setOffset u n =>
    { t with uploads := t.uploads.map fun x =>
        if x.uuid = u then { x with offsetBytes := n } else x }
  | .deleteUpload u => { t with uploads := t.uploads.filter fun x => x.uuid ≠ u }
  | .setAgents as cs => { t with agents := as, connectors := cs }

def applyAll (ws : List Write) : Tables := ws.foldl apply t

end Tables

/-! ## Statements -/

/-- The SQL statements of the registry. -/
inductive Statement where
  | insertRef (digest repository : Str)
  | deleteRef (digest repository : Str)
  | selectRef (digest repository : Str)
  | selectRefs (digest : Str)
  | insertGc (digest : Str)
  | deleteGc (digest : Str)
  | selectGc (digest : Str)
  | selectQueue
  | insertManifest (m : Manifest)
  | selectManifest (repository reference : Str)
  | deleteManifest (repository reference : Str)
  | upsertTag (t : Tag)
  | insertReferrer (r : Referrer)
  | insertUpload (uuid : Uuid) (repository : Str)
  | selectOffset (uuid : Uuid) (repository : Str)
  | updateOffset (offset : Nat) (uuid : Uuid)
  | deleteUpload (uuid : Uuid) (repository : Option Str)
  | claimStatus (repo : Str) (owner : Uuid)
  | agentName (id : Uuid)
  | connectorName (id : Uuid)
  | setAgents (agents : List Agent) (connectors : List Connector)

namespace Statement

/-- What a statement answers: rows, a truth value, or the number of rows it removed. -/
abbrev Reply : Statement → Type
  | selectRef _ _ | selectRefs _ | selectGc _ => Bool
  | selectQueue => List Str
  | deleteRef _ _ | deleteManifest _ _ | deleteUpload _ _ => Nat
  | selectManifest _ _ => Option Manifest
  | selectOffset _ _ => Option Nat
  | claimStatus _ _ => Bool × Bool
  | agentName _ | connectorName _ => Option Str
  | _ => Unit

/-- The rows that a delete of a session removes. -/
def deleted (t : Tables) (uuid : Uuid) : Option Str → Option Upload
  | some repository => t.uploadOf? uuid repository
  | none => t.upload? uuid

/-- What a statement answers and writes. A write that finds nothing to do is not repeated at the
commit. -/
def eval (t : Tables) : (q : Statement) → Except OciError (q.Reply × List Write)
  | insertRef d r => .ok ((), if (d, r) ∈ t.refs then [] else [.insertRef d r])
  | deleteRef d r => .ok (if (d, r) ∈ t.refs then (1, [.deleteRef d r]) else (0, []))
  | selectRef d r => .ok (decide ((d, r) ∈ t.refs), [])
  | selectRefs d => .ok (t.refs.any fun x => x.1 = d, [])
  | insertGc d => .ok ((), if d ∈ t.gc then [] else [.insertGc d])
  | deleteGc d => .ok ((), if d ∈ t.gc then [.deleteGc d] else [])
  | selectGc d => .ok (decide (d ∈ t.gc), [])
  | selectQueue => .ok (t.gc, [])
  | insertManifest m =>
    .ok ((), if (t.manifest? m.repository m.digest).isSome then [] else [.insertManifest m])
  | selectManifest r x => .ok (t.manifest? r (t.resolve r x), [])
  | deleteManifest r x =>
    .ok (if (t.manifest? r (t.resolve r x)).isSome then (1, [.deleteManifest r (t.resolve r x)])
      else (0, []))
  | upsertTag x => .ok ((), [.upsertTag x])
  | insertReferrer x => .ok ((), [.insertReferrer x])
  -- The primary key of `oci_uploads`.
  | insertUpload u r =>
    if (t.upload? u).isSome then .error .database else .ok ((), [.insertUpload ⟨u, r, 0⟩])
  | selectOffset u r => .ok ((t.uploadOf? u r).map Upload.offsetBytes, [])
  | updateOffset n u => .ok ((), [.setOffset u n])
  | deleteUpload u r => .ok (if (deleted t u r).isSome then (1, [.deleteUpload u]) else (0, []))
  | claimStatus repo owner => .ok ((t.owns repo owner, t.claimed repo), [])
  | agentName id =>
    .ok ((t.agents.find? fun a => a.id = id ∧ a.deleted = false).map Agent.name, [])
  | connectorName id =>
    .ok ((t.connectors.find? fun c => c.id = id).map fun c => "mcp-" ++ c.name, [])
  | setAgents as cs => .ok ((), [.setAgents as cs])

end Statement

/-! ## The state -/

/-- `S3Storage::blob_key`. Digests that differ only in `:` and `/` are one object. -/
def blobKey (digest : Str) : Str := "blobs/" ++ digest.map fun c => if c = ':' then '/' else c

/-- What a transaction can hold a lock on: the hash of a digest, the row of a session, or the row of
a manifest that a tag or a referrer it has written points at. -/
inductive Lock where
  | digest (key : Int)
  | upload (uuid : Uuid)
  | referenced (repository digest : Str)
  deriving DecidableEq

structure State where
  tables : Tables
  /-- The writes of the open transactions, by request. -/
  txs : Nat → Option (List Write)
  /-- The locks that are held, with their owners. -/
  locks : List (Lock × Nat)
  /-- The objects of the storage, by their keys. -/
  blobs : Str → Option Bytes
  buffers : Uuid → Option Bytes

/-- The commands of the registry: SQL, the storage, and the buffers. -/
inductive Command where
  | sql (q : Statement)
  | begin
  | commit
  | rollback
  | lockBlobDigest (digest : Str)
  | selectOffsetForUpdate (uuid : Uuid) (repository : Str)
  | blobExists (digest : Str)
  | putBlob (digest : Str) (data : Bytes)
  | getBlob (digest : Str)
  | blobSize (digest : Str)
  | deleteBlob (digest : Str)
  | extendBuffer (uuid : Uuid) (chunk : Bytes)
  | removeBuffer (uuid : Uuid)

abbrev Reply : Command → Type
  | .sql q => q.Reply
  | .selectOffsetForUpdate _ _ => Option Nat
  | .blobExists _ => Bool
  | .putBlob _ _ | .blobSize _ => Nat
  | .getBlob _ => Bytes
  | .removeBuffer _ => Option Bytes
  | _ => Unit

/-- The locks that a statement waits for. A delete waits for the row it removes, and a manifest also
for the transactions that point at it. -/
def Statement.waitsFor (t : Tables) : Statement → List Lock
  | .updateOffset _ u => [.upload u]
  | .deleteUpload u r => if (deleted t u r).isSome then [.upload u] else []
  | .deleteManifest r x => [.referenced r (t.resolve r x)]
  | _ => []

def Statement.takes : Statement → List Lock
  | .updateOffset _ u => [.upload u]
  | .upsertTag x => [.referenced x.repository x.digest]
  | .insertReferrer x => [.referenced x.repository x.referrerDigest]
  | _ => []

namespace State

variable (s : State) (i : Nat)

/-- What request `i` sees: what is committed, and what it has written itself. -/
def view : Tables :=
  match s.txs i with
  | some ws => s.tables.applyAll ws
  | none => s.tables

/-- No other request holds the lock. -/
def free (l : Lock) : Bool := s.locks.all fun x => x.1 ≠ l || x.2 = i

/-- The end of a transaction without a commit. -/
def endTx : State :=
  { s with
    txs := update s.txs i none
    locks := s.locks.filter fun x => x.2 ≠ i }

/-- Writes wait in the transaction of the request; without one, they are committed at once. -/
def record (ws : List Write) (ls : List Lock) : State :=
  match s.txs i with
  | some old =>
    { s with
      txs := update s.txs i (some (old ++ ws))
      locks := ls.map (fun l => (l, i)) ++ s.locks }
  | none => { s with tables := s.tables.applyAll ws }

def commitTx : State := { s.endTx i with tables := s.view i }

/-- A statement, once nothing it waits for is held by another request. -/
def execSql (q : Statement) : Outcome → Option (Except OciError q.Reply × State)
  | .failed => some (.error .database, s.endTx i)
  | o =>
    if (q.waitsFor (s.view i)).all (s.free i) then
      match q.eval (s.view i) with
      | .error e => some (.error e, s.endTx i)
      | .ok (r, ws) =>
        if o = .lost then some (.error .database, (s.record i ws q.takes).endTx i)
        else some (.ok r, s.record i ws q.takes)
    else none

/-- A change outside the database: it happens unless it fails. -/
def execChange {α : Type} (s s' : State) (a : α) (e : OciError) :
    Outcome → Option (Except OciError α × State)
  | .done => some (.ok a, s')
  | .failed => some (.error e, s)
  | .lost => some (.error e, s')

/-- Carry out one command of request `i`. -/
def exec (env : Env) (s : State) (i : Nat) (c : Command) (o : Outcome) :
    Option (Except OciError (Reply c) × State) :=
  match c with
  | .sql q => s.execSql i q o
  | .begin =>
    if o = .done then some (.ok (), { s.endTx i with txs := update s.txs i (some []) })
    else some (.error .database, s.endTx i)
  | .commit => execChange (s.endTx i) (s.commitTx i) () .database o
  | .rollback => some (.ok (), s.endTx i)
  | .lockBlobDigest d =>
    if o = .done then
      if s.free i (.digest (env.hashtext d)) then
        some (.ok (), s.record i [] [.digest (env.hashtext d)])
      else none
    else some (.error .database, s.endTx i)
  | .selectOffsetForUpdate u r =>
    if o = .done then
      match s.view i |>.uploadOf? u r with
      | none => some (.ok none, s)
      | some x =>
        if s.free i (.upload u) then some (.ok (some x.offsetBytes), s.record i [] [.upload u])
        else none
    else some (.error .database, s.endTx i)
  -- A probe that fails reads as absence.
  | .blobExists d => some (.ok (if o = .done then (s.blobs (blobKey d)).isSome else false), s)
  | .putBlob d b =>
    execChange s { s with blobs := update s.blobs (blobKey d) (some b) } b.length
      (.storage []) o
  | .getBlob d =>
    match o, s.blobs (blobKey d) with
    | .done, some b => some (.ok b, s)
    | .done, none =>
      some (.error (.notFound ("blob " ++ d ++ " not found")), s)
    | _, _ => some (.error (.storage []), s)
  | .blobSize d =>
    match o, s.blobs (blobKey d) with
    | .done, some b => some (.ok b.length, s)
    | _, _ => some (.error (.notFound []), s)
  | .deleteBlob d =>
    execChange s { s with blobs := update s.blobs (blobKey d) none } () (.storage []) o
  | .extendBuffer u b =>
    some (.ok (),
      { s with buffers := update s.buffers u (some ((s.buffers u).getD [] ++ b)) })
  | .removeBuffer u =>
    some (.ok (s.buffers u), { s with buffers := update s.buffers u none })

/-- The tables and the blobs outlive a crash. -/
def crash : State :=
  { s with txs := fun _ => none, locks := [], buffers := fun _ => none }

/-- A registry that holds nothing yet. -/
def empty : State where
  tables := ⟨[], [], [], [], [], [], [], []⟩
  txs := fun _ => none
  locks := []
  blobs := fun _ => none
  buffers := fun _ => none

end State

end Nasiko.Oci
