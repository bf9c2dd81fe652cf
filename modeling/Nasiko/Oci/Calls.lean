import Nasiko.Oci.Routes

/-!
# Which commands a request uses

The commands of the registry by what they are about. Most requests neither make links nor touch
upload sessions; the lemmas here say so once, for every predicate `K` on commands that holds of the
kinds a program uses.
-/

namespace Nasiko.Oci

open Nasiko.Concurrency Program Command

inductive Kind where
  | authz
  | read
  | tx
  | link
  | reclaim
  | put
  | manifest
  | session
  deriving DecidableEq

def Command.kind : Command → Kind
  | .sql (.claimStatus _ _) | .sql (.agentName _) | .sql (.connectorName _)
  | .sql (.setAgents _ _) => .authz
  | .sql (.selectRef _ _) | .sql (.selectRefs _) | .sql (.selectGc _) | .sql .selectQueue
  | .sql (.selectManifest _ _) | .blobExists _ | .getBlob _ | .blobSize _ => .read
  | .begin | .commit | .rollback | .lockBlobDigest _ => .tx
  | .sql (.insertRef _ _) => .link
  | .sql (.deleteRef _ _) | .sql (.insertGc _) | .sql (.deleteGc _) | .deleteBlob _ => .reclaim
  | .putBlob _ _ => .put
  | .sql (.insertManifest _) | .sql (.upsertTag _) | .sql (.insertReferrer _)
  | .sql (.deleteManifest _ _) => .manifest
  | .sql (.insertUpload _ _) | .sql (.selectOffset _ _) | .sql (.updateOffset _ _)
  | .sql (.deleteUpload _ _) | .selectOffsetForUpdate _ _ | .extendBuffer _ _
  | .removeBuffer _ => .session

/-- The command neither stores or links blobs nor is about upload sessions. -/
def Command.plain (c : Command) : Bool := c.kind != .session && c.kind != .link && c.kind != .put

/-- The command checks access, reads, or is about an upload session. -/
def Command.light (c : Command) : Bool :=
  match c.kind with
  | .authz | .read | .session => true
  | _ => false

variable {K : Command → Prop} {env : Env} {α : Type} {caller : CallerIdentity} {uploadId : Uuid}
  {repo repository digest : Str} {q : Request}

theorem calls_sql {st : Statement} (h : K (.sql st)) : Calls K (sql st) := calls_perform h

theorem calls_withTx (htx : ∀ c : Command, c.kind = .tx → K c) {body : Prog α}
    (h : Calls K body) : Calls K (withTx body) :=
  calls_bind (calls_perform (htx _ rfl)) fun _ => calls_bind (calls_attempt h) fun _ =>
    calls_bind (calls_perform (htx _ rfl)) fun _ => calls_ofExcept _

theorem calls_bestEffort {p : Prog α} (h : Calls K p) : Calls K (bestEffort p) :=
  calls_bind (calls_attempt h) fun _ => calls_pure

theorem calls_readBody {body : Body} {limit : Nat} {code : OciCode} :
    Calls K (readBody body limit code) := by
  unfold readBody
  split
  · exact calls_pure
  · exact calls_fail

/-! ## Requests that change no link -/

section

variable (h : ∀ c : Command, c.light = true → K c)

include h

theorem calls_repoClaimStatus : Calls K (repoClaimStatus env caller repo) := by
  unfold repoClaimStatus
  split
  · exact calls_pure
  · exact calls_sql (h _ rfl)

theorem calls_checkRepoAccess : Calls K (checkRepoAccess env caller repo) :=
  calls_ite calls_pure (calls_bind (calls_repoClaimStatus h) fun _ =>
    calls_ite calls_pure calls_fail)

theorem calls_checkPullAccess {caller : Caller} : Calls K (checkPullAccess env caller repo) := by
  cases caller with
  | session identity => exact calls_checkRepoAccess h
  | pullOnly agentId =>
    refine calls_bind (calls_sql (h _ rfl)) fun agent => ?_
    have hchk : ∀ bound : Option Str, Calls K
        (if bound = some repo then pure () else fail (notPermitted "access" repo) : Prog Unit) :=
      fun _ => calls_ite calls_pure calls_fail
    cases agent with
    | some name => exact calls_bind calls_pure hchk
    | none => exact calls_bind (calls_sql (h _ rfl)) hchk
  | buildService => exact calls_pure

theorem calls_checkWriteAccess {writer : Writer} : Calls K (checkWriteAccess env writer repo) := by
  cases writer with
  | session identity => exact calls_checkRepoAccess h
  | buildService => exact calls_pure

theorem calls_checkRepoDeleteAccess : Calls K (checkRepoDeleteAccess env caller repo) :=
  calls_ite calls_pure (calls_bind (calls_repoClaimStatus h) fun _ =>
    calls_ite calls_pure calls_fail)

theorem calls_uploadOffset : Calls K (uploadOffset repository uploadId) := by
  refine calls_bind (calls_sql (h _ rfl)) fun offset => ?_
  cases offset with
  | some n => exact calls_pure
  | none => exact calls_fail

theorem calls_abortOversized : Calls K (abortOversized repository uploadId) :=
  calls_bind (calls_perform (h _ rfl)) fun _ =>
    calls_bind (calls_bestEffort (calls_sql (h _ rfl))) fun _ => calls_pure

/-- The requests that read, or are about an upload session only. -/
theorem calls_handle_light (hq : match q with
    | .headBlob .. | .getBlob .. | .uploadStatus .. | .cancelUpload .. | .getManifest ..
    | .setAgents .. => True
    | _ => False) : Calls K (handle env q) := by
  cases q with
  | headBlob caller owner repo digest =>
    exact calls_bind (calls_checkPullAccess h) fun _ => calls_bind (calls_sql (h _ rfl))
      fun _ => calls_ite (calls_bind (calls_perform (h _ rfl)) fun _ => calls_pure) calls_fail
  | getBlob caller owner repo digest =>
    refine calls_bind (calls_checkPullAccess h) fun _ =>
      calls_bind (calls_bind (calls_sql (h _ rfl)) fun _ => calls_ite ?_ calls_fail)
        fun _ => calls_pure
    exact calls_bind (calls_perform (h _ rfl)) fun _ =>
      calls_ite (calls_perform (h _ rfl)) calls_fail
  | uploadStatus writer owner repo uuid =>
    exact calls_bind (calls_checkWriteAccess h) fun _ => calls_bind (calls_ofExcept _) fun _ =>
      calls_bind (calls_uploadOffset h) fun _ => calls_pure
  | cancelUpload writer owner repo uuid =>
    refine calls_bind (calls_checkWriteAccess h) fun _ => calls_bind (calls_ofExcept _) fun _ =>
      calls_bind ?_ fun _ => calls_pure
    exact calls_bind (calls_sql (h _ rfl)) fun _ => calls_ite calls_fail
      (calls_bind (calls_perform (h _ rfl)) fun _ => calls_pure)
  | getManifest caller owner repo reference =>
    refine calls_bind (calls_checkPullAccess h) fun _ =>
      calls_bind (calls_bind (calls_sql (h _ rfl)) fun manifest => ?_) fun _ => calls_pure
    cases manifest with
    | none => exact calls_fail
    | some m => exact calls_ite calls_pure calls_fail
  | setAgents agents connectors => exact calls_bind (calls_sql (h _ rfl)) fun _ => calls_pure
  | _ => exact hq.elim

end

/-! ## Requests that neither store nor link -/

variable (h : ∀ c : Command, c.plain = true → K c) (hse : ∀ c : Command, c.kind = .session → K c)

include h

theorem calls_sweepBlob : Calls K (sweepBlob digest) := by
  refine calls_withTx (fun c hc => h c (by rw [plain, hc]; rfl)) ?_
  refine calls_bind (calls_perform (h _ rfl)) fun _ => calls_bind (calls_sql (h _ rfl)) fun _ =>
    calls_ite ?_ calls_pure
  refine calls_bind (calls_sql (h _ rfl)) fun _ => ?_
  have hend : Calls K (sql (.deleteGc digest) >>= fun _ => perform commit) :=
    calls_bind (calls_sql (h _ rfl)) fun _ => calls_perform (h _ rfl)
  exact calls_ite hend (calls_bind (calls_perform (h _ rfl)) fun _ => hend)

theorem calls_deleteBlob : Calls K (deleteBlob repository digest) := by
  refine calls_bind (calls_withTx (fun c hc => h c (by rw [plain, hc]; rfl)) ?_) fun _ =>
    calls_ite calls_pure (calls_bestEffort (calls_sweepBlob h))
  refine calls_bind (calls_perform (h _ rfl)) fun _ => calls_bind (calls_sql (h _ rfl)) fun _ =>
    calls_ite calls_fail (calls_bind (calls_sql (h _ rfl)) fun linked => ?_)
  have hend : Calls K (perform commit >>= fun _ => (pure linked : Prog Bool)) :=
    calls_bind (calls_perform (h _ rfl)) fun _ => calls_pure
  exact calls_ite hend (calls_bind (calls_sql (h _ rfl)) fun _ => hend)

include hse

theorem of_light (c : Command) (hc : c.light = true) : K c := by
  cases hkind : c.kind with
  | session => exact hse c hkind
  | authz | read => exact h c (by rw [plain, hkind]; rfl)
  | _ => simp [light, hkind] at hc

theorem calls_appendChunk {chunk : Bytes} {declared : Option Nat} :
    Calls K (appendChunk repository uploadId chunk declared) := by
  refine calls_bind (calls_withTx (fun c hc => h c (by rw [plain, hc]; rfl)) ?_) fun _ =>
    calls_bind (calls_perform (hse _ rfl)) fun _ => calls_pure
  refine calls_bind (calls_perform (hse _ rfl)) fun offset => ?_
  cases offset with
  | none => exact calls_fail
  | some n =>
    dsimp only
    split
    · exact calls_fail
    · refine calls_ite ?_ ?_
      · exact calls_bind (calls_perform (h _ rfl)) fun _ =>
          calls_bind (calls_abortOversized (of_light h hse)) fun _ => calls_fail
      · exact calls_bind (calls_sql (hse _ rfl)) fun _ =>
          calls_bind (calls_perform (h _ rfl)) fun _ => calls_pure

/-- The requests that neither store nor link blobs. -/
theorem calls_handle (hq : match q with
    | .initiateUpload .. | .completeUpload .. | .putManifest .. => False
    | _ => True) : Calls K (handle env q) := by
  have hlig := of_light h hse
  cases q with
  | deleteBlob caller owner repo digest =>
    exact calls_bind (calls_checkRepoDeleteAccess hlig) fun _ =>
      calls_bind (calls_deleteBlob h) fun _ => calls_pure
  | patchUpload writer owner repo uuid contentRange body =>
    refine calls_bind (calls_checkWriteAccess hlig) fun _ => calls_bind (calls_ofExcept _)
      fun _ => calls_bind calls_readBody fun _ =>
        calls_bind (calls_attempt (calls_appendChunk h hse)) fun result => ?_
    unfold Routes.patchAnswer
    split
    · exact calls_pure
    · refine calls_bind (calls_attempt (calls_uploadOffset hlig)) fun offset => ?_
      cases offset <;> exact calls_pure
    · exact calls_fail
  | deleteManifest caller owner repo reference =>
    exact calls_bind (calls_checkRepoDeleteAccess hlig) fun _ =>
      calls_bind (calls_bind (calls_sql (h _ rfl)) fun _ => calls_ite calls_fail calls_pure)
        fun _ => calls_pure
  | sweepPendingBlobGc =>
    refine calls_bind (calls_bind (calls_attempt (calls_sql (h _ rfl))) fun queued => ?_) fun _ =>
      calls_pure
    cases queued with
    | error e => exact calls_pure
    | ok ds => exact calls_forEach fun d => calls_bestEffort (calls_sweepBlob h)
  | initiateUpload | completeUpload | putManifest => exact hq.elim
  | _ => exact calls_handle_light hlig trivial

end Nasiko.Oci
