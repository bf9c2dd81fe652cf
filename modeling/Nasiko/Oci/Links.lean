import Nasiko.Oci.Calls
import Nasiko.Oci.Effects
import Nasiko.Concurrency.Inductive

/-!
# Links and bytes

The discipline that keeps the links of `oci_blob_refs` and the bytes in the storage together, as a
protocol of the requests. What a request knows inside a transaction is a `Hold`: the digests it has
locked, those of them whose bytes it has seen, those that nothing links, the links it has made, and
the digests it has unlinked. It may link a digest whose bytes it has seen, and remove the bytes of a
digest that nothing links, but not in a transaction that changes links itself: such a transaction
may still be rolled back, and the bytes would be gone.

`keeps_handle` shows that every request keeps to the protocol.
-/

namespace Nasiko.Oci

open Nasiko.Concurrency Program List Command

namespace Request

def Pushes (env : Env) (q : Request) (m : Manifest) : Prop :=
  ∃ writer owner repo reference contentType body,
    q = .putManifest writer owner repo reference contentType (.ok body) ∧
      m.repository = repoName owner repo ∧ m.digest = env.sha256Of body ∧
      env.fromUtf8 body = .ok m.content

/-- The request is a push of a manifest that lists this blob. -/
def Claims (env : Env) (q : Request) (digest repository : Str) : Prop :=
  ∃ writer owner repo reference contentType body content,
    q = .putManifest writer owner repo reference contentType (.ok body) ∧
      repository = repoName owner repo ∧ env.fromSlice body = .ok content ∧
      digest ∈ extractReferencedBlobDigests content

def isPush : Request → Bool
  | .putManifest .. => true
  | _ => false

theorem not_claims {env : Env} {q : Request} (hq : q.isPush = false) (digest repository : Str) :
    ¬ q.Claims env digest repository := by
  rintro ⟨_, _, _, _, _, _, _, rfl, -⟩
  cases hq

def Deletes (q : Request) (digest repository : Str) : Prop :=
  ∃ caller owner repo, q = .deleteBlob caller owner repo digest ∧ repository = repoName owner repo

end Request

/-- What a request knows inside a transaction. -/
structure Hold where
  held : List Str
  present : List Str
  unlinked : List Str
  claimed : List (Str × Str)
  dropped : List Str

def Hold.nothing : Hold := ⟨[], [], [], [], []⟩

/-- A request and what it knows of its transaction. -/
structure LinkCtx where
  request : Request
  hold : Option Hold

/-- The answer of a statement adds to what is known. -/
def Hold.learn (a : Hold) : (q : Statement) → q.Reply → Hold
  | .insertRef d r, _ =>
    { a with unlinked := a.unlinked.filter fun x => x ≠ d, claimed := (d, r) :: a.claimed }
  | .deleteRef d r, _ =>
    { a with claimed := a.claimed.filter fun x => x ≠ (d, r), dropped := d :: a.dropped }
  | .selectRefs d, linked =>
    if linked = false ∧ d ∈ a.held then { a with unlinked := d :: a.unlinked } else a
  | _, _ => a

namespace LinkCtx

/-- Outside a transaction nothing is known. -/
def idle (q : Request) : LinkCtx := ⟨q, none⟩

def allow (env : Env) (x : LinkCtx) : Command → Prop
  | .sql (.insertRef d _) => ∃ a, x.hold = some a ∧ d ∈ a.present
  | .sql (.deleteRef d r) => (∃ a, x.hold = some a ∧ d ∈ a.held) ∧ x.request.Deletes d r
  | .sql (.insertManifest m) => x.hold.isSome ∧ x.request.Pushes env m
  | .sql (.selectRef _ _) => x.hold = none
  | .sql (.claimStatus _ _) => x.hold = none
  | .lockBlobDigest _ => x.hold.isSome
  | .deleteBlob d => ∃ a, x.hold = some a ∧ d ∈ a.unlinked ∧ a.present = [] ∧ a.dropped = []
  -- A push commits once every blob of its manifest is linked.
  | .commit => ∃ a, x.hold = some a ∧
      ∀ d r, x.request.Claims env d r → (d, r) ∈ a.claimed
  | _ => True

def after (x : LinkCtx) : (c : Command) → Except OciError (Reply c) → LinkCtx
  | .begin, .ok _ => { x with hold := some .nothing }
  | .commit, _ => { x with hold := none }
  | .rollback, _ => { x with hold := none }
  | .lockBlobDigest d, .ok _ =>
    { x with hold := x.hold.map fun a => { a with held := d :: a.held } }
  | .sql q, .ok r => { x with hold := x.hold.map fun a => a.learn q r }
  | .blobExists d, .ok b =>
    { x with hold := x.hold.map fun a =>
        if b = true ∧ d ∈ a.held then { a with present := d :: a.present } else a }
  | c, .error _ => if c.inDatabase then { x with hold := none } else x
  | _, _ => x

theorem after_request (x : LinkCtx) (c : Command) (r : Except OciError (Reply c)) :
    (x.after c r).request = x.request := by
  cases c <;> cases r <;> rfl

theorem after_error (x : LinkCtx) {c : Command} (e : OciError) (hc : c.inDatabase = true) :
    (x.after c (.error e)).hold = none := by
  cases c <;> first | rfl | cases hc

end LinkCtx

/-- The protocol of the requests that make and remove links. -/
def linking (env : Env) : Protocol Command Reply OciError where
  Ctx := LinkCtx
  allow := LinkCtx.allow env
  after := LinkCtx.after

variable {env : Env} {q : Request} {α β : Type} {p : Prog α} {repo repository d : Str}
  {code : OciCode}
  {a : Hold} {uploadId : Uuid} {expected : Option Str} {caller : CallerIdentity} {writer : Writer}
  {c : Command}

/-! ## Programs outside transactions -/

/-- The program keeps to the protocol and starts and ends outside a transaction. -/
def Keeps (env : Env) (q : Request) (p : Prog α) : Prop :=
  Follows (linking env) (LinkCtx.idle q) p fun y _ => y = LinkCtx.idle q

theorem keeps_pure {a : α} : Keeps env q (pure a) := rfl

theorem keeps_bind {f : α → Prog β} (hp : Keeps env q p)
    (hf : ∀ a, Keeps env q (f a)) : Keeps env q (p >>= f) := by
  refine follows_bind.2 (hp.mono fun y r hy => ?_)
  subst hy
  cases r with
  | ok a => exact hf a
  | error e => rfl

theorem keeps_bestEffort (hp : Keeps env q p) : Keeps env q (bestEffort p) :=
  keeps_bind (follows_attempt.2 hp) fun _ => keeps_pure

theorem keeps_ite {b : Prop} [Decidable b] {p' : Prog α} (h : Keeps env q p)
    (h' : Keeps env q p') : Keeps env q (if b then p else p') := by
  split
  · exact h
  · exact h'

theorem keeps_forEach {X : Type} {f : X → Prog Unit} {xs : List X} (h : ∀ x, Keeps env q (f x)) :
    Keeps env q (forEach f xs) := by
  induction xs with
  | nil => exact keeps_pure
  | cons x xs ih => exact keeps_bind (h x) fun _ => ih

/-- A command that the protocol allows outside a transaction. -/
def Command.harmless : Command → Bool
  | .sql (.insertRef _ _) | .sql (.deleteRef _ _) | .sql (.insertManifest _) | .begin | .commit
  | .lockBlobDigest _ | .deleteBlob _ => false
  | _ => true

theorem allow_harmless (hc : c.harmless = true) :
    (LinkCtx.idle q).allow env c ∧ ∀ r, (LinkCtx.idle q).after c r = LinkCtx.idle q := by
  constructor
  · cases c with
    | sql s => cases s <;> trivial
    | _ => trivial
  · intro r
    cases r with
    | error e => cases c <;> rfl
    | ok a => cases c <;> first | rfl | cases hc

theorem keeps_of_calls (hp : Calls (fun c => c.harmless = true) p) : Keeps env q p := by
  refine hp.follows (P := linking env) (fun c hc y hy => ?_) rfl
  subst hy
  exact allow_harmless hc

theorem keeps_perform (hc : c.harmless = true) : Keeps env q (perform c) :=
  keeps_of_calls (calls_perform hc)

theorem harmless_of_light (c : Command) (hc : c.light = true) : c.harmless = true := by
  cases c with
  | sql s => cases s <;> first | rfl | cases hc
  | _ => first | rfl | cases hc

/-- A transaction: what is known starts with nothing and ends with nothing. -/
theorem keeps_withTx {body : Prog α} (hbody : Follows (linking env) ⟨q, some .nothing⟩ body
    fun y _ => y.request = q) : Keeps env q (withTx body) := by
  refine follows_bind.2 (follows_perform.2 ⟨trivial, fun r => ?_⟩)
  cases r with
  | error e => rfl
  | ok _ =>
    refine follows_bind.2 (follows_attempt.2 (hbody.mono fun y r hy => ?_))
    refine follows_bind.2 (follows_perform.2 ⟨trivial, fun r' => ?_⟩)
    have hidle : (linking env).after y .rollback r' = LinkCtx.idle q := by
      rw [← hy]
      cases r' <;> rfl
    rw [hidle]
    cases r' with
    | error e => rfl
    | ok _ => exact (follows_ofExcept r).2 rfl

/-! ## Transactions -/

/-- After a claim the digest is linked, and what was linked stays so. -/
theorem follows_claimBlob :
    Follows (linking env) ⟨q, some a⟩ (claimBlob repository d code) fun y r =>
      y.request = q ∧ ∀ u, r = .ok u → ∃ b, y.hold = some b ∧ (d, repository) ∈ b.claimed ∧
        ∀ z ∈ a.claimed, z ∈ b.claimed := by
  refine follows_perform_bind rfl (fun e => ⟨rfl, nofun⟩) fun _ => ?_
  refine follows_perform_bind trivial (fun e => ⟨rfl, nofun⟩) fun _ => ?_
  refine follows_perform_bind trivial (fun e => ⟨rfl, nofun⟩) fun found => ?_
  cases found with
  | false => exact ⟨rfl, nofun⟩
  | true =>
    refine follows_perform.2 ⟨⟨_, rfl, ?_⟩, fun r => ⟨?_, fun u hu => ?_⟩⟩
    · simp [Hold.learn]
    · cases r <;> rfl
    · subst hu
      refine ⟨_, rfl, mem_cons_self, fun z hz => mem_cons_of_mem _ ?_⟩
      simpa [Hold.learn] using hz

theorem allow_commit (hq : q.isPush = false) : LinkCtx.allow env ⟨q, some a⟩ .commit :=
  ⟨a, rfl, fun d r h => absurd h (Request.not_claims hq d r)⟩

theorem follows_commit {x : LinkCtx} (h : x.allow env .commit) :
    Follows (linking env) x (perform commit) fun y _ => y.request = x.request :=
  follows_perform.2 ⟨h, fun r => by cases r <;> rfl⟩

theorem keeps_claim (hq : q.isPush = false) : Keeps env q (withTx do
      claimBlob repository d code
      perform commit) := by
  refine keeps_withTx (follows_bind.2 (follows_claimBlob.mono ?_))
  rintro ⟨q', hold⟩ r ⟨rfl, hcl⟩
  cases r with
  | error e => rfl
  | ok u =>
    obtain ⟨b, rfl, -⟩ := hcl u rfl
    exact follows_commit (allow_commit hq)

theorem keeps_sweepBlob (hq : q.isPush = false) : Keeps env q (sweepBlob d) := by
  refine keeps_withTx (follows_perform_bind rfl (fun e => rfl) fun _ => ?_)
  refine follows_perform_bind trivial (fun e => rfl) fun queued => ?_
  cases queued with
  | false => rfl
  | true =>
    refine follows_perform_bind trivial (fun e => rfl) fun linked => ?_
    -- What follows the storage delete is the same as what follows a digest that is still linked.
    have hend : ∀ a : Hold, Follows (linking env) ⟨q, some a⟩
        (sql (.deleteGc d) >>= fun _ => perform commit) fun y _ => y.request = q :=
      fun a => follows_perform_bind trivial (fun e => rfl) fun _ =>
        follows_commit (allow_commit hq)
    cases linked with
    | true => exact hend _
    | false =>
      refine follows_perform_bind ⟨_, rfl, ?_⟩ (fun e => rfl) fun _ => hend _
      simp [Hold.learn, Hold.nothing]

theorem keeps_deleteBlob {owner : Str} :
    Keeps env (.deleteBlob caller owner repo d) (deleteBlob (repoName owner repo) d) := by
  refine keeps_bind (keeps_withTx ?_) fun linked =>
    keeps_ite keeps_pure (keeps_bestEffort (keeps_sweepBlob rfl))
  refine follows_perform_bind rfl (fun e => rfl) fun _ => ?_
  refine follows_perform_bind ⟨⟨_, rfl, mem_cons_self⟩, caller, owner, repo, rfl, rfl⟩
    (fun e => rfl) fun removed => ?_
  split
  · rfl
  · refine follows_perform_bind trivial (fun e => rfl) fun linked => ?_
    have hend : ∀ a : Hold, Follows (linking env) ⟨.deleteBlob caller owner repo d, some a⟩
        (perform commit >>= fun _ => pure linked)
        fun y _ => y.request = .deleteBlob caller owner repo d :=
      fun a => follows_perform_bind (allow_commit rfl) (fun e => rfl) fun _ => rfl
    cases linked with
    | true => exact hend _
    | false => exact follows_perform_bind trivial (fun e => rfl) fun _ => hend _

/-! ## Requests -/

theorem keeps_checkWriteAccess : Keeps env q (checkWriteAccess env writer repo) :=
  keeps_of_calls (calls_checkWriteAccess harmless_of_light)

theorem keeps_checkRepoDeleteAccess : Keeps env q (checkRepoDeleteAccess env caller repo) :=
  keeps_of_calls (calls_checkRepoDeleteAccess harmless_of_light)

theorem keeps_readBody {body : Body} {limit : Nat} : Keeps env q (readBody body limit code) :=
  keeps_of_calls calls_readBody

theorem keeps_storeAndClaim (hq : q.isPush = false) {data : Bytes} :
    Keeps env q (storeAndClaim env repository data expected) := by
  unfold storeAndClaim
  dsimp only
  split
  · rfl
  · exact keeps_bind (keeps_perform rfl) fun _ => keeps_bind (keeps_claim hq) fun _ => keeps_pure

theorem keeps_mountBlob (hq : q.isPush = false) {source : Option Str} :
    Keeps env q (mountBlob repository d source) := by
  cases source with
  | none => exact keeps_pure
  | some source =>
    exact keeps_bind (keeps_perform rfl) fun _ => keeps_ite (keeps_bind (keeps_perform rfl) fun _ =>
      keeps_ite (keeps_bind (keeps_claim hq) fun _ => keeps_pure) keeps_pure) keeps_pure

theorem keeps_abortOversized : Keeps env q (abortOversized repository uploadId) :=
  keeps_of_calls (calls_abortOversized harmless_of_light)

theorem keeps_appendChunk (hq : q.isPush = false) {chunk : Bytes} {declared : Option Nat} :
    Keeps env q (appendChunk repository uploadId chunk declared) := by
  refine keeps_bind (keeps_withTx ?_) fun _ => keeps_bind (keeps_perform rfl) fun _ => keeps_pure
  refine follows_perform_bind trivial (fun e => rfl) fun offset => ?_
  cases offset with
  | none => rfl
  | some n =>
    dsimp only
    split
    · rfl
    · split
      · refine follows_perform_bind trivial (fun e => rfl) fun _ => ?_
        refine follows_bind.2 (keeps_abortOversized.mono ?_)
        rintro y r rfl
        cases r <;> rfl
      · exact follows_perform_bind trivial (fun e => rfl) fun _ =>
          follows_perform_bind (allow_commit hq) (fun e => rfl) fun _ => rfl

theorem keeps_completeUpload (hq : q.isPush = false) {finalChunk : Bytes} :
    Keeps env q (completeUpload env repository uploadId finalChunk expected) := by
  refine keeps_bind (keeps_perform rfl) fun offset => ?_
  cases offset with
  | none => rfl
  | some n =>
    refine keeps_ite (keeps_bind keeps_abortOversized fun _ => rfl) ?_
    exact keeps_bind (keeps_perform rfl) fun _ => keeps_bind (keeps_storeAndClaim hq) fun _ =>
      keeps_bind (keeps_perform rfl) fun _ => keeps_pure

theorem follows_claims {ds : List Str} :
    Follows (linking env) ⟨q, some a⟩ (forEach (fun d => claimBlob repository d code) ds) fun y r =>
      y.request = q ∧ ∀ u, r = .ok u → ∃ b, y.hold = some b ∧
        (∀ d ∈ ds, (d, repository) ∈ b.claimed) ∧ ∀ z ∈ a.claimed, z ∈ b.claimed := by
  induction ds generalizing a with
  | nil => exact ⟨rfl, fun u _ => ⟨a, rfl, fun d hd => absurd hd not_mem_nil, fun z hz => hz⟩⟩
  | cons d ds ih =>
    refine follows_bind.2 (follows_claimBlob.mono ?_)
    rintro ⟨q', hold⟩ r ⟨rfl, hcl⟩
    cases r with
    | error e => exact ⟨rfl, nofun⟩
    | ok u =>
      obtain ⟨b, rfl, hd, hb⟩ := hcl u rfl
      refine ih.mono fun y r hy => ⟨hy.1, fun u hu => ?_⟩
      obtain ⟨b', hhold, hds, hb'⟩ := hy.2 u hu
      refine ⟨b', hhold, fun d' hd' => ?_, fun z hz => hb' z (hb z hz)⟩
      rcases mem_cons.1 hd' with rfl | hd'
      · exact hb' _ hd
      · exact hds d' hd'

theorem keeps_putManifest {owner reference : Str} {contentType : Option Str} {body : Bytes}
    {mediaType : Str} :
    Keeps env (.putManifest writer owner repo reference contentType (.ok body))
      (putManifest env (repoName owner repo) reference mediaType body) := by
  refine follows_bind.2 ((follows_ofExcept _).2 ?_)
  cases hread : readManifest env reference body with
  | error e => rfl
  | ok x =>
    obtain ⟨content, rawBody⟩ := x
    obtain ⟨hcont, hraw⟩ := readManifest_ok hread
    refine keeps_bind (keeps_withTx ?_) fun _ => keeps_pure
    refine follows_perform_bind ⟨rfl, writer, owner, repo, reference, contentType, body, rfl, rfl,
      rfl, hraw⟩ (fun e => rfl) fun _ => ?_
    -- The tag and the referrer are rows that the protocol says nothing about.
    have hend : ∀ (a : Hold) (subject : Option Str),
        (∀ d ∈ extractReferencedBlobDigests content, (d, repoName owner repo) ∈ a.claimed) →
        Follows (linking env)
          ⟨.putManifest writer owner repo reference contentType (.ok body), some a⟩
          (recordReferrer (repoName owner repo) content (env.sha256Of body) body.length subject)
          fun y _ => y.request = .putManifest writer owner repo reference contentType
            (.ok body) := by
      intro a subject ha
      have hal : LinkCtx.allow env
          ⟨.putManifest writer owner repo reference contentType (.ok body), some a⟩ .commit := by
        refine ⟨a, rfl, ?_⟩
        rintro d r ⟨_, _, _, _, _, _, content', heq, rfl, hcont', hd⟩
        cases heq
        obtain rfl : content = content' := Except.ok.inj (hcont.symm.trans hcont')
        exact ha d hd
      cases subject with
      | none => exact follows_commit hal
      | some s =>
        refine follows_perform_bind trivial (fun e => rfl) fun _ => follows_commit ?_
        exact hal
    have hlink : ∀ a : Hold, Follows (linking env)
        ⟨.putManifest writer owner repo reference contentType (.ok body), some a⟩
        (linkManifest (repoName owner repo) content (env.sha256Of body) body.length)
        fun y _ => y.request = .putManifest writer owner repo reference contentType (.ok body) := by
      intro a
      refine follows_bind.2 (follows_claims.mono ?_)
      rintro ⟨q', hold⟩ r ⟨rfl, hcl⟩
      cases r with
      | error e => rfl
      | ok u =>
        obtain ⟨b, rfl, hds, -⟩ := hcl u rfl
        exact hend b _ fun d hd => hds d (mem_claimOrder.2 hd)
    split_ifs
    · exact hlink _
    · exact follows_perform_bind trivial (fun e => rfl) fun _ => hlink _

theorem keeps_handle (q : Request) : Keeps env q (handle env q) := by
  cases q with
  | deleteBlob caller owner repo digest =>
    exact keeps_bind keeps_checkRepoDeleteAccess fun _ =>
      keeps_bind keeps_deleteBlob fun _ => keeps_pure
  | initiateUpload writer owner repo params body uploadId =>
    have hbeg : Keeps env (.initiateUpload writer owner repo params body uploadId)
        (Routes.beginUpload env (repoName owner repo) params.digest body uploadId) := by
      unfold Routes.beginUpload
      split
      · exact keeps_bind keeps_readBody fun _ =>
          keeps_bind (keeps_storeAndClaim rfl) fun _ => keeps_pure
      · exact keeps_bind (keeps_bind (keeps_perform rfl) fun _ => keeps_pure) fun _ => keeps_pure
    refine keeps_bind keeps_checkWriteAccess fun _ => ?_
    split
    · refine keeps_bind ?_ fun _ => keeps_ite keeps_pure hbeg
      unfold Routes.tryMount
      split
      · exact keeps_bind keeps_checkWriteAccess fun _ => keeps_mountBlob rfl
      · exact keeps_mountBlob rfl
    · exact hbeg
  | patchUpload writer owner repo uuid contentRange body =>
    refine keeps_bind keeps_checkWriteAccess fun _ =>
      keeps_bind ((follows_ofExcept _).2 rfl) fun _ => keeps_bind keeps_readBody fun _ =>
        keeps_bind (follows_attempt.2 (keeps_appendChunk rfl)) fun result => ?_
    unfold Routes.patchAnswer
    split
    · exact keeps_pure
    · refine keeps_bind (follows_attempt.2
        (keeps_of_calls (calls_uploadOffset harmless_of_light))) fun offset => ?_
      cases offset <;> exact keeps_pure
    · rfl
  | completeUpload writer owner repo uuid digest body =>
    exact keeps_bind keeps_checkWriteAccess fun _ =>
      keeps_bind ((follows_ofExcept _).2 rfl) fun _ => keeps_bind keeps_readBody fun _ =>
        keeps_bind (keeps_completeUpload rfl) fun _ => keeps_pure
  | putManifest writer owner repo reference contentType body =>
    refine keeps_bind keeps_checkWriteAccess fun _ => ?_
    refine follows_bind.2 ?_
    unfold readBody toBytes
    cases body with
    | error e => rfl
    | ok b =>
      dsimp only
      by_cases hlen : b.length ≤ maxManifestBytes
      · rw [if_pos hlen]
        exact keeps_bind keeps_putManifest fun _ => (follows_ofExcept _).2 rfl
      · rw [if_neg hlen]
        rfl
  | deleteManifest caller owner repo reference =>
    exact keeps_bind keeps_checkRepoDeleteAccess fun _ =>
      keeps_bind (keeps_bind (keeps_perform rfl) fun _ => keeps_ite rfl keeps_pure)
        fun _ => keeps_pure
  | sweepPendingBlobGc =>
    refine keeps_bind (keeps_bind (follows_attempt.2 (keeps_perform rfl)) fun queued => ?_) fun _ =>
      keeps_pure
    cases queued with
    | error e => exact keeps_pure
    | ok ds => exact keeps_forEach fun d => keeps_bestEffort (keeps_sweepBlob rfl)
  | _ => exact keeps_of_calls (calls_handle_light harmless_of_light trivial)

end Nasiko.Oci
