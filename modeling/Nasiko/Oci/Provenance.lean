import Nasiko.Oci.Pullable

/-!
# Where the blobs of a repository come from

A blob is read through a repository that links it. `Provenance h d r` says how the digest `d` came
to the repository `r` in the run `h`: its bytes were uploaded into `r`, or it was mounted into `r`
from a repository that the mounting caller was allowed to use and that held the digest itself.

A link is made by an upload, by a mount, and by a push of a manifest that lists the digest. A push
links every digest whose bytes are anywhere in the storage, so a caller who knows a digest can read
its bytes: `read_by_push` is such a run. Without pushes that list digests their repository does not
have yet, whatever can be read has a provenance.
-/

namespace Nasiko.Oci

open Nasiko.Concurrency Program List Option Function Config State Action

namespace Request

def UploadsInto (q : Request) (repository : Str) : Prop :=
  (∃ writer owner repo params body uploadId,
    q = .initiateUpload writer owner repo params body uploadId ∧ repository = repoName owner repo) ∨
  (∃ writer owner repo uuid digest body,
    q = .completeUpload writer owner repo uuid digest body ∧ repository = repoName owner repo)

def Mounts (q : Request) (writer : Writer) (digest source repository : Str) : Prop :=
  ∃ owner repo params body uploadId,
    q = .initiateUpload writer owner repo params body uploadId ∧ params.mount = some digest ∧
      params.source = some source ∧ repository = repoName owner repo

def Reads (q : Request) (caller : Caller) (digest repository : Str) : Prop :=
  ∃ owner repo, (q = .getBlob caller owner repo digest ∨ q = .headBlob caller owner repo digest) ∧
    repository = repoName owner repo

end Request

/-- Who may use a repository name: the build service, superusers, and sessions that own the name or
find it unclaimed. A session whose id is no id of a user counts as a user who owns nothing, in a
registry where nothing is claimed. -/
def MayUse (env : Env) (t : Tables) (writer : Writer) (repo : Str) : Prop :=
  match writer with
  | .buildService => True
  | .session caller => caller.isSuperuser = true ∨
      ∀ owner, env.parseUuid caller.userId = some owner → (t.owns repo owner || !t.claimed repo) =
        true

inductive Provenance (env : Env) : List (Step (registry env)) → Str → Str → Prop where
  /-- A request that uploads into the repository has put bytes with this digest. -/
  | uploaded {h h₁ h₂ : List (Step (registry env))} {st : Step (registry env)} {i : Nat}
      {o : Outcome} {q : Request} {digest repository : Str} {data : Bytes}
      {k : Except OciError Nat → Prog Response} (hsplit : h = h₁ ++ st :: h₂)
      (haction : st.action = .run i o) (ho : o ≠ .failed)
      (htask : st.before.tasks[i]? = some ⟨q, .running (.call (.putBlob digest data) k)⟩)
      (hdigest : digest = env.sha256Of data) (hinto : q.UploadsInto repository) :
      Provenance env h digest repository
  /-- A request has mounted the digest from a repository that it was allowed to use, and that had
  the digest linked when the request looked. -/
  | mounted {h h₁ h₂ : List (Step (registry env))} {st check : Step (registry env)} {i : Nat}
      {o o' : Outcome} {q : Request} {writer : Writer} {digest source repository : Str}
      (hsplit : h = h₁ ++ st :: h₂) (haction : st.action = .run i o)
      (hrequest : st.before.request i = some q) (hmount : q.Mounts writer digest source repository)
      (hlinked : (digest, source) ∈ st.before.state.tables.refs)
      (hsource : Provenance env h₁ digest source) (hcheck : check ∈ h)
      (hcheckAction : check.action = .run i o')
      (haccess : MayUse env check.before.state.tables writer (lastSegment source)) :
      Provenance env h digest repository

variable {env : Env} {d repository digest repo : Str} {writer : Writer} {q : Request}
  {caller : Caller} {c c' : Config (registry env)}

theorem Provenance.append {h : List (Step (registry env))} {r : Str} (hp : Provenance env h d r)
    (h' : List (Step (registry env))) : Provenance env (h ++ h') d r := by
  cases hp with
  | @uploaded _ h₁ h₂ st i o q _ _ data k hspl hact ho hta hdig hio =>
    have hspl' : h ++ h' = h₁ ++ st :: (h₂ ++ h') := by rw [hspl]; simp
    exact .uploaded hspl' hact ho hta hdig hio
  | @mounted _ h₁ h₂ st check i o o' q writer _ source _ hspl hact hreq hmou hlk
      hsrc hchk hche hacc =>
    have hspl' : h ++ h' = h₁ ++ st :: (h₂ ++ h') := by rw [hspl]; simp
    exact .mounted hspl' hact hreq hmou hlk hsrc (mem_append_left _ hchk) hche hacc

/-! ## The protocol -/

/-- What a request has done and seen: the digests it has put, the names that were its user's or
unclaimed when it looked, and the links it has seen. -/
structure SourceCtx where
  request : Request
  put : List Str
  granted : List (Str × Uuid)
  linked : List (Str × Str)

namespace SourceCtx

def initial (q : Request) : SourceCtx := ⟨q, [], [], []⟩

def Passed (env : Env) (x : SourceCtx) (writer : Writer) (repo : Str) : Prop :=
  match writer with
  | .buildService => True
  | .session caller => caller.isSuperuser = true ∨
      ∀ owner, env.parseUuid caller.userId = some owner → (repo, owner) ∈ x.granted

/-- The request may link a digest: it has uploaded it, it mounts it from a repository where it has
seen it, or it pushes a manifest that lists it. -/
def Justified (env : Env) (x : SourceCtx) (digest repository : Str) : Prop :=
  (digest ∈ x.put ∧ x.request.UploadsInto repository) ∨
  (∃ writer source, x.request.Mounts writer digest source repository ∧ (digest, source) ∈ x.linked ∧
    x.Passed env writer (lastSegment source)) ∨
  x.request.Claims env digest repository

def allow (env : Env) (x : SourceCtx) : Command → Prop
  | .sql (.insertRef d r) => x.Justified env d r
  | .putBlob d data => d = env.sha256Of data
  | _ => True

def after (x : SourceCtx) : (c : Command) → Except OciError (Reply c) → SourceCtx
  | .putBlob d _, .ok _ => { x with put := d :: x.put }
  | .sql (.claimStatus repo owner), .ok (owns, claimed) =>
    if owns || !claimed then { x with granted := (repo, owner) :: x.granted } else x
  | .sql (.selectRef d r), .ok linked =>
    if linked = true then { x with linked := (d, r) :: x.linked } else x
  | _, _ => x

/-- The same request, having done and seen more. -/
structure Le (x y : SourceCtx) : Prop where
  request : y.request = x.request
  put : ∀ d ∈ x.put, d ∈ y.put
  granted : ∀ z ∈ x.granted, z ∈ y.granted
  linked : ∀ z ∈ x.linked, z ∈ y.linked

theorem Le.refl {x : SourceCtx} : x.Le x := ⟨rfl, fun _ h => h, fun _ h => h, fun _ h => h⟩

variable {x y : SourceCtx}

theorem Le.trans {z : SourceCtx} (h : x.Le y) (h' : y.Le z) : x.Le z :=
  ⟨h'.request.trans h.request, fun d hd => h'.put d (h.put d hd),
    fun d hd => h'.granted d (h.granted d hd), fun d hd => h'.linked d (h.linked d hd)⟩

theorem le_after (x : SourceCtx) (c : Command) (r : Except OciError (Reply c)) :
    x.Le (x.after c r) := by
  unfold after
  split
  · exact ⟨rfl, fun _ h => mem_cons_of_mem _ h, fun _ h => h, fun _ h => h⟩
  · split
    · exact ⟨rfl, fun _ h => h, fun _ h => mem_cons_of_mem _ h, fun _ h => h⟩
    · exact .refl
  · split
    · exact ⟨rfl, fun _ h => h, fun _ h => h, fun _ h => mem_cons_of_mem _ h⟩
    · exact .refl
  · exact .refl

theorem Passed.mono (h : x.Passed env writer repo) (hle : x.Le y) : y.Passed env writer repo := by
  cases writer with
  | buildService => trivial
  | session caller => exact h.imp_right fun h owner ho => hle.granted _ (h owner ho)

theorem Justified.mono {r : Str} (h : x.Justified env d r) (hle : x.Le y) :
    y.Justified env d r := by
  unfold Justified
  rw [hle.request]
  rcases h with ⟨hput, hio⟩ | ⟨writer, source, hmou, hlk, hpas⟩ | hcla
  · exact .inl ⟨hle.put d hput, hio⟩
  · exact .inr (.inl ⟨writer, source, hmou, hle.linked _ hlk, hpas.mono hle⟩)
  · exact .inr (.inr hcla)

end SourceCtx

/-- The protocol of the requests that store and link blobs. -/
def sourcing (env : Env) : Protocol Command Reply OciError where
  Ctx := SourceCtx
  allow := SourceCtx.allow env
  after := SourceCtx.after

variable {α β : Type} {x : SourceCtx}

/-- The program keeps to the protocol. -/
def Sources (env : Env) (x : SourceCtx) (p : Prog α) : Prop :=
  Follows (sourcing env) x p fun y _ => x.Le y

variable {p : Prog α} {owner : Str} {cmd : Command}
  {k : Except OciError (Reply cmd) → Prog Response} {o : Outcome} {g : Nat → Option SourceCtx}
  {code : OciCode}

theorem sources_of_calls (hp : Calls (fun c => c.kind ≠ .link ∧ c.kind ≠ .put) p) :
    Sources env x p := by
  refine hp.follows (P := sourcing env) (fun c hc y hy => ⟨?_, fun r => ?_⟩) .refl
  · cases c with
    | sql st =>
      cases st with
      | insertRef d r => exact absurd rfl hc.1
      | _ => trivial
    | putBlob d data => exact absurd rfl hc.2
    | _ => trivial
  · exact hy.trans (y.le_after c r)

theorem sources_bind {f : α → Prog β} (hp : Sources env x p)
    (hf : ∀ y a, x.Le y → Sources env y (f a)) : Sources env x (p >>= f) := by
  refine follows_bind.2 (hp.mono fun y r hy => ?_)
  cases r with
  | ok a => exact (hf y a hy).mono fun z r hz => hy.trans hz
  | error e => exact hy

theorem sources_perform_bind {c : Command} {f : Reply c → Prog α} (hal : x.allow env c)
    (hf : ∀ a, Sources env (x.after c (.ok a)) (f a)) : Sources env x (perform c >>= f) :=
  follows_perform_bind (P := sourcing env) hal (fun e => x.le_after c (.error e)) fun a =>
    (hf a).mono fun _ _ hz => (x.le_after c (.ok a)).trans hz

theorem plain_calls (c : Command) (hc : c.plain = true) : c.kind ≠ .link ∧ c.kind ≠ .put := by
  unfold Command.plain at hc
  constructor <;> intro h <;> rw [h] at hc <;> cases hc

theorem follows_checkWriteAccess :
    Follows (sourcing env) x (checkWriteAccess env writer repo) fun y r =>
      x.Le y ∧ ∀ u, r = .ok u → y.Passed env writer repo := by
  cases writer with
  | buildService => exact ⟨.refl, fun u _ => trivial⟩
  | session caller =>
    change Follows (sourcing env) x (checkRepoAccess env caller repo) _
    unfold checkRepoAccess
    split
    · rename_i hsup
      exact ⟨.refl, fun u _ => .inl hsup⟩
    · unfold repoClaimStatus
      split
      · rename_i hnone
        exact ⟨.refl, fun u _ => .inr fun owner ho => by rw [hnone] at ho; cases ho⟩
      · rename_i owner hown
        refine follows_perform_bind trivial
          (fun e => ⟨.refl, nofun⟩) fun status => ?_
        obtain ⟨owns, claimed⟩ := status
        dsimp only
        split
        · rename_i hgra
          refine ⟨x.le_after (.sql (.claimStatus repo owner)) (.ok (owns, claimed)), fun u _ => ?_⟩
          refine .inr fun owner' ho => ?_
          obtain rfl : owner = owner' := some.inj (hown.symm.trans ho)
          change (repo, owner) ∈ (x.after (.sql (.claimStatus repo owner))
            (.ok (owns, claimed))).granted
          simp [SourceCtx.after, hgra]
        · exact ⟨x.le_after (.sql (.claimStatus repo owner)) (.ok (owns, claimed)),
            nofun⟩

theorem sources_claimBlob (h : x.Justified env d repository) :
    Sources env x (claimBlob repository d code) := by
  refine sources_perform_bind trivial fun _ => sources_perform_bind trivial fun _ =>
    sources_perform_bind trivial fun found => ?_
  cases found with
  | false => exact .refl
  | true =>
    refine follows_perform.2 ⟨h, fun r => ?_⟩
    exact SourceCtx.le_after _ (.sql (.insertRef d repository)) r

theorem sources_withTx {body : Prog α} (h : ∀ y, x.Le y → Sources env y body) :
    Sources env x (withTx body) := by
  refine sources_perform_bind trivial fun _ => ?_
  refine sources_bind (follows_attempt.2 (h _ (x.le_after .begin _))) fun y r _ => ?_
  exact sources_perform_bind trivial fun _ => (follows_ofExcept r).2 .refl

theorem sources_claim (h : x.Justified env d repository) : Sources env x (withTx do
      claimBlob repository d code
      perform Command.commit) :=
  sources_withTx fun y hy => sources_bind (sources_claimBlob (h.mono hy)) fun _ _ _ =>
    sources_of_calls (calls_perform ⟨by decide, by decide⟩)

theorem sources_storeAndClaim (hio : x.request.UploadsInto repository) {data : Bytes}
    {expected : Option Str} : Sources env x (storeAndClaim env repository data expected) := by
  unfold storeAndClaim
  dsimp only
  split
  · exact .refl
  · refine sources_perform_bind rfl fun n => ?_
    have hput : (x.after (.putBlob (env.sha256Of data) data) (.ok n)).Justified env
        (env.sha256Of data) repository := .inl ⟨mem_cons_self, hio⟩
    exact sources_bind (sources_claim hput) fun _ _ _ => .refl

theorem sources_mountBlob {source : Str} (hmou : x.request.Mounts writer d source repository)
    (hpas : x.Passed env writer (lastSegment source)) :
    Sources env x (mountBlob repository d (some source)) := by
  refine sources_perform_bind trivial fun linked => ?_
  cases linked with
  | false => exact .refl
  | true =>
    refine sources_perform_bind trivial fun found => ?_
    cases found with
    | false => exact .refl
    | true =>
      have hseen : (x.after (.sql (.selectRef d source)) (.ok true)).Justified env d repository :=
        .inr (.inl ⟨writer, source, hmou, mem_cons_self, hpas.mono (x.le_after _ _)⟩)
      exact sources_bind (sources_claim hseen) fun _ _ _ => .refl

theorem sources_tryMount {name : Str} {source : Option Str}
    (hmou : ∀ s, source = some s → x.request.Mounts writer digest s name) :
    Sources env x (Routes.tryMount env writer name digest source) := by
  cases source with
  | none => exact .refl
  | some source =>
    refine follows_bind.2 (follows_checkWriteAccess.mono ?_)
    rintro y r ⟨hy, hpas⟩
    cases r with
    | error e => exact hy
    | ok u =>
      have hmou' : y.request.Mounts writer digest source name := hy.request ▸ hmou source rfl
      exact (sources_mountBlob hmou' (hpas u rfl)).mono fun _ _ hle => hy.trans hle

theorem sources_claims {ds : List Str} (h : ∀ d ∈ ds, x.Justified env d repository) :
    Sources env x (forEach (fun d => claimBlob repository d code) ds) := by
  induction ds generalizing x with
  | nil => exact .refl
  | cons d ds ih =>
    exact sources_bind (sources_claimBlob (h d mem_cons_self)) fun y _ hy =>
      ih fun d' hd' => (h d' (mem_cons_of_mem _ hd')).mono hy

theorem sources_plain_bind {c : Command} {f : Reply c → Prog α} (hc : c.plain = true)
    (hf : ∀ y a, x.Le y → Sources env y (f a)) : Sources env x (perform c >>= f) :=
  sources_bind (sources_of_calls (calls_perform (plain_calls c hc))) hf

theorem sources_linkManifest {content : Json Str} {size : Nat}
    (hjust : ∀ d ∈ claimOrder (extractReferencedBlobDigests content),
      x.Justified env d repository) :
    Sources env x (linkManifest repository content digest size) := by
  refine sources_bind (sources_claims hjust) fun _ _ _ => ?_
  cases (member content "subject").bind digestOf with
  | some subject =>
    exact sources_plain_bind rfl fun _ _ _ => sources_of_calls (calls_perform (plain_calls _ rfl))
  | none => exact sources_of_calls (calls_perform (plain_calls _ rfl))

theorem sources_putManifest {reference : Str} {contentType : Option Str} {body : Bytes}
    (hx : x.request = .putManifest writer owner repo reference contentType (.ok body))
    {mediaType : Str} :
    Sources env x (putManifest env (repoName owner repo) reference mediaType body) := by
  refine follows_bind.2 ((follows_ofExcept _).2 ?_)
  cases hre : readManifest env reference body with
  | error e => exact .refl
  | ok parsed =>
    obtain ⟨content, rawBody⟩ := parsed
    refine sources_bind (sources_withTx fun y hy => ?_) fun _ _ _ => .refl
    have hlink : ∀ z, x.Le z → Sources env z
        (linkManifest (repoName owner repo) content (env.sha256Of body) body.length) := by
      intro z hz
      refine sources_linkManifest fun d hd => .inr (.inr ⟨writer, owner, repo, reference,
        contentType, body, content, ?_, rfl, (readManifest_ok hre).1, mem_claimOrder.1 hd⟩)
      rw [hz.request, hx]
    refine sources_plain_bind rfl fun z _ hz => ?_
    split_ifs
    · exact hlink z (hy.trans hz)
    · exact sources_plain_bind rfl fun z' _ hz' => hlink z' ((hy.trans hz).trans hz')

/-- What a request ends with: one that has read a blob has seen its link. -/
def sourced (q : Request) (x : SourceCtx) (r : Except OciError Response) : Prop :=
  x.request = q ∧ ∀ a caller digest repository, r = .ok a → q.Reads caller digest repository →
    (digest, repository) ∈ x.linked

theorem sourced_of_sources {p : Prog Response} (h : Sources env (SourceCtx.initial q) p)
    (hq : ∀ caller d r, ¬ q.Reads caller d r) :
    Follows (sourcing env) (SourceCtx.initial q) p (sourced q) :=
  h.mono fun _ _ hy => ⟨hy.request, fun _ caller d r _ hrd => absurd hrd (hq caller d r)⟩

theorem session_calls (c : Command) (hc : c.kind = .session) : c.kind ≠ .link ∧ c.kind ≠ .put := by
  rw [hc]
  decide

theorem light_calls (c : Command) (hc : c.light = true) : c.kind ≠ .link ∧ c.kind ≠ .put :=
  of_light plain_calls session_calls c hc

/-- What reads a link first and fails without it. -/
theorem follows_linked {f : Bool → Prog α}
    (hlk : Calls (fun c => c.kind ≠ .link ∧ c.kind ≠ .put) (f true)) {e : OciError}
    (hmis : f false = fail e) :
    Follows (sourcing env) x (sql (.selectRef digest repository) >>= f) fun y r =>
      x.Le y ∧ ∀ a, r = .ok a → (digest, repository) ∈ y.linked := by
  refine follows_perform_bind trivial (fun e => ⟨.refl, nofun⟩) fun linked => ?_
  cases linked with
  | false =>
    rw [hmis]
    exact ⟨.refl, nofun⟩
  | true =>
    have hseen := x.le_after (.sql (.selectRef digest repository)) (.ok true)
    exact (sources_of_calls hlk).mono fun y r hy =>
      ⟨hseen.trans hy, fun a _ => hy.linked _ mem_cons_self⟩

theorem follows_read
    (hq : q = .getBlob caller owner repo digest ∨ q = .headBlob caller owner repo digest)
    {p : Prog Response} (hp : ∀ x, Follows (sourcing env) x p fun y r =>
      x.Le y ∧ ∀ a, r = .ok a → (digest, repoName owner repo) ∈ y.linked) :
    Follows (sourcing env) (SourceCtx.initial q) (checkPullAccess env caller repo >>= fun _ => p)
      (sourced q) := by
  refine follows_bind.2 ((sources_of_calls (calls_checkPullAccess light_calls)).mono
    fun y r hy => ?_)
  cases r with
  | error e => exact ⟨hy.request, nofun⟩
  | ok _ =>
    refine (hp y).mono fun z r hz => ⟨hz.1.request.trans hy.request, ?_⟩
    rintro a caller' d repository ha ⟨owner', repo', hq', rfl⟩
    rcases hq with rfl | rfl <;> rcases hq' with hq' | hq' <;> cases hq' <;> exact hz.2 a ha

theorem sources_handle (q : Request) :
    Follows (sourcing env) (SourceCtx.initial q) (handle env q) (sourced q) := by
  have hchk : ∀ {x writer repo}, Sources env x (checkWriteAccess env writer repo) :=
    sources_of_calls (calls_checkWriteAccess light_calls)
  have hpar : ∀ {γ : Type} {x} {r : Except OciError γ}, Sources env x (ofExcept r) :=
    (follows_ofExcept _).2 .refl
  cases q with
  | headBlob caller owner repo digest =>
    exact follows_read (.inr rfl) fun x => follows_linked
      (calls_bind (calls_perform (plain_calls _ rfl)) fun _ => calls_pure) rfl
  | getBlob caller owner repo digest =>
    refine follows_read (.inl rfl) fun x => follows_bind.2 ((follows_linked ?_ rfl).mono ?_)
    · exact calls_bind (calls_perform (plain_calls (.blobExists digest) rfl)) fun _ =>
        calls_ite (calls_perform (plain_calls (.getBlob digest) rfl)) calls_fail
    · rintro y r ⟨hy, hlk⟩
      cases r with
      | error e => exact ⟨hy, nofun⟩
      | ok data => exact ⟨hy, fun a _ => hlk data rfl⟩
  | initiateUpload writer owner repo params body uploadId =>
    refine sourced_of_sources ?_ (by rintro _ _ _ ⟨_, _, h | h, -⟩ <;> cases h)
    have hbeg : ∀ y : SourceCtx,
        y.request = .initiateUpload writer owner repo params body uploadId → Sources env y
          (Routes.beginUpload env (repoName owner repo) params.digest body uploadId) := by
      intro y hy
      unfold Routes.beginUpload
      split
      · refine sources_bind (sources_of_calls calls_readBody) fun z _ hz => ?_
        refine sources_bind (sources_storeAndClaim (.inl ⟨writer, owner, repo, params, body,
          uploadId, hz.request.trans hy, rfl⟩)) fun _ _ _ => .refl
      · refine sources_bind (sources_bind (sources_of_calls (calls_sql (session_calls _ rfl)))
          fun _ _ _ => .refl) fun _ _ _ => .refl
    refine sources_bind hchk fun y _ hy => ?_
    split
    · rename_i digest hdig
      refine sources_bind (sources_tryMount fun source hsrc => ⟨owner, repo, params, body,
        uploadId, hy.request, hdig, hsrc, rfl⟩) fun z mounted hz => ?_
      split
      · exact .refl
      · exact hbeg z (hz.request.trans hy.request)
    · exact hbeg y hy.request
  | completeUpload writer owner repo uuid digest body =>
    refine sourced_of_sources ?_ (by rintro _ _ _ ⟨_, _, h | h, -⟩ <;> cases h)
    refine sources_bind hchk fun y _ hy => sources_bind hpar fun y' uploadId hy' =>
      sources_bind (sources_of_calls calls_readBody) fun z chunk hz => ?_
    refine sources_bind ?_ fun _ _ _ => .refl
    have hio : ∀ w, z.Le w → w.request.UploadsInto (repoName owner repo) := fun w hw =>
      .inr ⟨writer, owner, repo, uuid, digest, body,
        hw.request.trans (hz.request.trans (hy'.request.trans hy.request)), rfl⟩
    refine sources_bind (sources_of_calls (calls_sql (session_calls _ rfl))) fun w offset hw => ?_
    cases offset with
    | none => exact .refl
    | some n =>
      dsimp only
      split
      · exact sources_of_calls (calls_bind (calls_abortOversized light_calls) fun _ =>
          calls_fail)
      · refine sources_bind (sources_of_calls (calls_perform (session_calls _ rfl)))
          fun w' buffer hw' => ?_
        refine sources_bind (sources_storeAndClaim (hio w' (hw.trans hw'))) fun _ _ _ => ?_
        exact sources_of_calls (calls_bind (calls_sql (session_calls _ rfl)) fun _ => calls_pure)
  | putManifest writer owner repo reference contentType body =>
    refine sourced_of_sources ?_ (by rintro _ _ _ ⟨_, _, h | h, -⟩ <;> cases h)
    refine sources_bind hchk fun y _ hy => follows_bind.2 ?_
    unfold readBody toBytes
    cases body with
    | error e => exact .refl
    | ok b =>
      dsimp only
      by_cases hlen : b.length ≤ maxManifestBytes
      · rw [if_pos hlen]
        exact sources_bind (sources_putManifest hy.request) fun z _ _ => hpar
      · rw [if_neg hlen]
        exact .refl
  | _ =>
    refine sourced_of_sources (sources_of_calls (calls_handle plain_calls session_calls trivial)) ?_
    rintro _ _ _ ⟨_, _, h | h, -⟩ <;> cases h

/-! ## The invariant -/

/-- The step is one in which request `i` stores bytes with this digest. -/
def PutBy (st : Step (registry env)) (i : Nat) (q : Request) (digest : Str) : Prop :=
  ∃ o data k, st.action = .run i o ∧ o ≠ .failed ∧ digest = env.sha256Of data ∧
    st.before.tasks[i]? = some ⟨q, .running (.call (.putBlob digest data) k)⟩

/-- What request `i` has done and seen is in the run. -/
structure KnownSource (env : Env) (h : List (Step (registry env))) (i : Nat) (x : SourceCtx) :
    Prop where
  put : ∀ d ∈ x.put, ∃ st ∈ h, PutBy st i x.request d
  granted : ∀ repo owner, (repo, owner) ∈ x.granted → ∃ st ∈ h, ∃ o, st.action = .run i o ∧
    (st.before.state.tables.owns repo owner || !st.before.state.tables.claimed repo) = true
  linked : ∀ d r, (d, r) ∈ x.linked → ∃ h₁ st h₂ o, h = h₁ ++ st :: h₂ ∧ st.action = .run i o ∧
    st.before.request i = some x.request ∧ (d, r) ∈ st.before.state.tables.refs ∧
    Provenance env h₁ d r
  claims : ∀ d r, x.request.Claims env d r → Provenance env h d r

variable {h : List (Step (registry env))} {i : Nat} {r : Except OciError (Reply cmd)}

theorem KnownSource.append (hx : KnownSource env h i x) (st : Step (registry env)) :
    KnownSource env (h ++ [st]) i x where
  put d hd := by
    obtain ⟨st', hst', hput⟩ := hx.put d hd
    exact ⟨st', mem_append_left _ hst', hput⟩
  granted repo owner hmem := by
    obtain ⟨st', hst', hgra⟩ := hx.granted repo owner hmem
    exact ⟨st', mem_append_left _ hst', hgra⟩
  linked d r hmem := by
    obtain ⟨h₁, st', h₂, o, rfl, hlk⟩ := hx.linked d r hmem
    exact ⟨h₁, st', h₂ ++ [st], o, by simp, hlk⟩
  claims d r hcla := (hx.claims d r hcla).append [st]

/-- A link that the protocol allows has a provenance. -/
theorem KnownSource.provenance (hx : KnownSource env h i x) {r : Str} (hd : x.Justified env d r) :
    Provenance env h d r := by
  rcases hd with ⟨hput, hio⟩ | ⟨writer, source, hmou, hlk, hpas⟩ | hcla
  · obtain ⟨st, hst, o, data, k, hact, ho, hdig, hta⟩ := hx.put d hput
    obtain ⟨h₁, h₂, hspl⟩ := append_of_mem hst
    exact .uploaded hspl hact ho hta hdig hio
  · obtain ⟨h₁, st, h₂, o, hspl, hact, hreq, hmem, hsrc⟩ := hx.linked d source hlk
    have hst : st ∈ h := hspl ▸ mem_append_right _ mem_cons_self
    -- Where the check asks nothing of the database, any step of the request will do.
    have hchk : ∃ check ∈ h, ∃ o', check.action = .run i o' ∧
        MayUse env check.before.state.tables writer (lastSegment source) := by
      cases writer with
      | buildService => exact ⟨st, hst, o, hact, trivial⟩
      | session caller =>
        rcases hpas with hsup | hgra
        · exact ⟨st, hst, o, hact, .inl hsup⟩
        · cases hown : env.parseUuid caller.userId with
          | none =>
            refine ⟨st, hst, o, hact, .inr fun owner ho => ?_⟩
            rw [hown] at ho
            cases ho
          | some owner =>
            obtain ⟨check, hchk, o', hact', hsta⟩ :=
              hx.granted _ owner (hgra owner hown)
            refine ⟨check, hchk, o', hact', .inr fun owner' ho => ?_⟩
            obtain rfl : owner = owner' := some.inj (hown.symm.trans ho)
            exact hsta
    obtain ⟨check, hchk, o', hche, hacc⟩ := hchk
    exact .mounted hspl hact hreq hmou hmem hsrc hchk hche hacc
  · exact hx.claims d r hcla

/-- Everything that is linked, or will be with a commit, has a provenance. -/
structure Sourced (env : Env) (h : List (Step (registry env))) (c : Config (registry env))
    (g : Nat → Option SourceCtx) : Prop where
  refs : ∀ d r, (d, r) ∈ c.state.tables.refs → Provenance env h d r
  pending : ∀ i ws, c.state.txs i = some ws → ∀ d r, .insertRef d r ∈ ws → Provenance env h d r
  known : ∀ i x, g i = some x → KnownSource env h i x
  requests : ∀ i x, g i = some x → c.request i = some x.request

/-- What a request has done and seen after one more command. -/
theorem KnownSource.after (hru : Runs (start env) h c)
    (hrefs : ∀ d r, (d, r) ∈ c.state.tables.refs → Provenance env h d r)
    (hta : c.tasks[i]? = some ⟨x.request, .running (.call cmd k)⟩)
    (heff : Effect env c.state i cmd o r c'.state) (hal : x.allow env cmd)
    (hx : KnownSource env h i x) :
    KnownSource env (h ++ [⟨c, .run i o, c'⟩]) i (x.after cmd r) := by
  have hold := hx.append ⟨c, .run i o, c'⟩
  have hst : (⟨c, .run i o, c'⟩ : Step (registry env)) ∈ h ++ [⟨c, .run i o, c'⟩] :=
    mem_append_right _ (mem_singleton_self _)
  have hreq : c.request i = some x.request := by rw [request, hta]; rfl
  obtain ⟨y, -, htied, hlin⟩ := linking_of_runs hru hta
  unfold SourceCtx.after
  split
  · rename_i d data n
    refine { hold with put := fun d' hd' => ?_ }
    rcases mem_cons.1 hd' with rfl | hd'
    · exact ⟨_, hst, o, data, k, rfl, heff.putBlob_ok, hal, hta⟩
    · exact hold.put d' hd'
  · split
    · rename_i hsta
      refine { hold with granted := fun repo' owner' hmem => ?_ }
      rcases mem_cons.1 hmem with heq | hmem
      · cases heq
        obtain ⟨ws, hev⟩ := heff.sql_ok
        rw [view_of_none (htied.none hlin)] at hev
        obtain ⟨⟨rfl, rfl⟩, -⟩ := hev
        exact ⟨_, hst, o, rfl, hsta⟩
      · exact hold.granted repo' owner' hmem
    · exact hold
  · rename_i d r linked
    split
    · rename_i hlk
      refine { hold with linked := fun d' r' hmem => ?_ }
      rcases mem_cons.1 hmem with heq | hmem
      · cases heq
        obtain ⟨ws, hev⟩ := heff.sql_ok
        rw [view_of_none (htied.none hlin)] at hev
        simp only [Statement.eval, Except.ok.injEq, Prod.mk.injEq] at hev
        have hmem := of_decide_eq_true (hev.1.trans hlk)
        exact ⟨h, _, [], o, rfl, rfl, hreq, hmem, hrefs d r hmem⟩
      · exact hold.linked d' r' hmem
    · exact hold
  · exact hold

/-- A push arrives only when its repository already has every blob that the manifest lists. -/
def ListsLinked (st : Step (registry env)) : Prop :=
  ∀ q, st.action = .spawn q → ∀ d r, q.Claims env d r → (d, r) ∈ st.before.state.tables.refs

theorem Sourced.spawn (hs : Sourced env h c g)
    (hc' : c' = ⟨c.state, c.tasks ++ [⟨q, .running (handle env q)⟩]⟩)
    (hq : ∀ d r, q.Claims env d r → (d, r) ∈ c.state.tables.refs) :
    Sourced env (h ++ [⟨c, .spawn q, c'⟩]) c'
      (update g c.tasks.length (some (SourceCtx.initial q))) := by
  subst hc'
  constructor
  · exact fun d r hmem => (hs.refs d r hmem).append _
  · exact fun i ws hws d r hmem => (hs.pending i ws hws d r hmem).append _
  · intro i x hx
    rcases update_some hx with ⟨rfl, rfl⟩ | ⟨hi, hx⟩
    · exact ⟨fun d hd => (not_mem_nil hd).elim, fun _ _ hmem => (not_mem_nil hmem).elim,
        fun _ _ hmem => (not_mem_nil hmem).elim,
        fun d r hcla => (hs.refs d r (hq d r hcla)).append _⟩
    · exact (hs.known i x hx).append _
  · intro i x hx
    rcases update_some hx with ⟨rfl, rfl⟩ | ⟨hi, hx⟩
    · simp [request, SourceCtx.initial]
    · exact request_append _ _ (hs.requests i x hx)

theorem Sourced.run {s : State} (hru : Runs (start env) h c) (hs : Sourced env h c g)
    (hta : c.tasks[i]? = some ⟨q, .running (.call cmd k)⟩)
    (heff : Effect env c.state i cmd o r s) (hx : g i = some x) (hal : x.allow env cmd)
    (hc' : c' = ⟨s, c.tasks.set i ⟨q, .running (k r)⟩⟩) :
    Sourced env (h ++ [⟨c, .run i o, c'⟩]) c' (update g i (some (x.after cmd r))) := by
  subst hc'
  have hreq : c.request i = some q := by rw [request, hta]; rfl
  obtain rfl : x.request = q := some.inj ((hs.requests i x hx).symm.trans hreq)
  -- A statement that writes a link is allowed only with a provenance.
  have hwr : ∀ (st : Statement) (a : st.Reply) (t : Tables) (ws : List Write) (d r : Str),
      cmd = .sql st → st.eval t = .ok (a, ws) → .insertRef d r ∈ ws → Provenance env h d r := by
    intro st a t ws d r hcmd hev hmem
    subst hcmd
    obtain rfl := (Statement.eval_refs hev).1 hmem
    exact (hs.known i x hx).provenance hal
  constructor
  · intro d r hmem
    refine Provenance.append ?_ _
    rcases heff.tables with htab | ⟨-, -, htab⟩ | ⟨st, a, ws, hcmd, -, hev, htab⟩
    · exact hs.refs d r (htab ▸ hmem)
    · have hmem : (d, r) ∈ (view c.state i).refs := htab ▸ hmem
      cases htx : c.state.txs i with
      | none => exact hs.refs d r (view_of_none htx ▸ hmem)
      | some ws =>
        rw [view_of_some htx] at hmem
        exact (Tables.insertRef_mem_or hmem).elim (hs.pending i ws htx d r) (hs.refs d r)
    · have hmem : (d, r) ∈ (c.state.tables.applyAll ws).refs := htab ▸ hmem
      exact (Tables.insertRef_mem_or hmem).elim (hwr st a _ ws d r hcmd hev) (hs.refs d r)
  · intro j ws hws d r hmem
    refine Provenance.append ?_ _
    by_cases hj : j = i
    · subst hj
      rcases heff.pending hws with rfl | hold | ⟨st, a, old, vs, hcmd, hold, hev, rfl⟩
      · cases hmem
      · exact hs.pending j ws hold d r hmem
      · exact (mem_append.1 hmem).elim (hs.pending j old hold d r) (hwr st a _ vs d r hcmd hev)
    · exact hs.pending j ws ((heff.untouched hj).1 ▸ hws) d r hmem
  · intro j y hy
    rcases update_some hy with ⟨rfl, rfl⟩ | ⟨hj, hy⟩
    · exact (hs.known j x hx).after hru hs.refs hta heff hal
    · exact (hs.known j y hy).append _
  · intro j y hy
    refine (request_set s hta).trans ?_
    rcases update_some hy with ⟨rfl, rfl⟩ | ⟨hj, hy⟩
    · rw [(x.le_after cmd r).request]
      exact hs.requests j x hx
    · exact hs.requests j y hy

/-- A dropped request or a crash: less is waiting and less is known. -/
theorem Sourced.less {g' : Nat → Option SourceCtx} (hs : Sourced env h c g)
    (st : Step (registry env)) (htab : c'.state.tables = c.state.tables)
    (htxs : ∀ i ws, c'.state.txs i = some ws → c.state.txs i = some ws)
    (hg : ∀ i x, g' i = some x → g i = some x) (hreq : ∀ i, c'.request i = c.request i) :
    Sourced env (h ++ [st]) c' g' where
  refs d r hmem := (hs.refs d r (htab ▸ hmem)).append _
  pending i ws hws d r hmem := (hs.pending i ws (htxs i ws hws) d r hmem).append _
  known i x hx := (hs.known i x (hg i x hx)).append _
  requests i x hx := (hreq i).trans (hs.requests i x (hg i x hx))

theorem sourced_inductive : Inductive (registry env) (sourcing env) (start env) SourceCtx.initial
    sourced ListsLinked (Sourced env) where
  spawn := by
    intro h c g q c' _ hc' hmt _ hs
    exact hs.spawn hc' (hmt q rfl)
  run := by
    intro h c g i o q cmd k x r s c' hru hta hexec hc' hx hal _ _ hs
    exact hs.run hru hta (effect_of_exec hexec) hx hal hc'
  drop := by
    rintro h c g i q cmd k c' _ hta rfl _ _ hs
    refine hs.less _ rfl (fun j ws hws => ?_) (fun j x hx => (update_none hx).2) fun j =>
      request_set _ hta
    by_cases hj : j = i
    · rw [hj] at hws
      exact absurd (endTx_txs_self.symm.trans hws) (by simp)
    · exact (endTx_txs_of_ne hj).symm.trans hws
  crash := by
    rintro h c g c' _ rfl _ _ hs
    exact hs.less _ rfl nofun (fun i x hx => (of_crash hx).2) fun i =>
      request_interrupt _

theorem sourced_start : Sourced env [] (start env) fun _ => none where
  refs := nofun
  pending := nofun
  known := nofun
  requests := nofun

/-- **What can be read has a provenance**, in every run in which manifests are pushed only into
repositories that have all their blobs: a blob that was read through a repository was uploaded into
it, or mounted into it by a caller who was allowed to use a repository that held it. -/
theorem read_has_provenance {c : Config (registry env)} (hruns : Runs (start env) h c)
    (hpushes : ∀ st ∈ h, ListsLinked st) {q : Request} {caller : Caller}
    {digest repository : Str} {response : Response} (hrequest : c.request i = some q)
    (hreads : q.Reads caller digest repository) (hanswer : c.answer i = some (.ok response)) :
    Provenance env h digest repository := by
  obtain ⟨g, hkn, hs⟩ := sourced_inductive.holds sources_handle rfl sourced_start hruns hpushes
  obtain ⟨x, hx, hpost⟩ := hkn.exists_of_answer hrequest hanswer
  have hlk := hpost.2 response caller digest repository rfl hreads
  obtain ⟨h₁, st, h₂, o, rfl, -, -, -, hsrc⟩ := (hs.known i x hx).linked digest repository hlk
  exact hsrc.append (st :: h₂)

/-! ## A read, and a push that lists a blob of another repository -/

/-- The repository that an upload or a mount names. -/
def Request.uploadTarget : Request → Option Str
  | .initiateUpload _ owner repo _ _ _ => some (repoName owner repo)
  | .completeUpload _ owner repo _ _ _ => some (repoName owner repo)
  | _ => none

/-- A digest with a provenance came with a request that named the repository. -/
theorem Provenance.exists_target (hp : Provenance env h digest repository) :
    ∃ st ∈ h, ∃ t ∈ st.before.tasks, t.request.uploadTarget = some repository := by
  cases hp with
  | @uploaded _ h₁ h₂ st i o q _ _ data k hspl hact ho hta hdig hio =>
    refine ⟨st, by rw [hspl]; simp, _, mem_of_getElem? hta, ?_⟩
    rcases hio with ⟨_, _, _, _, _, _, rfl, rfl⟩ | ⟨_, _, _, _, _, _, rfl, rfl⟩ <;> rfl
  | @mounted _ h₁ h₂ st check i o o' q writer _ source _ hspl hact hreq hmou =>
    obtain ⟨t, hta, rfl⟩ := map_eq_some_iff.1 hreq
    obtain ⟨_, _, _, _, _, hq, -, -, rfl⟩ := hmou
    exact ⟨st, by rw [hspl]; simp, t, mem_of_getElem? hta, by rw [hq]; rfl⟩

def Request.read? : Request → Option (Caller × Str × Str)
  | .getBlob caller owner repo digest => some (caller, digest, repoName owner repo)
  | .headBlob caller owner repo digest => some (caller, digest, repoName owner repo)
  | _ => none

theorem Request.reads_of_read? (hq : q.read? = some (caller, digest, repository)) :
    q.Reads caller digest repository := by
  cases q with
  | headBlob caller owner repo digest => cases hq; exact ⟨owner, repo, .inr rfl, rfl⟩
  | getBlob caller owner repo digest => cases hq; exact ⟨owner, repo, .inl rfl, rfl⟩
  | _ => cases hq

/-- A user who owns no agent. -/
def visitor : CallerIdentity := ⟨Uuid.toStr 1, false⟩

/-- The visitor reads the blob through a repository. -/
def readThrough (repo : Str) : Request :=
  .getBlob (.session visitor) "nasiko" repo helloDigest

/-- Task `i` has read the blob for the visitor, through a repository. -/
def readHello (c : Config (registry env)) (i : Nat) (repo : Str) : Bool :=
  (c.request i).any (fun q => q.read? = some (.session visitor, helloDigest,
    repoName "nasiko" repo)) &&
  (c.answer i).any fun r => match r with
    | .ok response => response.body = hello
    | .error _ => false

theorem reads_of_readHello (hre : readHello c i repo = true) :
    ∃ q response, c.request i = some q ∧
      q.Reads (.session visitor) helloDigest (repoName "nasiko" repo) ∧
      c.answer i = some (.ok response) ∧ response.body = hello := by
  obtain ⟨hq, hr⟩ := Bool.and_eq_true_iff.1 hre
  obtain ⟨q, hreq, hq⟩ := (any_eq_true _ _).1 hq
  obtain ⟨r, hans, hr⟩ := (any_eq_true _ _).1 hr
  cases r with
  | error e => cases hr
  | ok response =>
    exact ⟨q, response, hreq, Request.reads_of_read? (of_decide_eq_true hq), hans,
      of_decide_eq_true hr⟩

/-- No push is among the steps. -/
def pushless (h : List (Step (registry env))) : Bool :=
  h.all fun st => match st.action with
    | .spawn (.putManifest ..) => false
    | _ => true

theorem listsLinked_of_pushless (hp : pushless h = true) : ∀ st ∈ h, ListsLinked st := by
  intro st hst q hact d r hcla
  have hpush := all_eq_true.1 hp st hst
  obtain ⟨_, _, _, _, _, _, _, rfl, -⟩ := hcla
  rw [hact] at hpush
  cases hpush

theorem read_has_provenance_uploaded :
    ∃ (h : List (Step (registry helloEnv))) (c : _), Runs (start helloEnv) h c ∧
      (∀ st ∈ h, ListsLinked st) ∧ ∃ q response, c.request 1 = some q ∧
        q.Reads (.session visitor) helloDigest (repoName "nasiko" "demo") ∧
        c.answer 1 = some (.ok response) ∧
        Provenance helloEnv h helloDigest (repoName "nasiko" "demo") := by
  obtain ⟨h, c, hru, hpus, hre⟩ := exists_runs (start helloEnv)
    ([.spawn (uploadOf "demo" helloDigest hello)] ++ turns 0 8 ++
      [.spawn (readThrough "demo")] ++ turns 1 4)
    (fun h c => pushless h = true ∧ readHello c 1 "demo" = true) (by decide +kernel)
  have hlis := listsLinked_of_pushless hpus
  obtain ⟨q, response, hreq, hrd, hans, -⟩ := reads_of_readHello hre
  exact ⟨h, c, hru, hlis, q, response, hreq, hrd, hans,
    read_has_provenance hru hlis hreq hrd hans⟩

/-- Agent `secret` belongs to another user, and a blob is uploaded into it. The visitor may not read
it there, but pushes a manifest that lists its digest into a repository that nobody owns. -/
def pushOther : List (Action Request) :=
  [.spawn (.setAgents [⟨7, "secret", 2, false⟩] [])] ++ turns 0 1 ++
  [.spawn (uploadOf "secret" helloDigest hello)] ++ turns 1 8 ++
  [.spawn (.putManifest (.session visitor) "nasiko" "mine" "v1" none
    (.ok helloManifest))] ++ turns 2 10 ++
  [.spawn (readThrough "mine")] ++ turns 3 4 ++
  [.spawn (readThrough "secret")] ++ turns 4 1

/-- The visitor reads the bytes of the blob through the repository of the push. -/
theorem read_by_push : ∃ (h : List (Step (registry helloEnv))) (c : _), Runs (start helloEnv) h c ∧
      (∃ q response, c.request 3 = some q ∧
        q.Reads (.session visitor) helloDigest (repoName "nasiko" "mine") ∧
        c.answer 3 = some (.ok response) ∧ response.body = hello) ∧
      c.answer 4 = some (.error (notPermitted "access" "secret")) ∧
      ¬ Provenance helloEnv h helloDigest (repoName "nasiko" "mine") := by
  obtain ⟨h, c, hru, hre, href, htgt⟩ := exists_runs (start helloEnv) pushOther
    (fun h c => readHello c 3 "mine" = true ∧ ((c.answer 4).any fun r => match r with
        | .ok _ => false
        | .error e => e = notPermitted "access" "secret") = true ∧
      ∀ st ∈ h, ∀ t ∈ st.before.tasks, t.request.uploadTarget ≠ some (repoName "nasiko" "mine"))
    (by decide +kernel)
  refine ⟨h, c, hru, reads_of_readHello hre, ?_, fun hpro => ?_⟩
  · obtain ⟨r, hans, hr⟩ := (any_eq_true _ _).1 href
    cases r with
    | ok response => cases hr
    | error e => rw [hans, of_decide_eq_true hr]
  · obtain ⟨st, hst, t, ht, heq⟩ := hpro.exists_target
    exact htgt st hst t ht heq

end Nasiko.Oci
