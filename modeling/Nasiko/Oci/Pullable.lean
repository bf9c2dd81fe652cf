import Nasiko.Oci.References

/-!
# Stored manifests can be pulled

A push commits a manifest together with the links of all blobs it lists. A blob delete removes a
link without a look at the manifests of the repository, so a stored manifest may lose its blobs
again; but nothing else takes a link away. `UnlinkedSincePush` is what such a delete leaves in a
run.
-/

namespace Nasiko.Oci

open Nasiko.Concurrency Action

variable {env : Env}

/-- The config and the layers that a stored manifest lists. -/
def listed (env : Env) (m : Manifest) : List Str :=
  match env.fromSlice (asBytes m.content) with
  | .ok content => extractReferencedBlobDigests content
  | .error _ => []

/-- The step is the commit of a blob delete that takes away this link. -/
def Unlinks (st : Step (registry env)) (digest repository : Str) : Prop :=
  ∃ i o q, st.action = .run i o ∧ st.before.request i = some q ∧ q.Deletes digest repository ∧
    (digest, repository) ∈ st.before.state.tables.refs ∧
    (digest, repository) ∉ st.after.state.tables.refs

def CommitsPush (st : Step (registry env)) (m : Manifest) : Prop :=
  ∃ i o q k, st.action = .run i o ∧ o ≠ .failed ∧ q.Pushes env m ∧
    st.before.tasks[i]? = some ⟨q, .running (.call .commit k)⟩

/-- A blob delete has taken away the link of a blob since the manifest was last pushed. -/
def UnlinkedSincePush (h : List (Step (registry env))) (m : Manifest) (digest : Str) : Prop :=
  ∃ h₁ st h₂, h = h₁ ++ st :: h₂ ∧ Unlinks st digest m.repository ∧
    ∀ st' ∈ h₂, ¬ CommitsPush st' m

variable {h : List (Step (registry env))} {c c' : Config (registry env)} {m : Manifest} {d : Str}
  {q : Request}

theorem UnlinkedSincePush.append (hsin : UnlinkedSincePush h m d) {st : Step (registry env)}
    (hst : ¬ CommitsPush st m) : UnlinkedSincePush (h ++ [st]) m d := by
  obtain ⟨h₁, st₁, h₂, rfl, hunl, hpu⟩ := hsin
  refine ⟨h₁, st₁, h₂ ++ [st], by simp, hunl, fun st' hst' => ?_⟩
  rcases List.mem_append.1 hst' with hst' | hst'
  · exact hpu st' hst'
  · exact List.mem_singleton.1 hst' ▸ hst

theorem claims_of_pushes (hutf8 : env.KeepsBytes) (hq : q.Pushes env m) (hd : d ∈ listed env m) :
    q.Claims env d m.repository := by
  obtain ⟨writer, owner, repo, reference, contentType, body, rfl, hrepo, -, hbody⟩ := hq
  rw [listed, hutf8 body m.content hbody] at hd
  split at hd
  · rename_i content hcont
    exact ⟨writer, owner, repo, reference, contentType, body, content, rfl, hrepo, hcont, hd⟩
  · cases hd

section

variable {s s' : State} {i : Nat} {c : Command} {o : Outcome} {r : Except OciError (Reply c)}
  {x : LinkCtx}

theorem manifest_added (h : Effect env s i c o r s') (hx : Tied env s i x)
    (hal : x.allow env c) (hmem : m ∈ s'.tables.manifests) :
    m ∈ s.tables.manifests ∨ (c = .commit ∧ o ≠ .failed ∧ x.request.Pushes env m) := by
  rcases h.tables with htab | ⟨rfl, ho, htab⟩ | ⟨q, a, ws, rfl, htx, heval, htab⟩ <;>
    rw [htab] at hmem
  · exact .inl hmem
  · obtain ⟨a, ha, -⟩ := hal
    obtain ⟨ws, hws, hok⟩ := hx.some ha
    rw [State.view_of_some hws] at hmem
    rcases Tables.insertManifest_mem_or hmem with hmem | hmem
    · exact .inr ⟨rfl, ho, hok.manifests m hmem⟩
    · exact .inl hmem
  · rcases Tables.insertManifest_mem_or hmem with hmem | hmem
    · obtain rfl := Statement.eval_manifests heval hmem
      have hnone := hx.hold_none htx
      rw [LinkCtx.allow, hnone] at hal
      cases hal.1
    · exact .inl hmem

theorem linked_of_push (hutf8 : env.KeepsBytes) {r : Except OciError Unit}
    (h : Effect env s i .commit o r s') (ho : o ≠ .failed) (hx : Tied env s i x)
    (hal : x.allow env .commit) (hpu : x.request.Pushes env m) (hd : d ∈ listed env m) :
    (d, m.repository) ∈ s'.tables.refs := by
  obtain ⟨a, ha, hcl⟩ := hal
  obtain ⟨ws, hws, hok⟩ := hx.some ha
  rw [h.commit_tables ho, State.view_of_some hws]
  exact (hok.claimed d m.repository (hcl d _ (claims_of_pushes hutf8 hpu hd))).2

end

/-- The blobs of every stored manifest are linked, or were unlinked since its last push. -/
def ManifestsLinked (h : List (Step (registry env))) (c : Config (registry env)) : Prop :=
  ∀ m ∈ c.state.tables.manifests, ∀ d ∈ listed env m,
    (d, m.repository) ∈ c.state.tables.refs ∨ UnlinkedSincePush h m d

theorem ManifestsLinked.append {a : Action Request} (hlk : ManifestsLinked h c)
    (htab : c'.state.tables = c.state.tables) (ha : ∀ i o, a ≠ .run i o) :
    ManifestsLinked (h ++ [⟨c, a, c'⟩]) c' := by
  intro m hm d hd
  rw [htab] at hm ⊢
  refine (hlk m hm d hd).imp_right fun hsin => hsin.append ?_
  rintro ⟨i, o, q, k, hact, -⟩
  exact ha i o hact

theorem ManifestsLinked.run (hutf8 : env.KeepsBytes) {g : Nat → Option LinkCtx} {i : Nat}
    {o : Outcome} {cmd : Command} {k : Except OciError (Reply cmd) → Prog Response} {x : LinkCtx}
    {r : Except OciError (Reply cmd)} (hc : Consistent env c g) (hlk : ManifestsLinked h c)
    (hta : c.tasks[i]? = some ⟨q, .running (.call cmd k)⟩)
    (heff : Effect env c.state i cmd o r c'.state) (hx : g i = some x)
    (hal : x.allow env cmd) : ManifestsLinked (h ++ [⟨c, .run i o, c'⟩]) c' := by
  have hreq : c.request i = some q := by rw [Config.request, hta]; rfl
  obtain rfl : x.request = q := Option.some.inj ((hc.requests i x hx).symm.trans hreq)
  intro m hm d hd
  by_cases hpu : CommitsPush (⟨c, .run i o, c'⟩ : Step (registry env)) m
  · obtain ⟨i', o', q', k', hact, ho, hq, hta'⟩ := hpu
    cases hact
    cases hta.symm.trans hta'
    exact .inl (linked_of_push hutf8 heff ho (hc.tied i x hx) hal hq hd)
  · have hold : m ∈ c.state.tables.manifests := by
      refine (manifest_added heff (hc.tied i x hx) hal hm).resolve_right ?_
      rintro ⟨rfl, ho, hq⟩
      exact hpu ⟨i, o, x.request, k, rfl, ho, hq, hta⟩
    rcases hlk m hold d hd with hmem | hsin
    · by_cases hmem' : (d, m.repository) ∈ c'.state.tables.refs
      · exact .inl hmem'
      · obtain ⟨-, hdel, -⟩ :=
          (link_removed heff (hc.tied i x hx) hal hmem).resolve_left hmem'
        exact .inr ⟨h, _, [], rfl, ⟨i, o, x.request, rfl, hreq, hdel, hmem, hmem'⟩,
          fun st' hst' => by cases hst'⟩
    · exact .inr (hsin.append hpu)

theorem manifests_inductive (hutf8 : env.KeepsBytes) :
    Inductive (registry env) (linking env) (start env) LinkCtx.idle ended (fun _ => True)
      fun h c g => Consistent env c g ∧ ManifestsLinked h c where
  spawn h c g q c' hru hc' hmt hkn := fun ⟨hc, hlk⟩ =>
    ⟨consistent_inductive.spawn h c g q c' hru hc' hmt hkn hc, hlk.append (by rw [hc']) (by simp)⟩
  run := by
    rintro h c g i o q cmd k x r s c' - hta hexec rfl hx hal - - ⟨hc, hlk⟩
    exact ⟨hc.run hta hx hal (effect_of_exec hexec),
      hlk.run hutf8 hc hta (effect_of_exec hexec) hx hal⟩
  drop h c g i q cmd k c' hru hta hc' hmt hkn := fun ⟨hc, hlk⟩ =>
    ⟨consistent_inductive.drop h c g i q cmd k c' hru hta hc' hmt hkn hc,
      hlk.append (by rw [hc']; rfl) (by simp)⟩
  crash h c g c' hru hc' hmt hkn := fun ⟨hc, hlk⟩ =>
    ⟨consistent_inductive.crash h c g c' hru hc' hmt hkn hc,
      hlk.append (by rw [hc']; rfl) (by simp)⟩

/-- **A stored manifest can be pulled in full** in every run of the registry that removes no object
of two digests: each blob it lists is linked to its repository and its bytes are there, unless a
blob delete in that repository has unlinked it since the manifest was last pushed. -/
theorem manifest_pullable (hutf8 : env.KeepsBytes) {h : List (Step (registry env))}
    {c : Config (registry env)} (hruns : Runs (start env) h c) (hone : ∀ st ∈ h, SweepsOne st)
    {m : Manifest} (hm : m ∈ c.state.tables.manifests) {digest : Str}
    (hdigest : digest ∈ listed env m) :
    ((digest, m.repository) ∈ c.state.tables.refs ∧ (c.state.blobs (blobKey digest)).isSome) ∨
      UnlinkedSincePush h m digest := by
  obtain ⟨g, -, hc, hlk⟩ := (manifests_inductive hutf8).holds keeps_handle rfl
    ⟨consistent_start, nofun⟩ hruns fun _ _ => trivial
  refine (hlk m hm digest hdigest).imp_left fun hmem => ⟨hmem, ?_⟩
  exact backed_of_runs hruns hone digest m.repository hmem

/-! ## A push, and a delete of its blob -/

def helloManifest : Bytes := asBytes
  ("\x7b\"config\":\x7b\"digest\":\"" ++ helloDigest ++ "\"\x7d,\"layers\":[]\x7d")

/-- Digests that `sha256sum` prints for the bytes of the examples. -/
def helloEnv : Env := sample [(hello, helloDigest), (helloManifest,
  "sha256:f1342b223202097750942d0800d606030693512846d3c8d4f6c1389921127581")]

/-- An image is uploaded and pushed. -/
def pushHello : List (Action Request) :=
  [.spawn (uploadOf "demo" helloDigest hello)] ++ turns 0 8 ++
  [.spawn (.putManifest .buildService "nasiko" "demo" "v1" none
    (.ok helloManifest))] ++ turns 1 9

/-- A superuser deletes the blob of the image. -/
def deleteHello : List (Action Request) :=
  [.spawn (.deleteBlob ⟨[], true⟩ "nasiko" "demo" helloDigest)] ++ turns 2 15

theorem manifest_pullable_hello :
    helloEnv.KeepsBytes ∧ ∃ (h : List (Step (registry helloEnv))) (c : _),
      Runs (start helloEnv) h c ∧ (∀ st ∈ h, SweepsOne st) ∧
      ∃ m ∈ c.state.tables.manifests, helloDigest ∈ listed helloEnv m ∧
        (((helloDigest, m.repository) ∈ c.state.tables.refs ∧
          (c.state.blobs (blobKey helloDigest)).isSome) ∨ UnlinkedSincePush h m helloDigest) := by
  obtain ⟨h, c, hru, ⟨m, hm, hd⟩, hnone⟩ := exists_runs (start helloEnv) pushHello
    (fun h c => (∃ m ∈ c.state.tables.manifests, helloDigest ∈ listed helloEnv m) ∧
      ∀ st ∈ h, removes st = none) (by decide +kernel)
  have hone : ∀ st ∈ h, SweepsOne st := fun st hst => sweepsOne_of_removes (hnone st hst)
  exact ⟨sample_keepsBytes _, h, c, hru, hone, m, hm, hd,
    manifest_pullable (sample_keepsBytes _) hru hone hm hd⟩

/-- The manifest stays when its blob is deleted. -/
theorem manifest_without_blob :
    ∃ (h : List (Step (registry helloEnv))) (c : _), Runs (start helloEnv) h c ∧
      ∃ m ∈ c.state.tables.manifests, ∃ d ∈ listed helloEnv m,
        (d, m.repository) ∉ c.state.tables.refs ∧ c.state.blobs (blobKey d) = none :=
  exists_runs (start helloEnv) (pushHello ++ deleteHello) _ (by decide +kernel)

end Nasiko.Oci
