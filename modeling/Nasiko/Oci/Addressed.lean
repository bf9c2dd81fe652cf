import Nasiko.Oci.Provenance

/-!
# Contents and their digests

Blobs and manifests are found by the hash of their content. Nothing checks the bytes of a blob when
they are read, so it matters that no request ever stores bytes under another digest; a manifest is
checked at every pull, and the check never fails.
-/

namespace Nasiko.Oci

open Nasiko.Concurrency Function

variable {env : Env}

/-- The property holds in every state that the registry reaches. -/
def Always (env : Env) (P : State → Prop) : Prop :=
  ∀ (h : List (Step (registry env))) (c : Config (registry env)), Runs (start env) h c → P c.state

/-- Bytes are stored under their digest. -/
def Addressed (env : Env) (s : State) : Prop :=
  ∀ key b, s.blobs key = some b → blobKey (env.sha256Of b) = key

theorem Effect.addressed {s s' : State} {i : Nat} {c : Command} {o : Outcome}
    {r : Except OciError (Reply c)} {x : SourceCtx} (h : Effect env s i c o r s')
    (hal : x.allow env c) (hs : Addressed env s) : Addressed env s' := by
  intro key b hb
  cases h with
  | sqlDone | sqlLost | lock | session => exact hs key b (by simpa using hb)
  | putBlob d data =>
    by_cases hkey : key = blobKey d
    · subst hkey
      cases (update_self ..).symm.trans hb
      exact congrArg blobKey hal.symm
    · exact hs key b ((update_of_ne hkey ..).symm.trans hb)
  | deleteBlob d =>
    by_cases hkey : key = blobKey d
    · subst hkey
      cases (update_self ..).symm.trans hb
    · exact hs key b ((update_of_ne hkey ..).symm.trans hb)
  | _ => exact hs key b hb

/-- **The bytes of a blob have its digest**, in every run of the registry. -/
theorem always_addressed (env : Env) : Always env (Addressed env) := by
  intro h c hruns
  have hind : Inductive (registry env) (sourcing env) (start env) SourceCtx.initial sourced
      (fun _ => True) fun _ c _ => Addressed env c.state :=
    { spawn := by rintro h c g q c' - rfl - - hs; exact hs
      run := by
        rintro h c g i o q cmd k x r s c' - - hexec rfl - hal - - hs
        exact (effect_of_exec hexec).addressed hal hs
      drop := by rintro h c g i q cmd k c' - - rfl - - hs; exact hs
      crash := by rintro h c g c' - rfl - - hs; exact hs }
  obtain ⟨_, _, hs⟩ := hind.holds sources_handle rfl nofun hruns fun _ _ => trivial
  exact hs

/-- The manifests pass the check of a pull. -/
def Intact (env : Env) (s : State) : Prop :=
  ∀ m ∈ s.tables.manifests, env.sha256Of (asBytes m.content) = m.digest

/-- **The content of a manifest has its digest**, so that the check of a pull never fails. -/
theorem always_intact (env : Env) (hutf8 : env.KeepsBytes) : Always env (Intact env) := by
  intro h c hruns
  induction hruns with
  | nil => rintro m ⟨⟩
  | @snoc h c c' a hruns hstep ih =>
    cases a with
    | spawn q =>
      cases hstep
      exact ih
    | run i o =>
      obtain ⟨q, cmd, k, r, s, hta, hexec, rfl⟩ := Config.step_run hstep
      obtain ⟨x, -, htied, hal⟩ := linking_of_runs hruns hta
      intro m hm
      rcases manifest_added (effect_of_exec hexec) htied hal hm with hm | ⟨-, -, hpush⟩
      · exact ih m hm
      · obtain ⟨_, _, _, _, _, body, -, -, hdigest, hbody⟩ := hpush
        rw [hdigest, hutf8 body m.content hbody]
    | drop i =>
      obtain ⟨q, cmd, k, -, rfl⟩ := Config.step_drop hstep
      exact ih
    | crash =>
      cases hstep
      exact ih

theorem always_intact_hello : helloEnv.KeepsBytes ∧ Always helloEnv (Intact helloEnv) :=
  ⟨sample_keepsBytes _, always_intact helloEnv (sample_keepsBytes _)⟩

end Nasiko.Oci
