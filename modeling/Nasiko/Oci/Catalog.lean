import Mathlib.Data.List.Dedup
import Mathlib.Tactic.Tauto
import Nasiko.Oci.Routes

/-!
# The catalog

The rule of `check_repo_access` stands a second time in the query of the catalog, which reads the
name of an agent from the text of a repository. A page of the catalog starts after the last
repository of the page before.

**Theorem (`registryRule_iff`).** A user who is not a superuser only reaches repositories that
nobody or they themselves have an agent for, and the pages list what `check_repo_access` allows, if
and only if the id of the user is a UUID and the second part of the text of every repository is the
name that its path has.

An id that cannot be parsed owns nothing, but the check and the query then do not look for owners at
all. The second part differs from the name if the path has an encoded slash.
-/

namespace Nasiko.Oci

open Nasiko.Concurrency Program List Option Tables

/-- The order of texts in the database. -/
structure Collation where
  le : Str → Str → Bool
  trans : ∀ a b c, le a b → le b c → le a c
  total : ∀ a b, le a b || le b a
  antisymm : ∀ a b, le a b → le b a → a = b

/-- `split_part(s, '/', 2)`. -/
def secondPart (s : Str) : Str := ((s.dropWhile (· ≠ '/')).drop 1).takeWhile (· ≠ '/')

/-- The clause for the owner, where `none` is no filter. -/
def Tables.allows (t : Tables) (name : Str) : Option Uuid → Bool
  | none => true
  | some owner => !t.claimed name || t.owns name owner

/-- `m.repository > last`. -/
def Collation.after (c : Collation) (last : Option Str) (r : Str) : Bool := last.all (!c.le r ·)

def repositoriesAfter (c : Collation) (t : Tables) (ownerFilter : Option Uuid) (last : Option Str) :
    List Str :=
  ((t.manifests.map (·.repository)).filter fun r =>
    c.after last r && t.allows (secondPart r) ownerFilter).dedup.mergeSort c.le

/-- Postgres refuses a limit below zero. -/
def listRepositories (c : Collation) (t : Tables) (ownerFilter : Option Uuid) (last : Option Str)
    (limit : Int) : Except OciError (List Str) :=
  if limit < 0 then .error .database
  else .ok ((repositoriesAfter c t ownerFilter last).take (min limit 1000).toNat)

def catalog (env : Env) (c : Collation) (t : Tables) (caller : CallerIdentity) (last : Option Str)
    (n : Option Int) : Except OciError (List Str) :=
  let ownerFilter := if caller.isSuperuser then none else env.parseUuid caller.userId
  listRepositories c t ownerFilter last (n.getD 100)

/-- The pages that a client reads until one is empty. -/
def followCatalog (env : Env) (c : Collation) (t : Tables) (caller : CallerIdentity)
    (n : Option Int) : Nat → Option Str → List Str
  | 0, _ => []
  | fuel + 1, last =>
    match catalog env c t caller last n with
    | .error _ => []
    | .ok page =>
      match page.getLast? with
      | none => []
      | some r => page ++ followCatalog env c t caller n fuel (some r)

/-- `format!("\x7bowner\x7d/\x7brepo\x7d")`. -/
def repositoryText (path : Str × Str) : Str := path.1 ++ '/' :: path.2

def Tables.answer (t : Tables) : (c : Command) → Except OciError (Reply c)
  | .sql q => (q.eval t).map Prod.fst
  | _ => .error .database

variable {env : Env} {c : Collation} {t : Tables} {owner : Option Uuid} {last : Option Str}

/-- The caller owns a live agent of this name. -/
def Tables.ownedBy (t : Tables) (env : Env) (userId name : Str) : Prop :=
  ∃ owner, env.parseUuid userId = some owner ∧ t.owns name owner

/-- What a user may reach, for the repositories that were pushed to some paths. -/
structure RegistryRule (env : Env) (c : Collation) (t : Tables) (userId : Str)
    (paths : List (Str × Str)) : Prop where
  read : ∀ name, (checkPullAccess env (.session ⟨userId, false⟩) name).eval t.answer = .ok () →
    t.claimed name → t.ownedBy env userId name
  write : ∀ name, (checkWriteAccess env (.session ⟨userId, false⟩) name).eval t.answer = .ok () →
    t.claimed name → t.ownedBy env userId name
  list : ∀ n : Option Int, (∀ k ∈ n, 0 < k) → ∀ fuel, t.manifests.length < fuel → ∀ path ∈ paths,
    (repositoryText path ∈ followCatalog env c t ⟨userId, false⟩ n fuel none ↔
      (checkRepoAccess env ⟨userId, false⟩ path.2).eval t.answer = .ok ())

/-! ## The pages -/

theorem mem_repositoriesAfter {r : Str} : r ∈ repositoriesAfter c t owner last ↔
    r ∈ t.manifests.map (·.repository) ∧ c.after last r ∧ t.allows (secondPart r) owner := by
  simp [repositoriesAfter]

theorem repositoriesAfter_nodup : (repositoriesAfter c t owner last).Nodup :=
  (mergeSort_perm _ _).nodup_iff.2 (nodup_dedup _)

theorem repositoriesAfter_pairwise :
    (repositoriesAfter c t owner last).Pairwise fun a b => c.le b a = false := by
  refine ((pairwise_mergeSort c.trans c.total _).and repositoriesAfter_nodup).imp ?_
  intro a b ⟨hle, hne⟩
  exact Bool.eq_false_iff.2 fun h => hne (c.antisymm a b hle h)

theorem mem_page_or_after {k : Nat} {m r : Str}
    (hm : ((repositoriesAfter c t owner last).take k).getLast? = some m) :
    r ∈ repositoriesAfter c t owner last ↔
      r ∈ (repositoriesAfter c t owner last).take k ∨ r ∈ repositoriesAfter c t owner (some m) := by
  have hpage := mem_of_getLast? hm
  have hsor : (repositoriesAfter c t owner last).Pairwise _ := repositoriesAfter_pairwise
  rw [← take_append_drop k (repositoriesAfter c t owner last), pairwise_append] at hsor
  constructor
  · intro hr
    rw [← take_append_drop k (repositoriesAfter c t owner last), mem_append] at hr
    refine hr.imp_right fun hrest => ?_
    obtain ⟨hin, -, hall⟩ := mem_repositoriesAfter.1 (mem_of_mem_drop hrest)
    exact mem_repositoriesAfter.2 ⟨hin, by simp [Collation.after, hsor.2.2 m hpage r hrest], hall⟩
  · rintro (hr | hr)
    · exact mem_of_mem_take hr
    · obtain ⟨hin, hafter, hall⟩ := mem_repositoriesAfter.1 hr
      obtain ⟨-, hlast, -⟩ := mem_repositoriesAfter.1 (mem_of_mem_take hpage)
      refine mem_repositoriesAfter.2 ⟨hin, ?_, hall⟩
      cases last with
      | none => rfl
      | some l =>
        have := c.total l m
        have := c.trans r l m
        grind [Collation.after]

theorem length_after_lt {m : Str} (hm : m ∈ repositoriesAfter c t owner last)
    (h : ∀ r ∈ repositoriesAfter c t owner (some m), r ∈ repositoriesAfter c t owner last) :
    (repositoriesAfter c t owner (some m)).length < (repositoriesAfter c t owner last).length := by
  have hnot : m ∉ repositoriesAfter c t owner (some m) := by
    have := c.total m m
    grind [mem_repositoriesAfter, Collation.after]
  exact ((nodup_cons.2 ⟨hnot, repositoriesAfter_nodup⟩).subperm (cons_subset.2 ⟨hm, h⟩)).length_le

theorem mem_followCatalog {userId : Str} {n : Option Int} (hn : ∀ k ∈ n, 0 < k) {r : Str}
    {fuel : Nat} (hfuel : (repositoriesAfter c t (env.parseUuid userId) last).length < fuel) :
    r ∈ followCatalog env c t ⟨userId, false⟩ n fuel last ↔
      r ∈ repositoriesAfter c t (env.parseUuid userId) last := by
  have hlim : 0 < n.getD 100 := by
    cases n with
    | none => decide
    | some k => exact hn k rfl
  induction fuel generalizing last with
  | zero => omega
  | succ fuel ih =>
    have hpage : catalog env c t ⟨userId, false⟩ last n =
        .ok ((repositoriesAfter c t (env.parseUuid userId) last).take
          (min (n.getD 100) 1000).toNat) := by
      simp [catalog, listRepositories, hlim.le]
    simp only [followCatalog, hpage]
    cases hm : ((repositoriesAfter c t (env.parseUuid userId) last).take
      (min (n.getD 100) 1000).toNat).getLast? with
    | none =>
      have hnone := (take_eq_nil_iff.1 (getLast?_eq_none_iff.1 hm)).resolve_left (by omega)
      simp [hnone]
    | some m =>
      have hin := mem_of_mem_take (mem_of_getLast? hm)
      have hsho := length_after_lt hin fun r hr => (mem_page_or_after hm).2 (.inr hr)
      have hnext : r ∈ followCatalog env c t ⟨userId, false⟩ n fuel (some m) ↔ _ := ih (by omega)
      rw [mem_append]
      exact (or_congr_right hnext).trans (mem_page_or_after hm).symm

/-! ## The rule -/

theorem checkRepoAccess_eval {userId name : Str} :
    (checkRepoAccess env ⟨userId, false⟩ name).eval t.answer = .ok () ↔
      t.allows name (env.parseUuid userId) := by
  unfold checkRepoAccess repoClaimStatus
  cases env.parseUuid userId with
  | none => exact iff_of_true rfl rfl
  | some owner =>
    change (if t.owns name owner || !t.claimed name then pure () else
      fail (notPermitted "access" name) : Prog Unit).eval t.answer = .ok () ↔
      (!t.claimed name || t.owns name owner) = true
    cases t.owns name owner <;> cases t.claimed name <;> simp [eval]

theorem length_repositoriesAfter :
    (repositoriesAfter c t owner last).length ≤ t.manifests.length := by
  have hded := (dedup_sublist ((t.manifests.map (·.repository)).filter fun r =>
    c.after last r && t.allows (secondPart r) owner)).length_le
  have hfil := length_filter_le (fun r => c.after last r && t.allows (secondPart r) owner)
    (t.manifests.map (·.repository))
  rw [repositoriesAfter, length_mergeSort]
  simpa using hded.trans hfil

/-- Tables with one live agent, where manifests were pushed to some paths. -/
def tablesOf (paths : List (Str × Str)) (agent : Agent) : Tables where
  refs := []
  gc := []
  manifests := paths.map fun path => ⟨[], repositoryText path, [], [], 0⟩
  tags := []
  referrers := []
  uploads := []
  agents := [agent]
  connectors := []

theorem registryRule_iff (env : Env) (c : Collation) (userId : Str) (paths : List (Str × Str)) :
    (∀ t : Tables, t.manifests.map (·.repository) = paths.map repositoryText →
      RegistryRule env c t userId paths) ↔
    (env.parseUuid userId).isSome ∧ ∀ path ∈ paths, secondPart (repositoryText path) = path.2 := by
  constructor
  · intro h
    have hpus (agent) : (tablesOf paths agent).manifests.map (·.repository) =
        paths.map repositoryText := by
      simp [tablesOf]
    have huuid : (env.parseUuid userId).isSome := by
      by_contra hnone
      rw [not_isSome_iff_eq_none] at hnone
      have hread := (h _ (hpus ⟨0, [], 0, false⟩)).read []
        (checkRepoAccess_eval.2 (by rw [hnone]; rfl)) rfl
      obtain ⟨owner, hown, -⟩ := hread
      simp [hnone] at hown
    refine ⟨huuid, fun path hpath => ?_⟩
    obtain ⟨owner, hown⟩ := isSome_iff_exists.1 huuid
    -- Somebody else owns the name of the path.
    by_contra hdif
    have hlist := (h _ (hpus ⟨0, path.2, owner + 1, false⟩)).list none (by simp) _
      (Nat.lt_succ_self _) path hpath
    rw [mem_followCatalog (by simp) (Nat.lt_succ_of_le length_repositoriesAfter),
      mem_repositoriesAfter, hpus, checkRepoAccess_eval, hown] at hlist
    simp [allows, claimed, owns, tablesOf, Collation.after,
      Ne.symm hdif] at hlist
    exact hlist path.1 path.2 hpath rfl
  · rintro ⟨huuid, hsec⟩ t ht
    obtain ⟨owner, hown⟩ := isSome_iff_exists.1 huuid
    have hrule (name) (hacc : (checkRepoAccess env ⟨userId, false⟩ name).eval t.answer = .ok ())
        (hcl : t.claimed name) : t.ownedBy env userId name := by
      rw [checkRepoAccess_eval, hown] at hacc
      exact ⟨owner, hown, by simpa [allows, hcl] using hacc⟩
    refine ⟨hrule, hrule, fun n hn fuel hfuel path hpath => ?_⟩
    rw [mem_followCatalog hn (length_repositoriesAfter.trans_lt hfuel), mem_repositoriesAfter, ht,
      checkRepoAccess_eval, hsec path hpath]
    exact ⟨fun h => h.2.2, fun h => ⟨mem_map_of_mem hpath, rfl, h⟩⟩

/-- With an id that is no UUID, an agent that belongs to another user can be read. -/
theorem reads_without_uuid :
    let t := tablesOf [] ⟨1, "mailer", 7, false⟩
    (checkPullAccess (sample []) (.session ⟨"guest", false⟩) "mailer").eval t.answer = .ok () ∧
      t.claimed "mailer" = true ∧ ¬ t.ownedBy (sample []) "guest" "mailer" :=
  ⟨checkRepoAccess_eval.2 rfl, rfl, fun ⟨_, hown, _⟩ => by cases hown⟩

end Nasiko.Oci
