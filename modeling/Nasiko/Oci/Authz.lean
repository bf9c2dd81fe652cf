import Nasiko.Oci.Store

/-!
# Who may do what

The registry knows a repository by the name of an agent. A session may use a repository whose name
it owns or that no live agent has; it may delete only from one it owns. A pull credential is bound
to one agent or connector, and the build service may read and write everywhere.
-/

namespace Nasiko.Oci

open Nasiko.Concurrency Program

/-- A request of the registry, as a program over its commands. -/
abbrev Prog (α : Type) := Program Command Reply OciError α

def sql (q : Statement) : Prog q.Reply := perform (Command.sql q)

structure CallerIdentity where
  userId : Str
  isSuperuser : Bool
  deriving DecidableEq

/-- Who may ask for a read. -/
inductive Caller where
  | session (identity : CallerIdentity)
  | pullOnly (agentId : Uuid)
  | buildService
  deriving DecidableEq

/-- Who may ask for a write. -/
inductive Writer where
  | session (identity : CallerIdentity)
  | buildService
  deriving DecidableEq

variable (env : Env) (caller : CallerIdentity)

/-- Whether the caller owns an agent of this name, and whether anyone does. -/
def repoClaimStatus (repo : Str) : Prog (Bool × Bool) :=
  match env.parseUuid caller.userId with
  | none => pure (false, false)
  | some owner => sql (.claimStatus repo owner)

def notPermitted (what repo : Str) : OciError :=
  .forbidden ("not permitted to " ++ what ++ " repository '" ++ repo ++ "'")

def checkRepoAccess (repo : Str) : Prog Unit :=
  if caller.isSuperuser then pure ()
  else do
    let (owns, claimed) ← repoClaimStatus env caller repo
    if owns || !claimed then pure () else fail (notPermitted "access" repo)

def checkPullAccess (caller : Caller) (repo : Str) : Prog Unit :=
  match caller with
  | .session identity => checkRepoAccess env identity repo
  | .pullOnly agentId => do
    let agent ← sql (.agentName agentId)
    let bound ← match agent with
      | some name => pure (some name)
      | none => sql (.connectorName agentId)
    if bound = some repo then pure () else fail (notPermitted "access" repo)
  | .buildService => pure ()

def checkWriteAccess (writer : Writer) (repo : Str) : Prog Unit :=
  match writer with
  | .session identity => checkRepoAccess env identity repo
  | .buildService => pure ()

/-- Unlike the other checks, a name that nobody owns is not enough. -/
def checkRepoDeleteAccess (repo : Str) : Prog Unit :=
  if caller.isSuperuser then pure ()
  else do
    let (owns, _) ← repoClaimStatus env caller repo
    if owns then pure () else fail (notPermitted "delete from" repo)

end Nasiko.Oci
