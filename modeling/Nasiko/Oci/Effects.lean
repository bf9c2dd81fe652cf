import Nasiko.Oci.Routes

/-!
# What a command can change

A command of request `i` leaves the transactions and the locks of the other requests alone, makes
the writes `State.durable` part of the tables, and changes the blobs and the buffers only if it is
about them. Locks on digests and sessions have one owner at a time.
-/

namespace Nasiko.Oci

open Nasiko.Concurrency List Function State

/-! ## Links in the tables -/

namespace Tables

theorem applyAll_append (t : Tables) (ws vs : List Write) :
    t.applyAll (ws ++ vs) = (t.applyAll ws).applyAll vs := foldl_append

variable {t : Tables} {d r : Str} {ws : List Write}

theorem mem_refs_apply {w : Write} : (d, r) ∈ (t.apply w).refs ↔
      w = .insertRef d r ∨ ((d, r) ∈ t.refs ∧ w ≠ .deleteRef d r) := by
  cases w with
  | insertRef d' r' =>
    simp only [apply, ne_eq, reduceCtorEq, not_false_eq_true, and_true]
    split
    · rename_i hmem
      constructor
      · exact .inr
      · rintro (⟨rfl, rfl⟩ | h)
        · exact hmem
        · exact h
    · simp [eq_comm]
  | deleteRef d' r' =>
    simp only [apply, mem_filter, ne_eq, decide_not, Bool.not_eq_eq_eq_not, Bool.not_true,
      decide_eq_false_iff_not, reduceCtorEq, Write.deleteRef.injEq, false_or, Prod.mk.injEq]
    simp [eq_comm]
  | _ => simp [apply]

theorem insertRef_mem_or (h : (d, r) ∈ (t.applyAll ws).refs) :
    .insertRef d r ∈ ws ∨ (d, r) ∈ t.refs := by
  induction ws generalizing t with
  | nil => exact .inr h
  | cons w ws ih =>
    rcases ih h with hws | ht
    · exact .inl (mem_cons_of_mem _ hws)
    · rcases mem_refs_apply.1 ht with rfl | ⟨ht, -⟩
      · exact .inl mem_cons_self
      · exact .inr ht

theorem deleteRef_mem_or (h : (d, r) ∈ t.refs) :
    .deleteRef d r ∈ ws ∨ (d, r) ∈ (t.applyAll ws).refs := by
  induction ws generalizing t with
  | nil => exact .inr h
  | cons w ws ih =>
    by_cases hw : w = .deleteRef d r
    · exact .inl (hw ▸ mem_cons_self)
    · exact (ih (mem_refs_apply.2 (.inr ⟨h, hw⟩))).imp (mem_cons_of_mem _) id

/-- Whether a link is there after some writes depends on that link only. -/
theorem mem_refs_applyAll_congr {t' : Tables} (ws : List Write)
    (h : (d, r) ∈ t.refs ↔ (d, r) ∈ t'.refs) :
    (d, r) ∈ (t.applyAll ws).refs ↔ (d, r) ∈ (t'.applyAll ws).refs := by
  induction ws generalizing t t' with
  | nil => exact h
  | cons w ws ih => exact ih (by rw [mem_refs_apply, mem_refs_apply, h])

theorem insertManifest_mem_or {m : Manifest} (h : m ∈ (t.applyAll ws).manifests) :
    .insertManifest m ∈ ws ∨ m ∈ t.manifests := by
  induction ws generalizing t with
  | nil => exact .inr h
  | cons w ws ih =>
    rcases ih h with hws | ht
    · exact .inl (mem_cons_of_mem _ hws)
    · cases w with
      | insertManifest m' =>
        simp only [apply] at ht
        split at ht
        · exact .inr ht
        · rcases mem_cons.1 ht with rfl | ht
          · exact .inl mem_cons_self
          · exact .inr ht
      | deleteManifest r d => exact .inr (mem_filter.1 ht).1
      | _ => exact .inr ht

end Tables

variable {q : Statement} {t : Tables} {a : q.Reply} {ws : List Write} {d : Str}

theorem Statement.eval_refs {r : Str} (h : q.eval t = .ok (a, ws)) :
    (.insertRef d r ∈ ws → q = .insertRef d r) ∧ (.deleteRef d r ∈ ws → q = .deleteRef d r) := by
  cases q <;> simp only [eval] at h <;> (try split at h) <;> cases h <;>
    constructor <;> intro hmem <;> simp_all

theorem Statement.eval_manifests {m : Manifest} (h : q.eval t = .ok (a, ws))
    (hmem : .insertManifest m ∈ ws) : q = .insertManifest m := by
  cases q <;> simp only [eval] at h <;> (try split at h) <;> cases h <;>
    simp_all

namespace State

variable {s s' : State} {i j : Nat}

@[simp] theorem endTx_blobs : (s.endTx i).blobs = s.blobs := rfl
@[simp] theorem endTx_txs_self : (s.endTx i).txs i = none := update_self ..

variable {l : Lock} {ws : List Write} {ls : List Lock}

@[simp] theorem mem_endTx_locks : (l, j) ∈ (s.endTx i).locks ↔ (l, j) ∈ s.locks ∧ j ≠ i := by
  simp [endTx]

theorem endTx_txs_of_ne (h : j ≠ i) : (s.endTx i).txs j = s.txs j := update_of_ne h ..

@[simp] theorem record_blobs : (s.record i ws ls).blobs = s.blobs := by
  unfold record
  split <;> rfl

theorem record_of_some {old : List Write} (h : s.txs i = some old) : s.record i ws ls = { s with
        txs := update s.txs i (some (old ++ ws))
        locks := ls.map (fun l => (l, i)) ++ s.locks } := by
  rw [record, h]

theorem record_of_none (h : s.txs i = none) :
    s.record i ws ls = { s with tables := s.tables.applyAll ws } := by
  rw [record, h]

theorem record_txs_of_ne (h : j ≠ i) : (s.record i ws ls).txs j = s.txs j := by
  unfold record
  split
  · exact update_of_ne h ..
  · rfl

theorem mem_record_locks (h : (l, j) ∈ (s.record i ws ls).locks) :
    (l, j) ∈ s.locks ∨ (j = i ∧ l ∈ ls) := by
  unfold record at h
  split at h
  · simp only [mem_append, mem_map] at h
    rcases h with ⟨l', hl, rfl, rfl⟩ | h
    · exact .inr ⟨rfl, hl⟩
    · exact .inl h
  · exact .inl h

theorem mem_record_locks_of_mem {x : Lock × Nat} (h : x ∈ s.locks) :
    x ∈ (s.record i ws ls).locks := by
  unfold record
  split
  · exact mem_append_right _ h
  · exact h

theorem record_nil (s : State) (i : Nat) (ls : List Lock) :
    (s.record i [] ls).txs = s.txs ∧ (s.record i [] ls).tables = s.tables := by
  cases htx : s.txs i with
  | none => exact ⟨by rw [record_of_none htx], by rw [record_of_none htx]; rfl⟩
  | some old =>
    rw [record_of_some htx, append_nil, ← htx]
    exact ⟨update_eq_self .., rfl⟩

theorem view_of_none (h : s.txs i = none) : s.view i = s.tables := by rw [view, h]

theorem view_of_some (h : s.txs i = some ws) : s.view i = s.tables.applyAll ws := by rw [view, h]

theorem eq_of_free (h : s.free i l = true) (hmem : (l, j) ∈ s.locks) : j = i := by
  have := all_eq_true.1 h (l, j) hmem
  simpa using this

/-! ## Statements -/

theorem execSql_cases {o : Outcome} {r : Except OciError q.Reply}
    (h : s.execSql i q o = some (r, s')) :
    ((∃ e, r = .error e) ∧ s' = s.endTx i ∧ (o = .failed ∨ ∃ e, q.eval (s.view i) = .error e)) ∨
    (∃ a ws, q.eval (s.view i) = .ok (a, ws) ∧ (q.waitsFor (s.view i)).all (s.free i) = true ∧
      ((o = .lost ∧ (∃ e, r = .error e) ∧ s' = (s.record i ws q.takes).endTx i) ∨
        (o = .done ∧ r = .ok a ∧ s' = s.record i ws q.takes))) := by
  have hrun : ∀ o, o ≠ .failed → s.execSql i q o = some (r, s') →
      ((∃ e, r = .error e) ∧ s' = s.endTx i ∧ ∃ e, q.eval (s.view i) = .error e) ∨
      (∃ a ws, q.eval (s.view i) = .ok (a, ws) ∧ (q.waitsFor (s.view i)).all (s.free i) = true ∧
        ((o = .lost ∧ (∃ e, r = .error e) ∧ s' = (s.record i ws q.takes).endTx i) ∨
          (o ≠ .lost ∧ r = .ok a ∧ s' = s.record i ws q.takes))) := by
    intro o ho h
    simp only [execSql] at h
    split at h
    · rename_i hfr
      cases hev : q.eval (s.view i) with
      | error e =>
        rw [hev] at h
        cases h
        exact .inl ⟨⟨e, rfl⟩, rfl, e, rfl⟩
      | ok x =>
        obtain ⟨a, ws⟩ := x
        rw [hev] at h
        refine .inr ⟨a, ws, rfl, hfr, ?_⟩
        by_cases hlost : o = .lost
        · simp only [hlost, ↓reduceIte, Option.some.injEq, Prod.mk.injEq] at h
          exact .inl ⟨hlost, ⟨_, h.1.symm⟩, h.2.symm⟩
        · simp only [hlost, ↓reduceIte, Option.some.injEq, Prod.mk.injEq] at h
          exact .inr ⟨hlost, h.1.symm, h.2.symm⟩
    · cases h
  cases o with
  | failed =>
    simp only [execSql, Option.some.injEq, Prod.mk.injEq] at h
    exact .inl ⟨⟨_, h.1.symm⟩, h.2.symm, .inl rfl⟩
  | done =>
    rcases hrun .done (by decide) h with ⟨hr, hs, he⟩ | ⟨a, ws, hev, hfr, hend⟩
    · exact .inl ⟨hr, hs, .inr he⟩
    · exact .inr ⟨a, ws, hev, hfr, hend.imp id fun x => ⟨rfl, x.2⟩⟩
  | lost =>
    rcases hrun .lost (by decide) h with ⟨hr, hs, he⟩ | ⟨a, ws, hev, hfr, hend⟩
    · exact .inl ⟨hr, hs, .inr he⟩
    · refine .inr ⟨a, ws, hev, hfr, hend.imp id fun x => absurd rfl x.1⟩

end State

/-! ## Commands -/

/-- The commands whose failure ends the transaction. -/
def Command.inDatabase : Command → Bool
  | .sql _ | .begin | .commit | .lockBlobDigest _ | .selectOffsetForUpdate _ _ => true
  | _ => false

/-- The commands of the storage that say so when they fail. -/
def Command.inStorage : Command → Bool
  | .putBlob _ _ | .getBlob _ | .blobSize _ | .deleteBlob _ => true
  | _ => false

/-- All that a command of request `i` can do. -/
inductive Effect (env : Env) (s : State) (i : Nat) :
    (c : Command) → Outcome → Except OciError (Reply c) → State → Prop where
  | aborted (c : Command) (o : Outcome) (e : OciError) (hc : c.inDatabase = true)
      (ho : c = .commit → o = .failed) : Effect env s i c o (.error e) (s.endTx i)
  | sqlDone (q : Statement) (a : q.Reply) (ws : List Write)
      (heval : q.eval (s.view i) = .ok (a, ws))
      (hfree : (q.waitsFor (s.view i)).all (s.free i) = true) :
      Effect env s i (.sql q) .done (.ok a) (s.record i ws q.takes)
  | sqlLost (q : Statement) (a : q.Reply) (ws : List Write) (e : OciError)
      (heval : q.eval (s.view i) = .ok (a, ws))
      (hfree : (q.waitsFor (s.view i)).all (s.free i) = true) :
      Effect env s i (.sql q) .lost (.error e) ((s.record i ws q.takes).endTx i)
  | begin : Effect env s i .begin .done (.ok ())
      { s.endTx i with txs := Function.update s.txs i (some []) }
  | commit (o : Outcome) (r : Except OciError Unit) (ho : o ≠ .failed) :
      Effect env s i .commit o r (s.commitTx i)
  | rollback (o : Outcome) : Effect env s i .rollback o (.ok ()) (s.endTx i)
  | lock (d : Str) (hfree : s.free i (.digest (env.hashtext d)) = true) :
      Effect env s i (.lockBlobDigest d) .done (.ok ()) (s.record i [] [.digest (env.hashtext d)])
  | noSession (u : Uuid) (r : Str) (hnone : (s.view i).uploadOf? u r = none) :
      Effect env s i (.selectOffsetForUpdate u r) .done (.ok none) s
  | session (u : Uuid) (r : Str) (x : Upload) (hx : (s.view i).uploadOf? u r = some x)
      (hfree : s.free i (.upload u) = true) :
      Effect env s i (.selectOffsetForUpdate u r) .done (.ok (some x.offsetBytes))
        (s.record i [] [.upload u])
  | blobExists (d : Str) (o : Outcome) (b : Bool) (hb : b = true → (s.blobs (blobKey d)).isSome) :
      Effect env s i (.blobExists d) o (.ok b) s
  | putBlob (d : Str) (b : Bytes) (o : Outcome) (r : Except OciError Nat) (ho : o ≠ .failed) :
      Effect env s i (.putBlob d b) o r
        { s with blobs := Function.update s.blobs (blobKey d) (some b) }
  | getBlob (d : Str) (b : Bytes) (o : Outcome) (hb : s.blobs (blobKey d) = some b) :
      Effect env s i (.getBlob d) o (.ok b) s
  | blobSize (d : Str) (b : Bytes) (o : Outcome) (hb : s.blobs (blobKey d) = some b) :
      Effect env s i (.blobSize d) o (.ok b.length) s
  | deleteBlob (d : Str) (o : Outcome) (r : Except OciError Unit) (ho : o ≠ .failed) :
      Effect env s i (.deleteBlob d) o r
        { s with blobs := Function.update s.blobs (blobKey d) none }
  | storageError (c : Command) (o : Outcome) (e : OciError) (hc : c.inStorage = true) :
      Effect env s i c o (.error e) s
  | extendBuffer (u : Uuid) (b : Bytes) (o : Outcome) :
      Effect env s i (.extendBuffer u b) o (.ok ())
        { s with buffers := Function.update s.buffers u (some ((s.buffers u).getD [] ++ b)) }
  | removeBuffer (u : Uuid) (o : Outcome) :
      Effect env s i (.removeBuffer u) o (.ok (s.buffers u))
        { s with buffers := Function.update s.buffers u none }

variable {env : Env} {s s' : State} {i j : Nat} {c : Command} {o : Outcome}
  {r : Except OciError (Reply c)}
  {ls : List Lock}

theorem effect_execSql {r : Except OciError q.Reply} (h : s.execSql i q o = some (r, s')) :
    Effect env s i (.sql q) o r s' := by
  rcases execSql_cases h with ⟨⟨e, rfl⟩, rfl, -⟩ | ⟨a, ws, hev, hfr, hend⟩
  · exact .aborted (.sql q) o e rfl (by simp)
  · rcases hend with ⟨rfl, ⟨e, rfl⟩, rfl⟩ | ⟨rfl, rfl, rfl⟩
    · exact .sqlLost q a ws e hev hfr
    · exact .sqlDone q a ws hev hfr

theorem effect_of_exec (h : s.exec env i c o = some (r, s')) : Effect env s i c o r s' := by
  cases c with
  | sql q => exact effect_execSql h
  | begin =>
    simp only [exec] at h
    split at h
    · rename_i ho
      cases h
      exact ho ▸ .begin
    · cases h
      exact .aborted .begin o _ rfl (by simp)
  | commit =>
    cases o with
    | done => cases h; exact .commit _ _ (by decide)
    | failed => cases h; exact .aborted .commit _ _ rfl fun _ => rfl
    | lost => cases h; exact .commit _ _ (by decide)
  | rollback => cases h; exact .rollback o
  | lockBlobDigest d =>
    simp only [exec] at h
    split at h
    · rename_i ho
      split at h
      · rename_i hfr
        cases h
        exact ho ▸ .lock d hfr
      · cases h
    · cases h
      exact .aborted (.lockBlobDigest d) o _ rfl (by simp)
  | selectOffsetForUpdate u r =>
    simp only [exec] at h
    split at h
    · rename_i ho
      split at h
      · rename_i hnone
        cases h
        exact ho ▸ .noSession u r hnone
      · rename_i x hx
        split at h
        · rename_i hfr
          cases h
          exact ho ▸ .session u r x hx hfr
        · cases h
    · cases h
      exact .aborted (.selectOffsetForUpdate u r) o _ rfl (by simp)
  | blobExists d =>
    cases h
    refine .blobExists d o _ fun hb => ?_
    split at hb
    · exact hb
    · cases hb
  | putBlob d b =>
    cases o with
    | done => cases h; exact .putBlob d b _ _ (by decide)
    | failed => cases h; exact .storageError (.putBlob d b) _ _ rfl
    | lost => cases h; exact .putBlob d b _ _ (by decide)
  | getBlob d =>
    simp only [exec] at h
    split at h
    · rename_i b hb
      cases h
      exact .getBlob d b _ hb
    all_goals
      cases h
      exact .storageError (.getBlob d) _ _ rfl
  | blobSize d =>
    simp only [exec] at h
    split at h
    · rename_i b hb
      cases h
      exact .blobSize d b _ hb
    · cases h
      exact .storageError (.blobSize d) _ _ rfl
  | deleteBlob d =>
    cases o with
    | done => cases h; exact .deleteBlob d _ _ (by decide)
    | failed => cases h; exact .storageError (.deleteBlob d) _ _ rfl
    | lost => cases h; exact .deleteBlob d _ _ (by decide)
  | extendBuffer u b => cases h; exact .extendBuffer u b o
  | removeBuffer u => cases h; exact .removeBuffer u o

/-! ## The other requests -/

/-- The transaction and the locks of request `j` are the same in both states. -/
def Untouched (s s' : State) (j : Nat) : Prop :=
  s'.txs j = s.txs j ∧ ∀ l, (l, j) ∈ s'.locks ↔ (l, j) ∈ s.locks

theorem Untouched.trans {s'' : State} (h : Untouched s s' j) (h' : Untouched s' s'' j) :
    Untouched s s'' j :=
  ⟨h'.1.trans h.1, fun l => (h'.2 l).trans (h.2 l)⟩

theorem untouched_endTx (hj : j ≠ i) : Untouched s (s.endTx i) j :=
  ⟨endTx_txs_of_ne hj, fun l => by simp [hj]⟩

theorem untouched_record (hj : j ≠ i) : Untouched s (s.record i ws ls) j := by
  refine ⟨record_txs_of_ne hj, fun l => ⟨fun h => ?_, mem_record_locks_of_mem⟩⟩
  rcases mem_record_locks h with h | ⟨rfl, -⟩
  · exact h
  · exact absurd rfl hj

theorem Effect.untouched (h : Effect env s i c o r s') (hj : j ≠ i) : Untouched s s' j := by
  cases h with
  | aborted => exact untouched_endTx hj
  | sqlDone => exact untouched_record hj
  | sqlLost => exact (untouched_record hj).trans (untouched_endTx hj)
  | begin =>
    exact ⟨update_of_ne hj .., (untouched_endTx hj).2⟩
  | commit => exact untouched_endTx hj
  | rollback => exact untouched_endTx hj
  | lock | session => exact untouched_record hj
  | _ => exact ⟨rfl, fun l => Iff.rfl⟩

/-! ## Locks -/

/-- The locks that only one request can hold. -/
def Lock.exclusive : Lock → Bool
  | .referenced _ _ => false
  | _ => true

/-- No lock of a digest or a session has two owners. -/
def Exclusive (s : State) : Prop :=
  ∀ l i j, l.exclusive = true → (l, i) ∈ s.locks → (l, j) ∈ s.locks → i = j

theorem Exclusive.endTx (h : Exclusive s) : Exclusive (s.endTx i) := fun l j k hl hj hk =>
  h l j k hl (mem_endTx_locks.1 hj).1 (mem_endTx_locks.1 hk).1

theorem Exclusive.record (h : Exclusive s)
    (hls : ∀ l ∈ ls, l.exclusive = true → s.free i l = true) : Exclusive (s.record i ws ls) := by
  intro l j k hl hj hk
  rcases mem_record_locks hj with hold | ⟨hji, hnew⟩ <;>
    rcases mem_record_locks hk with hold' | ⟨hki, hnew'⟩
  · exact h l j k hl hold hold'
  · exact (eq_of_free (hls l hnew' hl) hold).trans hki.symm
  · exact hji.trans (eq_of_free (hls l hnew hl) hold').symm
  · exact hji.trans hki.symm

/-- A statement waits for every lock it takes, unless others may hold it too. -/
theorem Statement.takes_free {l : Lock} (hl : l ∈ q.takes) (hexc : l.exclusive = true) :
    l ∈ q.waitsFor t := by
  cases q with
  | updateOffset n u => exact hl
  | upsertTag x | insertReferrer x =>
    obtain rfl := mem_singleton.1 hl
    cases hexc
  | _ => cases hl

theorem Effect.exclusive (h : Effect env s i c o r s') (hs : Exclusive s) : Exclusive s' := by
  have hsql : ∀ (q : Statement) (ws : List Write),
      (q.waitsFor (s.view i)).all (s.free i) = true → Exclusive (s.record i ws q.takes) :=
    fun q ws hfr => hs.record fun l hl hexc =>
      all_eq_true.1 hfr l (Statement.takes_free hl hexc)
  cases h with
  | aborted => exact hs.endTx
  | sqlDone q a ws hev hfr => exact hsql q ws hfr
  | sqlLost q a ws e hev hfr => exact (hsql q ws hfr).endTx
  | begin | commit => exact hs.endTx
  | rollback => exact hs.endTx
  | lock d hfr
  | session u r x hx hfr => exact hs.record fun l hl _ => mem_singleton.1 hl ▸ hfr
  | _ => exact hs

/-! ## Tables, blobs and buffers -/

/-- The tables change by a commit, or by a statement outside a transaction. -/
theorem Effect.tables (h : Effect env s i c o r s') : s'.tables = s.tables ∨
    (c = .commit ∧ o ≠ .failed ∧ s'.tables = s.view i) ∨
    (∃ q a ws, c = .sql q ∧ s.txs i = none ∧ q.eval s.tables = .ok (a, ws) ∧
      s'.tables = s.tables.applyAll ws) := by
  have hsql : ∀ (q : Statement) (a : q.Reply) (ws : List Write),
      q.eval (s.view i) = .ok (a, ws) → (s.record i ws q.takes).tables = s.tables ∨
        (s.txs i = none ∧ q.eval s.tables = .ok (a, ws) ∧
          (s.record i ws q.takes).tables = s.tables.applyAll ws) := by
    intro q a ws hev
    cases htx : s.txs i with
    | some old => exact .inl (by rw [record_of_some htx])
    | none =>
      rw [view_of_none htx] at hev
      exact .inr ⟨rfl, hev, by rw [record_of_none htx]⟩
  cases h with
  | sqlDone q a ws hev
  | sqlLost q a ws e hev => exact (hsql q a ws hev).imp id fun h => .inr ⟨q, a, ws, rfl, h⟩
  | commit o r ho => exact .inr (.inl ⟨rfl, ho, rfl⟩)
  | lock | session => exact .inl (record_nil ..).2
  | _ => exact .inl rfl

theorem Effect.commit_tables {r : Except OciError Unit} (h : Effect env s i .commit o r s')
    (ho : o ≠ .failed) : s'.tables = s.view i := by
  cases h with
  | aborted _ _ _ _ hfai => exact absurd (hfai rfl) ho
  | commit => rfl
  | storageError _ _ _ hc => cases hc

theorem Effect.sql_ok (h : Effect env s i (.sql q) o (.ok a) s') :
    ∃ ws, q.eval (s.view i) = .ok (a, ws) := by
  cases h with
  | sqlDone _ _ ws hev => exact ⟨ws, hev⟩

theorem Effect.putBlob_ok {data : Bytes} {n : Nat}
    (h : Effect env s i (.putBlob d data) o (.ok n) s') : o ≠ .failed := by
  cases h with
  | putBlob _ _ _ _ ho => exact ho

/-- The writes that wait for a commit: none, the same as before, or those of a statement more. -/
theorem Effect.pending (h : Effect env s i c o r s') (hws : s'.txs i = some ws) :
    ws = [] ∨ s.txs i = some ws ∨
    (∃ q a old vs, c = .sql q ∧ s.txs i = some old ∧ q.eval (s.view i) = .ok (a, vs) ∧
      ws = old ++ vs) := by
  have hnone : ∀ t : State, (t.endTx i).txs i = some ws → False := fun t ht => by
    rw [endTx_txs_self] at ht
    cases ht
  cases h with
  | aborted => exact (hnone s hws).elim
  | sqlDone q a vs hev =>
    cases htx : s.txs i with
    | none =>
      rw [record_of_none htx] at hws
      exact absurd (htx.symm.trans hws) (by simp)
    | some old =>
      rw [record_of_some htx] at hws
      have heq : old ++ vs = ws := by simpa using hws
      exact .inr (.inr ⟨q, a, old, vs, rfl, rfl, hev, heq.symm⟩)
  | sqlLost q a vs => exact (hnone (s.record i vs q.takes) hws).elim
  | begin =>
    have heq : [] = ws := by simpa using hws
    exact .inl heq.symm
  | commit | rollback => exact (hnone s hws).elim
  | lock | session => exact .inr (.inl ((record_nil ..).1 ▸ hws))
  | _ => exact .inr (.inl hws)

theorem Effect.blobs_isSome {key : Str} (h : Effect env s i c o r s')
    (hkey : (s.blobs key).isSome) (hc : ∀ d, c = .deleteBlob d → blobKey d ≠ key) :
    (s'.blobs key).isSome := by
  cases h with
  | sqlDone | sqlLost | lock | session => simpa using hkey
  | putBlob d b =>
    by_cases hd : key = blobKey d
    · simp [hd]
    · simpa [update_of_ne hd] using hkey
  | deleteBlob d => simpa [update_of_ne (hc d rfl).symm] using hkey
  | _ => exact hkey

end Nasiko.Oci
