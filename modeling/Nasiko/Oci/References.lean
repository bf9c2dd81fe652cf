import Nasiko.Oci.Links

/-!
# Every link has its bytes

What a request knows by the protocol of `Links` is true of the state (`HoldOk`): the digests it has
locked are locked, so that no other request changes their links (`Tied.of_ne`). The bytes of a
digest are removed under the lock of that digest only, but a digest that differs in `:` and `/` has
its own links and its own lock and the same object. Where no object is removed that way
(`SweepsOne`), no step breaks the invariant that every committed link has its bytes.
-/

namespace Nasiko.Oci

open Nasiko.Concurrency List Function Except Prod Statement Action

/-- What a request knows inside its transaction, and the writes that wait there. -/
structure HoldOk (env : Env) (s : State) (i : Nat) (q : Request) (ws : List Write) (a : Hold) :
    Prop where
  inserts : ∀ d r, .insertRef d r ∈ ws → d ∈ a.present
  deletes : ∀ d r, .deleteRef d r ∈ ws → d ∈ a.dropped ∧ d ∈ a.held ∧ q.Deletes d r
  manifests : ∀ m, .insertManifest m ∈ ws → q.Pushes env m
  locked : ∀ d ∈ a.held, (.digest (env.hashtext d), i) ∈ s.locks
  present : ∀ d ∈ a.present, d ∈ a.held
  unlinked : ∀ d ∈ a.unlinked, d ∈ a.held ∧ ∀ r, (d, r) ∉ (s.tables.applyAll ws).refs
  claimed : ∀ d r, (d, r) ∈ a.claimed → d ∈ a.held ∧ (d, r) ∈ (s.tables.applyAll ws).refs

/-- The transaction of a request is what its context says. -/
def Tied (env : Env) (s : State) (i : Nat) (x : LinkCtx) : Prop :=
  match x.hold with
  | some a => ∃ ws, s.txs i = some ws ∧ HoldOk env s i x.request ws a
  | none => s.txs i = none

variable {env : Env} {s s' : State} {i j : Nat} {c : Command} {o : Outcome}
  {r : Except OciError (Reply c)} {x y : LinkCtx} {q : Request} {a : Hold} {d repository : Str}
  {ws vs : List Write} {cmd : Command}

theorem Tied.some (h : Tied env s i x) (ha : x.hold = some a) :
    ∃ ws, s.txs i = .some ws ∧ HoldOk env s i x.request ws a := by
  rw [Tied, ha] at h
  exact h

theorem Tied.none (h : Tied env s i x) (hx : x.hold = none) : s.txs i = .none := by
  rw [Tied, hx] at h
  exact h

theorem tied_none (hx : x.hold = none) (h : s.txs i = none) : Tied env s i x := by
  rw [Tied, hx]
  exact h

theorem Tied.hold_none (h : Tied env s i x) (htx : s.txs i = .none) : x.hold = .none := by
  cases hx : x.hold with
  | none => rfl
  | some a =>
    obtain ⟨ws, hws, -⟩ := h.some hx
    rw [htx] at hws
    cases hws

/-! ## Who changes links -/

/-- A new link comes from the commit of a request that has seen the bytes. -/
theorem link_added (h : Effect env s i c o r s') (hx : Tied env s i x) (hal : x.allow env c)
    (hmem : (d, repository) ∈ s'.tables.refs) :
    (d, repository) ∈ s.tables.refs ∨ (c = .commit ∧ ∃ a, x.hold = some a ∧ d ∈ a.present) := by
  rcases h.tables with htab | ⟨rfl, -, htab⟩ | ⟨q, a, ws, rfl, htx, hev, htab⟩ <;>
    rw [htab] at hmem
  · exact .inl hmem
  · obtain ⟨a, ha, -⟩ := hal
    obtain ⟨ws, hws, hok⟩ := hx.some ha
    rw [State.view_of_some hws] at hmem
    rcases Tables.insertRef_mem_or hmem with hmem | hmem
    · exact .inr ⟨rfl, a, ha, hok.inserts d repository hmem⟩
    · exact .inl hmem
  · rcases Tables.insertRef_mem_or hmem with hmem | hmem
    · obtain rfl := (eval_refs hev).1 hmem
      obtain ⟨a, ha, -⟩ := hal
      rw [hx.hold_none htx] at ha
      cases ha
    · exact .inl hmem

/-- A link is removed by the commit of a request that deletes the blob and has locked its digest. -/
theorem link_removed (h : Effect env s i c o r s') (hx : Tied env s i x) (hal : x.allow env c)
    (hmem : (d, repository) ∈ s.tables.refs) :
    (d, repository) ∈ s'.tables.refs ∨
      (c = .commit ∧ x.request.Deletes d repository ∧ ∃ a, x.hold = some a ∧ d ∈ a.held) := by
  rcases h.tables with htab | ⟨rfl, -, htab⟩ | ⟨q, a, ws, rfl, htx, hev, htab⟩ <;>
    rw [htab]
  · exact .inl hmem
  · obtain ⟨a, ha, -⟩ := hal
    obtain ⟨ws, hws, hok⟩ := hx.some ha
    rw [State.view_of_some hws]
    rcases Tables.deleteRef_mem_or hmem with hdel | hmem
    · obtain ⟨-, hhe, hdlt⟩ := hok.deletes d repository hdel
      exact .inr ⟨rfl, hdlt, a, ha, hhe⟩
    · exact .inl hmem
  · rcases Tables.deleteRef_mem_or hmem with hdel | hmem
    · obtain rfl := (eval_refs hev).2 hdel
      obtain ⟨⟨a, ha, -⟩, -⟩ := hal
      rw [hx.hold_none htx] at ha
      cases ha
    · exact .inl hmem

theorem held_disjoint (hs : Exclusive s) (hx : Tied env s i x) (hy : Tied env s j y) (hij : j ≠ i)
    {b : Hold} (ha : x.hold = some a) (hb : y.hold = some b) (hda : d ∈ a.held) (hdb : d ∈ b.held) :
    False := by
  obtain ⟨ws, -, hok⟩ := hx.some ha
  obtain ⟨vs, -, hok'⟩ := hy.some hb
  exact hij (hs _ j i rfl (hok'.locked d hdb) (hok.locked d hda))

/-! ## The other requests -/

/-- What a request knows stays true while nobody touches what it has locked. -/
theorem HoldOk.frame (h : HoldOk env s i q ws a) (hloc : ∀ l, (l, i) ∈ s.locks → (l, i) ∈ s'.locks)
    (hrefs : ∀ d ∈ a.held, ∀ r, (d, r) ∈ s.tables.refs ↔ (d, r) ∈ s'.tables.refs) :
    HoldOk env s' i q ws a where
  inserts := h.inserts
  deletes := h.deletes
  manifests := h.manifests
  locked d hd := hloc _ (h.locked d hd)
  present := h.present
  unlinked d hd := by
    obtain ⟨hhe, hnone⟩ := h.unlinked d hd
    refine ⟨hhe, fun r hr => hnone r ?_⟩
    exact (Tables.mem_refs_applyAll_congr ws (hrefs d hhe r)).2 hr
  claimed d r hd := by
    obtain ⟨hhe, hmem⟩ := h.claimed d r hd
    exact ⟨hhe, (Tables.mem_refs_applyAll_congr ws (hrefs d hhe r)).1 hmem⟩

theorem Tied.frame (hx : Tied env s i x) (htxs : s'.txs i = s.txs i)
    (hloc : ∀ l, (l, i) ∈ s.locks → (l, i) ∈ s'.locks) (htab : s'.tables = s.tables) :
    Tied env s' i x := by
  cases ha : x.hold with
  | none => exact tied_none ha (htxs.trans (hx.none ha))
  | some a =>
    obtain ⟨ws, hws, hok⟩ := hx.some ha
    rw [Tied, ha]
    exact ⟨ws, htxs.trans hws, hok.frame hloc fun d _ r => by rw [htab]⟩

theorem Tied.of_ne (hs : Exclusive s) (h : Effect env s i c o r s') (hx : Tied env s i x)
    (hal : x.allow env c) (hij : j ≠ i) (hy : Tied env s j y) : Tied env s' j y := by
  obtain ⟨htxs, hloc⟩ := h.untouched hij
  cases hb : y.hold with
  | none => exact tied_none hb (htxs.trans (hy.none hb))
  | some b =>
    obtain ⟨ws, hws, hok⟩ := hy.some hb
    rw [Tied, hb]
    refine ⟨ws, htxs.trans hws, hok.frame (fun l hl => (hloc l).2 hl) fun d hd repository => ?_⟩
    constructor
    · intro hmem
      rcases link_removed h hx hal hmem with hmem | ⟨-, -, a, ha, hhe⟩
      · exact hmem
      · exact (held_disjoint hs hx hy hij ha hb hhe hd).elim
    · intro hmem
      rcases link_added h hx hal hmem with hmem | ⟨-, a, ha, hpre⟩
      · exact hmem
      · obtain ⟨vs, -, hok'⟩ := hx.some ha
        exact (held_disjoint hs hx hy hij ha hb (hok'.present d hpre) hd).elim

/-! ## The request itself -/

/-- More writes. What is known stays true, except for a digest that was linked, which is no longer
unlinked, and for a link that was removed. -/
theorem HoldOk.append {unlinked dropped : List Str} {claimed : List (Str × Str)}
    (h : HoldOk env s i q ws a) (hinse : ∀ d r, .insertRef d r ∈ vs → d ∈ a.present)
    (hdele : ∀ d r, .deleteRef d r ∈ vs → d ∈ dropped ∧ d ∈ a.held ∧ q.Deletes d r)
    (hman : ∀ m, .insertManifest m ∈ vs → q.Pushes env m)
    (hunl : ∀ d ∈ unlinked, d ∈ a.unlinked ∧ ∀ r, .insertRef d r ∉ vs)
    (hcl : ∀ d r, (d, r) ∈ claimed → (d, r) ∈ a.claimed ∧ .deleteRef d r ∉ vs ∨
      d ∈ a.held ∧ (d, r) ∈ (s.tables.applyAll (ws ++ vs)).refs) (hdro : a.dropped ⊆ dropped) :
    HoldOk env s i q (ws ++ vs)
      { a with unlinked := unlinked, claimed := claimed, dropped := dropped } where
  inserts d r hmem := (mem_append.1 hmem).elim (h.inserts d r) (hinse d r)
  deletes d r hmem := (mem_append.1 hmem).elim
    (fun hmem => (h.deletes d r hmem).imp_left fun hd => hdro hd) (hdele d r)
  manifests m hmem := (mem_append.1 hmem).elim (h.manifests m) (hman m)
  locked := h.locked
  present := h.present
  unlinked d hd := by
    obtain ⟨hd, hnot⟩ := hunl d hd
    obtain ⟨hhe, hnone⟩ := h.unlinked d hd
    refine ⟨hhe, fun r hr => hnone r ?_⟩
    rw [Tables.applyAll_append] at hr
    exact (Tables.insertRef_mem_or hr).resolve_left (hnot r)
  claimed d r hmem := by
    rcases hcl d r hmem with ⟨hmem, hnot⟩ | hnew
    · obtain ⟨hhe, hmem⟩ := h.claimed d r hmem
      refine ⟨hhe, ?_⟩
      rw [Tables.applyAll_append]
      exact (Tables.deleteRef_mem_or hmem).resolve_left hnot
    · exact hnew

/-- Every statement that the protocol allows adds only what is true. -/
theorem HoldOk.learn {st : Statement} {b : st.Reply} (h : HoldOk env s i x.request ws a)
    (ha : x.hold = some a) (hal : x.allow env (.sql st))
    (hev : st.eval (s.tables.applyAll ws) = .ok (b, vs)) :
    HoldOk env s i x.request (ws ++ vs) (a.learn st b) := by
  have hins : ∀ d r, .insertRef d r ∈ vs → st = .insertRef d r :=
    fun d r => (eval_refs hev).1
  have hdlt : ∀ d r, .deleteRef d r ∈ vs → st = .deleteRef d r :=
    fun d r => (eval_refs hev).2
  have hman : ∀ m, .insertManifest m ∈ vs → x.request.Pushes env m := by
    intro m hmem
    obtain rfl := eval_manifests hev hmem
    exact hal.2
  -- A statement about something else.
  have hoth : (∀ d r, st ≠ .insertRef d r) → (∀ d r, st ≠ .deleteRef d r) →
      HoldOk env s i x.request (ws ++ vs) a := by
    intro hinse hdele
    exact h.append (fun d r hmem => absurd (hins d r hmem) (hinse d r))
      (fun d r hmem => absurd (hdlt d r hmem) (hdele d r)) hman
      (fun d hd => ⟨hd, fun r hmem => hinse d r (hins d r hmem)⟩)
      (fun d r hd => .inl ⟨hd, fun hmem => hdele d r (hdlt d r hmem)⟩) fun _ hd => hd
  cases st with
  | insertRef d repository =>
    obtain ⟨a', ha', hpre⟩ := hal
    cases ha.symm.trans ha'
    refine h.append (fun d' r hmem => ?_) (fun d' r hmem => by cases hdlt d' r hmem) hman
      (fun d' hd' => ?_) (fun d' r hmem => ?_) fun _ hd => hd
    · cases hins d' r hmem
      exact hpre
    · obtain ⟨hd', hne⟩ := mem_filter.1 hd'
      refine ⟨hd', fun r hmem => ?_⟩
      cases hins d' r hmem
      exact of_decide_eq_true hne rfl
    · rcases mem_cons.1 hmem with heq | hmem
      · cases heq
        refine .inr ⟨h.present d hpre, ?_⟩
        simp only [Statement.eval, ok.injEq, mk.injEq, true_and] at hev
        rw [Tables.applyAll_append, ← hev]
        split
        · assumption
        · exact Tables.mem_refs_apply.2 (.inl rfl)
      · exact .inl ⟨hmem, fun hdel => by cases hdlt d' r hdel⟩
  | deleteRef d repository =>
    obtain ⟨⟨a', ha', hhe⟩, hq⟩ := hal
    cases ha.symm.trans ha'
    refine h.append (fun d' r hmem => by cases hins d' r hmem) (fun d' r hmem => ?_) hman
      (fun d' hd' => ⟨hd', fun r hmem => by cases hins d' r hmem⟩) (fun d' r hmem => ?_)
      fun _ => mem_cons_of_mem d
    · cases hdlt d' r hmem
      exact ⟨mem_cons_self, hhe, hq⟩
    · obtain ⟨hmem, hne⟩ := mem_filter.1 hmem
      refine .inl ⟨hmem, fun hdel => ?_⟩
      cases hdlt d' r hdel
      exact of_decide_eq_true hne rfl
  | selectRefs d =>
    have hok := hoth (fun _ _ => by simp) fun _ _ => by simp
    simp only [Statement.eval, ok.injEq, mk.injEq] at hev
    obtain ⟨hb, rfl⟩ := hev
    simp only [Hold.learn]
    split
    · rename_i hkno
      refine { hok with unlinked := fun d' hd' => ?_ }
      rcases mem_cons.1 hd' with rfl | hd'
      · refine ⟨hkno.2, fun r hr => ?_⟩
        rw [hkno.1, any_eq_false] at hb
        rw [append_nil] at hr
        exact hb _ hr (by simp)
      · exact hok.unlinked d' hd'
    · exact hok
  | _ => exact hoth (fun _ _ => by simp) fun _ _ => by simp

theorem HoldOk.record (h : HoldOk env s i q ws a) (vs : List Write) (ls : List Lock)
    {old : List Write} (htx : s.txs i = some old) : HoldOk env (s.record i vs ls) i q ws a := by
  rw [State.record_of_some htx]
  exact h.frame (fun l hl => mem_append_right _ hl) fun d _ r => Iff.rfl

theorem Tied.self (h : Effect env s i c o r s') (hx : Tied env s i x) (hal : x.allow env c) :
    Tied env s' i (x.after c r) := by
  cases h with
  | aborted c o e hc ho => exact tied_none (x.after_error e hc) State.endTx_txs_self
  | sqlDone st b ws hev hfree =>
    cases ha : x.hold with
    | none =>
      have htx := hx.none ha
      refine tied_none (by simp [LinkCtx.after, ha]) ?_
      rw [State.record_of_none htx]
      exact htx
    | some a =>
      obtain ⟨old, htx, hok⟩ := hx.some ha
      rw [State.view_of_some htx] at hev
      have hlea := hok.learn ha hal hev
      simp only [LinkCtx.after, ha]
      refine ⟨old ++ ws, ?_, hlea.record _ _ htx⟩
      rw [State.record_of_some htx]
      exact update_self ..
  | sqlLost st b ws e hev hfree =>
    exact tied_none (x.after_error e rfl) State.endTx_txs_self
  | begin =>
    refine ⟨[], update_self .., ?_⟩
    constructor <;> simp [Hold.nothing]
  | commit o r ho =>
    exact tied_none (by cases r <;> rfl) State.endTx_txs_self
  | rollback o => exact tied_none rfl State.endTx_txs_self
  | lock d hfree =>
    obtain ⟨a, ha⟩ := Option.isSome_iff_exists.1 hal
    obtain ⟨old, htx, hok⟩ := hx.some ha
    simp only [LinkCtx.after, ha]
    refine ⟨old, ?_, ?_⟩
    · rw [(State.record_nil ..).1, htx]
    · have hrec := hok.record [] [.digest (env.hashtext d)] htx
      refine { hrec with locked := ?_, deletes := ?_, present := ?_, unlinked := ?_, claimed := ?_ }
      · intro d' r hmem
        obtain ⟨hdro, hhe, hq⟩ := hrec.deletes d' r hmem
        exact ⟨hdro, mem_cons_of_mem _ hhe, hq⟩
      · intro d' hd'
        rcases mem_cons.1 hd' with rfl | hd'
        · rw [State.record_of_some htx]
          exact mem_cons_self
        · exact hrec.locked d' hd'
      · intro d' hd'
        exact mem_cons_of_mem _ (hrec.present d' hd')
      · intro d' hd'
        exact (hrec.unlinked d' hd').imp_left (mem_cons_of_mem _)
      · intro d' r hmem
        exact (hrec.claimed d' r hmem).imp_left (mem_cons_of_mem _)
  | noSession u r hnone => exact hx
  | session u r y hy hfree =>
    obtain ⟨htxs, htab⟩ := State.record_nil s i [.upload u]
    exact hx.frame (by rw [htxs]) (fun l hl => State.mem_record_locks_of_mem hl) htab
  | blobExists d o b hb =>
    cases ha : x.hold with
    | none => exact tied_none (by simp [LinkCtx.after, ha]) (hx.none ha)
    | some a =>
      obtain ⟨old, htx, hok⟩ := hx.some ha
      simp only [LinkCtx.after, ha, Option.map_some]
      refine ⟨old, htx, ?_⟩
      split
      · rename_i hkno
        refine { hok with inserts := ?_, present := ?_ }
        · intro d' r hmem
          exact mem_cons_of_mem _ (hok.inserts d' r hmem)
        · intro d' hd'
          rcases mem_cons.1 hd' with rfl | hd'
          · exact hkno.2
          · exact hok.present d' hd'
      · exact hok
  | putBlob d b o r ho =>
    have haft : x.after (.putBlob d b) r = x := by cases r <;> rfl
    rw [haft]
    exact hx.frame rfl (fun l hl => hl) rfl
  | getBlob d b o hb | blobSize d b o hb => exact hx
  | deleteBlob d o r ho =>
    have haft : x.after (.deleteBlob d) r = x := by cases r <;> rfl
    rw [haft]
    exact hx.frame rfl (fun l hl => hl) rfl
  | storageError c o e hc =>
    have haft : x.after c (.error e) = x := by cases c <;> first | rfl | cases hc
    rw [haft]
    exact hx
  | extendBuffer u b o
  | removeBuffer u o => exact hx.frame rfl (fun l hl => hl) rfl

/-! ## The invariant -/

/-- What the requests know is true. -/
structure Consistent (env : Env) (c : Config (registry env)) (g : Nat → Option LinkCtx) : Prop where
  exclusive : Exclusive c.state
  tied : ∀ i x, g i = some x → Tied env c.state i x
  idle : ∀ i, g i = none → c.state.txs i = none
  requests : ∀ i x, g i = some x → c.request i = some x.request

section

variable {cfg : Config (registry env)} {g : Nat → Option LinkCtx}

theorem Consistent.spawn (h : Consistent env cfg g) (q : Request)
    (hnew : g cfg.tasks.length = none) :
    Consistent env ⟨cfg.state, cfg.tasks ++ [⟨q, .running (handle env q)⟩]⟩
      (update g cfg.tasks.length (some (LinkCtx.idle q))) where
  exclusive := h.exclusive
  tied i x hx := by
    rcases update_some hx with ⟨rfl, rfl⟩ | ⟨hi, hx⟩
    · exact tied_none rfl (h.idle _ hnew)
    · exact h.tied i x hx
  idle i hi := by
    by_cases heq : i = cfg.tasks.length
    · rw [heq, update_self] at hi
      cases hi
    · rw [update_of_ne heq] at hi
      exact h.idle i hi
  requests i x hx := by
    rcases update_some hx with ⟨rfl, rfl⟩ | ⟨hi, hx⟩
    · simp [Config.request, LinkCtx.idle]
    · exact Config.request_append _ _ (h.requests i x hx)

variable {st st' : Status Command Reply OciError Response}

theorem Consistent.run (h : Consistent env cfg g) {r : Except OciError (Reply cmd)}
    (hta : cfg.tasks[i]? = some ⟨q, st⟩) (hx : g i = some x) (hal : x.allow env cmd)
    (heff : Effect env cfg.state i cmd o r s') :
    Consistent env ⟨s', cfg.tasks.set i ⟨q, st'⟩⟩ (update g i (some (x.after cmd r))) where
  exclusive := heff.exclusive h.exclusive
  tied j y hy := by
    rcases update_some hy with ⟨rfl, rfl⟩ | ⟨hj, hy⟩
    · exact (h.tied j x hx).self heff hal
    · exact Tied.of_ne h.exclusive heff (h.tied i x hx) hal hj (h.tied j y hy)
  idle j hj := by
    by_cases heq : j = i
    · rw [heq, update_self] at hj
      cases hj
    · rw [update_of_ne heq] at hj
      exact (heff.untouched heq).1.trans (h.idle j hj)
  requests j y hy := by
    refine (Config.request_set s' hta).trans ?_
    rcases update_some hy with ⟨rfl, rfl⟩ | ⟨hj, hy⟩
    · rw [LinkCtx.after_request]
      exact h.requests j x hx
    · exact h.requests j y hy

theorem Consistent.drop (h : Consistent env cfg g) (hta : cfg.tasks[i]? = some ⟨q, st⟩) :
    Consistent env ⟨State.endTx cfg.state i, cfg.tasks.set i ⟨q, st'⟩⟩ (update g i none) where
  exclusive := h.exclusive.endTx
  tied j y hy := by
    obtain ⟨hj, hy⟩ := update_none hy
    obtain ⟨htxs, hloc⟩ := untouched_endTx hj
    exact (h.tied j y hy).frame htxs (fun l hl => (hloc l).2 hl) rfl
  idle j hj := by
    by_cases heq : j = i
    · rw [heq]
      exact State.endTx_txs_self
    · rw [update_of_ne heq] at hj
      exact (State.endTx_txs_of_ne heq).trans (h.idle j hj)
  requests j y hy := by
    refine (Config.request_set _ hta).trans ?_
    obtain ⟨hj, hy⟩ := update_none hy
    exact h.requests j y hy

theorem Consistent.crash (h : Consistent env cfg g) {g' : Nat → Option LinkCtx}
    (hg : ∀ i x, g' i = some x → g i = some x ∧ x.hold = none) :
    Consistent env ⟨State.crash cfg.state, cfg.tasks.map Task.interrupt⟩ g' where
  exclusive := fun l i j _ hi => by cases hi
  tied i x hx := tied_none (hg i x hx).2 rfl
  idle i _ := rfl
  requests i x hx :=
    (Config.request_interrupt (S := registry env) _).trans (h.requests i x (hg i x hx).1)

def ended (q : Request) (x : LinkCtx) (_ : Except OciError Response) : Prop := x = LinkCtx.idle q

theorem answered_idle (hkn : Knows (registry env) (linking env) ended g cfg)
    (hx : (if (cfg.answer i).isSome then g i else none) = some x) :
    g i = some x ∧ x.hold = none := by
  obtain ⟨hans, hx⟩ := of_crash (P := linking env) hx
  obtain ⟨r, hr⟩ := Option.isSome_iff_exists.1 hans
  obtain ⟨q, p, hta⟩ := hkn.known i x hx
  have hend : ended q x r := hkn.of_answer hx (by rw [Config.request, hta]; rfl) hr
  exact ⟨hx, by rw [hend]; rfl⟩

theorem consistent_inductive : Inductive (registry env) (linking env) (start env) LinkCtx.idle ended
    (fun _ => True) fun _ c g => Consistent env c g where
  spawn := by
    rintro h c g q c' - rfl - hkn hc
    exact hc.spawn q (hkn.none_of_length_le le_rfl)
  run := by
    rintro h c g i o q cmd k x r s c' - hta hexec rfl hx hal - hkn hc
    exact hc.run hta hx hal (effect_of_exec hexec)
  drop := by
    rintro h c g i q cmd k c' - hta rfl - hkn hc
    exact hc.drop hta
  crash := by
    rintro h c g c' - rfl - hkn hc
    exact hc.crash fun i x hx => answered_idle hkn hx

end

theorem consistent_start : Consistent env (start env) fun _ => none where
  exclusive := fun l i j _ hi => by cases hi
  tied := fun i x hx => by cases hx
  idle := fun i _ => rfl
  requests := fun i x hx => by cases hx

/-- What the protocol says about the next command of a request, in every run. -/
theorem linking_of_runs {h : List (Step (registry env))} {c : Config (registry env)}
    (hruns : Runs (start env) h c) {k : Except OciError (Reply cmd) → Prog Response}
    (hta : c.tasks[i]? = some ⟨q, .running (.call cmd k)⟩) :
    ∃ x : LinkCtx, x.request = q ∧ Tied env c.state i x ∧ x.allow env cmd := by
  obtain ⟨g, hkn, hc⟩ := consistent_inductive.holds keeps_handle rfl consistent_start hruns
    fun _ _ => trivial
  obtain ⟨x, hx, hfol⟩ := hkn.running i q _ hta
  have hreq : c.request i = some q := by rw [Config.request, hta]; rfl
  exact ⟨x, Option.some.inj ((hc.requests i x hx).symm.trans hreq), hc.tied i x hx, hfol.1⟩

/-! ## The bytes -/

/-- The digest whose object the step removes, and the request that does so. -/
def removes (st : Step (registry env)) : Option (Nat × Str) :=
  match st.action with
  | .run i _ =>
    match st.before.next i with
    | some (.deleteBlob d) => some (i, d)
    | _ => none
  | _ => none

/-- The step does not remove an object that is also the object of another digest, one that is linked
or that another request has locked. -/
def SweepsOne (st : Step (registry env)) : Prop :=
  ∀ i d, removes st = some (i, d) → ∀ d', d' ≠ d → blobKey d' = blobKey d →
    (∀ r, (d', r) ∉ st.before.state.tables.refs) ∧
      ∀ j ≠ i, (.digest (env.hashtext d'), j) ∉ st.before.state.locks

theorem sweepsOne_of_removes {st : Step (registry env)} (h : removes st = none) : SweepsOne st := by
  intro i d hd
  rw [h] at hd
  cases hd

/-- The bytes that a request has seen are there. -/
def Seen (s : State) (x : LinkCtx) : Prop :=
  ∀ a, x.hold = some a → ∀ d ∈ a.present, (s.blobs (blobKey d)).isSome

/-- Committed links have their bytes. -/
structure Backed (s : State) (g : Nat → Option LinkCtx) : Prop where
  stored : ∀ d r, (d, r) ∈ s.tables.refs → (s.blobs (blobKey d)).isSome
  seen : ∀ i x, g i = some x → Seen s x

theorem Hold.learn_present {st : Statement} {b : st.Reply} :
    (a.learn st b).present = a.present := by
  cases st with
  | selectRefs d =>
    simp only [Hold.learn]
    split <;> rfl
  | _ => rfl

/-- Bytes are seen by a probe, and a request that removes bytes has seen none. -/
theorem Seen.self (hseen : Seen s x) (h : Effect env s i c o r s') (hal : x.allow env c) :
    Seen s' (x.after c r) := by
  -- What was seen before is still there.
  have hkept : Seen s' x := by
    intro a ha d hd
    refine h.blobs_isSome (hseen a ha d hd) ?_
    rintro d' rfl -
    obtain ⟨a', ha', -, hnone, -⟩ := hal
    cases ha.symm.trans ha'
    rw [hnone] at hd
    cases hd
  intro b hb d hd
  cases h with
  | sqlDone st =>
    obtain ⟨a, ha, rfl⟩ := Option.map_eq_some_iff.1 hb
    exact hkept a ha d (Hold.learn_present ▸ hd)
  | lock =>
    obtain ⟨a, ha, rfl⟩ := Option.map_eq_some_iff.1 hb
    exact hkept a ha d hd
  | blobExists d' o found hfound =>
    obtain ⟨a, ha, rfl⟩ := Option.map_eq_some_iff.1 hb
    split at hd
    · rename_i hkno
      rcases mem_cons.1 hd with rfl | hd
      · exact hfound hkno.1
      · exact hkept a ha d hd
    · exact hkept a ha d hd
  | begin =>
    cases hb
    cases hd
  | aborted c o e hc =>
    rw [x.after_error e hc] at hb
    cases hb
  | sqlLost | rollback => cases hb
  | commit o r => cases r <;> cases hb
  | putBlob _ _ _ r | deleteBlob _ _ r => cases r <;> exact hkept b hb d hd
  | storageError c o e hc =>
    have haft : x.after c (.error e) = x := by cases c <;> first | rfl | cases hc
    exact hkept b (haft ▸ hb) d hd
  | _ => exact hkept b hb d hd

section

variable {cfg : Config (registry env)} {g : Nat → Option LinkCtx}

/-- A step of a request takes no bytes away that a link or another request relies on. -/
theorem Backed.run (hb : Backed cfg.state g) (h : Consistent env cfg g)
    (hone : ∀ d, c = .deleteBlob d → ∀ d', d' ≠ d → blobKey d' = blobKey d →
      (∀ r, (d', r) ∉ cfg.state.tables.refs) ∧
        ∀ j ≠ i, (.digest (env.hashtext d'), j) ∉ cfg.state.locks)
    (hx : g i = some x) (hal : x.allow env c) (heff : Effect env cfg.state i c o r s') :
    Backed s' (update g i (some (x.after c r))) where
  stored d repository hmem := by
    have htied := h.tied i x hx
    rcases link_added heff htied hal hmem with hold | ⟨rfl, a, ha, hpre⟩
    · refine heff.blobs_isSome (hb.stored d repository hold) ?_
      rintro d' rfl hkey
      by_cases hdd : d = d'
      · subst hdd
        obtain ⟨a, ha, hunl, -, hdro⟩ := hal
        obtain ⟨ws, -, hok⟩ := htied.some ha
        rcases Tables.deleteRef_mem_or hold with hdel | hmem
        · have hd := (hok.deletes d repository hdel).1
          rw [hdro] at hd
          cases hd
        · exact (hok.unlinked d hunl).2 repository hmem
      · exact (hone d' rfl d hdd hkey.symm).1 repository hold
    · exact heff.blobs_isSome (hb.seen i x hx a ha d hpre) (by simp)
  seen j y hy := by
    rcases update_some hy with ⟨rfl, rfl⟩ | ⟨hj, hgy⟩
    · exact (hb.seen j x hx).self heff hal
    · intro b hyb d hd
      refine heff.blobs_isSome (hb.seen j y hgy b hyb d hd) ?_
      rintro d' rfl hkey
      obtain ⟨ws, -, hok⟩ := (h.tied j y hgy).some hyb
      by_cases hdd : d = d'
      · subst hdd
        obtain ⟨a, ha, hunl, -⟩ := hal
        obtain ⟨vs, -, hok'⟩ := (h.tied i x hx).some ha
        exact held_disjoint h.exclusive (h.tied i x hx) (h.tied j y hgy) hj ha hyb
          (hok'.unlinked d hunl).1 (hok.present d hd)
      · exact (hone d' rfl d hdd hkey.symm).2 j hj (hok.locked d (hok.present d hd))

theorem backed_inductive : Inductive (registry env) (linking env) (start env) LinkCtx.idle ended
    SweepsOne fun _ c g => Consistent env c g ∧ Backed c.state g where
  spawn := by
    rintro h c g q c' hru rfl hmt hkn ⟨hc, hb⟩
    refine ⟨consistent_inductive.spawn h c g q _ hru rfl trivial hkn hc, hb.stored, ?_⟩
    intro i x hx
    rcases update_some hx with ⟨rfl, rfl⟩ | ⟨-, hx⟩
    · rintro a ⟨⟩
    · exact hb.seen i x hx
  run := by
    rintro h c g i o q cmd k x r s c' - hta hexec rfl hx hal hone hkn ⟨hc, hb⟩
    have heff := effect_of_exec hexec
    refine ⟨hc.run hta hx hal heff, hb.run hc ?_ hx hal heff⟩
    rintro d rfl
    exact hone i d (by simp only [removes, Config.next_of_getElem? hta])
  drop := by
    rintro h c g i q cmd k c' hru hta rfl hmt hkn ⟨hc, hb⟩
    refine ⟨hc.drop hta, hb.stored, fun j y hy => hb.seen j y (update_none hy).2⟩
  crash := by
    rintro h c g c' - rfl - hkn ⟨hc, hb⟩
    refine ⟨hc.crash fun i x hx => answered_idle hkn hx, hb.stored, fun i x hx => ?_⟩
    exact hb.seen i x (answered_idle hkn hx).1

end

theorem backed_of_runs {h : List (Step (registry env))} {c : Config (registry env)}
    (hruns : Runs (start env) h c) (hone : ∀ st ∈ h, SweepsOne st) :
    ∀ d r, (d, r) ∈ c.state.tables.refs → (c.state.blobs (blobKey d)).isSome := by
  have hstart : Backed (start env).state fun _ => none := by
    constructor
    · rintro d r ⟨⟩
    · rintro i x ⟨⟩
  obtain ⟨g, -, -, hb⟩ :=
    backed_inductive.holds keeps_handle rfl ⟨consistent_start, hstart⟩ hruns hone
  exact hb.stored

/-- **Every committed link has its bytes**, in every run of the registry that removes no object of
two digests: whatever requests run at the same time, wherever commands fail, requests are dropped
and the server crashes. -/
theorem linked_blob_stored {h : List (Step (registry env))} {c : Config (registry env)}
    (hruns : Runs (start env) h c) (hone : ∀ st ∈ h, SweepsOne st) {digest repository : Str}
    (hlinked : (digest, repository) ∈ c.state.tables.refs) :
    (c.state.blobs (blobKey digest)).isSome :=
  backed_of_runs hruns hone digest repository hlinked

/-- Two uploads of one blob, into two repositories. The first one is deleted again and its sweep has
begun when the second one claims the blob. -/
def uploadDeleteUpload : List (Action Request) :=
  [.spawn (uploadOf "first" helloDigest hello)] ++ turns 0 8 ++
  [.spawn (.deleteBlob ⟨[], true⟩ "nasiko" "first" helloDigest)] ++ turns 1 8 ++
  [.spawn (uploadOf "second" helloDigest hello)] ++ turns 2 8 ++ turns 1 3

theorem linked_blob_stored_second :
    ∃ (h : List (Step (registry (sample [(hello, helloDigest)])))) (c : _),
      Runs (start (sample [(hello, helloDigest)])) h c ∧ (∀ st ∈ h, SweepsOne st) ∧
      (helloDigest, "nasiko/second".toList) ∈ c.state.tables.refs ∧
      (c.state.blobs (blobKey helloDigest)).isSome := by
  obtain ⟨h, c, hruns, hlk, hnone⟩ := exists_runs (start (sample [(hello, helloDigest)]))
    uploadDeleteUpload (fun h c => (helloDigest, "nasiko/second".toList) ∈ c.state.tables.refs ∧
      ∀ st ∈ h, removes st = none) (by decide +kernel)
  have hone : ∀ st ∈ h, SweepsOne st := fun st hst => sweepsOne_of_removes (hnone st hst)
  exact ⟨h, c, hruns, hone, hlk, linked_blob_stored hruns hone hlk⟩

/-- A manifest whose config is the blob `hello`, with a slash in its digest. -/
def slashManifest : Bytes := asBytes ("\x7b\"config\":\x7b\"digest\":\"" ++
  "sha256/2cf24dba5fb0a30e26e83b2ac5b9e29e1b161e5c1fa7425e73043362938b9824" ++
  "\"\x7d,\"layers\":[]\x7d")

def slashEnv : Env := sample [(hello, helloDigest), (slashManifest,
  "sha256:43d84ef32668682de9c41c8f64e1f5175ebcac11d1f5c6b04ba6499884a8b11f")]

/-- The blob is uploaded into one repository; another one lists it with a slash and deletes it. -/
def uploadSlashDelete : List (Action Request) :=
  [.spawn (uploadOf "first" helloDigest hello)] ++ turns 0 8 ++
  [.spawn (.putManifest .buildService "nasiko" "second" "v1" none (.ok slashManifest))] ++
  turns 1 9 ++
  [.spawn (.deleteBlob ⟨[], true⟩ "nasiko" "second"
    "sha256/2cf24dba5fb0a30e26e83b2ac5b9e29e1b161e5c1fa7425e73043362938b9824")] ++
  turns 2 15

/-- The bytes are gone, and the first repository still links them. -/
theorem bytes_removed_by_slash :
    ∃ (h : List (Step (registry slashEnv))) (c : _), Runs (start slashEnv) h c ∧
      (helloDigest, "nasiko/first".toList) ∈ c.state.tables.refs ∧
      c.state.blobs (blobKey helloDigest) = none :=
  exists_runs (start slashEnv) uploadSlashDelete _ (by decide +kernel)

end Nasiko.Oci
