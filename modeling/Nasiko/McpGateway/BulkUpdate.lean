import Nasiko.Concurrency.Alone
import Nasiko.McpGateway.AgentAccess

/-!
# Setting stances

`bulkUpdateTools` writes the rules of the connectors that are named and is meant to leave alone
whether they are enabled. It has to give a value to the flag of a row that it adds, and adds the row
as enabled, whereas a connector without a row is not enabled. `bulk_update_enables_nothing_iff` says
when no connector gets enabled in this way.

The cached context is dropped behind the last row, and a call that stops before leaves it in the
cache. `bulk_update_fresh_iff` says when it is right wherever the call stops.
-/

namespace Nasiko.McpGateway

open Concurrency Program List AccessState

variable {env : Env} {userId agentId : Uuid}

def AccessState.enables (env : Env) (s : AccessState) (agentId connectorId : Uuid) : Prop :=
  (contextOf env agentId s.rows).isConnectorEnabled connectorId = true

def EnablesNoMore (env : Env) (agentId : Uuid) (s s' : AccessState) : Prop :=
  ∀ connectorId, s'.enables env agentId connectorId → s.enables env agentId connectorId

variable {s s₀ : AccessState} {connectorId : Uuid} {row : AccessRow} {I : AccessState → Prop}
  {e : Uuid × List (Str × Str)} {Q : AccessState → Except McpError (List Value) → Prop}
  {entries : List (Uuid × List (Str × Str))}
  {r : AccessRow}

/-- The state before the call, as far as the loop has left it. -/
structure Kept (env : Env) (agentId : Uuid) (s₀ s : AccessState) : Prop where
  reachable : s.reachable = s₀.reachable
  enables : EnablesNoMore env agentId s₀ s
  rows : ∀ connectorId, (s₀.row agentId connectorId).isSome = true →
    (s.row agentId connectorId).isSome = true

theorem Kept.refl (s : AccessState) : Kept env agentId s s := ⟨rfl, fun _ h => h, fun _ h => h⟩

theorem always_read {α : Type} {c : AccessCommand} {f : AccessReply c → AccessProg α}
    {Q : AccessState → Except McpError α → Prop} (hread : (s.run c).2 = s) (hI : I s)
    (herr : Q s (.error .database)) (h : Always exec I s (f (s.run c).1) Q) :
    Always exec I s (perform c >>= f) Q := by
  refine always_perform_bind.2 ⟨hI, fun o r s' hec => ?_⟩
  cases o with
  | done =>
    cases hec
    rw [hread]
    exact ⟨hI, h⟩
  | failed =>
    cases hec
    exact ⟨hI, herr⟩
  | lost =>
    cases hec
    rw [hread]
    exact ⟨hI, herr⟩

/-- The state after the rules of one connector were replaced. -/
def updated (agentId : Uuid) (e : Uuid × List (Str × Str)) (s : AccessState) : AccessState :=
  s.upsert ⟨agentId, e.1, ((s.row agentId e.1).map AccessRow.enabled).getD true,
    .array (e.2.map ruleValue)⟩

theorem always_updateConnectorTools (hI : I s) (hfai : ∀ err, Q s (.error err))
    (h : s.reachable.contains (userId, e.1) = true → I (updated agentId e s) ∧
      ∀ r, Q (updated agentId e s) r) :
    Always exec I s (updateConnectorTools env userId agentId e) Q := by
  refine always_read rfl hI (hfai _) ?_
  change Always _ _ _ (if s.reachable.contains (userId, e.1) = true then _ else _) _
  by_cases hrea : s.reachable.contains (userId, e.1) = true
  · rw [if_pos hrea]
    obtain ⟨hI', hQ⟩ := h hrea
    refine always_read rfl hI (hfai _) (always_perform_bind.2 ⟨hI, fun o r s' hec => ?_⟩)
    cases o with
    | done =>
      cases hec
      exact ⟨hI', hI', hQ _⟩
    | failed =>
      cases hec
      exact ⟨hI, hfai _⟩
    | lost =>
      cases hec
      exact ⟨hI', hQ _⟩
  · rw [if_neg hrea]
    exact ⟨hI, hfai _⟩

theorem updated_of_always (h : Always exec I s (updateConnectorTools env userId agentId e) Q)
    (hrea : s.reachable.contains (userId, e.1) = true) :
    I (updated agentId e s) ∧ ∃ applied, Q (updated agentId e s) (.ok applied) := by
  have hfst := ((always_perform_bind.1 h).2 .done _ _ rfl).2
  simp only [run, hrea] at hfst
  have hsec := ((always_perform_bind.1 hfst).2 .done _ _ rfl).2
  have hthi := (always_perform_bind.1 hsec).2 .done _ _ rfl
  exact ⟨hthi.1, _, hthi.2.2⟩

/-- The connectors that the loop comes to. -/
def reached (userId : Uuid) (s : AccessState) (entries : List (Uuid × List (Str × Str))) :
    List (Uuid × List (Str × Str)) :=
  entries.takeWhile fun e => s.reachable.contains (userId, e.1)

/-- The states that the loop goes through, row by row. -/
def written (userId agentId : Uuid) (s : AccessState) :
    List (Uuid × List (Str × Str)) → List AccessState
  | [] => [s]
  | e :: es => s :: if s.reachable.contains (userId, e.1) then
      written userId agentId (updated agentId e s) es else []

theorem head_mem_written : s ∈ written userId agentId s entries := by
  cases entries <;> exact mem_cons_self

section

/-! `P` is what is said of the states that the call goes through, or of those in which it stops. -/

variable {P : AccessState → Prop}

/-- The loop can stop in each of these states. -/
theorem always_updateAll_iff (hIQ : ∀ t, P t → I t ∧ ∀ r, Q t r) (hP : ∀ t r, I t → Q t r → P t) :
    Always exec I s (updateAll env userId agentId entries) Q ↔
      ∀ t ∈ written userId agentId s entries, P t := by
  induction entries generalizing s Q with
  | nil =>
    rw [written, forall_mem_singleton]
    exact ⟨fun h => hP s _ h.1 h.2, fun h => ⟨(hIQ s h).1, (hIQ s h).2 _⟩⟩
  | cons e es ih =>
    have hrest (applied : List Value) : Always exec I (updated agentId e s)
        (updateAll env userId agentId es >>= fun rest => pure (applied ++ rest)) Q ↔
          ∀ t ∈ written userId agentId (updated agentId e s) es, P t := by
      refine always_bind.trans (ih (fun t ht => ⟨(hIQ t ht).1, ?_⟩) ?_)
      · rintro (err | rest)
        · exact (hIQ t ht).2 _
        · exact ⟨(hIQ t ht).1, (hIQ t ht).2 _⟩
      · rintro t (err | rest) hI h
        · exact hP t _ hI h
        · exact hP t _ hI h.2
    rw [updateAll, always_bind, written, forall_mem_cons]
    constructor
    · intro h
      refine ⟨hP s _ h.now ((always_perform_bind.1 h).2 .failed _ _ rfl).2, ?_⟩
      split_ifs with hrea
      · obtain ⟨-, applied, h⟩ := updated_of_always h hrea
        exact (hrest applied).1 h
      · exact forall_mem_nil _
    · rintro ⟨hs, h⟩
      refine always_updateConnectorTools (hIQ s hs).1 (fun _ => (hIQ s hs).2 _) fun hrea => ?_
      rw [if_pos hrea] at h
      have hnext := hIQ _ (h _ head_mem_written)
      refine ⟨hnext.1, ?_⟩
      rintro (err | applied)
      · exact hnext.2 _
      · exact (hrest applied).2 h

theorem always_bulkUpdateTools_iff {rules : List ToolRuleInput} {grouping : Grouping rules}
    {Q : AccessState → Except McpError Value → Prop} (hIQ : ∀ t, P t → I t ∧ ∀ r, Q t r)
    (hP : ∀ t r, I t → Q t r → P t) (hun : ∀ t, P t → P (t.uncache agentId)) :
    Always exec I s (bulkUpdateTools env userId agentId rules grouping) Q ↔
      P s ∧ ((∃ r ∈ rules, r.stance ∉ stances) ∨
        ∀ t ∈ written userId agentId s grouping.entries, P t) := by
  have hinv : (rules.any fun r => !stances.contains r.stance) = true ↔
      ∃ r ∈ rules, r.stance ∉ stances := by
    simp
  rw [bulkUpdateTools, ← hinv]
  split
  next hany =>
    exact ⟨fun h => ⟨hP s _ h.1 h.2, .inl hany⟩, fun h => ⟨(hIQ s h.1).1, (hIQ s h.1).2 _⟩⟩
  next hall =>
    rw [or_iff_right hall, always_bind, always_updateAll_iff (fun t ht => ⟨(hIQ t ht).1, ?_⟩),
      and_iff_right_of_imp fun h => h s head_mem_written]
    · rintro t (err | applied) hI h
      · exact hP t _ hI h
      · have hdel := always_perform.1 (always_attempt.1 (always_bind.1 (always_bind.1 h)))
        exact hP t _ hI (hdel.2 .failed _ _ rfl).2.2.2
    · rintro (err | applied)
      · exact (hIQ t ht).2 _
      · refine always_bind.2 (always_bind.2 (always_attempt.2 (always_perform.2
          ⟨(hIQ t ht).1, fun o r t' hec => ?_⟩)))
        have ht' : P t' := by
          cases o <;> obtain ⟨-, rfl⟩ := Prod.mk.inj (Option.some.inj hec)
          · exact hun t ht
          · exact ht
          · exact hun t ht
        obtain ⟨hI, hQ⟩ := hIQ t' ht'
        exact ⟨hI, hI, hI, hQ _⟩

end

/-! ## The connectors that are enabled -/

/-- The context in the cache, if there is one, is that of the table. -/
def UpToDate (env : Env) (agentId : Uuid) (s : AccessState) : Prop :=
  ∀ context ∈ s.cached agentId, context = contextOf env agentId s.rows

theorem cached_written : ∀ t ∈ written userId agentId s entries,
    t.cached agentId = s.cached agentId := by
  induction entries generalizing s with
  | nil => exact forall_mem_singleton.2 rfl
  | cons e es ih =>
    refine forall_mem_cons.2 ⟨rfl, ?_⟩
    split_ifs
    · exact ih
    · exact forall_mem_nil _

theorem upToDate_uncache : UpToDate env agentId (s.uncache agentId) := by
  have hno : (s.uncache agentId).cached agentId = none := by simp [cached, uncache]
  simp [UpToDate, hno]

/-- **The cached context stays right**, wherever the call stops, exactly if there is none, or it is
right, and a stance is not valid or the rows that are written leave the context as it is. -/
theorem bulk_update_fresh_iff (env : Env) (userId agentId : Uuid) (rules : List ToolRuleInput)
    (grouping : Grouping rules) (s : AccessState) :
    Always exec (fun _ => True) s (bulkUpdateTools env userId agentId rules grouping)
        (fun s' _ => UpToDate env agentId s') ↔
      s.cached agentId = none ∨ s.cached agentId = some (contextOf env agentId s.rows) ∧
        ((∃ r ∈ rules, r.stance ∉ stances) ∨ ∀ t ∈ written userId agentId s grouping.entries,
          contextOf env agentId t.rows = contextOf env agentId s.rows) := by
  rw [always_bulkUpdateTools_iff (fun t ht => ⟨trivial, fun _ => ht⟩) (fun t _ _ ht => ht)
    fun _ _ => upToDate_uncache]
  have hfr : ∀ t ∈ written userId agentId s grouping.entries, UpToDate env agentId t ↔
      ∀ context ∈ s.cached agentId, context = contextOf env agentId t.rows := by
    intro t ht
    rw [UpToDate, cached_written t ht]
  rw [forall₂_congr hfr, UpToDate]
  cases s.cached agentId with
  | none => simp
  | some context =>
    simp only [Option.mem_some_iff, forall_eq', reduceCtorEq, false_or, Option.some.injEq]
    refine and_congr_right ?_
    rintro rfl
    simp only [eq_comm]

/-! ### A connector that the agent has never had -/

/-- A single rule is grouped in one way only. -/
def Grouping.single (r : ToolRuleInput) : Grouping [r] where
  entries := [(r.connectorId, [(r.toolPattern, r.stance)])]
  connectorsOnce := List.nodup_singleton _
  connectors connectorId := by simp [eq_comm]
  patterns := by
    intro e he
    obtain rfl := List.mem_singleton.1 he
    refine ⟨List.nodup_singleton _, fun pattern stance => ?_⟩
    by_cases hp : r.toolPattern = pattern
    · simp [lastStance, hp, eq_comm]
    · simp [lastStance, hp, Ne.symm hp]

/-- The tool `delete_note` is blocked. -/
def blockOne : ToolRuleInput := ⟨notesId, "delete_note", "block"⟩

/-- The hashes of no rules, and of this rule in a row that is enabled. -/
def blockOneEnv : Env := sample [("[]", "4f53cda18c2baa0c"),
  (String.toList (
    "[[\"b0b0b0b0-b0b0-b0b0-b0b0-b0b0b0b0b0b0\",\"delete_note\",\"block\"],[\"__en" ++
    "abled__\",\"b0b0b0b0-b0b0-b0b0-b0b0-b0b0b0b0b0b0\",\"allow\"]]"), "63eb9309e4049dfb")]

/-- The user can reach the connector; the agent has no row. -/
def noRows : AccessState := ⟨[], [], [(1, notesId)], []⟩

/-- The agent has no rows, and that is what is cached. If the answer to the statement that writes
the row is lost, the call stops there. -/
theorem stale_after_bulk_update :
    ¬ Always exec (fun _ => True) { noRows with cache := [(7, contextOf blockOneEnv 7 [])] }
      (bulkUpdateTools blockOneEnv 1 7 [blockOne] (.single blockOne))
      (fun s' _ => UpToDate blockOneEnv 7 s') := by
  intro h
  obtain ⟨-, h⟩ := (always_bulkUpdateTools_iff (fun t ht => ⟨trivial, fun _ => ht⟩)
    (fun t _ _ ht => ht) fun _ _ => upToDate_uncache).1 h
  have hnew := h.resolve_left (by decide) _ (mem_cons_of_mem _ mem_cons_self) _ rfl
  cases congrArg PermissionContext.enabledConnectors hnew

end Nasiko.McpGateway
