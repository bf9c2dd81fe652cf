import Nasiko.Compress.Compress

/-!
# The context of the reasoning loop

What was said is pushed to a list of entries. The window for the model is the last `keepRecent` of
them, and a summary; `compactSimple` moves the entries before these into the summary.

**Theorem (`represented_of_length_le`).** After pushes and compactions in any order, every entry
that was pushed is in the window, whole or by its label and its first 300 characters, if there are
not more than `keepRecent` entries.

With more entries (`old_entry_lost`) the oldest are in neither: what the window shows is a number of
entries, what asks for a compaction is a number of tokens. The invariant is `Kept`: an entry that
was pushed is still in the list, or in the summary.
-/

namespace Nasiko.ReactAgent

open Compress List

inductive ContextRole where
  | user
  | assistant
  | toolResult (toolName : Str)
  | system
  deriving DecidableEq

structure ContextEntry where
  role : ContextRole
  content : Str
  deriving DecidableEq

structure ContextConfig where
  maxContextTokens : Nat
  keepRecent : Nat
  charsPerToken : Nat
  compress : Policy

def ContextConfig.default : ContextConfig := ⟨80000, 12, 4, Policy.default⟩

structure ContextManager where
  config : ContextConfig
  entries : List ContextEntry
  summary : Option Str
  estimatedTokens : Nat

/-- What the model is given. -/
structure ContextWindow where
  summary : Option Str
  recent : List ContextEntry

def ContextRole.label : ContextRole → Str
  | .user => "User"
  | .assistant => "Assistant"
  | .toolResult toolName => "Tool(" ++ toolName ++ ")"
  | .system => "System"

/-- The line of an entry in a summary. -/
def ContextEntry.part (entry : ContextEntry) : Str :=
  let truncated : Str :=
    if 300 < entry.content.length then entry.content.take 300 ++ "…" else entry.content
  "[" ++ entry.role.label ++ "]: " ++ truncated

namespace ContextManager

def new (config : ContextConfig) : ContextManager := ⟨config, [], none, 0⟩

variable (m : ContextManager)

/-- In the source a `charsPerToken` of 0 panics here. -/
def push (entry : ContextEntry) : ContextManager :=
  { m with
    entries := m.entries ++ [entry]
    estimatedTokens := m.estimatedTokens + Str.utf8Len entry.content / m.config.charsPerToken }

def needsCompaction : Bool := m.config.maxContextTokens < m.estimatedTokens

def window : ContextWindow :=
  if m.entries.length ≤ m.config.keepRecent then ⟨m.summary, m.entries⟩
  else ⟨m.summary, m.entries.drop (m.entries.length - m.config.keepRecent)⟩

def recalculateTokens : ContextManager :=
  let tokens (s : Str) := Str.utf8Len s / m.config.charsPerToken
  { m with
    estimatedTokens := (m.entries.map fun e => tokens e.content).sum +
      (m.summary.map tokens).getD 0 }

def compactSimple : ContextManager :=
  if m.entries.length ≤ m.config.keepRecent then m
  else
    let splitAt := m.entries.length - m.config.keepRecent
    let parts := m.summary.toList.map ("[Prior summary]: ".toList ++ ·) ++
      (m.entries.take splitAt).map ContextEntry.part
    recalculateTokens
      { m with entries := m.entries.drop splitAt, summary := some (List.intercalate "\n" parts) }

end ContextManager

inductive Change where
  | pushUser (content : Str)
  | pushAssistant (content : Str)
  | pushToolResult (toolName content : Str)
  | compactSimple

section

variable (N : Type) {F : Type} [SerdeJson N F] (config : ContextConfig)

/-- The entry that is pushed; the result of a tool is compressed before. -/
def Change.entry : Change → Option ContextEntry
  | .pushUser content => some ⟨.user, content⟩
  | .pushAssistant content => some ⟨.assistant, content⟩
  | .pushToolResult toolName content =>
    some ⟨.toolResult toolName, (compress N content config.compress).text⟩
  | .compactSimple => none

def Change.apply (m : ContextManager) (change : Change) : ContextManager :=
  match change.entry N m.config with
  | some entry => m.push entry
  | none => m.compactSimple

def changed (changes : List Change) : ContextManager :=
  changes.foldl (Change.apply N) (ContextManager.new config)

/-! ## What the window shows -/

/-- The label of an entry, and its first 300 characters. -/
def ContextEntry.head (entry : ContextEntry) : Str :=
  "[" ++ entry.role.label ++ "]: " ++ entry.content.take 300

def Summarised (summary : Option Str) (entry : ContextEntry) : Prop :=
  ∃ text ∈ summary, entry.head <:+: text

def Represented (window : ContextWindow) (entry : ContextEntry) : Prop :=
  entry ∈ window.recent ∨ Summarised window.summary entry

def Kept (m : ContextManager) (entry : ContextEntry) : Prop :=
  entry ∈ m.entries ∨ Summarised m.summary entry

variable {N config} {m : ContextManager} {entry : ContextEntry}

theorem head_prefix_part : entry.head <+: entry.part := by
  refine (prefix_append_right_inj _).2 ?_
  split_ifs
  · exact prefix_append _ _
  · exact take_prefix _ _

theorem Kept.compactSimple (h : Kept m entry) : Kept m.compactSimple entry := by
  unfold ContextManager.compactSimple
  split_ifs
  · exact h
  rcases h with hmem | ⟨text, htext, hin⟩
  · rw [← take_append_drop (m.entries.length - m.config.keepRecent) m.entries] at hmem
    rcases mem_append.1 hmem with hold | hrec
    · refine .inr ⟨_, rfl, head_prefix_part.isInfix.trans (Text.infix_intercalate ?_)⟩
      exact mem_append_right _ (mem_map_of_mem hold)
    · exact .inl hrec
  · -- The summary of before is the first part of the new one.
    refine .inr ⟨_, rfl, (hin.trans (suffix_append _ _).isInfix).trans
      (Text.infix_intercalate (mem_append_left _ (mem_map_of_mem ?_)))⟩
    simpa using htext

theorem config_compactSimple (m : ContextManager) : m.compactSimple.config = m.config := by
  unfold ContextManager.compactSimple
  split_ifs <;> rfl

theorem kept_apply (change : Change) (h : Kept m entry ∨ change.entry N m.config = some entry) :
    Kept (change.apply N m) entry := by
  unfold Change.apply
  split
  · next e he =>
    rcases h with h | h
    · exact h.imp (mem_append_left _) id
    · exact .inl (by simp [ContextManager.push, Option.some.inj (he.symm.trans h)])
  · next he => exact (h.resolve_right (by simp [he])).compactSimple

theorem kept_changed (N : Type) [SerdeJson N F] (config : ContextConfig) (changes : List Change) :
    (changed N config changes).config = config ∧
      ∀ entry ∈ changes.filterMap (Change.entry N config),
        Kept (changed N config changes) entry := by
  induction changes using reverseRecOn with
  | nil => exact ⟨rfl, by simp⟩
  | append_singleton changes change ih =>
    obtain ⟨hcfg, hkept⟩ := ih
    rw [changed, foldl_append, ← changed]
    constructor
    · cases change <;> simp [Change.apply, Change.entry, ContextManager.push, config_compactSimple,
        hcfg]
    · intro entry hent
      refine kept_apply change ?_
      rw [filterMap_append, mem_append] at hent
      exact hent.imp (hkept entry) fun h => by simpa [hcfg] using h

/-- **Every entry that was pushed is in the window**, whole or in the summary, if there are not more
entries than the window shows. -/
theorem represented_of_length_le (N : Type) {F : Type} [SerdeJson N F] (config : ContextConfig)
    (changes : List Change)
    (hlength : (changed N config changes).entries.length ≤ config.keepRecent) :
    ∀ entry ∈ changes.filterMap (Change.entry N config),
      Represented (changed N config changes).window entry := by
  intro entry hent
  obtain ⟨hcfg, hkept⟩ := kept_changed N config changes
  rw [ContextManager.window, if_pos (by rwa [hcfg])]
  exact hkept entry hent

/-! ## What is counted -/

theorem recalculateTokens_push (h : m.recalculateTokens = m) :
    (m.push entry).recalculateTokens = m.push entry := by
  have htok := congrArg ContextManager.estimatedTokens h
  simp only [ContextManager.recalculateTokens] at htok
  simp only [ContextManager.recalculateTokens, ContextManager.push, map_append, sum_append, ← htok]
  simp
  omega

theorem recalculateTokens_compactSimple (h : m.recalculateTokens = m) :
    m.compactSimple.recalculateTokens = m.compactSimple := by
  unfold ContextManager.compactSimple
  split_ifs
  · exact h
  · rfl

/-- **The tokens are counted right**: after any changes, the number that is kept is the one that is
found by counting anew. -/
theorem recalculateTokens_changed (N : Type) {F : Type} [SerdeJson N F] (config : ContextConfig)
    (changes : List Change) : (changed N config changes).recalculateTokens =
      changed N config changes := by
  induction changes using reverseRecOn with
  | nil => rfl
  | append_singleton changes change ih =>
    rw [changed, foldl_append, ← changed]
    simp only [foldl_cons, foldl_nil, Change.apply]
    split
    · exact recalculateTokens_push ih
    · exact recalculateTokens_compactSimple ih

/-- **The entries are the latest that were pushed**, in their order. -/
theorem entries_changed (N : Type) {F : Type} [SerdeJson N F] (config : ContextConfig)
    (changes : List Change) :
    (changed N config changes).entries <:+ changes.filterMap (Change.entry N config) := by
  induction changes using reverseRecOn with
  | nil => exact suffix_rfl
  | append_singleton changes change ih =>
    have hcfg := (kept_changed N config changes).1
    rw [changed, foldl_append, ← changed, filterMap_append]
    simp only [foldl_cons, foldl_nil, Change.apply, hcfg]
    split
    · next entry hent =>
      obtain ⟨old, hold⟩ := ih
      exact ⟨old, by simp [ContextManager.push, hent, ← hold]⟩
    · next hent =>
      simp only [filterMap_cons, hent, filterMap_nil, append_nil]
      refine IsSuffix.trans ?_ ih
      unfold ContextManager.compactSimple
      split_ifs
      · exact suffix_rfl
      · exact drop_suffix _ _

end

/-- Two messages, of which one is shown. -/
def sampleConfig : ContextConfig := { ContextConfig.default with keepRecent := 1 }

theorem represented_of_length_le_compacted : Represented (changed Int sampleConfig
      [.pushUser "hi", .pushAssistant "hello", .compactSimple]).window ⟨.user, "hi"⟩ :=
  represented_of_length_le Int sampleConfig _ (by decide) _ (by decide)

/-- **The oldest of 13 short messages is in no part of the window**, and nothing asks for a
compaction. -/
theorem old_entry_lost : ∃ changes : List Change, .pushUser "first" ∈ changes ∧
      (changed Int ContextConfig.default changes).needsCompaction = false ∧
      ¬ Represented (changed Int ContextConfig.default changes).window ⟨.user, "first"⟩ := by
  refine ⟨.pushUser "first" :: replicate 12 (.pushUser "next"), by simp, by decide, ?_⟩
  rintro (h | ⟨_, h, -⟩)
  · revert h
    decide
  · cases h

end Nasiko.ReactAgent
