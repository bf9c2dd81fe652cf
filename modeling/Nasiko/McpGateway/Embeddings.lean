import Nasiko.Emitter
import Nasiko.McpGateway.Search

/-!
# The embeddings of the tools

The semantic index has an embedding for each tool. They are kept in a table, each with the name of
the model that it was made with, and a rebuild of the index makes only those that are missing or
come from another model.

**Theorem (`rebuilt_current`).** In every history in which a tool that has an embedding is only
synced with the description that it has, every embedding after a rebuild is that of the tool's
current text under the current model.

A rebuild does not compare the text, so a new description under an old name keeps the old embedding
(`edited_tool_stale`).
-/

namespace Nasiko.McpGateway

open Option Function

abbrev ToolKey := Uuid × Str

/-- `mcp_connector_tools` and `mcp_tool_embeddings`, by their key. -/
structure ToolTables (V : Type) where
  descriptions : ToolKey → Option (Option Str)
  embeddings : ToolKey → Option (V × Str)

/-- What happens to the tables. With a tool its embedding is deleted. In a rebuild, the request for
embeddings may fail, and so may the statement that saves them. -/
inductive ToolEdit where
  | sync (key : ToolKey) (description : Option Str)
  | delete (key : ToolKey)
  | rebuild (model : Str) (embedded saved : Bool)

namespace ToolTables

variable {V : Type} (embed : Str → Str → V) (s : ToolTables V) (model : Str) (key : ToolKey)

/-- No embedding, or one from another model. -/
def needsEmbed : Bool := (s.embeddings key).all fun stored => stored.2 ≠ model

/-- The embedding that a rebuild asks for. -/
def newEmbedding (embedded : Bool) : Option V :=
  if embedded && s.needsEmbed model key then
    (s.descriptions key).map fun description => embed model (toolSearchText key.2 description)
  else none

/-- The index that a rebuild makes; without any embedding there is an empty one. -/
def rebuildIndex [Inhabited V] (embedded : Bool) : Option V :=
  (s.descriptions key).map fun _ =>
    ((s.newEmbedding embed model key embedded).or ((s.embeddings key).map (·.1))).getD default

def edit : ToolEdit → ToolTables V
  | .sync key description =>
    ⟨Function.update s.descriptions key (some description), s.embeddings⟩
  | .delete key => ⟨Function.update s.descriptions key none, Function.update s.embeddings key none⟩
  | .rebuild model embedded saved =>
    ⟨s.descriptions, fun key =>
      ((s.newEmbedding embed model key (embedded && saved)).map fun v => (v, model)).or
        (s.embeddings key)⟩

def edits (es : List ToolEdit) : ToolTables V :=
  es.foldl (fun s e => s.edit embed e) ⟨fun _ => none, fun _ => none⟩

def KeepsText : ToolEdit → Prop
  | .sync key description => (s.embeddings key).isSome = true →
    ∀ old, s.descriptions key = some old →
      toolSearchText key.2 old = toolSearchText key.2 description
  | _ => True

/-- Every embedding is that of its tool, under the model that is noted with it. -/
def Current : Prop :=
  ∀ key v model, s.embeddings key = some (v, model) → ∃ description,
    s.descriptions key = some description ∧ v = embed model (toolSearchText key.2 description)

variable {embed s model key}

theorem Current.new {v : V} {embedded : Bool}
    (h : s.newEmbedding embed model key embedded = some v) :
    ∃ description, s.descriptions key = some description ∧
      v = embed model (toolSearchText key.2 description) := by
  unfold newEmbedding at h
  split at h
  · obtain ⟨description, hdesc, rfl⟩ := map_eq_some_iff.1 h
    exact ⟨description, hdesc, rfl⟩
  · cases h

theorem Current.edit {e : ToolEdit} (h : s.Current embed) (he : s.KeepsText e) :
    (s.edit embed e).Current embed := by
  intro key v model hv
  cases e with
  | sync key' description =>
    obtain ⟨old, hold, rfl⟩ := h key v model hv
    by_cases hkey : key = key'
    · subst hkey
      have hsto : (s.embeddings key).isSome = true := isSome_iff_exists.2 ⟨_, hv⟩
      exact ⟨description, update_self .., by rw [he hsto old hold]⟩
    · exact ⟨old, (update_of_ne hkey ..).trans hold, rfl⟩
  | delete key' =>
    have hkey : key ≠ key' := by
      rintro rfl
      cases (update_self ..).symm.trans hv
    obtain ⟨old, hold, rfl⟩ := h key v model ((update_of_ne hkey ..).symm.trans hv)
    exact ⟨old, (update_of_ne hkey ..).trans hold, rfl⟩
  | rebuild model' embedded saved =>
    rcases or_eq_some_iff.1 hv with hnew | ⟨-, hold⟩
    · obtain ⟨v', hnew, heq⟩ := map_eq_some_iff.1 hnew
      cases heq
      exact Current.new (s := s) hnew
    · exact h key v model hold

theorem edits_snoc (es : List ToolEdit) (e : ToolEdit) :
    edits embed (es ++ [e]) = (edits embed es).edit embed e := List.foldl_append

theorem current_edits {es : List ToolEdit}
    (hes : Throughout (fun before e => (edits embed before).KeepsText e) es) :
    (edits embed es).Current embed := by
  induction es using List.reverseRecOn with
  | nil => exact nofun
  | append_singleton es e ih =>
    obtain ⟨hes, he⟩ := throughout_snoc.1 hes
    rw [edits_snoc]
    exact (ih hes).edit he

/-- **A rebuild gives every tool the embedding of its text**, in the index and in the table. -/
theorem rebuilt_current [Inhabited V] (embed : Str → Str → V) (es : List ToolEdit)
    (hes : Throughout (fun before e => (edits embed before).KeepsText e) es) (model : Str)
    (key : ToolKey) :
    let embedding := ((edits embed es).descriptions key).map fun description =>
      embed model (toolSearchText key.2 description)
    (edits embed es).rebuildIndex embed model key true = embedding ∧
      (edits embed (es ++ [.rebuild model true true])).embeddings key =
        embedding.map fun v => (v, model) := by
  have hcur := current_edits hes
  rw [edits_snoc]
  unfold rebuildIndex ToolTables.edit newEmbedding needsEmbed
  cases hsto : (edits embed es).embeddings key with
  | none => cases h : (edits embed es).descriptions key <;> simp [hsto, h]
  | some stored =>
    obtain ⟨v, model'⟩ := stored
    obtain ⟨description, hdesc, rfl⟩ := hcur key v model' hsto
    by_cases hmod : model' = model <;> simp [hsto, hdesc, hmod]

/-! ### A tool of a mail connector -/

/-- The tool is synced, the index is built, and the tool is synced again. -/
def syncedAgain (description description' : Str) : List ToolEdit :=
  [.sync (1, "send") (some description), .rebuild "small" true true,
    .sync (1, "send") (some description')]

theorem rebuilt_current_same :
    (edits Prod.mk
        (syncedAgain "Send a mail" "Send a mail" ++ [.rebuild "small" true true])).embeddings
      (1, "send") = some (("small".toList, "send Send a mail".toList), "small".toList) := by
  refine (rebuilt_current Prod.mk _ ?_ "small" (1, "send")).2.trans rfl
  refine throughout_snoc.2 ⟨throughout_snoc.2 ⟨throughout_snoc.2 ⟨throughout_nil, ?_⟩, trivial⟩, ?_⟩
  · exact nofun
  · exact fun _ old hold => by cases hold; rfl

/-- The embedding stays that of the description before. -/
theorem edited_tool_stale : (edits Prod.mk (syncedAgain "Send a mail" "Delete a mail" ++
      [.rebuild "small" true true])).embeddings (1, "send") =
      some (("small".toList, "send Send a mail".toList), "small".toList) := by
  decide

end ToolTables

end Nasiko.McpGateway
