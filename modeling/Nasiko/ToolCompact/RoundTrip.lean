import Nasiko.ToolCompact.Encode
import Nasiko.ToolCompact.Grammar

/-!
# Calls survive rendering and decoding

The text that `renderCalls` writes is a text of the call grammar (`outputText_renderCalls`), so
decoding it gives the calls back. Two things can go wrong, both in `serde_json`: arguments that
nest too deep are written but not read, and a number may be read as another one than was written.
`Renderable` excludes them.
-/

namespace Nasiko.ToolCompact

open SerdeJson Result Decoded List

variable {N F : Type} [SerdeJson N F] {cat : Catalog N}

/-- A number that is read back as it was written. -/
def Exact (n : N) : Prop := ofToken (numText n) = some n

instance [DecidableEq N] (n : N) : Decidable (Exact n) :=
  inferInstanceAs (Decidable (ofToken (numText n) = some n))

/-- A call to a tool of the catalog that has valid arguments with the nulls the decoder would add,
and whose arguments `serde_json` reads back. -/
structure Renderable (cat : Catalog N) (c : ToolCall N) : Prop where
  name : IsName c.name
  valid : ∃ schema, cat.get c.name = some schema ∧
    Validate.object c.arguments schema "$" = .ok () ∧
    Validate.fillOmittedNullable c.arguments schema = c.arguments
  canonical : (Json.object c.arguments).Canonical
  depth : (Json.object c.arguments).depth < recursionLimit
  numbers : Json.AllNumbers Exact (.object c.arguments)

theorem uniqueKeys_of_canonical {v : Json N} (h : v.Canonical) : UniqueKeys v := by
  induction h with
  | null => exact .null
  | bool b => exact .bool b
  | number n => exact .number n
  | string s => exact .string s
  | array _ ih => exact .array ih
  | @object fs hs _ ih =>
    refine .object ?_ ih
    rw [Nodup, pairwise_map]
    exact hs.imp fun h => h.ne

theorem callText_renderCall (hwr : WritesJson N) {c : ToolCall N}
    (h : Renderable cat c) : CallText cat c (renderCall c) := by
  obtain ⟨schema, hget, hval, hfill⟩ := h.valid
  have hspa : Space [' '] := by simp [Space, isAsciiWhitespace]
  have hobj : ObjectText c.arguments c.argumentsJson :=
    ⟨(hwr.toText_compact _).read h.numbers, h.depth, uniqueKeys_of_canonical h.canonical⟩
  have hargs : ArgsText c.arguments c.argumentsJson := by
    have := ArgsText.object hobj (w := []) (by simp [Space])
    rwa [Json.object.inj (Json.toValue_of_canonical h.canonical), append_nil] at this
  have hcall := CallText.mk hspa (by simp) h.name hspa hargs hget hval
  rw [hfill] at hcall
  exact hcall

/-- The line breaks between calls are prose. -/
def renderedText (before after : Str) (calls : List (ToolCall N)) : Str :=
  before ++ (List.replicate (calls.length - 1) '\n' ++ after)

theorem outputText_renderCalls (hwr : WritesJson N)
    {calls : List (ToolCall N)} (hcal : ∀ c ∈ calls, Renderable cat c) (hne : calls ≠ [])
    {before after : Str} (hbef : ¬ callOpen <:+: before) (haft : ¬ callOpen <:+: after) :
    OutputText cat ⟨renderedText before after calls, calls⟩
      (before ++ (renderCalls calls ++ after)) := by
  induction calls generalizing before with
  | nil => exact absurd rfl hne
  | cons c cs ih =>
    obtain ⟨hc, hcs⟩ := forall_mem_cons.1 hcal
    have hcall := callText_renderCall hwr hc
    cases cs with
    | nil =>
      have hout := OutputText.call hbef hcall (.prose haft)
      simpa [renderCalls, renderedText, append_def, prose, one] using hout
    | cons c' cs =>
      have hnl : ¬ callOpen <:+: ['\n'] := by decide
      have hout := OutputText.call hbef hcall (ih hcs (by simp) hnl)
      simpa [renderCalls, renderedText, append_def, prose, one, replicate_succ] using hout

/-- **Calls survive.** Prose, rendered calls and prose decode to those calls, in order. -/
theorem decode_renderCalls (hreads : ReadsJson N) (hwrites : WritesJson N)
    (tools : List (ToolDef N)) {cat : Catalog N} (hcat : Catalog.new tools = .ok cat)
    {calls : List (ToolCall N)} (hcalls : ∀ c ∈ calls, Renderable cat c) {before after : Str}
    (hbefore : ¬ callOpen <:+: before) (hafter : ¬ callOpen <:+: after)
    (hnone : calls = [] → ¬ callOpen <:+: before ++ after) :
    decode (before ++ (renderCalls calls ++ after)) tools =
      .ok ⟨renderedText before after calls, calls⟩ := by
  rw [decode_eq_ok_iff hreads tools hcat]
  by_cases hne : calls = []
  · subst hne
    exact .prose (hnone rfl)
  · exact outputText_renderCalls hwrites hcalls hne hbefore hafter

/-- A tool that takes any object. -/
def anyTool : ToolDef Int :=
  ⟨"t", none, some (.object [("type", .string "object")])⟩

/-- A string argument that looks like a call, and a number. -/
def trickyCall : ToolCall Int :=
  ⟨"t", [("a", .array [.string "<<call t>>", .number (-7)])]⟩

theorem trickyCall_renderable : Renderable ⟨[("t", ⟨[], false⟩)]⟩ trickyCall where
  name := ⟨by decide, by decide⟩
  valid := ⟨⟨[], false⟩, rfl, rfl, rfl⟩
  canonical := .object (pairwise_singleton _ _) (forall_mem_singleton.2
    (.array (forall_mem_cons.2 ⟨.string _, forall_mem_singleton.2 (.number _)⟩)))
  depth := by decide
  numbers := .object (forall_mem_singleton.2 (.array (forall_mem_cons.2
    ⟨.string _, forall_mem_singleton.2 (.number (by decide +kernel : Exact (-7 : Int)))⟩)))

theorem decode_renderCalls_tricky :
    decode ("Hi " ++ (renderCalls [trickyCall, trickyCall] ++ " <<ca")) [anyTool] =
      .ok ⟨"Hi \n <<ca", [trickyCall, trickyCall]⟩ := by
  refine decode_renderCalls Json.Integers.readsJson Json.Integers.writesJson [anyTool] rfl ?_
    (by decide) (by decide) (by decide)
  exact forall_mem_cons.2 ⟨trickyCall_renderable, forall_mem_singleton.2 trickyCall_renderable⟩

/-- `n` arrays, one in the other. -/
def nest : Nat → Json Int
  | 0 => .null
  | n + 1 => .array [nest n]

/-- Arguments that nest 128 deep are valid and are rendered, but not decoded. -/
theorem deep_call_not_decoded :
    ∃ cat schema, Catalog.new [anyTool] = .ok cat ∧ cat.get "t" = some schema ∧
      Validate.object [("a", nest 127)] schema "$" = .ok () ∧
      Validate.fillOmittedNullable [("a".toList, nest 127)] schema = [("a".toList, nest 127)] ∧
      decode (renderCalls [⟨"t", [("a", nest 127)]⟩]) [anyTool] = .error (.invalidArguments "t" "$"
          "arguments are not a valid JSON object") :=
  ⟨⟨[("t", ⟨[], false⟩)]⟩, ⟨[], false⟩, rfl, rfl, rfl, rfl, by decide +kernel⟩

end Nasiko.ToolCompact
