import Nasiko.Compress.Handles
import Nasiko.Text.Uuid
import Nasiko.LlmRouter.Config

/-!
# Compression of tool results

`apply` compresses the tool results of a request before the request is sent. For a long text it
draws a handle, by which the original can be had again, and the handle stands in the marks of the
compressed text. What is sent of a text depends on the text, the policy and this handle
(`compressStr_fst`).

**Theorem (`prefix_kept_iff`).** A later request that only appends messages sends those of the
earlier one in the same way again, if and only if no text of a tool result in them gets a handle and
has something left out.

The handles of two requests are different. They take the same room, so that the same texts are
compressed, but a text with a mark is another one each time.
-/

namespace Nasiko.LlmRouter.Compression

open List Option Json Str

open Compress (Policy ContentType Elided compress_alike_iff)

/-! ## The step -/

/-- An original that is held back for recovery. -/
structure Original where
  handle : Uuid
  content : Str
  contentType : ContentType

/-- A handle is drawn for a payload of at least this size. -/
structure Recovery where
  minBytes : Nat

structure CompressionStats where
  applied : Bool
  dryRun : Bool
  level : Compress.Level
  bytesIn : Nat
  bytesOut : Nat
  messagesTouched : Nat
  byType : ContentType → Nat
  originals : List Original

section

variable {N F : Type} [SerdeJson N F] (policy : Policy) (recovery : Option Recovery)

/-- A handle is drawn for the text. -/
def mints (text : Str) : Bool := recovery.any fun r => r.minBytes ≤ utf8Len text

/-- The policy for a text, with the handle that is drawn for it. -/
def policyOf (drawn : Uuid) (text : Str) : Policy :=
  if mints recovery text then policy.withHandle drawn.toStr else policy

variable (N) in
def compressStr (drawn : Uuid) (text : Str) (stats : CompressionStats) : Str × CompressionStats :=
  let minted := if mints recovery text then [drawn] else []
  let out := Compress.compress N text (policyOf policy recovery drawn text)
  if out.savedBytes = 0 then (text, stats)
  else
    let stats := { stats with
      messagesTouched := stats.messagesTouched + 1
      bytesIn := stats.bytesIn + out.originalBytes
      bytesOut := stats.bytesOut + out.projectedBytes
      byType := Function.update stats.byType out.contentType (stats.byType out.contentType + 1) }
    if out.isChanged then
      (out.text, { stats with
        originals := stats.originals ++ minted.map fun handle => ⟨handle, text, out.contentType⟩ })
    else (text, stats)

def partText (part : Json N) : Option Str :=
  if (part.get "type").bind asStr = some "text".toList then (part.get "text").bind asStr
  else none

def setText (part : Json N) (text : Str) : Json N :=
  match part with
  | .object fields =>
    .object (fields.map fun f => if f.1 = "text".toList then (f.1, .string text) else f)
  | part => part

/-- The loop over the parts; `draw` gives each of them its handle. -/
def compressParts : (draw : Nat → Uuid) → List (Json N) → CompressionStats →
    List (Json N) × CompressionStats
  | _, [], stats => ([], stats)
  | draw, part :: parts, stats =>
    let (part, stats) := match partText part with
      | some text =>
        let (text, stats) := compressStr N policy recovery (draw 0) text stats
        (setText part text, stats)
      | none => (part, stats)
    let (parts, stats) := compressParts (fun j => draw (j + 1)) parts stats
    (part :: parts, stats)

variable (draw : Nat → Uuid)

def compressContent (content : Json N) (stats : CompressionStats) : Json N × CompressionStats :=
  match content with
  | .string s =>
    let (s, stats) := compressStr N policy recovery (draw 0) s stats
    (.string s, stats)
  | .array parts =>
    let (parts, stats) := compressParts policy recovery draw parts stats
    (.array parts, stats)
  | content => (content, stats)

def toolContent (msg : Message N) : Option (Json N) :=
  if msg.role ≠ "tool".toList ∨ msg.toolCalls.isSome then none else msg.content

/-- The loop over the messages. -/
def compressMessages : (draw : Nat → Nat → Uuid) → List (Message N) → CompressionStats →
    List (Message N) × CompressionStats
  | _, [], stats => ([], stats)
  | draw, msg :: msgs, stats =>
    let (msg, stats) := match toolContent msg with
      | some content =>
        let (content, stats) := compressContent policy recovery (draw 0) content stats
        ({ msg with content := some content }, stats)
      | none => (msg, stats)
    let (msgs, stats) := compressMessages (fun i => draw (i + 1)) msgs stats
    (msg :: msgs, stats)

/-- `draw i j` is the handle that is drawn for part `j` of message `i`. -/
def apply (draw : Nat → Nat → Uuid) (req : ChatRequest N F) (policy : Policy)
    (recovery : Option Recovery) : ChatRequest N F × CompressionStats :=
  let stats : CompressionStats := ⟨false, policy.dryRun, policy.level, 0, 0, 0, fun _ => 0, []⟩
  if policy.enabled then
    let (messages, stats) := compressMessages policy recovery draw req.messages stats
    ({ req with messages := messages },
      { stats with applied := !policy.dryRun && stats.bytesOut < stats.bytesIn })
  else (req, stats)

/-! ## Handles as text -/

theorem mem_digits {id : Uuid} {start count : Nat} {c : Char} (hc : c ∈ id.digits start count) :
    c ∈ "0123456789abcdef-".toList := by
  obtain ⟨k, -, rfl⟩ := mem_map.1 hc
  generalize hd : id.toNat / 16 ^ (31 - (start + k)) % 16 = d
  have hlt : d < 16 := hd ▸ Nat.mod_lt _ (by decide)
  interval_cases d <;> decide

theorem mem_toStr {id : Uuid} {c : Char} (hc : c ∈ id.toStr) : c ∈ "0123456789abcdef-".toList := by
  simp only [Uuid.toStr, mem_append, mem_cons] at hc
  rcases hc with (((hc | rfl | hc) | rfl | hc) | rfl | hc) | rfl | hc
  all_goals first | exact mem_digits hc | decide

theorem alike_toStr {a b : Uuid} : Compress.Alike a.toStr b.toStr := by
  have hlen : ∀ id : Uuid, id.toStr.length = 36 := fun id => by
    simp [Uuid.toStr, Uuid.length_digits]
  have hbyt : ∀ id : Uuid, utf8Len id.toStr = 36 := by
    intro id
    have hone : ∀ c ∈ id.toStr, c.utf8Size = 1 := fun c hc =>
      (show ∀ c ∈ "0123456789abcdef-".toList, c.utf8Size = 1 by decide) c (mem_toStr hc)
    rw [utf8Len, map_congr_left hone, map_const', hlen]
    rfl
  have hpla : ∀ id : Uuid, ∀ c ∈ id.toStr, Json.IsPlain c := fun id c hc =>
    (show ∀ c ∈ "0123456789abcdef-".toList, Json.IsPlain c by decide) c (mem_toStr hc)
  exact ⟨by rw [hlen, hlen], by rw [hbyt, hbyt], hpla a, hpla b⟩

theorem toStr_inj {a b : Uuid} (h : a.toStr = b.toStr) : a = b := by
  have hpar := congrArg Uuid.parseStr h
  rw [Uuid.parseStr_toStr, Uuid.parseStr_toStr] at hpar
  exact some.inj hpar

/-! ## What is sent -/

variable (N) in
def sentText (drawn : Uuid) (text : Str) : Str :=
  (Compress.compress N text (policyOf policy recovery drawn text)).text

variable (N) in
/-- A result is the input, as such or for a dry run, or a shorter text. -/
theorem compress_cases (input : Str) (policy : Policy) :
    (∃ kind bytes, Compress.compress N input policy = .projected input kind bytes) ∨
      ∃ kind out, utf8Len out < utf8Len input ∧
        Compress.compress N input policy = .shrunk input kind out := by
  have hsame : ∀ kind, ∃ kind' bytes, Compress.Compressed.unchanged input kind =
      .projected input kind' bytes := fun kind => ⟨kind, _, rfl⟩
  rw [Compress.compress]
  by_cases hlong : policy.maxInputBytes < utf8Len input
  · rw [if_pos hlong, Compress.cutInput]
    split
    · split_ifs with hlt
      · exact .inr ⟨_, _, hlt, rfl⟩
      · exact .inl (hsame _)
    · exact .inl (hsame _)
  · rw [if_neg hlong]
    dsimp only
    split
    · split
      · split_ifs with hlt hdry
        · exact .inl ⟨_, _, rfl⟩
        · exact .inr ⟨_, _, hlt.2, rfl⟩
        · exact .inl (hsame _)
      · exact .inl (hsame _)
    · exact .inl (hsame _)

theorem compressStr_fst {drawn : Uuid} {text : Str} {stats : CompressionStats} :
    (compressStr N policy recovery drawn text stats).1 = sentText N policy recovery drawn text := by
  rw [compressStr, sentText]
  rcases compress_cases N text (policyOf policy recovery drawn text) with
    ⟨kind, bytes, heq⟩ | ⟨kind, out, hlt, heq⟩
  · have hcha : ¬ (Compress.Compressed.projected text kind bytes).isChanged :=
      fun h => lt_irrefl _ (of_decide_eq_true h)
    by_cases hsav : (Compress.Compressed.projected text kind bytes).savedBytes = 0
    · rw [heq, if_pos hsav]
      rfl
    · rw [heq, if_neg hsav, if_neg hcha]
      rfl
  · have hsav : ¬ (Compress.Compressed.shrunk text kind out).savedBytes = 0 :=
      Nat.sub_ne_zero_of_lt hlt
    have hcha : (Compress.Compressed.shrunk text kind out).isChanged := decide_eq_true hlt
    rw [heq, if_neg hsav, if_pos hcha]

def sentPart (drawn : Uuid) (part : Json N) : Json N :=
  (partText part).elim part fun text => setText part (sentText N policy recovery drawn text)

theorem compressParts_fst (parts : List (Json N)) (stats : CompressionStats) :
    (compressParts policy recovery draw parts stats).1 =
      parts.mapIdx fun j => sentPart policy recovery (draw j) := by
  induction parts generalizing draw stats with
  | nil => rfl
  | cons part parts ih =>
    rw [mapIdx_cons, compressParts, sentPart]
    cases partText part with
    | none => exact congrArg _ (ih _ _)
    | some text => exact congrArg₂ _ (congrArg _ (compressStr_fst _ _)) (ih _ _)

/-- What is sent of the content of a tool result. -/
def sentContent : Json N → Json N
  | .string s => .string (sentText N policy recovery (draw 0) s)
  | .array parts => .array (parts.mapIdx fun j => sentPart policy recovery (draw j))
  | content => content

theorem compressContent_fst (content : Json N) (stats : CompressionStats) :
    (compressContent policy recovery draw content stats).1 =
      sentContent policy recovery draw content := by
  cases content with
  | string s => exact congrArg _ (compressStr_fst _ _)
  | array parts => exact congrArg _ (compressParts_fst _ _ _ _ _)
  | null | bool | number | object => rfl

def sentMessage (msg : Message N) : Message N :=
  (toolContent msg).elim msg fun content =>
    { msg with content := some (sentContent policy recovery draw content) }

theorem compressMessages_fst (draw : Nat → Nat → Uuid) (msgs : List (Message N))
    (stats : CompressionStats) :
    (compressMessages policy recovery draw msgs stats).1 =
      msgs.mapIdx fun i => sentMessage policy recovery (draw i) := by
  induction msgs generalizing draw stats with
  | nil => rfl
  | cons msg msgs ih =>
    rw [mapIdx_cons, compressMessages, sentMessage]
    cases toolContent msg with
    | none => exact congrArg _ (ih _ _)
    | some content =>
      refine congrArg₂ _ ?_ (ih _ _)
      exact congrArg (fun content => { msg with content := some content })
        (compressContent_fst policy recovery (draw 0) content stats)

/-! ## Two requests -/

/-- The texts of the content of a tool result. -/
def texts : Json N → List Str
  | .string s => [s]
  | .array parts => parts.filterMap partText
  | _ => []

variable (N) in
/-- The text gets a handle, and something is left out of it. How long a handle is does not depend on
the handle, so any of them may stand here. -/
def Marked (text : Str) : Prop :=
  mints recovery text = true ∧ Elided N policy (Uuid.toStr 0) text

/-- The message is a tool result in which a handle is left. -/
def Breaks (msg : Message N) : Prop :=
  policy.enabled = true ∧ ∃ content, toolContent msg = some content ∧
    ∃ text ∈ texts content, Marked N policy recovery text

variable {policy recovery} (hwrites : SerdeJson.WritesText N)

include hwrites

theorem elided_alike {h h' : Str} (hali : Compress.Alike h h') {text : Str} :
    Elided N policy h text ↔ Elided N policy h' text := by
  by_cases hne : h = h'
  · rw [hne]
  · rw [← not_iff_not, ← compress_alike_iff hali hwrites hne, eq_comm,
      compress_alike_iff hali.symm hwrites (Ne.symm hne)]

theorem sentText_iff {drawn drawn' : Uuid} (hne : drawn ≠ drawn') (text : Str) :
    sentText N policy recovery drawn text = sentText N policy recovery drawn' text ↔
      ¬ Marked N policy recovery text := by
  rw [sentText, sentText, policyOf, policyOf, Marked]
  by_cases hmin : mints recovery text = true
  · rw [if_pos hmin, if_pos hmin, and_iff_right hmin,
      compress_alike_iff alike_toStr hwrites fun h => hne (toStr_inj h),
      elided_alike hwrites alike_toStr]
  · rw [if_neg hmin, if_neg hmin]
    exact iff_of_true rfl fun h => hmin h.1

omit hwrites in
theorem setText_inj {part : Json N} {text a b : Str} (hpart : partText part = some text)
    (h : setText part a = setText part b) : a = b := by
  obtain ⟨v, hget, -⟩ := bind_eq_some_iff.1 (ite_none_right_eq_some.1 hpart).2
  cases part with
  | object fields =>
    have hmem := Entries.mem_of_get? hget
    have heq := map_inj_left.1 (object.inj h) _ hmem
    simpa using heq
  | null | bool | number | string | array => cases hget

theorem sentPart_iff {drawn drawn' : Uuid} (hne : drawn ≠ drawn') (part : Json N) :
    sentPart policy recovery drawn part = sentPart policy recovery drawn' part ↔
      ∀ text, partText part = some text → ¬ Marked N policy recovery text := by
  rw [sentPart, sentPart]
  cases hpart : partText part with
  | none => simp
  | some text =>
    have hsent : sentText N policy recovery drawn text =
        sentText N policy recovery drawn' text ↔ _ := sentText_iff hwrites hne text
    simp only [elim_some, some.injEq, forall_eq', ← hsent]
    exact ⟨setText_inj hpart, congrArg _⟩

theorem sentContent_iff {draw draw' : Nat → Uuid} (hfr : ∀ j, draw j ≠ draw' j) (content : Json N) :
    sentContent policy recovery draw content = sentContent policy recovery draw' content ↔
      ∀ text ∈ texts content, ¬ Marked N policy recovery text := by
  cases content with
  | string s =>
    rw [sentContent, sentContent, string.injEq, sentText_iff hwrites (hfr 0)]
    simp [texts]
  | array parts =>
    rw [sentContent, sentContent, array.injEq, mapIdx_eq_mapIdx_iff]
    simp only [sentPart_iff hwrites (hfr _), texts, mem_filterMap]
    constructor
    · rintro h text ⟨part, hpart, htext⟩
      obtain ⟨j, hj, rfl⟩ := mem_iff_getElem.1 hpart
      exact h j hj text htext
    · exact fun h j hj text htext => h text ⟨_, getElem_mem hj, htext⟩
  | null | bool | number | object => simp [sentContent, texts]

theorem sentMessage_iff {draw draw' : Nat → Uuid} (hfr : ∀ j, draw j ≠ draw' j)
    (hen : policy.enabled = true) (msg : Message N) :
    sentMessage policy recovery draw msg = sentMessage policy recovery draw' msg ↔
      ¬ Breaks policy recovery msg := by
  rw [sentMessage, sentMessage, Breaks, and_iff_right hen]
  cases htool : toolContent msg with
  | none => simp
  | some content =>
    simp [sentContent_iff hwrites hfr]

/-- **What was sent before is sent again in the same way, if and only if no handle is left in it.**
The draws of the two requests are different at each place. -/
theorem prefix_kept_iff {draw draw' : Nat → Nat → Uuid} (hfresh : ∀ i j, draw i j ≠ draw' i j)
    (req later : ChatRequest N F) {more : List (Message N)}
    (hlater : later.messages = req.messages ++ more) :
    (apply draw' later policy recovery).1.messages.take req.messages.length =
        (apply draw req policy recovery).1.messages ↔
      ¬ ∃ msg ∈ req.messages, Breaks policy recovery msg := by
  by_cases hen : policy.enabled = true
  · rw [apply, apply, if_pos hen, if_pos hen]
    dsimp only
    rw [compressMessages_fst, compressMessages_fst, hlater, mapIdx_append,
      take_left' length_mapIdx, mapIdx_eq_mapIdx_iff]
    simp only [sentMessage_iff hwrites (fun j => (hfresh _ j).symm) hen]
    constructor
    · rintro h ⟨msg, hmem, hbre⟩
      obtain ⟨i, hi, rfl⟩ := mem_iff_getElem.1 hmem
      exact h i hi hbre
    · exact fun h i hi hbre => h ⟨_, getElem_mem hi, hbre⟩
  · rw [apply, apply, if_neg hen, if_neg hen, hlater, take_left' rfl]
    exact iff_of_true rfl fun ⟨_, _, hbre⟩ => hen hbre.1

end

def toolRequest (results : List Str) : ChatRequest Int Int :=
  ⟨none, results.map fun text => ⟨"tool", some (.string text), none, none⟩, none, none, none, none,
    none, []⟩

def enabledPolicy : Policy := { Policy.default with enabled := true }

/-- A short result is sent in the same way each time. -/
theorem prefix_kept_iff_short :
    (apply (fun _ _ => 2) (toolRequest ["ok", "done"]) enabledPolicy
        (some ⟨2048⟩)).1.messages.take 1 =
      (apply (fun _ _ => 1) (toolRequest ["ok"]) enabledPolicy (some ⟨2048⟩)).1.messages := by
  have hfr : ∀ i j : Nat, (fun _ _ => 1 : Nat → Nat → Uuid) i j ≠ (fun _ _ => 2) i j :=
    fun _ _ => show (1 : Uuid) ≠ 2 by decide
  refine (prefix_kept_iff Json.Integers.writesText hfr (toolRequest ["ok"])
    (toolRequest ["ok", "done"]) rfl).2 ?_
  rintro ⟨msg, hmem, -, content, hcont, text, htext, hmin, -⟩
  obtain rfl := mem_singleton.1 hmem
  cases hcont
  obtain rfl := mem_singleton.1 htext
  exact absurd hmin (by decide)

/-- A log of eighty lines. -/
def longLog : Str := (List.replicate 80 "INFO the request has been handled\n".toList).flatten

/-- **The handle of the first request is not that of the second.** -/
theorem prefix_broken_longLog : (apply (fun _ _ => 2) (toolRequest [longLog, "done"]) enabledPolicy
        (some ⟨2048⟩)).1.messages.take 1 ≠
      (apply (fun _ _ => 1) (toolRequest [longLog]) enabledPolicy (some ⟨2048⟩)).1.messages := by
  intro h
  have htex := congrArg (map fun m : Message Int => m.content.bind asStr) h
  exact absurd htex (by decide +kernel)

end Nasiko.LlmRouter.Compression
