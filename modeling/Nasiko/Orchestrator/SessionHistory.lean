import Mathlib.Data.Rat.Init
import Nasiko.Compress.Compress
import Nasiko.Json.Integers
import Nasiko.LlmRouter.Routing

/-!
# The history of a session

The messages of a session are rows of a table, here in the order of their time. What the model is
given of them is read anew for each message, and the message itself is put behind it.

**Theorem (`latestUserQuery_iff`).** The router finds the query again if and only if the marker that
is put in front of it does not stand before it already.

**Theorem (`insert_unseen_iff`).** Whether the message is stored before or after the history is read
makes no difference if and only if the window has room for it, it is read as it was written and the
history does not end with it already; full windows that repeat themselves apart.

**Theorem (`refusals_hidden_iff`).** Refusals are kept from the model, whatever the strategy and the
embeddings, if and only if none of them is in a pair of the latest messages, or no pair is asked
for.
-/

namespace Nasiko.Orchestrator

open List Text Nat

structure Row where
  role : Str
  content : Str
  /-- The tag `orchestrator_refusal`. -/
  refusal : Bool
  deriving DecidableEq

structure ChatMessage where
  role : Str
  content : Str
  deriving DecidableEq

def asUser (content : Str) : ChatMessage := ⟨"user", content⟩

def historyText (messages : List ChatMessage) : Str :=
  List.intercalate ['\n'] (messages.map fun m => m.role ++ ": ".toList ++ m.content)

/-- The messages without a last one that is the query itself. -/
def deduped (messages : List ChatMessage) (query : Str) : List ChatMessage :=
  if messages.getLast? = some (asUser query) then messages.dropLast else messages

def withCurrentQuery (messages : List ChatMessage) (query : Str) : Str :=
  if deduped messages query = [] then query
  else historyText (deduped messages query) ++ "\n\nCurrent message: " ++ query

/-! ## The query in the text -/

section

open LlmRouter

/-- What is taken for the query of a text. -/
def currentOf (text : Str) : Str :=
  match Text.splitFirst currentMarker text with
  | some (_, found) =>
    if (found.drop currentMarker.length).isEmpty then text else found.drop currentMarker.length
  | none => text

theorem currentOf_of_split {text a r : Str}
    (h : splitFirst currentMarker text = some (a, currentMarker ++ r)) :
    currentOf text = if r = [] then text else r := by
  simp [currentOf, h]

theorem length_currentOf {s t : Str} (ht : t ≠ []) (h : currentMarker <:+: s) :
    ∃ r, currentOf (s ++ t) = r ++ t ∧ r.length < s.length := by
  cases hspl : splitFirst currentMarker s with
  | none => exact absurd h (splitFirst_eq_none_iff.1 hspl)
  | some cut =>
    obtain ⟨a, found⟩ := cut
    obtain ⟨rfl, ⟨r, rfl⟩, -⟩ := splitFirst_sound hspl
    have happ := splitFirst_append hspl t
    rw [append_assoc currentMarker] at happ
    refine ⟨r, by rw [currentOf_of_split happ, if_neg (by simp [ht])], ?_⟩
    have hpos : 0 < currentMarker.length := by decide
    simp only [length_append]
    omega

theorem currentOf_query_iff {q : Str} (hq : q ≠ []) :
    currentOf q = q ↔ ¬ currentMarker <:+: q.dropLast := by
  constructor
  · intro h hmar
    obtain ⟨r, hr, hlt⟩ := length_currentOf (t := [q.getLast hq]) (by simp) hmar
    rw [dropLast_append_getLast, h] at hr
    have hlen := congrArg length hr
    simp only [length_append, length_singleton, length_dropLast] at hlen hlt
    omega
  · intro h
    cases hspl : splitFirst currentMarker q with
    | none => simp [currentOf, hspl]
    | some cut =>
      obtain ⟨a, found⟩ := cut
      obtain ⟨rfl, ⟨r, rfl⟩, -⟩ := splitFirst_sound hspl
      rw [currentOf_of_split hspl, if_pos]
      by_contra hr
      refine h ⟨a, r.dropLast, ?_⟩
      rw [append_assoc, dropLast_append_of_ne_nil (by simp [hr]), dropLast_append_of_ne_nil hr]

theorem currentOf_history_iff {history q : Str} (hq : q ≠ []) :
    currentOf (history ++ currentMarker ++ q) = q ↔ ¬ currentMarker <:+: history := by
  rw [append_assoc]
  constructor
  · intro h hmar
    obtain ⟨r, hr, -⟩ := length_currentOf (t := currentMarker ++ q) (by simp [hq]) hmar
    rw [h] at hr
    have hpos : 0 < currentMarker.length := by decide
    have hlen := congrArg length hr
    simp only [length_append] at hlen
    omega
  · intro h
    have hopen : currentMarker <+: currentMarker ++ q := prefix_append _ q
    have hnot := notIn_of_not_infix (unbordered_of_take (by decide)) h hopen
    rw [currentOf_of_split (splitFirst_of_notIn hnot hopen), if_neg hq]

/-- **The query is found again if and only if the marker is not in the history**, and, without a
history, not in the query in front of its last character. -/
theorem latestUserQuery_iff {N : Type} (messages : List ChatMessage) (q : Str) (hq : q ≠ [])
    (request : List (Message N))
    (hlast : (request.reverse.find? fun m => m.role == "user".toList).bind Message.text =
      some (withCurrentQuery messages q)) :
    latestUserQuery request = some q ↔
      if deduped messages q = [] then ¬ currentMarker <:+: q.dropLast
      else ¬ currentMarker <:+: historyText (deduped messages q) := by
  have hcur : latestUserQuery request = some (currentOf (withCurrentQuery messages q)) := by
    rw [latestUserQuery, hlast]
    rfl
  rw [hcur, Option.some.injEq, withCurrentQuery]
  split_ifs
  · exact currentOf_query_iff hq
  · exact currentOf_history_iff hq

def asked (text : Str) : List (Message Int) := [⟨"user", some (.string text), none, none⟩]

theorem latestUserQuery_iff_hello :
    latestUserQuery (asked (withCurrentQuery [⟨"assistant", "hi"⟩] "hello")) =
      some "hello".toList :=
  (latestUserQuery_iff [⟨"assistant", "hi"⟩] "hello" (by decide) _ rfl).2 (by decide +kernel)

/-- **A marker in an older message is taken for the one in front of the query.** -/
theorem marker_in_history :
    latestUserQuery (asked (withCurrentQuery [⟨"user", "a\n\nCurrent message: b"⟩] "c")) =
      some "b\n\nCurrent message: c".toList := by
  decide +kernel

end

/-! ## The message that is stored meanwhile -/

section

open Compress (compress Policy)

variable (N : Type) {F : Type} [SerdeJson N F]

def readRow (policy : Policy) (r : Row) : ChatMessage :=
  ⟨r.role, (compress N r.content policy).text⟩

/-- The rows that are shown, the last one first. -/
def visible (rows : List Row) : List Row := (rows.filter fun r => !r.refusal).reverse

/-- The latest rows that are shown. -/
def window (rows : List Row) (limit : Nat) : List Row := ((visible rows).take limit).reverse

def fetchRaw (rows : List Row) (limit : Nat) (policy : Policy) : List ChatMessage :=
  (window rows limit).map (readRow N policy)

def fetch (rows : List Row) (limit : Nat) : List ChatMessage := fetchRaw N rows limit Policy.default

/-- The message of the user, as it is stored. -/
def stored (query : Str) : Row := ⟨"user", query, false⟩

omit [SerdeJson N F] in
theorem length_historyText (messages : List ChatMessage) : (historyText messages).length + 1 =
    max 1 (messages.map fun m => m.role.length + m.content.length + 3).sum := by
  induction messages with
  | nil => rfl
  | cons m messages ih =>
    cases messages with
    | nil => simp [historyText]; omega
    | cons m' messages =>
      simp [historyText, intercalate_cons_cons] at ih ⊢
      omega

theorem historyText_ne_of_sublist {a b : List ChatMessage} (h : a.Sublist b)
    (hlen : a.length < b.length) : historyText a ≠ historyText b := by
  intro heq
  have key : (a.map fun m => m.role.length + m.content.length + 3).sum + b.length * 3 ≤
      (b.map fun m => m.role.length + m.content.length + 3).sum + a.length * 3 := by
    clear hlen heq
    induction h with
    | slnil => simp
    | cons m h ih | cons_cons m h ih =>
      simp only [map_cons, sum_cons, length_cons]
      omega
  have ha := length_historyText a
  have hb := length_historyText b
  rw [heq] at ha
  omega

theorem withCurrentQuery_eq_iff {a b : List ChatMessage} {q : Str} :
    withCurrentQuery a q = withCurrentQuery b q ↔
      historyText (deduped a q) = historyText (deduped b q) := by
  have hne : ∀ messages : List ChatMessage, messages ≠ [] → historyText [] ≠ historyText messages :=
    fun messages h => historyText_ne_of_sublist (nil_sublist _) (length_pos_iff.2 h)
  rw [withCurrentQuery, withCurrentQuery]
  split_ifs with ha hb hb
  · simp [ha, hb]
  · refine iff_of_false (fun h => ?_) (ha ▸ hne _ hb)
    simpa using self_eq_append_left.1 h
  · refine iff_of_false (fun h => ?_) (hb ▸ (hne _ ha).symm)
    simpa using self_eq_append_left.1 h.symm
  · simp

theorem deduped_append (messages : List ChatMessage) (m : ChatMessage) (q : Str) :
    deduped (messages ++ [m]) q = if m = asUser q then messages else messages ++ [m] := by
  simp [deduped]

/-- A message behind the history is not seen if it is the query and the history does not end with
the query. -/
theorem historyText_deduped_append_iff {messages : List ChatMessage} {m : ChatMessage} {q : Str} :
    historyText (deduped (messages ++ [m]) q) = historyText (deduped messages q) ↔
      m = asUser q ∧ messages.getLast? ≠ some (asUser q) := by
  rw [deduped_append, deduped]
  split_ifs with hm hlast hlast
  · have hne : messages ≠ [] := fun h => by simp [h] at hlast
    have htext := historyText_ne_of_sublist messages.dropLast_sublist
      (by simp [length_pos_iff.2 hne])
    simp [hlast, htext.symm]
  · simp [hm, hlast]
  · have htext := historyText_ne_of_sublist
      (messages.dropLast_sublist.trans (sublist_append_left messages [m])) (by simp)
    simp [hm, htext.symm]
  · have htext := historyText_ne_of_sublist (sublist_append_left messages [m]) (by simp)
    simp [hm, htext.symm]

/-- **The text is the same with and without the stored message, if and only if** nothing is read, or
the window has room for it, it is read as it is and the history does not end with it already; apart
from a window that has no room and where the messages on both sides are the same text. -/
theorem insert_unseen_iff (rows : List Row) (q : Str) (limit : Nat) :
    withCurrentQuery (fetch N (rows ++ [stored q]) limit) q =
        withCurrentQuery (fetch N rows limit) q ↔ limit = 0 ∨
      ((visible rows).length < limit ∧ readRow N Policy.default (stored q) = asUser q ∧
        (fetch N rows limit).getLast? ≠ some (asUser q)) ∨
      (limit ≤ (visible rows).length ∧ (readRow N Policy.default (stored q) = asUser q →
        (fetch N rows limit).getLast? = some (asUser q)) ∧
        historyText
          (deduped ((fetch N rows limit).tail ++ [readRow N Policy.default (stored q)]) q) =
          historyText (deduped (fetch N rows limit) q)) := by
  cases limit with
  | zero => simp [fetch, fetchRaw, window]
  | succ k =>
    have hvis : visible (rows ++ [stored q]) = stored q :: visible rows := by
      simp [visible, stored]
    have hins : fetch N (rows ++ [stored q]) (k + 1) =
        fetch N rows k ++ [readRow N Policy.default (stored q)] := by
      simp [fetch, fetchRaw, window, hvis]
    rw [withCurrentQuery_eq_iff, hins]
    by_cases hfu : k + 1 ≤ (visible rows).length
    · have htail : fetch N rows k = (fetch N rows (k + 1)).tail := by
        simp [fetch, fetchRaw, window, tail_reverse, dropLast_eq_take, take_take, hfu]
      have hlen : (fetch N rows (k + 1)).length = k + 1 := by
        simp [fetch, fetchRaw, window, hfu]
      have hne := historyText_ne_of_sublist (tail_sublist (fetch N rows (k + 1))) (by simp [hlen])
      rw [htail]
      by_cases hnew : readRow N Policy.default (stored q) = asUser q →
          (fetch N rows (k + 1)).getLast? = some (asUser q)
      · simpa [hfu, not_lt.2 hfu] using fun _ => hnew
      · obtain ⟨hread, hlast⟩ := Classical.not_imp.1 hnew
        simp [hread, hlast, deduped, hne, not_lt.2 hfu]
    · have hall : fetch N rows k = fetch N rows (k + 1) := by
        simp only [fetch, fetchRaw, window]
        rw [take_of_length_le (by omega), take_of_length_le (by omega)]
      rw [hall, historyText_deduped_append_iff]
      simp [hfu, Nat.lt_of_not_le hfu]

/-- **A full window loses its oldest message to the one that is stored.** -/
theorem oldest_message_lost : withCurrentQuery (fetch Int [⟨"assistant", "hi", false⟩] 1) "b" =
        "assistant: hi\n\nCurrent message: b".toList ∧
      withCurrentQuery (fetch Int [⟨"assistant", "hi", false⟩, stored "b"] 1) "b" = "b".toList := by
  decide +kernel

end

/-! ## The strategies -/

open Compress (Policy)

inductive ContextSelectionStrategy where
  | pacms
  | topK
  | lastK

structure ContextFetchConfig where
  poolSize : Nat
  topkCount : Nat
  lastkLimit : Nat
  compress : Policy

/-- What comes of the calls for embeddings: the places that the selector of PACMS takes, and how
similar each pair is to the query, if the calls succeed. -/
structure Embedded where
  selected : List Nat
  scores : Option (List ℚ)

def latest (rows : List Row) (limit : Nat) : List Row := (rows.reverse.take limit).reverse

/-- Each message of the user with the one of the assistant that follows it. -/
def pairUp : List Row → List (Row × Row)
  | a :: b :: rows =>
    if a.role = "user" ∧ b.role = "assistant" then (a, b) :: pairUp rows else pairUp (b :: rows)
  | _ => []

def fetchPairs (rows : List Row) (poolSize : Nat) : List (Row × Row) :=
  pairUp (latest rows poolSize)

def rankPairs (pairs : List (Row × Row)) (scores : List ℚ) (topK : Nat) : List Row :=
  (((pairs.zip scores).insertionSort fun a b => b.2 ≤ a.2).take topK).flatMap fun p =>
    [p.1.1, p.1.2]

/-- The rows whose messages are returned, and how their texts are compressed. -/
def contextRows (strategy : ContextSelectionStrategy) (rows : List Row) (cfg : ContextFetchConfig)
    (e : Embedded) : List Row × Policy :=
  match strategy with
  | .pacms => (e.selected.filterMap fun i => (window rows cfg.poolSize)[i]?, cfg.compress)
  | .topK =>
    let ranked := e.scores.elim [] fun scores =>
      rankPairs (fetchPairs rows cfg.poolSize) scores cfg.topkCount
    if ranked.isEmpty then (window rows cfg.lastkLimit, Policy.default) else (ranked, cfg.compress)
  | .lastK => (window rows cfg.lastkLimit, Policy.default)

def fetchContext (N : Type) {F : Type} [SerdeJson N F] (strategy : ContextSelectionStrategy)
    (rows : List Row) (cfg : ContextFetchConfig) (e : Embedded) : List ChatMessage :=
  (contextRows strategy rows cfg e).1.map (readRow N (contextRows strategy rows cfg e).2)

variable {rows : List Row} {r : Row} {pairs : List (Row × Row)} {topK : Nat}

theorem refusal_of_mem_window {limit : Nat} (h : r ∈ window rows limit) : r.refusal = false := by
  have hvis := mem_of_mem_take (mem_reverse.1 h)
  simpa using (mem_filter.1 (mem_reverse.1 hvis)).2

theorem mem_pairUp {a b : Row} : (a, b) ∈ pairUp rows ↔
    [a, b] <:+: rows ∧ a.role = "user" ∧ b.role = "assistant" := by
  induction rows using pairUp.induct with
  | case1 x y rows h ih =>
    rw [pairUp, if_pos h, mem_cons, ih, infix_cons_iff, infix_cons_iff]
    simp only [Prod.mk.injEq, cons_prefix_cons, nil_prefix, and_true]
    grind
  | case2 x y rows h ih =>
    rw [pairUp, if_neg h, ih, @infix_cons_iff _ _ x (y :: rows)]
    simp only [cons_prefix_cons, nil_prefix, and_true]
    grind
  | case3 rows h =>
    rcases rows with _ | ⟨x, _ | ⟨y, rows⟩⟩
    · simp [pairUp]
    · simp [pairUp, infix_cons_iff]
    · exact (h x y rows rfl).elim

theorem exists_of_mem_rankPairs {scores : List ℚ} (h : r ∈ rankPairs pairs scores topK) :
    0 < topK ∧ ∃ p ∈ pairs, r = p.1 ∨ r = p.2 := by
  obtain ⟨p, hp, hr⟩ := mem_flatMap.1 h
  have hsor := mem_of_mem_take hp
  rw [mem_insertionSort] at hsor
  refine ⟨pos_of_ne_zero ?_, p.1, (of_mem_zip (b := p.2) hsor).1, mem_pair.1 hr⟩
  rintro rfl
  cases hp

/-- Any pair may be the one that is most similar to the query. -/
theorem exists_mem_rankPairs {p : Row × Row} (hp : p ∈ pairs) (hpos : topK ≠ 0) :
    ∃ scores, ∀ r, r = p.1 ∨ r = p.2 → r ∈ rankPairs pairs scores topK := by
  obtain ⟨f, hbest⟩ : ∃ f : Row × Row → ℚ, ∀ q, f p ≤ f q → q = p :=
    ⟨fun q => if q = p then 1 else 0, fun q hle => by_contra fun hne => by norm_num [hne] at hle⟩
  refine ⟨pairs.map f, fun r hr => ?_⟩
  have hsor := pairwise_insertionSort (fun a b => b.2 ≤ a.2) (pairs.zip (pairs.map f))
  have hmem : ∀ x, x ∈ (pairs.zip (pairs.map f)).insertionSort (fun a b => b.2 ≤ a.2) ↔
      ∃ q ∈ pairs, (q, f q) = x := by
    have hzip := zip_map' (l := pairs) (f := id) (g := f)
    simp only [map_id, id] at hzip
    simp [hzip]
  obtain ⟨k, rfl⟩ := exists_eq_succ_of_ne_zero hpos
  rw [rankPairs]
  cases hlist : (pairs.zip (pairs.map f)).insertionSort fun a b => b.2 ≤ a.2 with
  | nil => simpa [hlist] using (hmem _).2 ⟨p, hp, rfl⟩
  | cons x sorted =>
    rw [hlist] at hsor hmem
    obtain ⟨q, -, rfl⟩ := (hmem x).1 mem_cons_self
    have hle : f p ≤ f q := by
      rcases mem_cons.1 ((hmem _).2 ⟨p, hp, rfl⟩) with heq | hlat
      · exact (congrArg Prod.snd heq).le
      · exact rel_of_pairwise_cons hsor hlat
    obtain rfl := hbest q hle
    exact mem_flatMap.2 ⟨_, mem_cons_self, mem_pair.2 hr⟩

/-- **No refusal is shown, whatever the strategy and the embeddings**, if and only if no pair is
asked for, or no refusal is in a pair of the latest messages. -/
theorem refusals_hidden_iff (rows : List Row) (cfg : ContextFetchConfig) :
    (∀ strategy e, ∀ r ∈ (contextRows strategy rows cfg e).1, r.refusal = false) ↔
      cfg.topkCount = 0 ∨ ∀ a b, [a, b] <:+: latest rows cfg.poolSize → a.role = "user" →
        b.role = "assistant" → a.refusal = false ∧ b.refusal = false := by
  constructor
  · intro h
    refine or_iff_not_imp_left.2 fun hpos a b hin ha hb => ?_
    have hpair : (a, b) ∈ fetchPairs rows cfg.poolSize := mem_pairUp.2 ⟨hin, ha, hb⟩
    obtain ⟨scores, hsho⟩ := exists_mem_rankPairs hpair hpos
    have htop : ∀ r, r = a ∨ r = b → r.refusal = false := fun r hr =>
      h .topK ⟨[], some scores⟩ r
        (by simpa [contextRows, ne_nil_of_mem (hsho r hr)] using hsho r hr)
    exact ⟨htop a (Or.inl rfl), htop b (Or.inr rfl)⟩
  · intro h strategy e r hr
    cases strategy with
    | pacms =>
      obtain ⟨i, -, hi⟩ := mem_filterMap.1 hr
      exact refusal_of_mem_window (mem_of_getElem? hi)
    | lastK => exact refusal_of_mem_window hr
    | topK =>
      cases hsco : e.scores with
      | none => exact refusal_of_mem_window (by simpa [contextRows, hsco] using hr)
      | some scores =>
        by_cases hran : rankPairs (fetchPairs rows cfg.poolSize) scores cfg.topkCount = []
        · exact refusal_of_mem_window (by simpa [contextRows, hsco, hran] using hr)
        · have hmem : r ∈ rankPairs (fetchPairs rows cfg.poolSize) scores cfg.topkCount := by
            simpa [contextRows, hsco, hran] using hr
          obtain ⟨hpos, p, hp, hr⟩ := exists_of_mem_rankPairs hmem
          obtain ⟨hin, ha, hb⟩ := mem_pairUp.1 hp
          obtain ⟨hq, hans⟩ := h.resolve_left (ne_of_gt hpos) _ _ hin ha hb
          rcases hr with rfl | rfl
          · exact hq
          · exact hans

open Nasiko.Json.Integers

/-- **A refusal is shown again**, in a pair with the message that was refused. -/
theorem refusal_shown :
    (contextRows .topK [stored "a", ⟨"assistant", "no", true⟩] ⟨2, 1, 1, Policy.default⟩
      ⟨[], some [1]⟩).1 = [stored "a", ⟨"assistant", "no", true⟩] ∧
    fetchContext Int .topK [stored "a", ⟨"assistant", "no", true⟩] ⟨2, 1, 1, Policy.default⟩
      ⟨[], some [1]⟩ = [asUser "a", ⟨"assistant", "no"⟩] :=
  ⟨by decide +kernel, by decide +kernel⟩

end Nasiko.Orchestrator
