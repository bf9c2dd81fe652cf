import Nasiko.ToolCompact.Agree
import Nasiko.ToolCompact.Parse
import Nasiko.ToolCompact.RoundTrip

/-!
# The notation is read back

What `Renderer.ty` writes under the policy `keep`, `parseTy` reads as the same node, except that
an enum loses its `nullable` flag (`parseTy_reads`).

`Reads stop p text a` says that the reader `p` reads `text` as `a` wherever it stands, as long as
the character behind it is one of `stop`. The lemmas go from the tokens (quoted text, numbers,
defaults, keys) to the alternatives of a type, and from there to types and fields, which need each
other. The induction is on how deep a node nests.
-/

namespace Nasiko.ToolCompact

open SerdeJson Result List Except Cursor Json Renderer Text

/-- `p` reads `text` as `a` in front of a character of `stop` or the end of the line. -/
def Reads {A : Type} (stop : Char → Bool) (p : Cursor → Except Str (A × Cursor)) (text : Str)
    (a : A) : Prop :=
  ∀ i rest, (∀ c ∈ rest.head?, stop c = true) → ∃ j, p ⟨i, text ++ rest⟩ = .ok (a, ⟨j, rest⟩)

/-- A text that starts with a character of `stop`, or is at its end. -/
def Ends (stop : Char → Bool) (s : Str) : Prop := ∀ c ∈ s.head?, stop c = true

variable {stop : Char → Bool} {word s text : Str} {b : Char}

theorem Reads.mono {A : Type} {stop' : Char → Bool} {p : Cursor → Except Str (A × Cursor)} {a : A}
    (h : Reads stop p text a) (hst : ∀ c, stop' c = true → stop c = true) :
    Reads stop' p text a := fun i rest hre => h i rest fun c hc => hst c (hre c hc)

/-- What may stand behind a type. -/
def tyEnd (c : Char) : Bool := c == ',' || c == ')' || c == '}' || c == ']'

/-- What may stand behind an alternative of a type. -/
def altEnd (c : Char) : Bool := tyEnd c || c == '|' || c == '=' || c == ' '

/-! ## The cursor -/

theorem eat_cons (i : Nat) (b : Char) (s : Str) : eat ⟨i, b :: s⟩ b = (true, ⟨i + 1, s⟩) := by
  simp [eat, peek]

theorem eat_of_head_ne {i : Nat} (h : s.head? ≠ some b) : eat ⟨i, s⟩ b = (false, ⟨i, s⟩) := by
  simp [eat, peek, h]

theorem eat_mark (mark : Bool) (h : s.head? ≠ some b) (i : Nat) :
    ∃ k, eat ⟨i, (if mark then [b] else []) ++ s⟩ b = (mark, ⟨k, s⟩) := by
  cases mark with
  | true => exact ⟨i + 1, eat_cons i b s⟩
  | false => exact ⟨i, eat_of_head_ne h⟩

theorem expect_cons (i : Nat) (b : Char) (s : Str) : expect ⟨i, b :: s⟩ b = .ok ⟨i + 1, s⟩ := by
  rw [expect, eat_cons]

theorem head_ne_of_ends (hb : stop b = false) (h : Ends stop s) : s.head? ≠ some b := by
  intro hs
  have := h b hs
  rw [hb] at this
  cases this

theorem takeWhile_reads {f : Char → Bool} (hwo : ∀ c ∈ word, f c = true) (stop : Char → Bool)
    (hst : ∀ c, stop c = true → f c = false) :
    Reads stop (fun c => .ok (c.takeWhile f)) word word := by
  intro i rest hre
  obtain ⟨ht, hd⟩ := takeWhile_append_of_all hwo fun c hc => hst c (hre c hc)
  refine ⟨(Cursor.skipTo ⟨i, word ++ rest⟩ rest).i, ?_⟩
  simp [Cursor.takeWhile, ht, hd, Cursor.skipTo]

/-! ## Quoted text -/

theorem unescapeChar_of_escape (extra : List Char) (hext : ∀ c ∈ extra, c = '\'') {c : Char}
    {u : Str} (h : escapeChar extra c = u) :
    (∃ e, u = ['\\', e] ∧ unescapeChar e = .ok c) ∨ (u = [c] ∧ c ≠ '\\' ∧ c ∉ extra) := by
  unfold escapeChar at h
  split_ifs at h with h₁ h₂ h₃ h₄ h₅ <;> subst h
  · exact .inl ⟨'\\', rfl, by rw [h₁]; rfl⟩
  · exact .inl ⟨'n', rfl, h₂ ▸ rfl⟩
  · exact .inl ⟨'r', rfl, h₃ ▸ rfl⟩
  · exact .inl ⟨'t', rfl, h₄ ▸ rfl⟩
  · have hc := hext c (by simpa using h₅)
    exact .inl ⟨c, rfl, hc ▸ rfl⟩
  · exact .inr ⟨rfl, h₁, by simpa using h₅⟩

theorem quotedChars_pushEscaped (s rest : Str) :
    quotedChars (pushEscaped s ['\''] ++ '\'' :: rest) = .ok (s, rest) := by
  induction s with
  | nil => simp [pushEscaped, quotedChars]
  | cons c s ih =>
    rw [pushEscaped, flatMap_cons, append_assoc]
    rcases unescapeChar_of_escape ['\''] (by simp) (rfl : escapeChar ['\''] c = _) with
      ⟨e, he, hc⟩ | ⟨he, hb, hq⟩
    · rw [he]
      simp only [cons_append, nil_append, quotedChars]
      rw [hc, ← pushEscaped, ih]
      rfl
    · rw [he, singleton_append, quotedChars, if_neg (by simpa using hq), ← pushEscaped, ih]
      · rfl
      all_goals simp [hb]

theorem quoted_reads : Reads (fun _ => true) quoted (pushQuoted s) s := by
  intro i rest _
  have hte : pushQuoted s ++ rest = '\'' :: (pushEscaped s ['\''] ++ '\'' :: rest) := by
    simp [pushQuoted]
  refine ⟨(skipTo ⟨i + 1, pushEscaped s ['\''] ++ '\'' :: rest⟩ rest).i, ?_⟩
  rw [hte, quoted, expect_cons, ok_bind, quotedChars_pushEscaped]
  rfl

theorem unescape_pushEscaped (s : Str) : unescape (pushEscaped s []) = .ok s := by
  induction s with
  | nil => rfl
  | cons c s ih =>
    rw [pushEscaped, flatMap_cons]
    rcases unescapeChar_of_escape [] (by simp) (rfl : escapeChar [] c = _) with
      ⟨e, he, hc⟩ | ⟨he, hb, -⟩
    · rw [he]
      simp only [cons_append, nil_append, unescape]
      rw [hc, ← pushEscaped, ih]
      rfl
    · rw [he, singleton_append, unescape, ← pushEscaped, ih]
      · rfl
      all_goals simp [hb]

/-! ## Numbers and ranges -/

variable {N F : Type} [SerdeJson N F]

theorem isNumber_numText [hwr : WritesJson N] (n : N) :
    isNumber (numText n) = true ∧ toText (.number n) = numText n := by
  obtain ⟨h₁, h₂⟩ := hwr.toText_compact (.number n)
  exact ⟨h₂ ▸ h₁, h₂⟩

variable {v d : Json N} {s w name more : Str} {c : Char} {stop : Char → Bool} {fuel : Nat}
  {alts : List (Alt N)} {default : Option (Json N)} {kind : Kind N (Ty N)} {nullable : Bool}
  {description : Option Str} {n : Option N} {t : Ty N} {vs : List (Json N)} {a : Alt N}

/-- What is written is read back by `serde_json`. -/
theorem parse_toText [hrd : ReadsJson N] [hwr : WritesJson N]
    (hdep : v.depth < recursionLimit) (hnum : v.AllNumbers Exact) :
    parse (toText v) = some v := by
  refine (hrd.parse_iff _ v).2 ⟨⟨[], toText v, [], ?_, ?_, ?_, by simp⟩, hdep⟩
  · exact nofun
  · exact (hwr.toText_compact v).read hnum
  · exact nofun

theorem number_numText [ReadsJson N] [WritesJson N] {n : N} (h : Exact n) :
    number (numText n) = .ok n := by
  have hpar := parse_toText (by simp [depth, recursionLimit]) (.number h)
  rw [(isNumber_numText n).2] at hpar
  rw [number, numberFromStr, hpar]

/-- In a number every `.` has a digit behind it. -/
def Dotted : Str → Prop
  | [] => True
  | c :: s => (c = '.' → ∃ d t, s = d :: t ∧ Json.isDigit d = true) ∧ Dotted s

theorem dotted_append {t : Str} (hs : ∀ c ∈ s, c ≠ '.') (ht : Dotted t) : Dotted (s ++ t) := by
  induction s with
  | nil => exact ht
  | cons c s ih =>
    obtain ⟨hc, hs⟩ := forall_mem_cons.1 hs
    exact ⟨fun h => absurd h hc, ih hs⟩

theorem dotted_of_notMem (hs : ∀ c ∈ s, c ≠ '.') : Dotted s := by
  have := dotted_append (t := []) hs trivial
  rwa [append_nil] at this

theorem dotted_of_isNumber (h : isNumber s = true) : Dotted s := by
  obtain ⟨a, r, rfl, -, ha, hr⟩ := parted_of_isNumber h
  refine dotted_append (fun c hc => (ha c hc).2) ?_
  obtain rfl | ⟨d, t, rfl, hd, ht⟩ := hr
  · exact trivial
  · exact ⟨fun _ => ⟨d, t, rfl, hd⟩, dotted_of_notMem fun c hc => (ht c hc).2⟩

/-- The two dots of a range are not found inside its lower bound. -/
theorem splitFirst_dots {lo : Str} (h : Dotted lo) (hi : Str) :
    splitFirst "..".toList (lo ++ ("..".toList ++ hi)) = some (lo, "..".toList ++ hi) := by
  have hnot : Text.NotIn ".." lo (".." ++ hi) := by
    induction lo with
    | nil => exact fun u v huv hv => absurd (append_eq_nil_iff.1 huv.symm).2 hv
    | cons c lo ih =>
      refine notIn_cons.2 ⟨fun hpre => ?_, ih h.2⟩
      obtain ⟨hc, hpre⟩ := cons_prefix_cons.1 hpre
      obtain ⟨d, t, rfl, hd⟩ := h.1 hc.symm
      obtain ⟨hdot, -⟩ := cons_prefix_cons.1 hpre
      exact (undotted_digit hd).2 hdot.symm
  exact splitFirst_of_notIn hnot (prefix_append _ _)

/-- The bounds are read back. -/
def ExactRange (r : Range N) : Prop := (∀ n ∈ r.min, Exact n) ∧ ∀ n ∈ r.max, Exact n

theorem rangeBound_numText [ReadsJson N] [WritesJson N] (h : ∀ m ∈ n, Exact m) :
    rangeBound ((n.map numText).getD []) = .ok n := by
  cases n with
  | none => rfl
  | some n =>
    have hne : numText n ≠ [] := (isNumber_chars (isNumber_numText n).1).1
    rw [Option.map_some, Option.getD_some, rangeBound, if_neg (by simpa using hne),
      number_numText (h n rfl)]
    rfl

theorem bound_ne_close [WritesJson N] : ∀ c ∈ (n.map numText).getD [], c ≠ ')' := by
  cases n with
  | none => simp
  | some n =>
    rintro c hc rfl
    have := (isNumber_chars (isNumber_numText n).1).2 ')' hc
    revert this
    decide

theorem dotted_bound [WritesJson N] : Dotted ((n.map numText).getD []) := by
  cases n with
  | none => exact trivial
  | some n => exact dotted_of_isNumber (isNumber_numText n).1

theorem parseRange_reads [ReadsJson N] [WritesJson N] {r : Range N}
    (h : ExactRange r) : Reads (· ≠ '(') parseRange (pushRange r) r := by
  obtain ⟨min, max⟩ := r
  intro i rest hre
  by_cases hemp : (Range.mk min max).isEmpty = true
  · obtain ⟨hmin, hmax⟩ : min = none ∧ max = none := by
      simpa [Range.isEmpty] using hemp
    subst hmin hmax
    refine ⟨i, ?_⟩
    have hhead : rest.head? ≠ some '(' := head_ne_of_ends (by decide) hre
    rw [pushRange, if_pos hemp, nil_append, parseRange, eat_of_head_ne hhead]
  · have hinn : ∀ c ∈ (min.map numText).getD [] ++ (".." ++ (max.map numText).getD []),
        decide (c ≠ ')') = true := by
      intro c hc
      simp only [decide_eq_true_eq]
      rcases mem_append.1 hc with hc | hc
      · exact bound_ne_close c hc
      · rcases mem_append.1 hc with hc | hc
        · rintro rfl
          revert hc
          decide
        · exact bound_ne_close c hc
    obtain ⟨j, hj⟩ := takeWhile_reads hinn (fun c => c == ')') (by simp) (i + 1)
      (')' :: rest) (by simp)
    refine ⟨j + 1, ?_⟩
    have hte : pushRange ⟨min, max⟩ ++ rest = '(' :: ((min.map numText).getD [] ++
        (".." ++ (max.map numText).getD []) ++ ')' :: rest) := by
      simp [pushRange, hemp]
    rw [hte, parseRange, eat_cons]
    dsimp only
    rw [ok.inj hj]
    rw [splitFirst_dots dotted_bound]
    have hdrop : (".." ++ (max.map numText).getD []).drop 2 = (max.map numText).getD [] :=
      rfl
    dsimp only
    rw [hdrop, rangeBound_numText h.1, rangeBound_numText h.2]
    rfl

/-! ## Words -/

/-- The characters that mean something in the notation. -/
def specials : List Char := [',', ')', '}', ']', '|', '=', '(', ' ', '\'', '"', '[', '{']

/-- A word that is read as a whole. -/
def PlainWord (w : Str) : Prop := w ≠ [] ∧ ∀ c ∈ w, c ∉ specials

instance (w : Str) : Decidable (PlainWord w) :=
  inferInstanceAs (Decidable (w ≠ [] ∧ ∀ c ∈ w, c ∉ specials))

theorem endsWord_eq_false (h : c ∉ specials) : endsWord c = false := by
  simp [specials] at h
  simp [endsWord, h]

theorem endsScalar_eq_false (h : c ∉ specials) : endsScalar c = false := by
  simp [specials] at h
  simp [endsScalar, h]

theorem PlainWord.head_ne (h : PlainWord w) (hc : c ∈ specials) {r : Str} :
    (w ++ r).head? ≠ some c := by
  obtain ⟨hne, hall⟩ := h
  cases w with
  | nil => exact absurd rfl hne
  | cons x w =>
    intro hx
    obtain rfl : x = c := Option.some.inj hx
    exact hall x (by simp) hc

theorem plainWord_of_isNumber (h : Json.isNumber w = true) : PlainWord w := by
  obtain ⟨hne, hall⟩ := Json.isNumber_chars h
  have hspe : ∀ c ∈ specials, Json.isNumChar c = false := by decide
  refine ⟨hne, fun c hc hmem => ?_⟩
  have := hall c hc
  rw [hspe c hmem] at this
  cases this

theorem plainWord_of_isBareWord (h : isBareWord w = true) : PlainWord w := by
  have hspe : ∀ c ∈ specials, (isAsciiAlphabetic c || c == '_') = false ∧
      (isAsciiAlphanumeric c || c == '_' || c == '-' || c == '.' || c == '/') = false := by
    decide
  cases w with
  | nil => cases h
  | cons x w =>
    rw [isBareWord, Bool.and_eq_true, List.all_eq_true] at h
    refine ⟨by simp, List.forall_mem_cons.2 ⟨fun hmem => ?_, fun c hc hmem => ?_⟩⟩
    · rw [(hspe x hmem).1] at h
      exact Bool.false_ne_true h.1
    · have := h.2 c hc
      rw [(hspe c hmem).2] at this
      cases this

/-! ## Defaults -/

theorem closesValue_isOpen (b : Json.Nesting) (c : Char) (h : closesValue b c = true) :
    (b.step c).isOpen = false := by
  simpa [closesValue] using h

theorem toText_null [hwr : WritesJson N] : toText (.null : Json N) = "null".toList :=
  hwr.toText_compact .null

theorem toText_bool [hwr : WritesJson N] (b : Bool) :
    toText (.bool b : Json N) = if b then "true".toList else "false".toList := by
  have hte := hwr.toText_compact (.bool b)
  cases b <;> exact hte

theorem plainWord_toText [hwr : WritesJson N] (hs : v.isString = false) (hsca : IsScalar v) :
    PlainWord (toText v) := by
  cases v with
  | null =>
    rw [toText_null]
    decide
  | bool b =>
    rw [toText_bool]
    cases b <;> decide
  | number n => exact plainWord_of_isNumber (hwr.toText_compact (.number n)).1
  | string s => cases hs
  | array vs => cases hsca.1
  | object fs => cases hsca.2

/-- A default that `serde_json` reads back. -/
structure ReadableDefault (d : Json N) : Prop where
  canonical : d.Canonical
  depth : d.depth < recursionLimit
  numbers : d.AllNumbers Exact

theorem fromStr_toText [ReadsJson N] [WritesJson N] (h : ReadableDefault d) :
    fromStr (toText d) = some d := by
  rw [fromStr, parse_toText h.depth h.numbers, Option.map_some,
    Json.toValue_of_canonical h.canonical]

/-- Where a default that starts with a quote or a bracket ends. -/
theorem cutAfter_toText [hwr : WritesJson N] (h : d.isString = true ∨ ¬ IsScalar d) {r : Str} :
    (∃ c s, toText d = c :: s ∧ (c = '"' ∨ c = '[' ∨ c = '{')) ∧
      cutAfter closesValue (.outside 0) (toText d ++ r) = some (toText d, r) := by
  have hte := hwr.toText_compact d
  have htok : ∀ (n : N) s, WriteTok numText n s → ∀ c ∈ s, isNeutral c = true :=
    fun _ _ h c hc => isNeutral_of_isNumChar ((isNumber_chars h.1).2 c hc)
  have hbla : ∀ s : Str, s = [] → ∀ c ∈ s, isNeutral c = true := by simp
  cases d with
  | string s =>
    refine ⟨?_, cutAfter_string closesValue_isOpen hte rfl r⟩
    obtain ⟨t, -, ht⟩ := hte
    exact ⟨_, _, ht, .inl rfl⟩
  | array vs =>
    refine ⟨?_, cutAfter_array htok hbla closesValue_isOpen hte rfl r⟩
    obtain ⟨t, -, ht⟩ := hte
    exact ⟨_, _, ht, .inr (.inl rfl)⟩
  | object fs =>
    refine ⟨?_, cutAfter_object htok hbla closesValue_isOpen hte rfl r⟩
    obtain ⟨t, -, ht⟩ := hte
    exact ⟨_, _, ht, .inr (.inr rfl)⟩
  | _ =>
    rcases h with h | h
    · cases h
    · exact absurd ⟨rfl, rfl⟩ h

theorem jsonValue_reads [ReadsJson N] [WritesJson N] (h : ReadableDefault d) :
    Reads endsScalar jsonValue (toText d) d := by
  intro i rest hre
  refine ⟨(skipTo ⟨i, toText d ++ rest⟩ rest).i, ?_⟩
  have hdrop : (toText d ++ rest).drop (toText d).length = rest := drop_left
  by_cases hd : d.isString = true ∨ ¬ IsScalar d
  · obtain ⟨⟨c, s, hc, hopen⟩, hcut⟩ := cutAfter_toText hd
    have hpe : peek ⟨i, toText d ++ rest⟩ = some '"' ∨
        Cursor.peek ⟨i, toText d ++ rest⟩ = some '[' ∨
        Cursor.peek ⟨i, toText d ++ rest⟩ = some '{' := by
      rw [hc]
      exact hopen.imp (congrArg some) (Or.imp (congrArg some) (congrArg some))
    rw [jsonValue, if_pos hpe]
    rw [hcut]
    rw [fromStr_toText h, hdrop]
    rfl
  · rw [not_or, Bool.not_eq_true, not_not] at hd
    have hpla := plainWord_toText hd.1 hd.2
    have hpe : ¬ (Cursor.peek ⟨i, toText d ++ rest⟩ = some '"' ∨
        peek ⟨i, toText d ++ rest⟩ = some '[' ∨
        peek ⟨i, toText d ++ rest⟩ = some '{') := by
      rintro (hp | hp | hp) <;> exact hpla.head_ne (by decide) hp
    obtain ⟨htake, -⟩ := takeWhile_append_of_all (p := fun b => !endsScalar b)
      (fun c hc => by simp [endsScalar_eq_false (hpla.2 c hc)])
      (fun c hc => by simp [hre c hc])
    rw [jsonValue, if_neg hpe]
    rw [htake, fromStr_toText h, hdrop]
    rfl

/-! ## Keys and literals -/

omit [SerdeJson N F] in
theorem fieldKey_reads (hne : name ≠ []) :
    Reads (fun c => c == '?' || c == ':') fieldKey (pushKey name) name := by
  intro i rest hre
  by_cases hide : isIdent name = true
  · cases name with
    | nil => cases hide
    | cons c s =>
      rw [isIdent, Bool.and_eq_true, all_eq_true] at hide
      have hpe : ¬ peek ⟨i, c :: s ++ rest⟩ = some '\'' := by
        intro hc
        obtain rfl : c = '\'' := Option.some.inj hc
        exact absurd hide.1 (by decide)
      obtain ⟨j, hj⟩ := takeWhile_reads hide.2 (fun c => c == '?' || c == ':') (fun c hc => by
          simp only [Bool.or_eq_true, beq_iff_eq] at hc
          rcases hc with rfl | rfl <;> decide) i rest hre
      refine ⟨j, ?_⟩
      rw [pushKey, if_pos (by rw [isIdent, Bool.and_eq_true, all_eq_true]; exact hide),
        fieldKey, if_neg hpe]
      exact hj
  · obtain ⟨j, hj⟩ := quoted_reads i rest fun _ _ => rfl
    refine ⟨j, ?_⟩
    rw [pushKey, if_neg hide, fieldKey, if_pos (by rw [pushQuoted]; rfl)]
    exact hj

theorem keywordOrLiteral_of_notMem (hne : word ≠ []) (h : word ∉ keywords) (c : Cursor) :
    keywordOrLiteral word c = if isBareWord word then .ok (.literal (N := N) (.string word), c)
      else do
        let n ← number word
        return (.literal (.number n), c) := by
  have hkey : ∀ k ∈ keywords, ¬ word = k := fun k hk hw => h (hw ▸ hk)
  have hfor : (Format.all.find? fun f => f.keyword == word) = none := by
    rw [find?_eq_none]
    intro f _ hf
    have hmem : f.keyword ∈ keywords := by cases f <;> decide
    exact hkey _ hmem (by simpa using Eq.symm (by simpa using hf))
  have hnot : keywords.contains word = false := by simpa using h
  rw [keywordOrLiteral, if_neg hne]
  repeat rw [if_neg (hkey _ (by decide))]
  rw [hfor]
  simp only [hnot, Bool.not_false, Bool.and_true]

theorem isNumber_head (h : isNumber (c :: s) = true) : c = '-' ∨ isDigit c = true := by
  unfold isNumber at h
  split at h
  · next heq => exact .inl (cons.inj heq).1
  · refine .inr (by_contra fun hc => ?_)
    simp [isUnsigned, takeWhile_cons_of_neg hc] at h

theorem letter_eq_false (h : c = '-' ∨ isDigit c = true) :
    (isAsciiAlphabetic c || c == '_') = false := by
  rcases h with rfl | h
  · decide
  · simp only [isDigit, Bool.and_eq_true, decide_eq_true_eq] at h
    have key : ∀ x : Char, ¬ x ≤ '9' → ¬ x ≤ c := fun x hx hxc => hx (hxc.trans h.2)
    have hc : c ≠ '_' := fun hc => absurd h.2 (hc ▸ by decide)
    simp [isAsciiAlphabetic, key 'a' (by decide), key 'A' (by decide), hc]

theorem isNumber_notMem (h : isNumber w = true) : w ∉ keywords ∧ isBareWord w = false := by
  have hkeys : ∀ k ∈ keywords, ∀ c ∈ k.take 1, c ≠ '-' ∧ isDigit c = false := by decide
  cases w with
  | nil => exact absurd rfl (isNumber_chars h).1
  | cons c s =>
    have hc := isNumber_head h
    refine ⟨fun hmem => ?_, ?_⟩
    · obtain ⟨h₁, h₂⟩ := hkeys _ hmem c (by simp)
      rcases hc with hc | hc
      · exact h₁ hc
      · rw [h₂] at hc
        cases hc
    · rw [isBareWord, letter_eq_false hc, Bool.false_and]

/-- A word is handed to `keywordOrLiteral`. -/
theorem parseAlt_word (hwo : PlainWord word) {i : Nat} {rest : Str} (hre : Ends endsWord rest) :
    ∃ j, parseAlt (N := N) (fuel + 1) ⟨i, word ++ rest⟩ = keywordOrLiteral word ⟨j, rest⟩ := by
  have hcha : ∀ c ∈ word, (!endsWord c) = true :=
    fun c hc => by simp [endsWord_eq_false (hwo.2 c hc)]
  obtain ⟨j, hj⟩ := takeWhile_reads hcha endsWord (fun c hc => by simp [hc]) i rest hre
  have hpe : ∀ c ∈ specials, ¬ peek ⟨i, word ++ rest⟩ = some c :=
    fun c hc => hwo.head_ne hc
  refine ⟨j, ?_⟩
  rw [parseAlt, if_neg (hpe _ (by decide)), if_neg (hpe _ (by decide)),
    if_neg (hpe _ (by decide)), ok.inj hj]

theorem endsWord_of_altEnd (h : altEnd c = true) : endsWord c = true := by
  simp only [altEnd, tyEnd, Bool.or_eq_true, beq_iff_eq] at h
  rcases h with ((((((rfl | rfl) | rfl) | rfl) | rfl) | rfl) | rfl) <;> rfl

theorem parseAlt_literal [ReadsJson N] [WritesJson N] (hsca : IsScalar v)
    (hnum : v.AllNumbers Exact) :
    Reads altEnd (parseAlt (fuel + 1)) (pushLiteral v) (.literal v) := by
  intro i rest hre
  have hwo : Ends endsWord rest := fun c hc => endsWord_of_altEnd (hre c hc)
  cases v with
  | string s =>
    rw [pushLiteral]
    split_ifs with hba
    · rw [Bool.and_eq_true] at hba
      obtain ⟨j, hj⟩ := parseAlt_word (N := N) (plainWord_of_isBareWord hba.1) hwo
      refine ⟨j, hj.trans ?_⟩
      rw [keywordOrLiteral_of_notMem (plainWord_of_isBareWord hba.1).1 (by simpa using hba.2),
        if_pos hba.1]
    · obtain ⟨j, hj⟩ := quoted_reads i rest fun _ _ => rfl
      refine ⟨j, ?_⟩
      rw [parseAlt, hj]
      rfl
  | null =>
    change ∃ j, parseAlt _ ⟨i, toText _ ++ rest⟩ = _
    rw [toText_null]
    exact parseAlt_word (by decide) hwo
  | bool b =>
    change ∃ j, parseAlt _ ⟨i, toText _ ++ rest⟩ = _
    rw [toText_bool]
    cases b <;> exact parseAlt_word (by decide) hwo
  | number n =>
    obtain ⟨hisn, hte⟩ := isNumber_numText n
    have hpla := plainWord_of_isNumber hisn
    obtain ⟨hkey, hba⟩ := isNumber_notMem hisn
    obtain ⟨j, hj⟩ := parseAlt_word (N := N) hpla hwo
    have hexa : Exact n := by
      cases hnum with
      | number h => exact h
    change ∃ j, parseAlt _ ⟨i, toText _ ++ rest⟩ = _
    refine ⟨j, ?_⟩
    rw [hte, hj, keywordOrLiteral_of_notMem hpla.1 hkey,
      if_neg (by rw [hba]; exact Bool.false_ne_true), number_numText hexa]
    rfl
  | array vs => cases hsca.1
  | object fs => cases hsca.2

/-! ## The parts of a type -/

theorem head_append {t : Str} (hs : Ends stop s) (ht : Ends stop t) : Ends stop (s ++ t) := by
  cases s with
  | nil => exact ht
  | cons c s => exact hs

/-- What may stand behind the last alternative of a type. -/
def altsEnd (c : Char) : Bool := tyEnd c || c == '=' || c == ' '

theorem altEnd_of_altsEnd (h : altsEnd c = true) : altEnd c = true := by
  simp only [altsEnd, Bool.or_eq_true] at h
  simp only [altEnd, Bool.or_eq_true]
  tauto

/-- The members of an enum behind the first one. -/
def moreLiterals (vs : List (Json N)) : Str :=
  if vs.isEmpty then [] else '|' :: Renderer.literals vs

theorem literals_cons (v : Json N) (vs : List (Json N)) :
    literals (v :: vs) = pushLiteral v ++ moreLiterals vs := rfl

theorem moreLiterals_cons (v : Json N) (vs : List (Json N)) :
    moreLiterals (v :: vs) = '|' :: (pushLiteral v ++ moreLiterals vs) := rfl

theorem length_le_moreLiterals (vs : List (Json N)) : vs.length ≤ (moreLiterals vs).length := by
  induction vs with
  | nil => exact Nat.zero_le _
  | cons v vs ih =>
    simp only [moreLiterals_cons, length_cons, length_append]
    omega

theorem head_moreLiterals : Ends (· == '|') (moreLiterals vs) := by
  cases vs with
  | nil => simp [Ends, moreLiterals]
  | cons v vs => simp [Ends, moreLiterals_cons]

theorem parseAlts_nil : Reads (· ≠ '|') (parseAlts (N := N) (fuel + 1)) [] [] := by
  intro i rest hre
  refine ⟨i, ?_⟩
  rw [nil_append, parseAlts, eat_of_head_ne (head_ne_of_ends (by decide) hre)]

theorem parseAlts_cons (ha : Reads altEnd (parseAlt fuel) text a)
    (hmo : Reads stop (parseAlts fuel) more alts) (hst : ∀ c, stop c = true → altEnd c = true)
    (hhead : Ends (· == '|') more) :
    Reads stop (parseAlts (fuel + 1)) ('|' :: (text ++ more)) (a :: alts) := by
  intro i rest hre
  have hbeh : Ends altEnd (more ++ rest) := by
    refine head_append (fun c hc => ?_) fun c hc => hst c (hre c hc)
    obtain rfl : c = '|' := by simpa using hhead c hc
    rfl
  obtain ⟨j, hj⟩ := ha (i + 1) (more ++ rest) hbeh
  obtain ⟨k, hk⟩ := hmo j rest hre
  refine ⟨k, ?_⟩
  rw [cons_append, append_assoc, parseAlts, eat_cons]
  dsimp only
  rw [hj, ok_bind]
  rw [hk]
  rfl

theorem ne_bar_of_altsEnd (c : Char) (h : altsEnd c = true) : decide (c ≠ '|') = true := by
  simp only [decide_eq_true_eq]
  rintro rfl
  revert h
  decide

theorem parseAlts_literals [ReadsJson N] [WritesJson N]
    (hvs : ∀ v ∈ vs, IsScalar v ∧ v.AllNumbers Exact) (hfu : vs.length < fuel) :
    Reads altsEnd (parseAlts fuel) (moreLiterals vs) (vs.map .literal) := by
  induction vs generalizing fuel with
  | nil =>
    obtain ⟨fuel, rfl⟩ : ∃ k, fuel = k + 1 := ⟨fuel - 1, by simp at hfu; omega⟩
    exact parseAlts_nil.mono ne_bar_of_altsEnd
  | cons v vs ih =>
    rw [length_cons] at hfu
    obtain ⟨fuel, rfl⟩ : ∃ k, fuel = k + 2 := ⟨fuel - 2, by omega⟩
    obtain ⟨hv, hvs⟩ := forall_mem_cons.1 hvs
    exact parseAlts_cons (parseAlt_literal hv.1 hv.2) (ih hvs (by omega))
      (fun c => altEnd_of_altsEnd) head_moreLiterals

theorem parseAlts_null :
    Reads altsEnd (parseAlts (N := N) (fuel + 2)) "|null" [.literal .null] := by
  have hnull : Reads altEnd (parseAlt (N := N) (fuel + 1)) "null" (.literal .null) :=
    fun i rest hre =>
      parseAlt_word (by decide) fun c hc => endsWord_of_altEnd (hre c hc)
  exact parseAlts_cons hnull (parseAlts_nil.mono ne_bar_of_altsEnd)
    (fun c => altEnd_of_altsEnd) (by simp [Ends])

omit [SerdeJson N F] in
theorem combine_literals (vs : List (Json N)) :
    combine (vs.map Alt.literal) = .ok (Ty.plain (.enum vs)) := by
  have hall : allLiterals (vs.map Alt.literal) = some vs := by
    induction vs with
    | nil => rfl
    | cons v vs ih =>
      rw [map_cons, allLiterals, ih]
      rfl
  rw [combine, hall]

omit [SerdeJson N F] in
theorem combine_type : combine (.type kind :: if nullable then [.literal .null] else []) =
      .ok ⟨kind, nullable, none, none⟩ := by
  cases nullable <;> rfl

/-! ## Types and fields -/

def KindExact : Kind N (Ty N) → Prop
  | .int r | .num r => ExactRange r
  | .enum values => ∀ v ∈ values, v.AllNumbers Exact
  | _ => True

/-- A schema whose notation says the same as the schema itself: its numbers and defaults are read
back by `serde_json`, no property has an empty name, no enum has a `null` next to members of one
type, and no required field of any type may be left out. -/
inductive Survives : Ty N → Prop
  | mk {t : Ty N}
      (default : ∀ d ∈ t.default, d.depth < recursionLimit ∧ d.AllNumbers Exact)
      (numbers : KindExact t.kind)
      (enum : ∀ values, t.kind = .enum values → contains values .null = true →
        commonScalarType values = none)
      (array : ∀ items, t.kind = .array items → Survives items)
      (names : ∀ obj, t.kind = .object obj → ∀ f ∈ obj.fields, f.name ≠ [])
      (any : ∀ obj, t.kind = .object obj → ∀ f ∈ obj.fields,
        f.ty.kind = .any → f.omittable = false)
      (object : ∀ obj, t.kind = .object obj → ∀ f ∈ obj.fields, Survives f.ty) : Survives t

/-- A schema whose notation can be read: its numbers and defaults are read back by `serde_json`, and
no property has an empty name. -/
inductive Legible : Ty N → Prop
  | mk {t : Ty N}
      (default : ∀ d ∈ t.default, d.depth < recursionLimit ∧ d.AllNumbers Exact)
      (numbers : KindExact t.kind)
      (array : ∀ items, t.kind = .array items → Legible items)
      (names : ∀ obj, t.kind = .object obj → ∀ f ∈ obj.fields, f.name ≠ [])
      (object : ∀ obj, t.kind = .object obj → ∀ f ∈ obj.fields, Legible f.ty) : Legible t

theorem Survives.legible (h : Survives t) : Legible t := by
  induction h with
  | mk default numbers enum array names any object iharray ihobject =>
    exact .mk default numbers iharray names ihobject

def defaultText (default : Option (Json N)) : Str :=
  match default with
  | some d => '=' :: toText d
  | none => []

def descriptionText (description : Option Str) : Str :=
  match description with
  | some desc => ' ' :: pushQuoted desc
  | none => []

theorem suffix_keep {r : Renderer} (hr : r.policy = .keep) (kind : Kind N (Ty N))
    (description : Option Str) (default : Option (Json N)) (name : Option Str) :
    r.suffix kind description default name = defaultText default ++
      descriptionText description := by
  have hkeep : ∀ desc, r.keepDescription desc kind name = true := by
    intro desc
    unfold keepDescription
    rw [hr]
  cases description with
  | none => rfl
  | some desc =>
    simp only [Renderer.suffix, hkeep]
    rfl

theorem tyDefault_reads [ReadsJson N] [WritesJson N] (hd : ∀ d ∈ default, ReadableDefault d) :
    Reads (fun c => tyEnd c || c == ' ') (tyDefault ⟨kind, nullable, description, none⟩)
      (defaultText default) ⟨kind, nullable, description, default⟩ := by
  intro i rest hre
  cases default with
  | none =>
    refine ⟨i, ?_⟩
    rw [defaultText, nil_append, tyDefault, eat_of_head_ne (head_ne_of_ends (by decide) hre)]
  | some d =>
    have hst : Ends endsScalar rest := by
      intro c hc
      have := hre c hc
      simp only [tyEnd, endsScalar, Bool.or_eq_true] at this ⊢
      tauto
    obtain ⟨j, hj⟩ := jsonValue_reads (hd d rfl) (i + 1) rest hst
    refine ⟨j, ?_⟩
    rw [defaultText, cons_append, tyDefault, eat_cons]
    dsimp only
    rw [hj]
    rfl

theorem tyDescription_reads :
    Reads tyEnd (tyDescription ⟨kind, nullable, none, default⟩) (descriptionText description)
      ⟨kind, nullable, description, default⟩ := by
  intro i rest hre
  cases description with
  | none =>
    refine ⟨i, ?_⟩
    have hpre : ¬ " '".toList.isPrefixOf rest = true := by
      rw [List.isPrefixOf_iff_prefix]
      rintro ⟨t, rfl⟩
      have := hre ' ' rfl
      revert this
      decide
    rw [descriptionText, nil_append, tyDescription, if_neg hpre]
  | some desc =>
    obtain ⟨j, hj⟩ := quoted_reads (i + 1) rest fun _ _ => rfl
    refine ⟨j, ?_⟩
    rw [descriptionText, tyDescription]
    simp only [cons_append, tail_cons]
    rw [hj]
    rfl

theorem head_descriptionText :
    Ends (fun c => tyEnd c || c == ' ') (descriptionText description) := by
  cases description <;> simp [Ends, descriptionText]

theorem head_defaultText : Ends altsEnd (defaultText default) := by
  cases default <;> simp [Ends, defaultText, altsEnd]

theorem parseTy_of_alts [ReadsJson N] [WritesJson N] (ha : Reads altEnd (parseAlt fuel) text a)
    (hmo : Reads altsEnd (parseAlts fuel) more alts) (hhead : Ends (· == '|') more)
    (hcom : combine (a :: alts) = .ok ⟨kind, nullable, none, none⟩)
    (hd : ∀ d ∈ default, ReadableDefault d) (description : Option Str) :
    Reads tyEnd (parseTy (fuel + 1))
      (text ++ (more ++ (defaultText default ++ descriptionText description)))
      ⟨kind, nullable, description, default⟩ := by
  intro i rest hre
  have h₃ : Ends (fun c => tyEnd c || c == ' ') (descriptionText description ++ rest) :=
    head_append head_descriptionText fun c hc => by simp [hre c hc]
  have h₂ : Ends altsEnd (defaultText default ++ (descriptionText description ++ rest)) := by
    refine head_append head_defaultText fun c hc => ?_
    have := h₃ c hc
    simp only [altsEnd, Bool.or_eq_true] at this ⊢
    tauto
  have h₁ : Ends altEnd
    (more ++ (defaultText default ++ (descriptionText description ++ rest))) := by
    refine head_append (fun c hc => ?_) fun c hc => altEnd_of_altsEnd (h₂ c hc)
    obtain rfl : c = '|' := by simpa using hhead c hc
    rfl
  obtain ⟨j₁, hj₁⟩ := ha i _ h₁
  obtain ⟨j₂, hj₂⟩ := hmo j₁ _ h₂
  obtain ⟨j₃, hj₃⟩ := tyDefault_reads hd j₂ _ h₃
  obtain ⟨j₄, hj₄⟩ := tyDescription_reads j₃ rest hre
  refine ⟨j₄, ?_⟩
  rw [append_assoc, append_assoc, append_assoc, parseTy, hj₁, ok_bind]
  dsimp only
  rw [hj₂, ok_bind]
  rw [hcom, ok_bind, hj₃]
  exact hj₄

section

variable {r : Renderer}

/-- The fields behind the first one. -/
def moreFields (r : Renderer) (fs : List (Field (Ty N))) : Str :=
  if fs.isEmpty then [] else ", " ++ r.fields fs

def fieldText (r : Renderer) (f : Field (Ty N)) : Str :=
  pushKey f.name ++ ((if f.required then [] else ['?']) ++ ':' :: r.ty f.ty (some f.name))

theorem fields_cons (f : Field (Ty N)) (fs : List (Field (Ty N))) :
    r.fields (f :: fs) = fieldText r f ++ moreFields r fs := by
  rw [fields, fieldText, moreFields]
  simp

/-- The type of a field is read back, given enough fuel. -/
def ReadsTy (r : Renderer) (t : Ty N) : Prop :=
  ∀ name fuel, 4 * (r.ty t name).length + 2 ≤ fuel →
    Reads tyEnd (parseTy fuel) (r.ty t name) t.strip

variable {fuel : Nat} {fs : List (Field (Ty N))} {kind : Kind N (Ty N)}

theorem parseField_reads {f : Field (Ty N)} (hname : f.name ≠ []) (hty : ReadsTy r f.ty)
    (hfu : 4 * (r.ty f.ty (some f.name)).length + 2 ≤ fuel) :
    Reads tyEnd (parseField (fuel + 1)) (fieldText r f) ⟨f.name, f.required, f.ty.strip⟩ := by
  intro i rest hre
  obtain ⟨j, hj⟩ := fieldKey_reads hname i
    ((if f.required then [] else ['?']) ++ ':' :: r.ty f.ty (some f.name) ++ rest)
    (by cases f.required <;> simp)
  have hemp : ¬ f.name.isEmpty = true := by simpa using hname
  have hmark : ∃ k, eat ⟨j, (if f.required then [] else ['?']) ++
      ':' :: r.ty f.ty (some f.name) ++ rest⟩ '?' =
        (!f.required, ⟨k, ':' :: (r.ty f.ty (some f.name) ++ rest)⟩) := by
    cases f.required with
    | true => exact ⟨j, eat_of_head_ne (by simp)⟩
    | false => exact ⟨j + 1, eat_cons j '?' _⟩
  obtain ⟨k, hk⟩ := hmark
  obtain ⟨l, hl⟩ := hty (some f.name) fuel hfu (k + 1) rest hre
  refine ⟨l, ?_⟩
  rw [fieldText, append_assoc, parseField, hj, ok_bind]
  dsimp only
  rw [if_neg hemp, hk]
  rw [expect_cons, ok_bind, hl, Bool.not_not]
  rfl

/-- What may stand behind the last field. -/
def fieldsEnd (c : Char) : Bool := c == ')' || c == '}'

theorem tyEnd_of_fieldsEnd (h : fieldsEnd c = true) : tyEnd c = true := by
  simp only [fieldsEnd, tyEnd, Bool.or_eq_true] at h ⊢
  tauto

theorem parseFieldList_reads (hne : fs ≠ []) (hfs : ∀ f ∈ fs, f.name ≠ [] ∧ ReadsTy r f.ty)
    (hfu : 4 * (r.fields fs).length + 1 ≤ fuel) :
    Reads fieldsEnd (parseFieldList fuel) (r.fields fs) (stripFields fs) := by
  induction fs generalizing fuel with
  | nil => exact absurd rfl hne
  | cons f fs ih =>
    obtain ⟨⟨hname, hty⟩, hfs⟩ := forall_mem_cons.1 hfs
    rw [fields_cons] at hfu ⊢
    simp only [fieldText, length_append, length_cons] at hfu
    obtain ⟨fuel, rfl⟩ : ∃ k, fuel = k + 2 := ⟨fuel - 2, by omega⟩
    have hfld := parseField_reads hname hty
      (show 4 * (r.ty f.ty (some f.name)).length + 2 ≤ fuel by omega)
    intro i rest hre
    rw [append_assoc, parseFieldList]
    cases fs with
    | nil =>
      obtain ⟨j, hj⟩ := hfld i rest fun c hc => tyEnd_of_fieldsEnd (hre c hc)
      refine ⟨j, ?_⟩
      have hmo : moreFields r ([] : List (Field (Ty N))) ++ rest = rest := rfl
      rw [hmo, hj, ok_bind]
      dsimp only
      rw [eat_of_head_ne (head_ne_of_ends (by decide) hre)]
      rfl
    | cons g gs =>
      have hmo : moreFields r (g :: gs) ++ rest = ',' :: ' ' :: (r.fields (g :: gs) ++ rest) :=
        rfl
      rw [hmo]
      obtain ⟨j, hj⟩ := hfld i (',' :: ' ' :: (r.fields (g :: gs) ++ rest)) (by simp [tyEnd])
      have hlen : (moreFields r (g :: gs)).length = (r.fields (g :: gs)).length + 2 := rfl
      have hlist := ih (by simp) hfs (show 4 * (r.fields (g :: gs)).length + 1 ≤ fuel + 1 by omega)
      obtain ⟨k, hk⟩ := hlist (j + 2) rest hre
      refine ⟨k, ?_⟩
      rw [hj, ok_bind]
      dsimp only
      rw [eat_cons]
      dsimp only
      rw [eat_cons]
      rw [hk]
      rfl

omit [SerdeJson N F] in
theorem head_pushKey : ∃ c s, pushKey name = c :: s ∧ fieldsEnd c = false := by
  unfold pushKey
  split_ifs with h
  · cases name with
    | nil => cases h
    | cons c s =>
      refine ⟨c, s, rfl, ?_⟩
      rw [isIdent, Bool.and_eq_true] at h
      rw [← Bool.not_eq_true]
      intro hc
      simp only [fieldsEnd, Bool.or_eq_true, beq_iff_eq] at hc
      rcases hc with rfl | rfl <;> exact absurd h.1 (by decide)
  · exact ⟨'\'', _, rfl, rfl⟩

theorem parseFields_reads (harr : Arranged fs) (hfs : ∀ f ∈ fs, f.name ≠ [] ∧ ReadsTy r f.ty)
    (hfu : 4 * (r.fields fs).length + 2 ≤ fuel) (close : Char) (hclo : fieldsEnd close = true)
    (i : Nat) (rest : Str) :
    ∃ j, parseFields fuel close ⟨i, r.fields fs ++ close :: rest⟩ =
      .ok (⟨stripFields fs, false⟩, ⟨j, close :: rest⟩) := by
  obtain ⟨fuel, rfl⟩ : ∃ k, fuel = k + 1 := ⟨fuel - 1, by omega⟩
  cases fs with
  | nil =>
    refine ⟨i, ?_⟩
    have hpe : peek ⟨i, r.fields ([] : List (Field (Ty N))) ++ close :: rest⟩ = some close := rfl
    rw [parseFields, if_pos hpe]
    rfl
  | cons f fs =>
    have hpe : ¬ peek ⟨i, r.fields (f :: fs) ++ close :: rest⟩ = some close := by
      obtain ⟨c, s, hkey, hc⟩ := head_pushKey
      rw [fields_cons, fieldText, hkey]
      intro h
      rw [Option.some.inj h, hclo] at hc
      cases hc
    obtain ⟨j, hj⟩ := parseFieldList_reads (by simp) hfs
      (show 4 * (r.fields (f :: fs)).length + 1 ≤ fuel by omega) i (close :: rest)
      (fun c hc => Option.some.inj hc ▸ hclo)
    have hsort : Object.sortFields ⟨stripFields (f :: fs), false⟩ =
        (⟨stripFields (f :: fs), false⟩ : Object (Ty N)) :=
      Arranged.sortFields_eq (arranged_stripFields harr)
    refine ⟨j, ?_⟩
    rw [parseFields, if_neg hpe, hj, ok_bind]
    dsimp only
    rw [hsort]
    rfl

theorem parseAlt_keyword (hwo : PlainWord word)
    (hkey : ∀ c, keywordOrLiteral word c = .ok (.type kind, c)) (fuel : Nat) :
    Reads altEnd (parseAlt (fuel + 1)) word (.type kind) := by
  intro i rest hre
  obtain ⟨j, hj⟩ := parseAlt_word (N := N) hwo fun c hc => endsWord_of_altEnd (hre c hc)
  exact ⟨j, hj.trans (hkey _)⟩

/-- `int` or `num` with its range. -/
theorem parseAlt_range [ReadsJson N] [WritesJson N] (hwo : PlainWord word)
    {kind : Range N → Kind N (Ty N)} (hkey : ∀ c, keywordOrLiteral word c = do
      let (r, c) ← parseRange c
      return (.type (kind r), c)) {range : Range N} (hrng : ExactRange range) :
    Reads altEnd (parseAlt (fuel + 1)) (word ++ pushRange range) (.type (kind range)) := by
  intro i rest hre
  have hends : Ends endsWord (pushRange range ++ rest) := by
    refine head_append (fun c hc => ?_) fun c hc => endsWord_of_altEnd (hre c hc)
    unfold pushRange at hc
    split_ifs at hc
    · cases hc
    · cases hc
      rfl
  obtain ⟨j, hj⟩ := parseAlt_word (N := N) hwo hends
  have hprn : Ends (· ≠ '(') rest := by
    intro c hc
    simp only [decide_eq_true_eq]
    rintro rfl
    exact absurd (hre '(' hc) (by decide)
  obtain ⟨k, hk⟩ := parseRange_reads hrng j rest hprn
  refine ⟨k, ?_⟩
  rw [append_assoc, hj, hkey, hk]
  rfl

theorem parseAlt_array {items : Ty N} (h : Reads tyEnd (parseTy fuel) text items) :
    Reads altEnd (parseAlt (fuel + 1)) ('[' :: (text ++ [']'])) (.type (.array items)) := by
  intro i rest _
  obtain ⟨j, hj⟩ := h (i + 1) (']' :: rest) (by simp [tyEnd])
  refine ⟨j + 1, ?_⟩
  have hte : '[' :: (text ++ [']']) ++ rest = '[' :: (text ++ ']' :: rest) := by simp
  rw [hte, parseAlt]
  rw [tail_cons, hj]
  rfl

theorem parseAlt_object (harr : Arranged fs) (hfs : ∀ f ∈ fs, f.name ≠ [] ∧ ReadsTy r f.ty)
    (hfu : 4 * (r.fields fs).length + 2 ≤ fuel) {closed : Bool} :
    Reads altEnd (parseAlt (fuel + 1)) (r.object ⟨fs, closed⟩)
      (.type (.object ⟨stripFields fs, closed⟩)) := by
  intro i rest hre
  obtain ⟨j, hj⟩ := parseFields_reads harr hfs hfu '}' rfl (i + 1)
    ((if closed then ['!'] else []) ++ rest)
  have hte : r.object ⟨fs, closed⟩ ++ rest =
      '{' :: (r.fields fs ++ '}' :: ((if closed then ['!'] else []) ++ rest)) := by
    rw [Renderer.object]
    simp
  obtain ⟨k, hk⟩ := eat_mark closed (head_ne_of_ends (b := '!') (by decide) hre) (j + 1)
  refine ⟨k, ?_⟩
  rw [hte, parseAlt]
  rw [tail_cons, hj, ok_bind]
  dsimp only
  rw [expect_cons, ok_bind, hk]
  rfl

/-- What is known about the nodes below a kind. -/
structure KindReads (r : Renderer) (kind : Kind N (Ty N)) : Prop where
  exact : KindExact kind
  enum : ∀ values, kind = .enum values → values ≠ [] ∧ ∀ v ∈ values, IsScalar v
  array : ∀ items, kind = .array items → ReadsTy r items
  arranged : ∀ obj, kind = .object obj → Arranged obj.fields
  object : ∀ obj, kind = .object obj → ∀ f ∈ obj.fields, f.name ≠ [] ∧ ReadsTy r f.ty

theorem parseAlt_kind [ReadsJson N] [WritesJson N] (h : KindReads r kind)
    (hne : ∀ values, kind ≠ .enum values) (hfu : 4 * (r.kind kind).length + 1 ≤ fuel) :
    Reads altEnd (parseAlt fuel) (r.kind kind) (.type (stripKind kind)) := by
  obtain ⟨fuel, rfl⟩ : ∃ k, fuel = k + 1 := ⟨fuel - 1, by omega⟩
  cases kind with
  | str f =>
    cases f with
    | none =>
      rw [kind]
      exact parseAlt_keyword (by decide) (fun c => rfl) fuel
    | some f =>
      rw [kind]
      refine parseAlt_keyword ?_ (fun c => ?_) fuel
      · cases f <;> decide
      · cases f <;> rfl
  | int range
  | num range => exact parseAlt_range (by decide) (fun c => rfl) h.exact
  | bool | any | anyObject =>
    rw [kind]
    exact parseAlt_keyword (by decide) (fun c => rfl) fuel
  | enum values => exact absurd rfl (hne values)
  | array items =>
    rw [kind] at hfu ⊢
    simp only [length_cons, length_append] at hfu
    exact parseAlt_array (h.array items rfl none fuel (by omega))
  | object obj =>
    obtain ⟨fs, closed⟩ := obj
    rw [Renderer.kind, Renderer.object] at hfu
    simp only [length_cons, length_append] at hfu
    exact parseAlt_object (h.arranged _ rfl) (h.object _ rfl)
      (show 4 * (r.fields fs).length + 2 ≤ fuel by omega)

theorem readsTy_of_kind [ReadsJson N] [WritesJson N] (hr : r.policy = .keep)
    (h : KindReads r t.kind) (hd : ∀ d ∈ t.default, ReadableDefault d) : ReadsTy r t := by
  obtain ⟨kind, nullable, description, default⟩ := t
  intro name fuel hfu
  obtain ⟨fuel, rfl⟩ : ∃ k, fuel = k + 1 := ⟨fuel - 1, by omega⟩
  have hte : r.ty ⟨kind, nullable, description, default⟩ name =
      r.kind kind ++ (nullMark kind nullable ++
        (defaultText default ++ descriptionText description)) := by
    rw [ty, suffix_keep hr, append_assoc]
  rw [hte] at hfu ⊢
  simp only [length_append] at hfu
  by_cases hne : ∀ values, kind ≠ .enum values
  · have hkind := parseAlt_kind h hne (show 4 * (r.kind kind).length + 1 ≤ fuel by omega)
    have hmark : nullMark kind nullable = if nullable then "|null".toList else [] := by
      unfold nullMark
      split
      · exact absurd rfl (hne _)
      · rfl
    have hnull : Reads altsEnd (parseAlts (N := N) fuel) (nullMark kind nullable)
        (if nullable then [.literal .null] else []) := by
      rw [hmark] at hfu ⊢
      cases nullable with
      | true =>
        obtain ⟨fuel, rfl⟩ : ∃ k, fuel = k + 2 := ⟨fuel - 2, by simp at hfu; omega⟩
        exact parseAlts_null
      | false =>
        obtain ⟨fuel, rfl⟩ : ∃ k, fuel = k + 1 := ⟨fuel - 1, by omega⟩
        exact parseAlts_nil.mono ne_bar_of_altsEnd
    have hstr : (Ty.mk kind nullable description default).strip =
        ⟨stripKind kind, nullable, description, default⟩ := by
      cases kind with
      | enum values => exact absurd rfl (hne values)
      | _ => rfl
    rw [hstr]
    refine parseTy_of_alts hkind hnull ?_ combine_type hd description
    rw [hmark]
    cases nullable <;> simp [Ends]
  · push Not at hne
    obtain ⟨values, rfl⟩ := hne
    obtain ⟨hvals, hsca⟩ := h.enum values rfl
    cases values with
    | nil => exact absurd rfl hvals
    | cons v vs =>
      obtain ⟨hv, hvs⟩ := forall_mem_cons.1 hsca
      obtain ⟨hnv, hnvs⟩ := forall_mem_cons.1 (show ∀ w ∈ v :: vs, w.AllNumbers Exact from
        h.exact)
      have hlen := length_le_moreLiterals vs
      rw [kind, literals_cons] at hfu ⊢
      simp only [length_append] at hfu
      obtain ⟨fuel, rfl⟩ : ∃ k, fuel = k + 1 := ⟨fuel - 1, by omega⟩
      have hlit := parseAlts_literals (fun w hw => ⟨hvs w hw, hnvs w hw⟩)
        (show vs.length < fuel + 1 by omega)
      rw [append_assoc]
      exact parseTy_of_alts (parseAlt_literal hv hnv) hlit
        head_moreLiterals (combine_literals (v :: vs)) hd description

/-- **The notation of a node is read back.** -/
theorem parseTy_reads [ReadsJson N] [WritesJson N] (hr : r.policy = .keep) {n : Nat}
    (h : WellFormed n t) (hs : Legible t) : ReadsTy r t := by
  induction n generalizing t with
  | zero => exact h.elim
  | succ n ih =>
    obtain ⟨hdef, hnum, harr, hnm, hobj⟩ := hs
    obtain ⟨hcan, hok⟩ := h
    refine readsTy_of_kind hr ⟨hnum, ?_, ?_, ?_, ?_⟩ fun d hd =>
      ⟨hcan d hd, (hdef d hd).1, (hdef d hd).2⟩
    · intro values hk
      rw [hk] at hok
      exact hok
    · intro items hk
      rw [hk] at hok
      rcases hok with rfl | hit
      · refine readsTy_of_kind hr ⟨trivial, ?_, ?_, ?_, ?_⟩ nofun
        all_goals rintro _ ⟨⟩
      · exact ih hit (harr items hk)
    · intro obj hk
      rw [hk] at hok
      exact hok.1
    · intro obj hk f hf
      rw [hk] at hok
      exact ⟨hnm obj hk f hf, ih (hok.2 f hf) (hobj obj hk f hf)⟩

end

end Nasiko.ToolCompact
