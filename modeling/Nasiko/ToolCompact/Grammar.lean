import Nasiko.ToolCompact.Stream

/-!
# The grammar of calls

What the decoder is for: it accepts the texts of the call grammar and returns what they say.

`CallShape` is the form of a call as the scanner sees it, where the arguments are whatever the
bracket counter takes for an object. `CallText` is the form of the grammar, where they are JSON.
`scanCall_shape` and `shape_of_scanCall` connect the scanner with the first, `argsText_iff`
connects the two, and `OutputText` is the grammar of a whole output.
-/

namespace Nasiko.ToolCompact

open SerdeJson Result Decoded List Except Prod Json Entries Text

/-! ## Calls as the scanner sees them -/

/-- A run of ASCII whitespace. -/
def Space (s : Str) : Prop := ∀ c ∈ s, isAsciiWhitespace c = true

/-- A tool name of the call grammar. -/
def IsName (s : Str) : Prop := s ≠ [] ∧ ∀ c ∈ s, isNameByte c = true

/-- The arguments of a call and the whitespace behind them. -/
inductive Body : Option Str → Str → Prop
  | none : Body none []
  | some {raw w : Str} : raw.head? = some '{' → jsonObjectEnd raw = some (raw, []) → Space w →
      Body (some raw) (raw ++ w)

/-- A call to `name` with the text `raw` for its arguments. -/
inductive CallShape (name : Str) (raw : Option Str) : Str → Prop
  | mk {ws ws' body : Str} : Space ws → ws ≠ [] → IsName name → Space ws' → Body raw body →
      CallShape name raw (callOpen ++ (ws ++ (name ++ (ws' ++ (body ++ callClose)))))

section

variable {N F : Type} [SerdeJson N F]

/-- What the arguments of a call are read as. -/
def argsOf (name : Str) : Option Str → Except CompactError (Entries (Json N))
  | none => .ok []
  | some raw => parseArgs name raw

theorem scanClose_callClose (name : Str) (args : Entries (Json N)) (r : Str) (otherwise : String) :
    scanClose name args (callClose ++ r) otherwise = .ok (.done name args r) := by
  have hclo : closing (callClose ++ r) = some true := by simp [closing]
  rw [scanClose, hclo, drop_left]

theorem skipWs_of_space {w r : Str} (hw : Space w)
    (hr : ∀ c ∈ r.head?, isAsciiWhitespace c = false) : skipWs (w ++ r) = r :=
  (takeWhile_append_of_all hw hr).2

variable {raw : Option Str} {body name rest : Str} {args : Entries (Json N)}
  {fs : List (Str × Json N)}

theorem scanArgs_body (h : Body raw body) (name r : Str) :
    scanArgs (N := N) name (body ++ (callClose ++ r)) =
      argsOf name raw >>= fun args => .ok (.done name args r) := by
  cases h with
  | none =>
    exact scanClose_callClose name [] r "expected `\x7b` or `>>` after the tool name"
  | @some raw w hhe hend hw =>
    obtain ⟨t, rfl⟩ : ∃ t, raw = '{' :: t := by
      cases raw with
      | nil => cases hhe
      | cons c t => exact ⟨t, by rw [Option.some.inj hhe]⟩
    have hcut : jsonObjectEnd ('{' :: (t ++ w ++ (callClose ++ r))) =
        some ('{' :: t, w ++ (callClose ++ r)) := by
      have := cutAfter_append hend (w ++ (callClose ++ r))
      rwa [← List.append_assoc] at this
    rw [cons_append, cons_append, scanArgs, if_neg (by decide), if_pos rfl, hcut]
    have hskip : skipWs (w ++ (callClose ++ r)) = callClose ++ r :=
      skipWs_of_space hw (head?_cons_false _ rfl)
    simp [hskip, scanClose_callClose, argsOf]

theorem head_body (h : Body raw body) {r : Str} : ∀ c ∈ (body ++ (callClose ++ r)).head?,
      isAsciiWhitespace c = false ∧ isNameByte c = false := by
  have key : ∀ x ∈ (body ++ (callClose ++ r)).head?, x = '>' ∨ x = '{' := by
    intro x hx
    cases h with
    | none => exact Or.inl (Option.some.inj hx).symm
    | @some raw w hhe _ _ =>
      rw [List.append_assoc, List.head?_append, hhe] at hx
      exact Or.inr (Option.some.inj hx).symm
  intro c hc
  rcases key c hc with rfl | rfl <;> exact ⟨rfl, rfl⟩

theorem head_after_name {ws : Str} (hws : Space ws) (h : Body raw body) (r : Str) :
    ∀ c ∈ (ws ++ (body ++ (callClose ++ r))).head?, isNameByte c = false := by
  cases ws with
  | nil => exact fun c hc => (head_body h c hc).2
  | cons x ws =>
    intro c hc
    obtain rfl : x = c := Option.some.inj hc
    have hx := hws x mem_cons_self
    simp only [isAsciiWhitespace, Bool.or_eq_true, beq_iff_eq] at hx
    rcases hx with (((rfl | rfl) | rfl) | rfl) | rfl <;> rfl

theorem not_space_of_nameByte {c : Char} (h : isNameByte c = true) :
    isAsciiWhitespace c = false := by
  rw [← Bool.not_eq_true]
  intro hs
  simp only [isAsciiWhitespace, Bool.or_eq_true, beq_iff_eq] at hs
  rcases hs with (((rfl | rfl) | rfl) | rfl) | rfl <;> cases h

variable (checkName : Str → Except CompactError Unit)

/-- **The scanner on a call**: it checks the name, reads the arguments and stops behind the
call. -/
theorem scanCall_shape {src : Str} (h : CallShape name raw src) (r : Str) :
    scanCall (N := N) checkName (src ++ r) =
      checkName name >>= fun _ => argsOf name raw >>= fun args => .ok (.done name args r) := by
  cases h with
  | @mk ws ws' body hws hne hna hws' hbo =>
    obtain ⟨c, ws, rfl⟩ := exists_cons_of_ne_nil hne
    have hc := hws c mem_cons_self
    have haft := head_after_name hws' hbo r
    have hspa : ∀ x ∈ (name ++ (ws' ++ (body ++ (callClose ++ r)))).head?,
        isAsciiWhitespace x = false := by
      intro x hx
      obtain ⟨y, ys, hys⟩ := exists_cons_of_ne_nil hna.1
      rw [hys, cons_append, head?_cons, Option.mem_some_iff] at hx
      exact hx ▸ not_space_of_nameByte (hna.2 y (hys ▸ mem_cons_self))
    have htake := takeWhile_append_of_all hna.2 haft
    have hrest : ws' ++ (body ++ (callClose ++ r)) ≠ [] := by
      simp [callClose]
    simp only [List.append_assoc, scanCall, List.drop_left, List.cons_append]
    rw [if_pos hc, ← List.cons_append, skipWs_of_space hws hspa, scanName, htake.1, htake.2]
    have hemp : ¬ name.isEmpty = true := by simpa using hna.1
    simp only [if_neg hemp]
    rw [skipWs_of_space hws' fun x hx => (head_body hbo x hx).1]
    simp [scanArgs_body hbo]

variable {checkName} {name' raw : Str}

theorem takeWhile_space (s : Str) : Space (s.takeWhile isAsciiWhitespace) :=
  fun _ hc => mem_takeWhile_imp hc

theorem space_append_skipWs (s : Str) : s = s.takeWhile isAsciiWhitespace ++ skipWs s :=
  (takeWhile_append_dropWhile ..).symm

theorem scanClose_eq_done {args' : Entries (Json N)} {s : Str} {otherwise : String}
    (h : scanClose name args s otherwise = .ok (.done name' args' rest)) :
    name' = name ∧ args' = args ∧ s = callClose ++ rest := by
  unfold scanClose at h
  cases hc : closing s with
  | none => simp [hc] at h
  | some b =>
    cases b with
    | false => simp [hc] at h
    | true =>
      rw [hc] at h
      obtain ⟨rfl, rfl, rfl⟩ := Scan.done.inj (ok.inj h)
      obtain ⟨r, rfl⟩ := callClose_prefix_of_closing hc
      exact ⟨rfl, rfl, by rw [drop_left]⟩

theorem body_of_scanArgs {s : Str} (h : scanArgs name s = .ok (.done name' args rest)) :
    name' = name ∧ ∃ raw body, Body raw body ∧ argsOf name raw = .ok args ∧
      s = body ++ (callClose ++ rest) := by
  cases s with
  | nil => cases h
  | cons c s =>
    simp only [scanArgs] at h
    split_ifs at h with hc hb
    · obtain ⟨rfl, rfl, hs⟩ := scanClose_eq_done h
      exact ⟨rfl, none, [], .none, rfl, hs⟩
    · cases hj : jsonObjectEnd (c :: s) with
      | none => simp [hj] at h
      | some p =>
        obtain ⟨raw, after⟩ := p
        rw [hj] at h
        obtain ⟨args', har, h⟩ := bind_eq_ok_iff.1 h
        obtain ⟨rfl, rfl, haft⟩ := scanClose_eq_done h
        obtain ⟨hs, q, x, b', hraw, -⟩ := cutAfter_sound hj
        have hhe : raw.head? = some '{' := by
          have := congrArg head? hs
          rw [head?_append_of_ne_nil _ (by simp [hraw])] at this
          rw [← this, ← hb]
          rfl
        refine ⟨rfl, some raw, raw ++ after.takeWhile isAsciiWhitespace,
          .some hhe (cutAfter_self hj) (takeWhile_space after), har, ?_⟩
        rw [hs, List.append_assoc, ← haft, ← space_append_skipWs]

theorem shape_of_scanCall {buf : Str} (hbuf : callOpen <+: buf)
    (h : scanCall checkName buf = .ok (.done name args rest)) :
    ∃ raw src, CallShape name raw src ∧ checkName name = .ok () ∧ argsOf name raw = .ok args ∧
      buf = src ++ rest := by
  obtain ⟨s, rfl⟩ := hbuf
  rw [scanCall, drop_left] at h
  cases s with
  | nil => simp at h
  | cons c s =>
    dsimp only at h
    split_ifs at h with hc
    have hws := space_append_skipWs (c :: s)
    generalize skipWs (c :: s) = t at h hws
    unfold scanName at h
    have ht : t = t.takeWhile isNameByte ++ t.dropWhile isNameByte :=
      (takeWhile_append_dropWhile ..).symm
    cases hd : t.dropWhile isNameByte with
    | nil => simp [hd] at h
    | cons x xs =>
      simp only [hd] at h
      split_ifs at h with hemp
      obtain ⟨⟨⟩, hchk, h⟩ := bind_eq_ok_iff.1 h
      obtain ⟨rfl, raw, body, hbo, har, hbuf⟩ := body_of_scanArgs h
      refine ⟨raw, _, .mk (takeWhile_space (c :: s)) ?_ ⟨?_, fun _ hx => mem_takeWhile_imp hx⟩
        (takeWhile_space (x :: xs)) hbo, hchk, har, ?_⟩
      · simp [hc]
      · simpa using hemp
      · simp only [List.append_assoc, ← hbuf, ← space_append_skipWs]
        rw [← hd, ← ht, ← hws]

/-! ## Arguments as JSON -/

/-- No object of the document has a key twice. -/
inductive UniqueKeys : Json N → Prop
  | null : UniqueKeys .null
  | bool (b : Bool) : UniqueKeys (.bool b)
  | number (n : N) : UniqueKeys (.number n)
  | string (s : Str) : UniqueKeys (.string s)
  | array {vs : List (Json N)} : (∀ v ∈ vs, UniqueKeys v) → UniqueKeys (.array vs)
  | object {fs : List (Str × Json N)} : (fs.map Prod.fst).Nodup → (∀ f ∈ fs, UniqueKeys f.2) →
      UniqueKeys (.object fs)

theorem repeatsKeyItems_eq_false {vs : List (Json N)} :
    repeatsKeyItems vs = false ↔ ∀ v ∈ vs, repeatsKey v = false := by
  induction vs with
  | nil => simp [repeatsKeyItems]
  | cons v vs ih => simp [repeatsKeyItems, ih]

theorem repeatsKeyFields_eq_false {seen : List Str} : repeatsKeyFields fs seen = false ↔
      ((fs.map Prod.fst).Nodup ∧ ∀ f ∈ fs, f.1 ∉ seen) ∧ ∀ f ∈ fs, repeatsKey f.2 = false := by
  induction fs generalizing seen with
  | nil => simp [repeatsKeyFields]
  | cons f fs ih =>
    simp only [repeatsKeyFields, Bool.or_eq_false_iff, ih, map_cons, nodup_cons,
      forall_mem_cons, contains_eq_mem, decide_eq_false_iff_not, mem_map,
      Prod.exists, not_exists, not_and]
    constructor
    · rintro ⟨⟨hk, hv⟩, ⟨hnd, hseen⟩, hfs⟩
      refine ⟨⟨⟨fun a b hab hak => ?_, hnd⟩, hk, fun f hf => ?_⟩, hv, hfs⟩
      · exact hseen (a, b) hab (hak ▸ mem_cons_self)
      · exact fun hmem => hseen f hf (mem_cons_of_mem _ hmem)
    · rintro ⟨⟨⟨hk, hnd⟩, hks, hseen⟩, hv, hfs⟩
      refine ⟨⟨hks, hv⟩, ⟨hnd, fun f hf hmem => ?_⟩, hfs⟩
      rcases mem_cons.1 hmem with heq | hmem
      · exact hk f.1 f.2 hf heq
      · exact hseen f hf hmem

theorem repeatsKey_eq_false {v : Json N} : repeatsKey v = false ↔ UniqueKeys v := by
  induction v using induct with
  | null => exact ⟨fun _ => .null, fun _ => rfl⟩
  | bool b => exact ⟨fun _ => .bool b, fun _ => rfl⟩
  | number n => exact ⟨fun _ => .number n, fun _ => rfl⟩
  | string s => exact ⟨fun _ => .string s, fun _ => rfl⟩
  | array vs ih =>
    rw [repeatsKey, repeatsKeyItems_eq_false]
    constructor
    · exact fun h => .array fun v hv => (ih v hv).1 (h v hv)
    · rintro (_ | _ | _ | _ | h)
      exact fun v hv => (ih v hv).2 (h v hv)
  | object fs ih =>
    rw [repeatsKey, repeatsKeyFields_eq_false]
    constructor
    · rintro ⟨⟨hnd, -⟩, h⟩
      exact .object hnd fun f hf => (ih f hf).1 (h f hf)
    · rintro (_ | _ | _ | _ | _ | ⟨hnd, h⟩)
      exact ⟨⟨hnd, by simp⟩, fun f hf => (ih f hf).2 (h f hf)⟩

theorem parseArgs_eq_ok_iff : parseArgs name raw = .ok args ↔
      ∃ fs, parse raw = some (Json.object fs) ∧ UniqueKeys (Json.object fs) ∧
        args = ofList (Json.toValueFields fs) := by
  unfold parseArgs fromStr hasDuplicateKeys
  cases hp : (parse raw : Option (Json N)) with
  | none => simp
  | some t =>
    cases t with
    | object fs =>
      simp only [Option.map_some, Json.toValue, Option.some.injEq, Json.object.injEq]
      split_ifs with hrep
      · simp only [false_iff, not_exists, not_and]
        rintro fs' rfl hu
        rw [repeatsKey_eq_false.2 hu] at hrep
        cases hrep
      · rw [Bool.not_eq_true, repeatsKey_eq_false] at hrep
        constructor
        · intro h
          exact ⟨fs, rfl, hrep, (ok.inj h).symm⟩
        · rintro ⟨fs', rfl, -, rfl⟩
          rfl
    | _ => simp [Json.toValue]

theorem isNeutral_of_isNumChar {c : Char} (h : isNumChar c = true) : isNeutral c = true := by
  rw [← Bool.not_eq_false]
  intro hn
  simp only [isNeutral, Bool.not_eq_false', Bool.or_eq_true, beq_iff_eq] at hn
  rcases hn with (((rfl | rfl) | rfl) | rfl) | rfl <;> cases h

theorem closesObject_not_isOpen (b : Nesting) (c : Char) (h : closesObject b c = true) :
    (b.step c).isOpen = false := by
  simp only [closesObject, Bool.and_eq_true, Bool.not_eq_true', Bool.or_eq_true, beq_iff_eq] at h
  obtain ⟨⟨hs, hc⟩, hd⟩ := h
  have hs' : (b.step c).inString = false := by
    rcases hc with rfl | rfl <;> simp [Nesting.step, hs]
  simp [Nesting.isOpen, hs', hd]

/-- The bracket counter finds the end of an object that the grammar has. -/
theorem jsonObjectEnd_object {o : Str}
    (h : ValueText (ReadTok ofToken) Blank (.object fs) o) (r : Str) :
    jsonObjectEnd (o ++ r) = some (o, r) :=
  cutAfter_object (fun _ _ h c hc => isNeutral_of_isNumChar ((isNumber_chars h.1).2 c hc))
    (fun _ hs c hc => isNeutral_of_isBlank (hs c hc)) closesObject_not_isOpen h rfl r

/-- An object as the grammar has it: JSON within the depth limit, no key twice. -/
def ObjectText (fs : List (Str × Json N)) (o : Str) : Prop :=
  Json.ValueText (Json.ReadTok ofToken) Json.Blank (.object fs) o ∧
    (Json.object fs).depth < recursionLimit ∧ UniqueKeys (.object fs)

variable (hreads : ReadsJson N)
include hreads

/-- **The bracket counter agrees with JSON**: what it takes for an object and the JSON reader
accepts is an object of the grammar, and the other way round. -/
theorem objectText_iff :
    (raw.head? = some '{' ∧ jsonObjectEnd raw = some (raw, []) ∧ parseArgs name raw = .ok args) ↔
      ∃ fs, ObjectText fs raw ∧ args = ofList (Json.toValueFields fs) := by
  rw [parseArgs_eq_ok_iff]
  constructor
  · rintro ⟨hhe, hend, fs, hpar, huniq, rfl⟩
    obtain ⟨⟨a, o, b, ha, ho, hb, rfl⟩, hdep⟩ := (hreads.parse_iff _ _).1 hpar
    -- An object text has no blanks around it: it starts and ends with a bracket.
    have hanil : a = [] := by
      cases a with
      | nil => rfl
      | cons x a =>
        obtain rfl : x = '{' := Option.some.inj hhe
        cases ha '{' mem_cons_self
    subst hanil
    have hcut := jsonObjectEnd_object ho b
    rw [nil_append] at hend ⊢
    rw [hcut] at hend
    obtain ⟨-, rfl⟩ := mk.inj (Option.some.inj hend)
    exact ⟨fs, ⟨by simpa using ho, hdep, huniq⟩, rfl⟩
  · rintro ⟨fs, ⟨ho, hdep, huniq⟩, rfl⟩
    refine ⟨?_, by simpa using jsonObjectEnd_object ho [], fs, ?_, huniq, rfl⟩
    · obtain ⟨t, -, rfl⟩ := ho
      rfl
    · exact (hreads.parse_iff _ _).2 ⟨⟨[], raw, [], by simp [Json.Blank], ho, by simp [Json.Blank],
        by simp⟩, hdep⟩

end

/-! ## The grammar -/

variable {N F : Type} [SerdeJson N F]

/-- The optional object of a call and the whitespace behind it. -/
inductive ArgsText : Entries (Json N) → Str → Prop
  | none : ArgsText [] []
  | object {fs : List (Str × Json N)} {o w : Str} : ObjectText fs o → Space w →
      ArgsText (ofList (Json.toValueFields fs)) (o ++ w)

/-- A call of the grammar to a tool of the catalog, with arguments that validate; the call that it
stands for has the nulls of its strict-mode schema. -/
inductive CallText (cat : Catalog N) : ToolCall N → Str → Prop
  | mk {ws name ws' body : Str} {args : Entries (Json N)} {schema : Object (Ty N)} :
      Space ws → ws ≠ [] → IsName name → Space ws' → ArgsText args body →
      cat.get name = some schema → Validate.object args schema "$" = .ok () →
      CallText cat ⟨name, Validate.fillOmittedNullable args schema⟩
        (callOpen ++ (ws ++ (name ++ (ws' ++ (body ++ callClose)))))

/-- A text that can be cut into prose without a marker and calls. -/
inductive OutputText (cat : Catalog N) : Decoded N → Str → Prop
  | prose {s : Str} : ¬ callOpen <:+: s → OutputText cat (prose s) s
  | call {p src rest : Str} {c : ToolCall N} {d : Decoded N} : ¬ callOpen <:+: p →
      CallText cat c src → OutputText cat d rest →
      OutputText cat (Decoded.prose p ++ (one c ++ d)) (p ++ (src ++ rest))

theorem callOpen_unbordered : Text.Unbordered callOpen := unbordered_of_take (by decide)

variable {cat : Catalog N} {name s : Str} {call : ToolCall N} {d : Decoded N}

theorem validate_eq_ok_iff {args : Entries (Json N)} : cat.validate name args = .ok call ↔
      ∃ schema, cat.get name = some schema ∧ Validate.object args schema "$" = .ok () ∧
        call = ⟨name, Validate.fillOmittedNullable args schema⟩ := by
  unfold Catalog.validate
  cases cat.get name with
  | none => simp
  | some schema =>
    simp only [Option.some.injEq]
    constructor
    · intro h
      cases hv : Validate.object args schema "$" with
      | error e => simp only [hv, reduceCtorEq] at h
      | ok u =>
        simp only [hv, ok.injEq] at h
        exact ⟨schema, rfl, hv, h.symm⟩
    · rintro ⟨schema', rfl, hv, rfl⟩
      simp only [hv]

theorem checkName_eq_ok {schema : Object (Ty N)} (h : cat.get name = some schema) :
    cat.checkName name = .ok () := by
  rw [Catalog.checkName, h]

theorem callText_iff (hreads : ReadsJson N) {src : Str} : CallText cat call src ↔
      ∃ name raw args, CallShape name raw src ∧ argsOf name raw = .ok args ∧
        cat.validate name args = .ok call := by
  constructor
  · rintro ⟨hws, hne, hna, hws', har, hget, hvld⟩
    have hval := validate_eq_ok_iff.2 ⟨_, hget, hvld, rfl⟩
    cases har with
    | none => exact ⟨_, none, [], .mk hws hne hna hws' .none, rfl, hval⟩
    | object ho hw =>
      obtain ⟨hhe, hend, hpar⟩ := (objectText_iff hreads).2 ⟨_, ho, rfl⟩
      exact ⟨_, some _, _, .mk hws hne hna hws' (.some hhe hend hw), hpar, hval⟩
  · rintro ⟨name, raw, args, ⟨hws, hne, hna, hws', hbo⟩, har, hval⟩
    obtain ⟨schema, hget, hvld, rfl⟩ := validate_eq_ok_iff.1 hval
    refine .mk hws hne hna hws' ?_ hget hvld
    cases hbo with
    | none =>
      obtain rfl := ok.inj har
      exact .none
    | some hhe hend hw =>
      obtain ⟨fs, ho, rfl⟩ := (objectText_iff hreads).1 ⟨hhe, hend, har⟩
      exact .object ho hw

/-- A run over a text that starts with prose and a call. -/
theorem drained_call {atEnd : Bool} {p src : Str} {raw : Option Str} (hp : ¬ callOpen <:+: p)
    (h : CallShape name raw src) (rest : Str) :
    drained cat atEnd (p ++ (src ++ rest)) =
      prepend (prose p) (cat.checkName name >>= fun _ => argsOf name raw >>= fun args =>
        cat.validate name args >>= fun call => prepend (one call) (drained cat atEnd rest)) := by
  have hopen : callOpen <+: src ++ rest := by
    cases h with
    | mk => exact prefix_append_of_prefix (prefix_append _ _)
  have hnot := notIn_of_not_infix callOpen_unbordered hp hopen
  rw [drained_of_splitFirst (splitFirst_of_notIn hnot hopen)]
  congr 1
  have hsc := scanCall_shape (N := N) cat.checkName h rest
  cases hchk : cat.checkName name with
  | error e =>
    rw [hchk] at hsc
    exact drainedCall_error hsc
  | ok u =>
    rw [hchk] at hsc
    cases har : argsOf (N := N) name raw with
    | error e =>
      rw [har] at hsc
      exact drainedCall_error hsc
    | ok args =>
      rw [har] at hsc
      exact drainedCall_done hsc

theorem drained_end_of_notIn (h : ¬ callOpen <:+: s) : drained cat true s = .ok (prose s, []) := by
  rw [drained_of_notIn h]
  simp [released]

/-- A run to the end of a text that succeeds reads a text of the grammar. -/
theorem outputText_of_drained (hreads : ReadsJson N) {r : Str}
    (h : drained cat true s = .ok (d, r)) : OutputText cat d s := by
  induction s using drain_induct cat generalizing d with
  | prose s hno =>
    rw [drained_end_of_notIn hno] at h
    cases h
    exact .prose hno
  | wrong s text buf e hsp hsc =>
    rw [drained_of_splitFirst hsp, drainedCall_error hsc] at h
    cases h
  | waits s text buf hsp hsc =>
    rw [drained_of_splitFirst hsp, drainedCall_needMore_end hsc] at h
    cases h
  | call s text buf name args rest hsp hsc hrest ih =>
    obtain ⟨rfl, hopen, hnot⟩ := splitFirst_sound hsp
    rw [drained_of_splitFirst hsp, drainedCall_done hsc] at h
    obtain ⟨d₁, h, rfl⟩ := prepend_eq_ok_iff.1 h
    obtain ⟨call, hcall, h⟩ := bind_eq_ok_iff.1 h
    obtain ⟨d₂, h, rfl⟩ := prepend_eq_ok_iff.1 h
    obtain ⟨raw, src, hsha, -, har, rfl⟩ := shape_of_scanCall hopen hsc
    exact .call (not_infix_of_notIn callOpen_ne_nil hnot)
      ((callText_iff hreads).2 ⟨name, raw, args, hsha, har, hcall⟩) (ih h)

/-- The run to the end of a text of the grammar succeeds. -/
theorem drained_of_outputText (hreads : ReadsJson N) (h : OutputText cat d s) :
    drained cat true s = .ok (d, []) := by
  induction h with
  | prose hno => exact drained_end_of_notIn hno
  | @call p src rest c d hp hcall _ ih =>
    obtain ⟨name, raw, args, hsha, har, hval⟩ := (callText_iff hreads).1 hcall
    obtain ⟨schema, hget, -, -⟩ := validate_eq_ok_iff.1 hval
    rw [drained_call hp hsha, checkName_eq_ok hget, ok_bind, har, ok_bind, hval, ih]
    rfl

theorem decode_eq_ok_iff_drained {tools : List (ToolDef N)} (hcat : Catalog.new tools = .ok cat)
    {text : Str} : decode text tools = .ok d ↔ fst <$> drained cat true text = .ok d := by
  rw [decode_eq_decodeChunks, decodeChunks_eq, hcat, ok_bind]
  constructor
  · intro h
    simpa using ofEvents_feed_ok h
  · intro h
    cases hd : drained cat false text with
    | error e =>
      obtain ⟨e', he⟩ := drained_end_error hd
      rw [he] at h
      cases h
    | ok p =>
      have happ := drained_append hd true []
      rw [append_nil, append_nil] at happ
      rw [happ, fst_prepend] at h
      rw [ofEvents_feed_cons, nil_append, hd, ok_bind, StreamDecoder.feed, ofEvents_finish]
      exact h

/-- **The decoder accepts the grammar.** A text decodes exactly when it can be cut into prose and
calls of the catalog, and it decodes to that prose and those calls. -/
theorem decode_eq_ok_iff (hreads : ReadsJson N) (tools : List (ToolDef N)) {cat : Catalog N}
    (hcat : Catalog.new tools = .ok cat) (text : Str) (d : Decoded N) :
    decode text tools = .ok d ↔ OutputText cat d text := by
  rw [decode_eq_ok_iff_drained hcat, map_eq_ok_iff]
  constructor
  · rintro ⟨⟨d, r⟩, h, rfl⟩
    exact outputText_of_drained hreads h
  · exact fun h => ⟨(d, []), drained_of_outputText hreads h, rfl⟩

/-- A text with one call, cut into prose and the call. -/
theorem decode_eq_ok_iff_ping : ∃ cat : Catalog Int,
      OutputText cat ⟨"Hi  ok", [⟨"ping", [("a", .string ">>")]⟩]⟩
        "Hi <<call ping \x7b\"a\": \">>\"\x7d >> ok" :=
  ⟨_, (decode_eq_ok_iff Integers.readsJson
    [⟨"ping", none, some (.object [("type", .string "object")])⟩] rfl _ _).1
    (by decide +kernel)⟩

end Nasiko.ToolCompact
