import Nasiko.Json.Integers
import Nasiko.ToolCompact.Decode

/-!
# Chunking does not matter

The stream decoder gives the same result however its input is cut into chunks. The scanner has
to give a *stable* verdict on every prefix: what it says about a call before the text ends
(`scanCall_append`) must be what it says when more text follows.

`drained cat atEnd s` is what one run of the drain loop makes of a buffer `s`: the text and calls
it gives away and the rest it keeps. The two step lemmas say that a run on a prefix can be
continued (`drained_append`) and that an error on a prefix is final (`drained_append_error`);
`feed_eq` is the run over all chunks.
-/

namespace Nasiko.ToolCompact

open SerdeJson Result Text Except Prod StreamDecoder Str

variable {N F : Type} [SerdeJson N F]

/-! ## Verdicts that more text does not change -/

/-- The same verdict in a buffer that goes on with `x`. -/
def Scan.grow (x : Str) : Scan N → Scan N
  | .needMore => .needMore
  | .done name args rest => .done name args (rest ++ x)

theorem closing_append (s x : Str) : closing s = none ∨ closing (s ++ x) = closing s := by
  match s with
  | [] => exact .inl rfl
  | [a] =>
    by_cases ha : '>' = a
    · subst ha
      exact .inl rfl
    · right
      cases x <;> simp [closing, callClose, List.isPrefixOf, ha, Ne.symm ha]
  | a :: b :: s =>
    right
    simp [closing, callClose, List.isPrefixOf]

variable {s rest name buf x name' : Str} {args : Entries (Json N)}
  {checkName : Str → Except CompactError Unit} {d : Decoded N}
  {r : Except CompactError (Decoded N × Str)} {e : CompactError} {atEnd : Bool} {chunks : List Str}

theorem callClose_prefix_of_closing (h : closing s = some true) : callClose <+: s := by
  unfold closing at h
  split_ifs at h with h₁ h₂
  · cases h
  · exact List.isPrefixOf_iff_prefix.1 (Option.some.inj h)

section

variable {name : Str} {args : Entries (Json N)} {otherwise : String}

theorem scanClose_append : scanClose name args s otherwise = .ok .needMore ∨
      scanClose name args (s ++ x) otherwise = Scan.grow x <$> scanClose name args s otherwise := by
  rcases closing_append s x with h | h
  · left
    simp [scanClose, h]
  · right
    simp only [scanClose, h]
    cases hc : closing s with
    | none => rfl
    | some b =>
      cases b with
      | false => rfl
      | true =>
        obtain ⟨r, rfl⟩ := callClose_prefix_of_closing hc
        simp [Scan.grow]

end

theorem skipWs_append : skipWs s = [] ∨ skipWs (s ++ x) = skipWs s ++ x := by
  by_cases h : skipWs s = []
  · exact .inl h
  · exact .inr (takeWhile_append_of_dropWhile_ne_nil x h).2

theorem scanArgs_append : scanArgs (N := N) name s = .ok .needMore ∨
      scanArgs (N := N) name (s ++ x) = Scan.grow x <$> scanArgs name s := by
  cases s with
  | nil => exact .inl rfl
  | cons c s =>
    simp only [List.cons_append, scanArgs]
    split_ifs with hc hb
    · exact scanClose_append
    · cases hj : jsonObjectEnd (c :: s) with
      | none => exact .inl rfl
      | some p =>
        obtain ⟨raw, rest⟩ := p
        have hj' : jsonObjectEnd (c :: (s ++ x)) = some (raw, rest ++ x) :=
          Json.cutAfter_append hj x
        simp only [hj']
        cases hargs : parseArgs (N := N) name raw with
        | error e => exact .inr rfl
        | ok args =>
          rcases skipWs_append with h | h
          · left
            rw [h]
            rfl
          · rw [h]
            exact scanClose_append
    · exact .inr rfl

theorem scanName_append : scanName (N := N) checkName s = .ok .needMore ∨
      scanName (N := N) checkName (s ++ x) = Scan.grow x <$> scanName checkName s := by
  by_cases hd : s.dropWhile isNameByte = []
  · left
    simp [scanName, hd]
  · obtain ⟨ht', hd'⟩ := takeWhile_append_of_dropWhile_ne_nil x hd
    obtain ⟨c, r, hcr⟩ := List.exists_cons_of_ne_nil hd
    simp only [scanName, ht', hd', hcr, List.cons_append]
    split_ifs with hn
    · exact .inr rfl
    · cases checkName (s.takeWhile isNameByte) with
      | error e => exact .inr rfl
      | ok u =>
        rcases skipWs_append with h | h
        · left
          rw [h]
          rfl
        · rw [← List.cons_append, h]
          exact scanArgs_append

/-- **The scanner is stable.** Either it waits for more text, or more text does not change what
it says. -/
theorem scanCall_append (checkName : Str → Except CompactError Unit) (hs : callOpen <+: s)
    (x : Str) : scanCall (N := N) checkName s = .ok .needMore ∨
      scanCall (N := N) checkName (s ++ x) = Scan.grow x <$> scanCall checkName s := by
  obtain ⟨r, rfl⟩ := hs
  simp only [scanCall, List.append_assoc, List.drop_left]
  cases r with
  | nil => exact .inl rfl
  | cons c r =>
    simp only [List.cons_append]
    split_ifs with hc
    · rcases skipWs_append with h | h
      · left
        rw [h]
        rfl
      · rw [← List.cons_append, h]
        exact scanName_append
    · exact .inr rfl

/-! ## The loop makes progress -/

/-- `rest` is what is left of `s` after at least one character. -/
def Behind (rest s : Str) : Prop := rest <:+ s ∧ rest.length < s.length

theorem Behind.of_suffix {t : Str} (h : Behind rest t) (hs : t <:+ s) : Behind rest s :=
  ⟨h.1.trans hs, h.2.trans_le hs.length_le⟩

theorem skipWs_suffix : skipWs s <:+ s := List.dropWhile_suffix _

theorem scanClose_done {args' : Entries (Json N)} {otherwise : String}
    (h : scanClose name args s otherwise = .ok (.done name' args' rest)) : Behind rest s := by
  unfold scanClose at h
  cases hc : closing s with
  | none => simp [hc] at h
  | some b =>
    cases b with
    | false => simp [hc] at h
    | true =>
      rw [hc] at h
      obtain ⟨-, -, rfl⟩ := Scan.done.inj (ok.inj h)
      have hlen : 2 ≤ s.length := (callClose_prefix_of_closing hc).length_le
      refine ⟨List.drop_suffix _ _, ?_⟩
      rw [List.length_drop, show callClose.length = 2 from rfl]
      omega

theorem scanArgs_done (h : scanArgs name s = .ok (.done name' args rest)) : Behind rest s := by
  cases s with
  | nil => cases h
  | cons c s =>
    simp only [scanArgs] at h
    split_ifs at h with hc hb
    · exact scanClose_done h
    · cases hj : jsonObjectEnd (c :: s) with
      | none => simp [hj] at h
      | some p =>
        obtain ⟨raw, after⟩ := p
        rw [hj] at h
        obtain ⟨args', -, h⟩ := bind_eq_ok_iff.1 h
        have hsuf : after <:+ c :: s := ⟨raw, (Json.cutAfter_sound hj).1.symm⟩
        exact (scanClose_done h).of_suffix (skipWs_suffix.trans hsuf)

theorem scanName_done (h : scanName checkName s = .ok (.done name args rest)) : Behind rest s := by
  have hsuf := List.dropWhile_suffix isNameByte (l := s)
  unfold scanName at h
  cases hcr : s.dropWhile isNameByte with
  | nil => simp [hcr] at h
  | cons c r =>
    simp only [hcr] at h hsuf
    split_ifs at h with hn
    obtain ⟨-, -, h⟩ := bind_eq_ok_iff.1 h
    exact (scanArgs_done h).of_suffix (skipWs_suffix.trans hsuf)

theorem scanCall_done (h : scanCall checkName s = .ok (.done name args rest)) : Behind rest s := by
  have hsuf := List.drop_suffix callOpen.length s
  unfold scanCall at h
  cases hcr : s.drop callOpen.length with
  | nil => simp [hcr] at h
  | cons c r =>
    simp only [hcr] at h hsuf
    split_ifs at h with hc
    exact (scanName_done h).of_suffix (skipWs_suffix.trans hsuf)

theorem drainLoop_fuel {cat : Catalog N} {n m : Nat} (hn : s.length < n) (hm : s.length < m) :
    drainLoop cat atEnd n s = drainLoop cat atEnd m s := by
  induction n generalizing m s with
  | zero => omega
  | succ n ih =>
    cases m with
    | zero => omega
    | succ m =>
      simp only [drainLoop]
      cases hsp : splitFirst callOpen s with
      | none => rfl
      | some p =>
        obtain ⟨text, buf⟩ := p
        have hlen := congrArg List.length (splitFirst_sound hsp).1
        rw [List.length_append] at hlen
        dsimp only
        cases hsc : scanCall (N := N) cat.checkName buf with
        | error e => rfl
        | ok v =>
          cases v with
          | needMore => rfl
          | done name args rest =>
            have := (scanCall_done hsc).2
            dsimp only
            rw [ih (m := m) (by omega) (by omega)]

/-! ## One run of the loop -/

instance : Append (Decoded N) := ⟨fun a b => ⟨a.text ++ b.text, a.calls ++ b.calls⟩⟩

namespace Decoded

theorem append_def (a b : Decoded N) : a ++ b = ⟨a.text ++ b.text, a.calls ++ b.calls⟩ := rfl

theorem append_assoc (a b c : Decoded N) : a ++ b ++ c = a ++ (b ++ c) := by
  simp [append_def]

/-- Text without a call. -/
def prose (s : Str) : Decoded N := ⟨s, []⟩

/-- A call without text. -/
def one (c : ToolCall N) : Decoded N := ⟨[], [c]⟩

@[simp] theorem ofEvents_append (a b : List (StreamEvent N)) :
    ofEvents (a ++ b) = ofEvents a ++ ofEvents b := by
  induction a with
  | nil => rfl
  | cons e a ih => cases e <;> simp [ofEvents, ih, append_def]

theorem ofEvents_pushText (s : Str) : ofEvents (pushText s) = (prose s : Decoded N) := by
  cases s <;> simp [pushText, ofEvents, prose]

theorem ofEvents_call (c : ToolCall N) (events : List (StreamEvent N)) :
    ofEvents (.call c :: events) = one c ++ ofEvents events := rfl

end Decoded

open Decoded

/-- What a run gives, in front of what a later run gives. -/
def prepend (d : Decoded N) (r : Except CompactError (Decoded N × Str)) :
    Except CompactError (Decoded N × Str) :=
  (fun p => (d ++ p.1, p.2)) <$> r

@[simp] theorem prepend_error (d : Decoded N) (e : CompactError) :
    prepend d (.error e) = .error e := rfl

@[simp] theorem prepend_ok (d : Decoded N) (p : Decoded N × Str) :
    prepend d (.ok p) = .ok (d ++ p.1, p.2) := rfl

theorem prepend_prepend (a b : Decoded N) (r : Except CompactError (Decoded N × Str)) :
    prepend a (prepend b r) = prepend (a ++ b) r := by
  cases r <;> simp [append_assoc]

theorem prepend_nil (r : Except CompactError (Decoded N × Str)) : prepend (prose []) r = r := by
  cases r with
  | error e | ok p => rfl

theorem prepend_eq_ok_iff {p : Decoded N × Str} :
    prepend d r = .ok p ↔ ∃ d', r = .ok (d', p.2) ∧ p.1 = d ++ d' := by
  cases r with
  | error e => simp
  | ok q =>
    obtain ⟨q₁, q₂⟩ := q
    obtain ⟨p₁, p₂⟩ := p
    simp only [prepend_ok, ok.injEq, Prod.mk.injEq]
    constructor
    · rintro ⟨rfl, rfl⟩
      exact ⟨q₁, ⟨rfl, rfl⟩, rfl⟩
    · rintro ⟨d', ⟨rfl, rfl⟩, rfl⟩
      exact ⟨rfl, rfl⟩

theorem prepend_eq_error_iff : prepend d r = .error e ↔ r = .error e := by
  cases r <;> simp

variable (cat : Catalog N)

/-- What one run of the drain loop gives away, and what it keeps. -/
def drained (atEnd : Bool) (s : Str) : Except CompactError (Decoded N × Str) :=
  match drainInner cat atEnd s with
  | (.error e, _) => .error e
  | (.ok events, left) => .ok (.ofEvents events, left)

/-- A run that starts at a marker. -/
def drainedCall (atEnd : Bool) (s : Str) : Except CompactError (Decoded N × Str) :=
  match scanCall cat.checkName s with
  | .error e => .error e
  | .ok (.done name args rest) => do
    let call ← cat.validate name args
    prepend (one call) (drained cat atEnd rest)
  | .ok .needMore =>
    if atEnd then .error (malformed "output ended inside a call")
    else if maxCallBytes < utf8Len s then .error (malformed "call exceeds the size limit")
    else .ok (prose [], s)

/-- The first part of a text without a marker that can be given away. -/
def released (atEnd : Bool) (s : Str) : Nat :=
  s.length - if atEnd then 0 else markerPrefixSuffix s

variable {cat} {text : Str}

/-- A run passes over the text in front of the first marker. -/
theorem drained_eq (atEnd : Bool) (s : Str) : drained cat atEnd s =
      match splitFirst callOpen s with
      | none => .ok (prose (s.take (released atEnd s)), s.drop (released atEnd s))
      | some (text, buf) => prepend (prose text) (drainedCall cat atEnd buf) := by
  unfold drained drainInner
  rw [drainLoop]
  cases hsp : splitFirst callOpen s with
  | none => simp [released, ofEvents_pushText]
  | some p =>
    obtain ⟨text, buf⟩ := p
    have hlen := congrArg List.length (splitFirst_sound hsp).1
    rw [List.length_append] at hlen
    dsimp only
    unfold drainedCall
    cases hsc : scanCall (N := N) cat.checkName buf with
    | error e => rfl
    | ok v =>
      cases v with
      | needMore =>
        split_ifs with h₁ h₂
        · rfl
        · rfl
        · simp [ofEvents_pushText, append_def, prose]
      | done name args rest =>
        dsimp only
        cases cat.validate name args with
        | error e => rfl
        | ok call =>
          have hre := (scanCall_done hsc).2
          rw [drainLoop_fuel (m := rest.length + 1) (by omega) (by omega)]
          simp only [drained, drainInner]
          obtain ⟨result, left⟩ := drainLoop cat atEnd (rest.length + 1) rest
          cases result with
          | error e => rfl
          | ok events =>
            simp [ofEvents_pushText, ofEvents_call]

theorem drained_of_notIn (h : ¬ callOpen <:+: s) :
    drained cat atEnd s = .ok (prose (s.take (released atEnd s)), s.drop (released atEnd s)) := by
  rw [drained_eq, splitFirst_eq_none_iff.2 h]

theorem drained_of_splitFirst (h : splitFirst callOpen s = some (text, buf)) :
    drained cat atEnd s = prepend (prose text) (drainedCall cat atEnd buf) := by
  rw [drained_eq, h]

theorem drained_of_prefix (h : callOpen <+: s) : drained cat atEnd s = drainedCall cat atEnd s := by
  rw [drained_of_splitFirst (Text.splitFirst_of_prefix h), prepend_nil]

theorem drainedCall_done (h : scanCall cat.checkName s = .ok (.done name args rest)) :
    drainedCall cat atEnd s =
      cat.validate name args >>= fun call => prepend (one call) (drained cat atEnd rest) := by
  rw [drainedCall, h]

theorem drainedCall_error (h : scanCall (N := N) cat.checkName s = .error e) :
    drainedCall cat atEnd s = .error e := by
  rw [drainedCall, h]

/-- Before the end of the text a call that is not complete waits, unless it is too large. -/
theorem drainedCall_needMore (h : scanCall (N := N) cat.checkName s = .ok .needMore) :
    drainedCall cat false s =
      if maxCallBytes < utf8Len s then .error (malformed "call exceeds the size limit")
      else .ok (prose [], s) := by
  rw [drainedCall, h]
  rfl

theorem drainedCall_needMore_end (h : scanCall (N := N) cat.checkName s = .ok .needMore) :
    drainedCall cat true s = .error (malformed "output ended inside a call") := by
  rw [drainedCall, h]
  rfl

/-- Induction along the rounds of the loop: a text has no marker, or the call at its first marker
is wrong, or not complete, or complete with a shorter text behind it. -/
@[elab_as_elim] theorem drain_induct (cat : Catalog N) {P : Str → Prop}
    (prose : ∀ s, ¬ callOpen <:+: s → P s)
    (wrong : ∀ s text buf e, splitFirst callOpen s = some (text, buf) →
      scanCall (N := N) cat.checkName buf = .error e → P s)
    (waits : ∀ s text buf, splitFirst callOpen s = some (text, buf) →
      scanCall (N := N) cat.checkName buf = .ok .needMore → P s)
    (call : ∀ s text buf name args rest, splitFirst callOpen s = some (text, buf) →
      scanCall (N := N) cat.checkName buf = .ok (.done name args rest) → Behind rest s → P rest →
      P s) :
    ∀ s, P s := by
  intro s
  induction hn : s.length using Nat.strong_induction_on generalizing s with
  | _ n ih =>
    subst hn
    cases hsp : splitFirst callOpen s with
    | none => exact prose s (splitFirst_eq_none_iff.1 hsp)
    | some p =>
      obtain ⟨text, buf⟩ := p
      cases hsc : scanCall (N := N) cat.checkName buf with
      | error e => exact wrong s text buf e hsp hsc
      | ok v =>
        cases v with
        | needMore => exact waits s text buf hsp hsc
        | done name args rest =>
          have hre := (scanCall_done hsc).of_suffix ⟨text, (splitFirst_sound hsp).1.symm⟩
          exact call s text buf name args rest hsp hsc hre (ih _ hre.2 rest rfl)

theorem callOpen_ne_nil : callOpen ≠ [] := by decide

/-- The kept part of a text without a marker is what may still become one. -/
theorem length_kept (s : Str) : (s.drop (released false s)).length = holdback callOpen s := by
  have := holdback_le_length callOpen_ne_nil s
  rw [List.length_drop]
  change s.length - (s.length - holdback callOpen s) = _
  omega

/-! ## A run on a prefix can be continued -/

/-- A complete call stays the same call when more text follows. -/
theorem scanCall_append_done (hsp : splitFirst callOpen s = some (text, buf))
    (hsc : scanCall cat.checkName buf = .ok (.done name args rest)) :
    scanCall cat.checkName (buf ++ x) = .ok (.done name args (rest ++ x)) := by
  have hsta := scanCall_append (N := N) cat.checkName (splitFirst_sound hsp).2.1 x
  simp only [hsc, reduceCtorEq, false_or, ok.injEq] at hsta
  exact hsta

/-- Text that was given away before a marker came. -/
theorem drained_append_of_notIn (h : ¬ callOpen <:+: s) : drained cat atEnd (s ++ x) =
      prepend (prose (s.take (released false s)))
        (drained cat atEnd (s.drop (released false s) ++ x)) := by
  generalize hn : released false s = n
  obtain ⟨hs, hr⟩ : s = s.take n ++ s.drop n ∧ (s.drop n).length = holdback callOpen s :=
    ⟨(List.take_append_drop n s).symm, hn ▸ length_kept s⟩
  generalize s.take n = a at hs
  generalize s.drop n = r at hs hr
  subst hs
  rw [List.append_assoc]
  have hspl := splitFirst_holdback h hr x
  cases hsp : splitFirst callOpen (r ++ x) with
  | some p =>
    rw [hsp] at hspl
    rw [drained_of_splitFirst hspl, drained_of_splitFirst hsp, prepend_prepend]
    rfl
  | none =>
    rw [hsp] at hspl
    rw [drained_of_notIn (splitFirst_eq_none_iff.1 hspl),
      drained_of_notIn (splitFirst_eq_none_iff.1 hsp)]
    -- The same number of characters is held back on both sides.
    have hrel : released atEnd (a ++ (r ++ x)) = a.length + released atEnd (r ++ x) := by
      have hkept := holdback_holdback h hr x
      have hle := holdback_le_length callOpen_ne_nil (r ++ x)
      have hlen : (a ++ (r ++ x)).length = a.length + (r ++ x).length := List.length_append
      unfold released markerPrefixSuffix
      split <;> omega
    rw [hrel, List.take_length_add_append, List.drop_length_add_append]
    rfl

/-- **A run on a prefix can be continued** with what it kept. -/
theorem drained_append {r : Str} (h : drained cat false s = .ok (d, r)) (atEnd : Bool) (x : Str) :
    drained cat atEnd (s ++ x) = prepend d (drained cat atEnd (r ++ x)) := by
  induction s using drain_induct cat generalizing d with
  | prose s hno =>
    rw [drained_of_notIn hno] at h
    cases h
    exact drained_append_of_notIn hno
  | wrong s text buf e hsp hsc =>
    rw [drained_of_splitFirst hsp, drainedCall_error hsc] at h
    cases h
  | waits s text buf hsp hsc =>
    have hpre := (splitFirst_sound hsp).2.1
    rw [drained_of_splitFirst hsp, drainedCall_needMore hsc] at h
    obtain ⟨d₁, h, rfl⟩ := prepend_eq_ok_iff.1 h
    split_ifs at h with hsi
    cases h
    rw [drained_of_splitFirst (splitFirst_append hsp x),
      drained_of_prefix (List.prefix_append_of_prefix hpre), ← prepend_prepend, prepend_nil]
  | call s text buf name args rest hsp hsc hre ih =>
    rw [drained_of_splitFirst hsp, drainedCall_done hsc] at h
    obtain ⟨d₁, h, rfl⟩ := prepend_eq_ok_iff.1 h
    obtain ⟨call, hcall, h⟩ := bind_eq_ok_iff.1 h
    obtain ⟨d₂, h, rfl⟩ := prepend_eq_ok_iff.1 h
    rw [drained_of_splitFirst (splitFirst_append hsp x),
      drainedCall_done (scanCall_append_done hsp hsc), hcall, ok_bind, ih h,
      prepend_prepend, prepend_prepend, append_assoc]

/-- An error is final, except for the one about a call that has grown too large. -/
theorem drained_append_error (h : drained cat false s = .error e)
    (hsi : utf8Len s ≤ maxCallBytes) (atEnd : Bool) (x : Str) :
    drained cat atEnd (s ++ x) = .error e := by
  induction s using drain_induct cat with
  | prose s hno =>
    rw [drained_of_notIn hno] at h
    cases h
  | wrong s text buf e' hsp hsc =>
    have hsta := scanCall_append (N := N) cat.checkName (splitFirst_sound hsp).2.1 x
    simp only [hsc, reduceCtorEq, false_or] at hsta
    rw [drained_of_splitFirst hsp, drainedCall_error hsc] at h
    rw [drained_of_splitFirst (splitFirst_append hsp x), drainedCall_error hsta]
    exact h
  | waits s text buf hsp hsc =>
    have hbuf : utf8Len buf ≤ maxCallBytes :=
      (utf8Len_le_of_suffix ⟨text, (splitFirst_sound hsp).1.symm⟩).trans hsi
    rw [drained_of_splitFirst hsp, drainedCall_needMore hsc, if_neg (not_lt.2 hbuf)] at h
    cases h
  | call s text buf name args rest hsp hsc hre ih =>
    rw [drained_of_splitFirst hsp, drainedCall_done hsc, prepend_eq_error_iff] at h
    rw [drained_of_splitFirst (splitFirst_append hsp x),
      drainedCall_done (scanCall_append_done hsp hsc), prepend_eq_error_iff]
    cases hval : cat.validate name args with
    | error e' => simpa [hval] using h
    | ok call =>
      rw [hval, ok_bind, prepend_eq_error_iff] at h
      rw [ok_bind, prepend_eq_error_iff]
      exact ih h ((utf8Len_le_of_suffix hre.1).trans hsi)

/-- A run that fails before the end of the text fails at its end as well. -/
theorem drained_end_error (h : drained cat false s = .error e) :
    ∃ e', drained cat true s = .error e' := by
  induction s using drain_induct cat with
  | prose s hno =>
    rw [drained_of_notIn hno] at h
    cases h
  | wrong s text buf e' hsp hsc =>
    exact ⟨e', by rw [drained_of_splitFirst hsp, drainedCall_error hsc]; rfl⟩
  | waits s text buf hsp hsc =>
    exact ⟨_, by rw [drained_of_splitFirst hsp, drainedCall_needMore_end hsc]; rfl⟩
  | call s text buf name args rest hsp hsc hre ih =>
    rw [drained_of_splitFirst hsp, drainedCall_done hsc, prepend_eq_error_iff] at h
    simp only [drained_of_splitFirst hsp, drainedCall_done hsc]
    cases hval : cat.validate name args with
    | error e' => exact ⟨e', rfl⟩
    | ok call =>
      rw [hval, ok_bind, prepend_eq_error_iff] at h
      simp only [ok_bind, prepend_eq_error_iff]
      exact ih h

theorem drained_suffix {r : Str} (h : drained cat false s = .ok (d, r)) : r <:+ s := by
  induction s using drain_induct cat generalizing d with
  | prose s hno =>
    rw [drained_of_notIn hno] at h
    obtain ⟨-, rfl⟩ := mk.inj (ok.inj h)
    exact List.drop_suffix _ _
  | wrong s text buf e hsp hsc =>
    rw [drained_of_splitFirst hsp, drainedCall_error hsc] at h
    cases h
  | waits s text buf hsp hsc =>
    rw [drained_of_splitFirst hsp, drainedCall_needMore hsc] at h
    obtain ⟨d₁, h, -⟩ := prepend_eq_ok_iff.1 h
    split_ifs at h with hsi
    obtain ⟨-, rfl⟩ := mk.inj (ok.inj h)
    exact ⟨text, (splitFirst_sound hsp).1.symm⟩
  | call s text buf name args rest hsp hsc hre ih =>
    rw [drained_of_splitFirst hsp, drainedCall_done hsc] at h
    obtain ⟨d₁, h, -⟩ := prepend_eq_ok_iff.1 h
    obtain ⟨call, -, h⟩ := bind_eq_ok_iff.1 h
    obtain ⟨d₂, h, -⟩ := prepend_eq_ok_iff.1 h
    exact (ih h).trans hre.1

/-! ## All chunks -/

theorem ofEvents_finish (buf : Str) : ofEvents <$> (mk cat buf none).finish =
      fst <$> drained cat true buf := by
  simp only [finish, drain, drained]
  obtain ⟨result, left⟩ := drainInner cat true buf
  cases result <;> rfl

/-- One chunk: the decoder fails, or it goes on with what the run kept. -/
theorem ofEvents_feed_cons (buf chunk : Str) (chunks : List Str) :
    ofEvents <$> (mk cat buf none).feed (chunk :: chunks) =
      (drained cat false (buf ++ chunk) >>= fun p =>
        (p.1 ++ ·) <$> (ofEvents <$> (mk cat p.2 none).feed chunks)) := by
  rw [feed, push, drained]
  dsimp only [drain]
  obtain ⟨result, left⟩ := drainInner cat false (buf ++ chunk)
  cases result with
  | error e => rfl
  | ok events =>
    simp only [ok_bind]
    cases (mk cat left none).feed chunks with
    | error e => rfl
    | ok more => simp

theorem fst_prepend (d : Decoded N) (r : Except CompactError (Decoded N × Str)) :
    fst <$> prepend d r = (d ++ ·) <$> (fst <$> r) := by
  cases r <;> rfl

/-- **The run over all chunks**, when the text is within the size limit: it is one run over the
whole text. -/
theorem ofEvents_feed (chunks : List Str) (buf : Str)
    (hsi : utf8Len (buf ++ chunks.flatten) ≤ maxCallBytes) :
    ofEvents <$> (mk cat buf none).feed chunks =
      fst <$> drained cat true (buf ++ chunks.flatten) := by
  induction chunks generalizing buf with
  | nil => simpa [feed] using ofEvents_finish buf
  | cons chunk chunks ih =>
    rw [ofEvents_feed_cons, List.flatten_cons, ← List.append_assoc]
    rw [List.flatten_cons, ← List.append_assoc] at hsi
    cases hd : drained cat false (buf ++ chunk) with
    | error e =>
      have hpre : utf8Len (buf ++ chunk) ≤ maxCallBytes := by
        rw [utf8Len_append (buf ++ chunk)] at hsi
        omega
      rw [drained_append_error hd hpre]
      rfl
    | ok p =>
      obtain ⟨d, r⟩ := p
      have hkept : utf8Len (r ++ chunks.flatten) ≤ maxCallBytes := by
        have := utf8Len_le_of_suffix (drained_suffix hd)
        rw [utf8Len_append] at hsi ⊢
        omega
      rw [ok_bind, drained_append hd, fst_prepend, ih r hkept]

/-- A run over chunks that succeeds gives what one run over the whole text gives. -/
theorem ofEvents_feed_ok (h : ofEvents <$> (mk cat buf none).feed chunks = .ok d) :
    fst <$> drained cat true (buf ++ chunks.flatten) = .ok d := by
  induction chunks generalizing buf d with
  | nil =>
    rw [feed, ofEvents_finish] at h
    simpa using h
  | cons chunk chunks ih =>
    rw [ofEvents_feed_cons] at h
    obtain ⟨⟨d₁, r⟩, hd, h⟩ := bind_eq_ok_iff.1 h
    obtain ⟨d₂, h₂, rfl⟩ := map_eq_ok_iff.1 h
    rw [List.flatten_cons, ← List.append_assoc, drained_append hd, fst_prepend, ih h₂]
    rfl

/-! ## Decoding -/

theorem decode_eq_decodeChunks (text : Str) (tools : List (ToolDef N)) :
    decode text tools = decodeChunks [text] tools := by
  unfold decode decodeChunks
  congr 1
  funext decoder
  simp only [feed]
  obtain ⟨result, decoder'⟩ := decoder.push text
  cases result with
  | error e => rfl
  | ok events =>
    simp only [ok_bind]
    cases decoder'.finish <;> rfl

theorem decodeChunks_eq (chunks : List Str) (tools : List (ToolDef N)) : decodeChunks chunks tools =
      Catalog.new tools >>= fun cat =>
        ofEvents <$> (mk cat [] none).feed chunks := by
  unfold decodeChunks new
  cases Catalog.new tools <;> rfl

/-- What decoding makes of a text that is within the size limit. -/
theorem decodeChunks_of_size {tools : List (ToolDef N)}
    (hsi : utf8Len chunks.flatten ≤ maxCallBytes) :
    decodeChunks chunks tools =
      Catalog.new tools >>= fun cat => fst <$> drained cat true chunks.flatten := by
  rw [decodeChunks_eq]
  congr 1
  funext cat
  exact ofEvents_feed chunks [] hsi

/-- **Chunking does not matter.** Every way to cut a text of at most `maxCallBytes` bytes gives
what `decode` gives: the same text and calls, or the same error. -/
theorem decodeChunks_eq_decode (tools : List (ToolDef N)) (chunks : List Str)
    (hsize : utf8Len chunks.flatten ≤ maxCallBytes) :
    decodeChunks chunks tools = decode chunks.flatten tools := by
  rw [decode_eq_decodeChunks, decodeChunks_of_size hsize,
    decodeChunks_of_size (by simpa using hsize)]
  simp

/-- A marker, a name, a string and the closing `>>`, each cut by a chunk border. -/
theorem decodeChunks_eq_decode_cut : decodeChunks
        ["Hi <<ca", "ll pi", "ng \x7b\"a\":[\">", ">\"]\x7d>", "> ok"]
        [(⟨"ping", none, some (.object [("type", .string "object")])⟩ : ToolDef Int)] =
      decode "Hi <<call ping \x7b\"a\":[\">>\"]\x7d>> ok"
        [⟨"ping", none, some (.object [("type", .string "object")])⟩] :=
  decodeChunks_eq_decode _ ["Hi <<ca", "ll pi", "ng \x7b\"a\":[\">", ">\"]\x7d>",
      "> ok"] (by decide)

end Nasiko.ToolCompact
