import Nasiko.ToolCompact.Grammar

/-!
# The size limit

A call may be at most `maxCallBytes` long, but the decoder looks at the limit only while a call is
not complete. A complete call in the buffer is accepted whatever its size (`decode_call`), and the
same call is rejected when a chunk border leaves more than `maxCallBytes` bytes of it waiting
(`decodeChunks_oversized`).
-/

namespace Nasiko.ToolCompact

open SerdeJson Result Decoded List Except Str

variable {N F : Type} [SerdeJson N F]

/-- The call would be accepted if nothing were said about its size: the tool list is accepted, the
tool is known, and the arguments are read and validate. -/
def Acceptable (tools : List (ToolDef N)) (name : Str) (raw : Option Str) (call : ToolCall N) :
    Prop :=
  ∃ cat args, Catalog.new tools = .ok cat ∧ argsOf name raw = .ok args ∧
    cat.validate name args = .ok call

section

variable {src name : Str} {raw : Option Str} (before after : Str) {cat : Catalog N}
  {tools : List (ToolDef N)} {d : Decoded N}

theorem drained_end_call (hsha : CallShape name raw src) (hbef : ¬ callOpen <:+: before)
    (haft : ¬ callOpen <:+: after) :
    drained cat true (before ++ (src ++ after)) =
      (cat.checkName name >>= fun _ => argsOf name raw >>= fun args =>
        cat.validate name args >>= fun call =>
          .ok (prose before ++ (one call ++ prose after), [])) := by
  rw [drained_call hbef hsha, drained_end_of_notIn haft]
  cases cat.checkName name with
  | error e => rfl
  | ok u =>
    cases argsOf (N := N) name raw with
    | error e => rfl
    | ok args =>
      simp only [ok_bind]
      cases cat.validate name args <;> rfl

/-- **A complete call is accepted whatever its size.** -/
theorem decode_call (hsha : CallShape name raw src) (hbef : ¬ callOpen <:+: before)
    (haft : ¬ callOpen <:+: after) :
    decode (before ++ (src ++ after)) tools = .ok d ↔
      ∃ call, Acceptable tools name raw call ∧ d = prose before ++ (one call ++ prose after) := by
  cases hcat : Catalog.new tools with
  | error e =>
    have hdec : decode (before ++ (src ++ after)) tools = .error e := by
      rw [decode_eq_decodeChunks, decodeChunks_eq, hcat]
      rfl
    simp [hdec, Acceptable, hcat]
  | ok cat =>
    rw [decode_eq_ok_iff_drained hcat, drained_end_call before after hsha hbef haft]
    constructor
    · intro h
      obtain ⟨⟨d', r⟩, hrun, rfl⟩ := map_eq_ok_iff.1 h
      obtain ⟨-, -, h⟩ := bind_eq_ok_iff.1 hrun
      obtain ⟨args, har, h⟩ := bind_eq_ok_iff.1 h
      obtain ⟨call, hcall, h⟩ := bind_eq_ok_iff.1 h
      exact ⟨call, ⟨cat, args, hcat, har, hcall⟩, (Prod.mk.inj (ok.inj h)).1.symm⟩
    · rintro ⟨call, ⟨cat', args, hcat', har, hcall⟩, rfl⟩
      obtain rfl := ok.inj (hcat.symm.trans hcat')
      obtain ⟨schema, hget, -, -⟩ := validate_eq_ok_iff.1 hcall
      rw [checkName_eq_ok hget, ok_bind, har, ok_bind, hcall]
      rfl

theorem decode_of_decodeChunks {chunks : List Str} (h : decodeChunks chunks tools = .ok d) :
    decode chunks.flatten tools = .ok d := by
  rw [decodeChunks_eq] at h
  obtain ⟨cat, hcat, h⟩ := bind_eq_ok_iff.1 h
  rw [decode_eq_ok_iff_drained hcat]
  simpa using ofEvents_feed_ok h

/-- A call that is cut in front of its last character waits for that character. -/
theorem scanCall_cut {cut : Str} (hsha : CallShape name raw (cut ++ ['>']))
    (hcut : callOpen <+: cut) {args : Entries (Json N)} (hchk : cat.checkName name = .ok ())
    (har : argsOf name raw = .ok args) : scanCall (N := N) cat.checkName cut = .ok .needMore := by
  have hwh := scanCall_shape (N := N) cat.checkName hsha []
  rw [append_nil, hchk, har] at hwh
  rcases scanCall_append (N := N) cat.checkName hcut ['>'] with h | h
  · exact h
  · -- A verdict on the cut call would be a verdict on the whole call with something behind it.
    rw [hwh] at h
    cases hsc : scanCall (N := N) cat.checkName cut with
    | error e => simp [hsc] at h
    | ok v =>
      cases v with
      | needMore => rfl
      | done name' args' rest => simp [hsc, Scan.grow] at h

/-- The last character of a call can be cut off, and the rest still begins with the marker. -/
theorem CallShape.exists_cut (hsha : CallShape name raw src) :
    ∃ cut, src = cut ++ ['>'] ∧ callOpen <+: cut := by
  cases hsha with
  | @mk ws ws' body =>
    exact ⟨callOpen ++ (ws ++ (name ++ (ws' ++ (body ++ ['>'])))), by simp [callClose],
      prefix_append _ _⟩

/-- **The same call is rejected in chunks** when more than `maxCallBytes` bytes of it wait for the
next chunk. -/
theorem decodeChunks_oversized {call : ToolCall N} (hsha : CallShape name raw src)
    (hbef : ¬ callOpen <:+: before) (hacc : Acceptable tools name raw call)
    (hsize : maxCallBytes + 1 < utf8Len src) :
    ∃ cut, src = cut ++ ['>'] ∧ decodeChunks [before ++ cut, '>' :: after] tools =
        .error (malformed "call exceeds the size limit") := by
  obtain ⟨cut, rfl, hcut⟩ := hsha.exists_cut
  obtain ⟨cat, args, hcat, har, hcall⟩ := hacc
  obtain ⟨schema, hget, -, -⟩ := validate_eq_ok_iff.1 hcall
  refine ⟨cut, rfl, ?_⟩
  have hnot := Text.notIn_of_not_infix callOpen_unbordered hbef hcut
  have hlar : maxCallBytes < utf8Len cut := by
    rw [utf8Len_append] at hsize
    have : utf8Len ['>'] = 1 := rfl
    omega
  rw [decodeChunks_eq, hcat, ok_bind, ofEvents_feed_cons, nil_append,
    drained_of_splitFirst (Text.splitFirst_of_notIn hnot hcut),
    drainedCall_needMore (scanCall_cut hsha hcut (checkName_eq_ok hget) har), if_pos hlar]
  rfl

/-- **When an oversized call is rejected.** Every way to cut a text with one call into chunks is
rejected exactly when the call is not acceptable; the size of the call does not enter. -/
theorem all_chunkings_rejected_iff (tools : List (ToolDef N)) (hshape : CallShape name raw src)
    (hbefore : ¬ callOpen <:+: before) (hafter : ¬ callOpen <:+: after) :
    (∀ chunks : List Str, chunks.flatten = before ++ (src ++ after) →
        ∃ e, decodeChunks chunks tools = .error e) ↔
      ¬ ∃ call, Acceptable tools name raw call := by
  constructor
  · rintro h ⟨call, hacc⟩
    obtain ⟨e, he⟩ := h [before ++ (src ++ after)] (by simp)
    rw [← decode_eq_decodeChunks, (decode_call before after hshape hbefore hafter).2
      ⟨call, hacc, rfl⟩] at he
    cases he
  · intro h chunks hchu
    cases hd : decodeChunks chunks tools with
    | error e => exact ⟨e, rfl⟩
    | ok d =>
      have hdec := decode_of_decodeChunks hd
      rw [hchu, decode_call before after hshape hbefore hafter] at hdec
      obtain ⟨call, hacc, -⟩ := hdec
      exact absurd ⟨call, hacc⟩ h

end

/-- A call to `t` with `k` spaces behind the name. -/
def spacedCall (k : Nat) : Str := "<<call t" ++ (List.replicate k ' ' ++ callClose)

theorem spacedCall_shape (k : Nat) : CallShape "t" none (spacedCall k) := by
  have hspa : Space (replicate k ' ') := fun c hc => (eq_of_mem_replicate hc) ▸ rfl
  have hone : Space [' '] := by simp [Space, isAsciiWhitespace]
  have hname : IsName "t" := ⟨by simp, by decide⟩
  exact .mk hone (by simp) hname hspa .none

theorem utf8Len_spacedCall (k : Nat) : utf8Len (spacedCall k) = k + 10 := by
  have hspaces : utf8Len (replicate k ' ') = k := by
    simp [utf8Len, show ' '.utf8Size = 1 from rfl]
  have hopen : utf8Len "<<call t" = 8 := by decide
  have hclose : utf8Len callClose = 2 := by decide
  unfold spacedCall
  simp only [utf8Len_append]
  omega

/-- A call of more than a megabyte that `decode` accepts and that is rejected when its last
character comes in a second chunk. -/
theorem oversized_call_accepted : maxCallBytes < utf8Len (spacedCall (2 ^ 20)) ∧
      decode (spacedCall (2 ^ 20)) [(⟨"t", none, none⟩ : ToolDef Int)] = .ok ⟨[], [⟨"t", []⟩]⟩ ∧
      ∃ cut, spacedCall (2 ^ 20) = cut ++ ['>'] ∧
        decodeChunks [cut, ['>']] [(⟨"t", none, none⟩ : ToolDef Int)] =
          .error (malformed "call exceeds the size limit") := by
  have hacc : Acceptable [(⟨"t", none, none⟩ : ToolDef Int)] "t" none
      ⟨"t", []⟩ := ⟨_, [], rfl, rfl, rfl⟩
  have hnone : ¬ callOpen <:+: ([] : Str) := by decide
  have hsize : maxCallBytes + 1 < utf8Len (spacedCall (2 ^ 20)) := by
    rw [utf8Len_spacedCall, maxCallBytes]
    omega
  refine ⟨by omega, ?_, ?_⟩
  · have h := (decode_call [] [] (spacedCall_shape (2 ^ 20)) hnone hnone).2 ⟨_, hacc, rfl⟩
    rw [append_nil] at h
    exact h
  · exact decodeChunks_oversized [] [] (spacedCall_shape (2 ^ 20)) hnone hacc hsize

/-- An oversized call to an unknown tool is rejected in every chunking. -/
theorem all_chunkings_rejected_unknown : maxCallBytes < utf8Len (spacedCall (2 ^ 20)) ∧
      ∀ chunks : List Str, chunks.flatten = [] ++ (spacedCall (2 ^ 20) ++ []) →
        ∃ e, decodeChunks chunks ([] : List (ToolDef Int)) = .error e := by
  refine ⟨by rw [utf8Len_spacedCall, maxCallBytes]; omega, ?_⟩
  refine (all_chunkings_rejected_iff [] [] [] (spacedCall_shape (2 ^ 20)) (by decide)
    (by decide)).2 ?_
  rintro ⟨call, cat, args, hcat, -, hval⟩
  obtain rfl := ok.inj hcat
  cases hval

end Nasiko.ToolCompact
