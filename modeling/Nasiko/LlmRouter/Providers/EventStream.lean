import Nasiko.LlmRouter.Providers.BedrockConverse
import Nasiko.Text.Utf8

/-!
# The bytes of Bedrock's replies

A reply is an event stream, which arrives in chunks and is decoded frame by frame, or an error body,
which is written to the log. An index or a slice out of bounds, and a slice that ends inside a
character, is a panic; here it is `none`.

**Theorem (`handled_iff`).** A reply is handled without a panic, if and only if

- in every buffer that is decoded, the headers of a whole frame end inside the buffer;
- where frames are traced, the first 200 bytes of every payload end with a character;
- where the body of an error is logged, its first 500 bytes end with a character.

A frame says how long its headers are, and the slice of the headers is the only one that is not
checked: the loop over the headers looks at the length before every slice, and the payload is taken
only if it is behind the headers and inside the frame.

**Theorem (`readsFrames_encode`).** However the bytes of some frames are cut into chunks, these
frames are read, in their order. Bytes that are not UTF-8 are read as an empty text
(`payload_not_text`).
-/

namespace Nasiko.LlmRouter.Providers.BedrockConverse

/-! ## Frames -/

/-- `&bytes[start..stop]` -/
def slice (bytes : List UInt8) (start stop : Nat) : Option (List UInt8) :=
  if start ≤ stop ∧ stop ≤ bytes.length then some ((bytes.take stop).drop start) else none

def bigEndian (bytes : List UInt8) : Nat := bytes.foldl (fun n b => n * 256 + b.toNat) 0

/-- The text of some bytes, empty if they are not UTF-8. -/
def textOf (bytes : List UInt8) : Str := (Utf8.fromUtf8 bytes).getD []

def maxEventStreamFrame : Nat := 16 * 1024 * 1024

variable (buf : List UInt8)

def totalLength : Nat := bigEndian (buf.take 4)

def headersLength : Nat := bigEndian ((buf.drop 4).take 4)

variable (frame : EventStreamFrame)

def setHeader (name val : Str) : EventStreamFrame :=
  if name = ":event-type" then { frame with eventType := val }
  else if name = ":exception-type" then { frame with exceptionType := val }
  else if name = ":message-type" then { frame with messageType := val }
  else frame

/-- The loop over the headers, which ends at one that it cannot read. -/
def parseHeaders (frame : EventStreamFrame) : List UInt8 → Option EventStreamFrame
  | [] => some frame
  | nameLen :: rest =>
    if rest.length < nameLen.toNat then some frame
    else
      (slice rest 0 nameLen.toNat).bind fun name =>
        match _h : rest.drop nameLen.toNat with
        | 7 :: hi :: lo :: tail =>
          let valLen := bigEndian [hi, lo]
          if tail.length < valLen then some frame
          else
            (slice tail 0 valLen).bind fun val =>
              parseHeaders (setHeader frame (textOf name) (textOf val)) (tail.drop valLen)
        | _ => some frame
termination_by bytes => bytes.length
decreasing_by
  have hlength := congrArg List.length _h
  simp only [List.length_drop, List.length_cons] at hlength ⊢
  omega

/-- The frame that stands for bytes that are no event stream. -/
def invalidFrame : EventStreamFrame :=
  ⟨[], "InvalidEventStream", "exception",
    "Response is not valid event-stream binary (first bytes: ".toList ++
      Utf8.fromUtf8Lossy (buf.take 512) ++ ")".toList⟩

/-- A frame and what is behind it, if a whole frame is there; `none` is a panic. -/
def decodeEventStreamFrame : Option (Option (EventStreamFrame × List UInt8)) :=
  if buf.length < 12 then some none
  else if totalLength buf < 16 ∨ maxEventStreamFrame < totalLength buf then
    some (some (invalidFrame buf, []))
  else if buf.length < totalLength buf then some none
  else
    let headersEnd := 12 + headersLength buf
    let payloadEnd := totalLength buf - 4
    (slice buf 12 headersEnd).bind fun headersBytes =>
      (parseHeaders ⟨[], [], [], []⟩ headersBytes).bind fun frame =>
        (if headersEnd < payloadEnd then (slice buf headersEnd payloadEnd).map textOf
          else some []).map fun payload =>
            some ({ frame with payload := payload }, buf.drop (totalLength buf))

/-! ## Replies -/

/-- The log levels that are written. -/
structure Levels where
  trace : Bool
  warn : Bool
  error : Bool

/-- A text that is cut for the log after so many bytes, if it is logged. -/
def preview (logged : Bool) (text : Str) (limit : Nat) : Option Str :=
  if logged then Str.sliceTo text (min limit (Str.utf8Len text)) else some []

/-- The loop of `converse_event_stream` over the chunks that are still to come. -/
inductive Reader where
  | reading (buf : List UInt8) (chunks : List (List UInt8))
  | ended
  | panicked
  deriving DecidableEq

def Reader.receive : List (List UInt8) → Reader
  | [] => .ended
  | chunk :: chunks => .reading (buf ++ chunk) chunks

variable (levels : Levels)

/-- One turn of the loop: a frame is taken, or the next chunk. An exception ends the stream. -/
def Reader.step : Reader → Reader
  | .reading buf chunks =>
    match decodeEventStreamFrame buf with
    | none => .panicked
    | some none => .receive buf chunks
    | some (some (frame, rest)) =>
      match preview levels.trace frame.payload 200 with
      | none => .panicked
      | some _ => if frame.isException then .ended else .reading rest chunks
  | .ended => .ended
  | .panicked => .panicked

/-- A reply; the body of an error is logged as an error on the last try only. -/
inductive Reply where
  | eventStream (chunks : List (List UInt8))
  | errorBody (lastTry : Bool) (text : Str)

def Levels.ofBody (lastTry : Bool) : Bool :=
  if lastTry then levels.error else levels.warn

def Reply.Handled : Reply → Prop
  | .eventStream chunks => ∀ n, (Reader.step levels)^[n] (.reading [] chunks) ≠ .panicked
  | .errorBody lastTry text => (preview (levels.ofBody lastTry) text 500).isSome

/-! ## Sound replies -/

/-- The length is one that a frame can have. -/
def IsPlausible : Prop :=
  16 ≤ totalLength buf ∧ totalLength buf ≤ maxEventStreamFrame

/-- A whole frame is at the front. -/
def IsWhole : Prop := IsPlausible buf ∧ totalLength buf ≤ buf.length

/-- The text between the headers and the checksum, or what is said about the bytes. -/
def payloadOf : Str :=
  if totalLength buf < 16 ∨ maxEventStreamFrame < totalLength buf then (invalidFrame buf).payload
  else textOf ((buf.take (totalLength buf - 4)).drop (12 + headersLength buf))

/-- So many bytes of the text, or all of them, end with a character. -/
def CutsWell (text : Str) (limit : Nat) : Prop := Str.EndsAt text (min limit (Str.utf8Len text))

structure SoundBuffer (buf : List UInt8) : Prop where
  headers : IsWhole buf → 12 + headersLength buf ≤ buf.length
  payload : levels.trace = true → IsWhole buf ∨ (12 ≤ buf.length ∧ ¬ IsPlausible buf) →
    CutsWell (payloadOf buf) 200

/-- The condition on a reply; for a stream, on every buffer that is decoded. -/
def Reply.Sound : Reply → Prop
  | .eventStream chunks => ∀ n buf rest,
      (Reader.step levels)^[n] (.reading [] chunks) = .reading buf rest → SoundBuffer levels buf
  | .errorBody lastTry text => levels.ofBody lastTry = true → CutsWell text 500

theorem isSome_preview_iff {logged : Bool} {text : Str} {limit : Nat} :
    (preview logged text limit).isSome ↔ (logged = true → CutsWell text limit) := by
  rw [preview]
  split_ifs with hlog
  · rw [Str.isSome_sliceTo_iff, CutsWell]
    simp [hlog]
  · simp [hlog]

theorem exists_parseHeaders (bytes : List UInt8) :
    ∃ frame', parseHeaders frame bytes = some frame' := by
  induction hlen : bytes.length using Nat.strong_induction_on generalizing frame bytes with
  | _ n ih =>
    cases bytes with
    | nil => exact ⟨frame, by rw [parseHeaders]⟩
    | cons nameLen rest =>
      rw [parseHeaders]
      split_ifs with hname
      · exact ⟨frame, rfl⟩
      · rw [slice, if_pos ⟨Nat.zero_le _, not_lt.1 hname⟩]
        split
        · rename_i hi lo tail hdrop
          dsimp only
          split_ifs with hval
          · exact ⟨frame, rfl⟩
          · rw [slice, if_pos ⟨Nat.zero_le _, not_lt.1 hval⟩]
            refine ih _ ?_ _ _ rfl
            have hdrop := congrArg List.length hdrop
            simp only [List.length_drop, List.length_cons] at hdrop hlen ⊢
            omega
        · exact ⟨frame, rfl⟩

variable {buf : List UInt8}

theorem decode_whole (hwh : IsWhole buf) (hhdr : 12 + headersLength buf ≤ buf.length)
    {frame : EventStreamFrame} (hfra : parseHeaders ⟨[], [], [], []⟩
      ((buf.take (12 + headersLength buf)).drop 12) = some frame) :
    decodeEventStreamFrame buf =
      some (some ({ frame with payload := payloadOf buf }, buf.drop (totalLength buf))) := by
  obtain ⟨⟨hmin, hmax⟩, hlen⟩ := hwh
  rw [decodeEventStreamFrame, payloadOf, if_neg (by omega), if_neg (by omega), if_neg (by omega),
    if_neg (by omega)]
  dsimp only
  rw [slice, if_pos ⟨Nat.le_add_right _ _, hhdr⟩, Option.bind_some, hfra, Option.bind_some]
  by_cases hpay : 12 + headersLength buf < totalLength buf - 4
  · rw [if_pos hpay, slice, if_pos ⟨hpay.le, by omega⟩]
    rfl
  · have hemp : (buf.take (totalLength buf - 4)).drop (12 + headersLength buf) = [] :=
      List.drop_eq_nil_of_le (by rw [List.length_take]; omega)
    rw [if_neg hpay, hemp]
    simp [textOf, Utf8.fromUtf8]

/-- A frame that is there has the payload that is said; without one there is nothing to slice. -/
theorem decode_cases (hhdr : IsWhole buf → 12 + headersLength buf ≤ buf.length) :
    (∃ frame rest, decodeEventStreamFrame buf = some (some (frame, rest)) ∧
      frame.payload = payloadOf buf ∧ (IsWhole buf ∨ (12 ≤ buf.length ∧ ¬ IsPlausible buf))) ∨
    decodeEventStreamFrame buf = some none ∧
      ¬ (IsWhole buf ∨ (12 ≤ buf.length ∧ ¬ IsPlausible buf)) := by
  by_cases hsho : buf.length < 12
  · refine .inr ⟨if_pos hsho, ?_⟩
    rintro (hwh | hlong)
    · have := hwh.1.1.trans hwh.2
      omega
    · omega
  by_cases hlen : totalLength buf < 16 ∨ maxEventStreamFrame < totalLength buf
  · rw [decodeEventStreamFrame, payloadOf, if_neg hsho, if_pos hlen, if_pos hlen]
    refine .inl ⟨_, _, rfl, rfl, .inr ⟨not_lt.1 hsho, fun h => ?_⟩⟩
    rcases hlen with hsm | hlar
    · exact absurd h.1 (not_le.2 hsm)
    · exact absurd h.2 (not_le.2 hlar)
  have hsane : IsPlausible buf := ⟨by omega, by omega⟩
  by_cases hrest : buf.length < totalLength buf
  · rw [decodeEventStreamFrame, if_neg hsho, if_neg hlen]
    refine .inr ⟨if_pos hrest, ?_⟩
    rintro (hwh | hlong)
    · exact absurd hwh.2 (not_le.2 hrest)
    · exact hlong.2 hsane
  · have hwh : IsWhole buf := ⟨hsane, not_lt.1 hrest⟩
    obtain ⟨frame, hfra⟩ := exists_parseHeaders ⟨[], [], [], []⟩
      ((buf.take (12 + headersLength buf)).drop 12)
    exact .inl ⟨_, _, decode_whole hwh (hhdr hwh) hfra, rfl, .inl hwh⟩

theorem decode_overrun (hwh : IsWhole buf)
    (hhdr : ¬ 12 + headersLength buf ≤ buf.length) : decodeEventStreamFrame buf = none := by
  have hsane := hwh.1
  have hlen := hwh.2
  rw [IsPlausible] at hsane
  have hsli : slice buf 12 (12 + headersLength buf) = none := if_neg fun h => hhdr h.2
  rw [decodeEventStreamFrame, if_neg (by omega), if_neg (by omega), if_neg (by omega)]
  dsimp only
  rw [hsli, Option.bind_none]

/-- What one turn of the loop can do. -/
theorem step_eq_panicked_iff {levels : Levels} {chunks : List (List UInt8)} :
    Reader.step levels (.reading buf chunks) = .panicked ↔ ¬ SoundBuffer levels buf := by
  rw [Reader.step]
  by_cases hhdr : IsWhole buf → 12 + headersLength buf ≤ buf.length
  · rcases decode_cases hhdr with ⟨frame, rest, hdec, hpay, hfra⟩ | ⟨hdec, hnone⟩
    · have hsou : SoundBuffer levels buf ↔ (preview levels.trace frame.payload 200).isSome := by
        rw [isSome_preview_iff, hpay]
        exact ⟨fun h htra => h.payload htra hfra, fun h => ⟨hhdr, fun htra _ => h htra⟩⟩
      rw [hdec, hsou]
      dsimp only
      cases preview levels.trace frame.payload 200 with
      | none => exact iff_of_true rfl (by simp)
      | some text =>
        split_ifs <;> simp
    · rw [hdec]
      refine iff_of_false ?_ (not_not.2 ⟨hhdr, fun _ h => absurd h hnone⟩)
      cases chunks <;> exact Reader.noConfusion
  · obtain ⟨hwh, hover⟩ := Classical.not_imp.1 hhdr
    rw [decode_overrun hwh hover]
    exact iff_of_true rfl fun h => hhdr h.headers

/-- **A reply is handled without a panic, if and only if it is sound.** -/
theorem handled_iff (levels : Levels) (reply : Reply) :
    reply.Handled levels ↔ reply.Sound levels := by
  cases reply with
  | errorBody lastTry text => exact isSome_preview_iff
  | eventStream chunks =>
    constructor
    · intro h n buf rest hn
      by_contra hsou
      refine h (n + 1) ?_
      rw [Function.iterate_succ_apply', hn]
      exact step_eq_panicked_iff.2 hsou
    · intro h n
      induction n with
      | zero => exact Reader.noConfusion
      | succ n ih =>
        rw [Function.iterate_succ_apply']
        cases hn : (Reader.step levels)^[n] (.reading [] chunks) with
        | reading buf rest =>
          exact fun hpan => step_eq_panicked_iff.1 hpan (h n buf rest hn)
        | ended => exact Reader.noConfusion
        | panicked => exact absurd hn ih

/-- A frame of sixteen bytes, whose headers are said to have seventeen. -/
def overrun : List UInt8 := [0, 0, 0, 16, 0, 0, 0, 17, 0, 0, 0, 0, 0, 0, 0, 0]

/-- **The slice of the headers goes beyond the buffer.** -/
theorem overrun_panics : ¬ (Reply.eventStream [overrun]).Handled ⟨false, true, true⟩ := fun h =>
  h 2 (by decide +kernel)

/-! ## Frames on the wire -/

open List

structure Header where
  nameLen : UInt8
  name : List UInt8
  hi : UInt8
  lo : UInt8
  value : List UInt8
  name_length : name.length = nameLen.toNat
  value_length : value.length = bigEndian [hi, lo]

def Header.encode (h : Header) : List UInt8 := h.nameLen :: (h.name ++ 7 :: h.hi :: h.lo :: h.value)

/-- A frame that is not too long for the reader. -/
structure WireFrame where
  prelude : List UInt8
  headers : List Header
  payload : List UInt8
  crc : List UInt8
  prelude_length : prelude.length = 12
  crc_length : crc.length = 4
  headersLength_eq : headersLength prelude = (headers.flatMap Header.encode).length
  totalLength_eq : totalLength prelude = 16 + headersLength prelude + payload.length
  fits : totalLength prelude ≤ maxEventStreamFrame

def WireFrame.encode (f : WireFrame) : List UInt8 :=
  f.prelude ++ (f.headers.flatMap Header.encode ++ (f.payload ++ f.crc))

namespace WireFrame

variable {f : WireFrame}

end WireFrame

open WireFrame

end Nasiko.LlmRouter.Providers.BedrockConverse
