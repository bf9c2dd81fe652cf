import Nasiko.Framing
import Nasiko.Text.Lines
import Nasiko.Text.Utf8
import Nasiko.LlmRouter.Providers.ToolBlocks

/-!
# Server-sent events

A provider that streams its reply sends events, each of which ends with an empty line.
`sseDataStream` reads the bytes of the response as they arrive in chunks, and yields the data of
each event; if the connection fails, it yields the failure and stops.

**Theorem (`sseDataStream_cut`).** What is yielded does not depend on how the network cuts the bytes
into chunks.

The reader keeps the bytes of the event that is not complete. The end of an event that has been
found in the buffer is found at the same place when more bytes have arrived (`findEventEnd_append`),
so the events are those of the bytes as a whole, by the theorem about buffers.
-/

namespace Nasiko.LlmRouter.Providers

open Option List

open Utf8 (fromUtf8Lossy)

/-- Where the first empty line begins. -/
def findEventEnd : List UInt8 → Option Nat
  | [] => none
  | [_] => none
  | a :: b :: rest =>
    if a = 10 ∧ b = 10 then some 0 else (findEventEnd (b :: rest)).map (· + 1)

def addDataLine (data line : Str) : Str :=
  match line.dropPrefix? "data:" with
  | some rest =>
    (if data.isEmpty then [] else data ++ ['\n']) ++ (rest.dropPrefix? [' ']).getD rest
  | none => data

def extractData (event : List UInt8) : Option Str :=
  let data := (Str.lines (fromUtf8Lossy event)).foldl addDataLine []
  if data.isEmpty then none else some data

/-! ## The buffer -/

variable {buf : List UInt8} {pos : Nat}

theorem findEventEnd_le (h : findEventEnd buf = some pos) : pos + 2 ≤ buf.length := by
  induction buf using findEventEnd.induct generalizing pos with
  | case1 | case2 => cases h
  | case3 a b rest hend =>
    rw [findEventEnd, if_pos hend] at h
    cases h
    simp
  | case4 a b rest hend ih =>
    rw [findEventEnd, if_neg hend] at h
    obtain ⟨p, hp, rfl⟩ := map_eq_some_iff.1 h
    have hle := ih hp
    simp only [length_cons] at hle ⊢
    omega

theorem findEventEnd_append (h : findEventEnd buf = some pos) (more : List UInt8) :
    findEventEnd (buf ++ more) = some pos := by
  induction buf using findEventEnd.induct generalizing pos with
  | case1 | case2 => cases h
  | case3 a b rest hend =>
    rw [findEventEnd, if_pos hend] at h
    rw [cons_append, cons_append, findEventEnd, if_pos hend, h]
  | case4 a b rest hend ih =>
    rw [findEventEnd, if_neg hend] at h
    obtain ⟨p, hp, rfl⟩ := map_eq_some_iff.1 h
    have hrest := ih hp
    rw [cons_append] at hrest
    rw [cons_append, cons_append, findEventEnd, if_neg hend, hrest, map_some]

/-- An event, and the buffer without it and without its empty line. -/
def nextEvent (buf : List UInt8) : Option (List UInt8 × List UInt8) :=
  (findEventEnd buf).map fun pos => (buf.take pos, (buf.drop pos).drop 2)

theorem nextEvent_eq_some {event rest : List UInt8} (h : nextEvent buf = some (event, rest)) :
    ∃ pos, findEventEnd buf = some pos ∧ event = buf.take pos ∧ rest = (buf.drop pos).drop 2 := by
  obtain ⟨pos, hpos, hspl⟩ := map_eq_some_iff.1 h
  simp only [Prod.mk.injEq] at hspl
  exact ⟨pos, hpos, hspl.1.symm, hspl.2.symm⟩

def events : Framer UInt8 (List UInt8) where
  next := nextEvent
  shrinks buf event rest h := by
    obtain ⟨pos, hpos, -, rfl⟩ := nextEvent_eq_some h
    have hle := findEventEnd_le hpos
    simp only [List.length_drop]
    omega
  stable buf event rest more h := by
    obtain ⟨pos, hpos, rfl, rfl⟩ := nextEvent_eq_some h
    have hle := findEventEnd_le hpos
    rw [nextEvent, findEventEnd_append hpos, Option.map_some,
      List.take_append_of_le_length (by omega), List.drop_append_of_le_length (by omega),
      List.drop_append_of_le_length (by rw [List.length_drop]; omega)]

/-! ## The stream -/

/-- The loop over what arrives; `buf` is the buffer. -/
def sseDataFrom (buf : List UInt8) :
    List (Except Str (List UInt8)) → List (Except ProviderError Str)
  | [] => (extractData buf).toList.map .ok
  | .error e :: _ => [.error (.transport e)]
  | .ok bytes :: rest =>
    ((events.drain (buf ++ bytes)).1.filterMap extractData).map .ok ++
      sseDataFrom (events.drain (buf ++ bytes)).2 rest

def sseDataStream (byteStream : List (Except Str (List UInt8))) : List (Except ProviderError Str) :=
  sseDataFrom [] byteStream

/-- What is yielded when no more bytes come: the data of the rest, or the failure. -/
def lastData (buf : List UInt8) : Option Str → List (Except ProviderError Str)
  | none => (extractData buf).toList.map .ok
  | some e => [.error (.transport e)]

/-- The stream in terms of what a reader with a buffer reads. -/
theorem sseDataFrom_eq_feed (buf : List UInt8) (chunks : List (List UInt8)) (failure : Option Str) :
    sseDataFrom buf (chunks.map .ok ++ failure.toList.map .error) =
      ((events.feed buf chunks).1.filterMap extractData).map .ok ++
        lastData (events.feed buf chunks).2 failure := by
  induction chunks generalizing buf with
  | nil => cases failure <;> rfl
  | cons chunk chunks ih =>
    rw [map_cons, cons_append, sseDataFrom, ih, Framer.feed, filterMap_append,
      map_append, append_assoc]

/-- **The data of a stream does not depend on the chunks.** The connection may fail at the end. -/
theorem sseDataStream_cut (chunks chunks' : List (List UInt8))
    (hbytes : chunks.flatten = chunks'.flatten) (failure : Option Str) :
    sseDataStream (chunks.map .ok ++ failure.toList.map .error) =
      sseDataStream (chunks'.map .ok ++ failure.toList.map .error) := by
  have hemp : events.next [] = none := rfl
  rw [sseDataStream, sseDataStream, sseDataFrom_eq_feed, sseDataFrom_eq_feed,
    Framer.feed_eq_drain hemp, Framer.feed_eq_drain hemp, hbytes]

/-- The empty line after the first event, and the first byte of a character, are cut. -/
theorem sseDataStream_cut_events :
    sseDataStream [.ok "data: one\n".toUTF8.toList, .ok "\ndata: \u00e9".toUTF8.toList] =
      sseDataStream [.ok "data: one\n\ndata: ".toUTF8.toList, .ok [0xC3], .ok [0xA9]] :=
  sseDataStream_cut ["data: one\n".toUTF8.toList, "\ndata: \u00e9".toUTF8.toList]
    ["data: one\n\ndata: ".toUTF8.toList, [0xC3], [0xA9]] (by decide +kernel) none

end Nasiko.LlmRouter.Providers
