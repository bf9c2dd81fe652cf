import Nasiko.Text.Search
import Nasiko.Json.Basic

/-!
# Marks for what has been left out

Whatever is left out of a payload leaves a mark with a count. A payload with such a mark is not
compressed again.
-/

namespace Nasiko.Compress

open List Str

def markerOpen : Str := "[⋯ "

def markerClose : Str := " ⋯]"

def containsMarker (s : Str) : Bool := Text.occurs markerOpen s

def wrap (body : Str) (recoveryRef : Option Str) : Str :=
  match recoveryRef with
  | some handle => markerOpen ++ body ++ " · recover: " ++ handle ++ markerClose
  | none => markerOpen ++ body ++ markerClose

def countText (n : Nat) : Str := Nat.toDigits 10 n

def elidedLines (n : Nat) (recoveryRef : Option Str) : Str :=
  wrap (countText n ++ " lines elided") recoveryRef

def elidedItems (n total : Nat) (recoveryRef : Option Str) : Str :=
  wrap (countText n ++ " of " ++ countText total ++ " items elided") recoveryRef

def elidedChars (n : Nat) (recoveryRef : Option Str) : Str :=
  wrap (countText n ++ " chars elided") recoveryRef

def elidedMatches (n files : Nat) (recoveryRef : Option Str) : Str :=
  wrap (countText n ++ " more matches in " ++ countText files ++ " files elided")
    recoveryRef

/-- The first `n` characters. -/
def takeChars (s : Str) (n : Nat) : Str := s.take n

/-- The last `n` characters. -/
def tailChars (s : Str) (n : Nat) : Str := s.drop (s.length - n)

/-- The head, a mark and the tail; nothing for a text that is not longer than the two. -/
def headTail (s : Str) (head tail : Nat) (recoveryRef : Option Str) : Option Str :=
  if s.length ≤ head + tail then none
  else some (takeChars s head ++ elidedChars (s.length - head - tail) recoveryRef ++
    tailChars s tail)

/-- What is left out between the head and the tail. -/
def middle (s : Str) (head tail : Nat) : Str := (s.drop head).take (s.length - head - tail)

theorem append_middle {s : Str} {head tail : Nat} (h : head + tail < s.length) :
    takeChars s head ++ (middle s head tail ++ tailChars s tail) = s := by
  have htail : tailChars s tail = (s.drop head).drop (s.length - head - tail) := by
    rw [tailChars, drop_drop]
    congr 1
    omega
  rw [htail, middle, takeChars, take_append_drop, take_append_drop]

/-- A cut text is shorter if the mark is shorter than what it stands for. -/
theorem utf8Len_headTail_lt_iff {s : Str} {head tail : Nat} (recoveryRef : Option Str)
    (h : head + tail < s.length) :
    utf8Len (takeChars s head ++ elidedChars (s.length - head - tail) recoveryRef ++
      tailChars s tail) < utf8Len s ↔
    utf8Len (elidedChars (s.length - head - tail) recoveryRef) <
      utf8Len (middle s head tail) := by
  have hs := congrArg utf8Len (append_middle h)
  rw [utf8Len_append, utf8Len_append] at hs
  rw [utf8Len_append, utf8Len_append]
  omega

end Nasiko.Compress
