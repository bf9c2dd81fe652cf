import Nasiko.Json.Basic
import Nasiko.Text.Search

/-!
# Lines of a text

`lines` is `str::lines`: a line ends with a line feed, or with a carriage return and a line feed;
the last line need not have an end. A carriage return anywhere else belongs to its line.

`relined` puts the lines together again, each with a line feed. A line that ends with a carriage
return has one less when the text is read again.
-/

namespace Nasiko.Str

open List Text

/-- The pieces of a text up to and with each line feed. -/
def splitInclusive : Str → List Str
  | [] => []
  | c :: s =>
    if c = '\n' then [c] :: splitInclusive s
    else
      match splitInclusive s with
      | [] => [[c]]
      | piece :: pieces => (c :: piece) :: pieces

/-- A line without the carriage return at its end. -/
def stripCr (line : Str) : Str := if line.getLast? = some '\r' then line.dropLast else line

/-- A piece without its line end. -/
def stripEol (piece : Str) : Str :=
  if piece.getLast? = some '\n' then stripCr piece.dropLast else piece

variable (s : Str)

/-- `str::lines` -/
def lines : List Str := (splitInclusive s).map stripEol

/-- `str::trim_start` -/
def trimStart : Str := s.dropWhile isWhitespace

/-- Every line with a line feed. -/
def relined : Str := (lines s).flatMap fun line => line ++ ['\n']

/-! ## Without whitespace at the ends -/

theorem splitInclusive_append {line : Str} (h : '\n' ∉ line) (s : Str) :
    splitInclusive (line ++ '\n' :: s) = (line ++ ['\n']) :: splitInclusive s := by
  induction line with
  | nil => rfl
  | cons c line ih =>
    obtain ⟨hc, h⟩ := not_or.1 (mt mem_cons.2 h)
    rw [cons_append, splitInclusive, if_neg (Ne.symm hc), ih h]
    rfl

theorem lines_append {line : Str} (h : '\n' ∉ line) (hlast : line.getLast? ≠ some '\r') (s : Str) :
    lines (line ++ '\n' :: s) = line :: lines s := by
  rw [lines, splitInclusive_append h, map_cons, stripEol, if_pos getLast?_concat, dropLast_concat,
    stripCr, if_neg hlast]
  rfl

theorem lines_of_not_mem {line : Str} (h : '\n' ∉ line) (hne : line ≠ []) :
    lines line = [line] := by
  have hsplit : splitInclusive line = [line] := by
    induction line with
    | nil => exact absurd rfl hne
    | cons c line ih =>
      obtain ⟨hc, h⟩ := not_or.1 (mt mem_cons.2 h)
      rw [splitInclusive, if_neg (Ne.symm hc)]
      cases line with
      | nil => rfl
      | cons d line => rw [ih h (cons_ne_nil _ _)]
  rw [lines, hsplit, map_singleton, stripEol, if_neg fun hlast => h (mem_of_getLast? hlast)]

end Nasiko.Str
