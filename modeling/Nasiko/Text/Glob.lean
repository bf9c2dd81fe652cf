import Mathlib.Computability.Language
import Mathlib.Data.List.Infix

/-!
# Globs

A glob is a sequence of symbols: a run of anything, any one element, or an element itself. Its
language is the product of the languages of its symbols. Membership is read off the first symbol
with `mem_language_run`, `mem_language_one` and `mem_language_char`.
-/

namespace Nasiko.Text

inductive GlobSymbol (α : Type) where
  | run
  | one
  | char (a : α)
  deriving DecidableEq

abbrev Glob (α : Type) := List (GlobSymbol α)

variable {α : Type}

def GlobSymbol.language : GlobSymbol α → Language α
  | run => ⊤
  | one => {w | ∃ a, w = [a]}
  | char a => {[a]}

def Glob.language (p : Glob α) : Language α := (p.map GlobSymbol.language).prod

namespace Glob

variable {p : Glob α} {w : List α}

theorem mem_language_run : w ∈ language (.run :: p) ↔ ∃ v, v <:+ w ∧ v ∈ language p := by
  constructor
  · rintro ⟨u, -, v, hv, rfl⟩
    exact ⟨v, List.suffix_append u v, hv⟩
  · rintro ⟨v, ⟨u, rfl⟩, hv⟩
    exact ⟨u, trivial, v, hv, rfl⟩

theorem mem_language_one : w ∈ language (.one :: p) ↔ ∃ a v, w = a :: v ∧ v ∈ language p := by
  constructor
  · rintro ⟨u, ⟨a, rfl⟩, v, hv, rfl⟩
    exact ⟨a, v, rfl, hv⟩
  · rintro ⟨a, v, rfl, hv⟩
    exact ⟨[a], ⟨a, rfl⟩, v, hv, rfl⟩

theorem mem_language_char {a : α} :
    w ∈ language (.char a :: p) ↔ ∃ v, w = a :: v ∧ v ∈ language p := by
  constructor
  · rintro ⟨u, rfl, v, hv, rfl⟩
    exact ⟨v, rfl, hv⟩
  · rintro ⟨v, rfl, hv⟩
    exact ⟨[a], rfl, v, hv, rfl⟩

end Glob

end Nasiko.Text
