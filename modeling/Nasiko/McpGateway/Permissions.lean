import Nasiko.McpGateway.Types
import Nasiko.Text.Glob

/-!
# The permission engine

An agent may use a connector that is enabled for it, and of its tools those that no rule blocks. A
rule is a glob over tool names with a stance; `getStance` takes the strictest stance among the rules
that match, and `decide` is the decision for one tool of one connector.

Whether a rule matches is found by `wildcardMatch`, a loop with two cursors that goes back to the
last star it has met. `declaredStance` says the same in terms of the languages of the globs. The
loop reads a star of the pattern as a plain character where the name has a star at that place, and
then never comes back to it; `ReadsStars` is what it accepts (`wildcardMatch_iff`). So a name with a
star in it can slip past a rule, and `getStance_eq_iff` says when it does not.
-/

namespace Nasiko.McpGateway

open Text List Cursor Nat Str

structure PermissionRule where
  connectorId : Uuid
  toolPattern : Str
  stance : Stance
  deriving DecidableEq

structure PermissionContext where
  agentId : Uuid
  enabledConnectors : List Uuid
  rules : List PermissionRule
  hash : Str
  deriving DecidableEq

inductive ToolAccess where
  | allowed
  | ask
  | denied
  deriving DecidableEq

/-! ## The matcher -/

/-- The cursors in the pattern and in the text, the last star of the pattern that was met, and the
place in the text from which the pattern behind that star is tried. -/
structure Cursor where
  pi : Nat
  ti : Nat
  star : Option Nat
  starTi : Nat

/-- One round of the loop; `none` where it gives up. -/
def Cursor.advance (p t : Str) (c : Cursor) : Option Cursor :=
  if c.pi < p.length ∧ (p[c.pi]? = some '?' ∨ p[c.pi]? = t[c.ti]?) then
    some { c with pi := c.pi + 1, ti := c.ti + 1 }
  else if c.pi < p.length ∧ p[c.pi]? = some '*' then
    some { pi := c.pi + 1, ti := c.ti, star := some c.pi, starTi := c.ti }
  else match c.star with
    | some s => some { c with pi := s + 1, ti := c.starTi + 1, starTi := c.starTi + 1 }
    | none => none

/-- The loop, and what is left of the pattern at its end. -/
def wildcardLoop (p t : Str) : Nat → Cursor → Bool
  | 0, _ => false
  | fuel + 1, c =>
    if c.ti < t.length then
      match c.advance p t with
      | some c' => wildcardLoop p t fuel c'
      | none => false
    else (p.drop c.pi).dropWhile (fun x => x = '*') = []

/-- The rounds that are left, at most. -/
def Cursor.rounds (p t : Str) (c : Cursor) : Nat :=
  (t.length - c.starTi) * (p.length + 1) + (p.length - c.pi)

def Cursor.start : Cursor := ⟨0, 0, none, 0⟩

/-- Glob match with `*` and `?`. -/
def wildcardMatch (pattern text : Str) : Bool :=
  wildcardLoop pattern text (Cursor.start.rounds pattern text + 1) Cursor.start

/-! ## Decisions -/

namespace PermissionContext

variable (ctx : PermissionContext) (connectorId : Uuid)

def isConnectorEnabled : Bool := ctx.enabledConnectors.contains connectorId

def matching (toolName : Str) : List Stance :=
  (ctx.rules.filter fun r => r.connectorId = connectorId ∧
    wildcardMatch (toAsciiLowercase r.toolPattern) (toAsciiLowercase toolName)).map
      PermissionRule.stance

/-- The strictest stance of the rules that match; `allow` where none does. -/
def getStance (toolName : Str) : Stance :=
  let matching := ctx.matching connectorId toolName
  if matching = [] then .allow
  else if .block ∈ matching then .block
  else if .ask ∈ matching then .ask
  else .allow

def decide (toolName : Str) : ToolAccess :=
  if ctx.isConnectorEnabled connectorId then
    match ctx.getStance connectorId toolName with
    | .block => .denied
    | .ask => .ask
    | .allow => .allowed
  else .denied

end PermissionContext

/-- `GMAIL_SEND_EMAIL` is of the toolkit `gmail`: the first segment that is not empty. -/
def toolkitFromComposioSlug (slug : Str) : Str :=
  toAsciiLowercase ((slug.dropWhile fun c => c = '_').takeWhile fun c => c ≠ '_')

/-! ## What the matcher accepts -/

def symbolOf (c : Char) : GlobSymbol Char :=
  if c = '*' then .run else if c = '?' then .one else .char c

def globOf (pattern : Str) : Glob Char := pattern.map symbolOf

/-- As the language of the glob, except that a star of the pattern that meets a star of the text
takes that character and nothing else. -/
def ReadsStars : Glob Char → Str → Prop
  | [], t => t = []
  | .run :: p, [] => ReadsStars p []
  | .run :: p, x :: t => if x = '*' then ReadsStars p t else ∃ v, v <:+ x :: t ∧ ReadsStars p v
  | .one :: p, t => ∃ x v, t = x :: v ∧ ReadsStars p v
  | .char a :: p, t => ∃ v, t = a :: v ∧ ReadsStars p v

variable {t : Str} {p : Glob Char}

theorem ReadsStars.run (h : ReadsStars (.run :: p) t) : ∃ v, v <:+ t ∧ ReadsStars p v := by
  cases t with
  | nil => exact ⟨[], suffix_rfl, h⟩
  | cons x t =>
    rw [ReadsStars] at h
    split at h
    · exact ⟨t, suffix_cons x t, h⟩
    · exact h

theorem mem_language_of_readsStars (h : ReadsStars p t) : t ∈ p.language := by
  induction p generalizing t with
  | nil => exact h
  | cons s p ih =>
    cases s with
    | run =>
      obtain ⟨v, hv, h⟩ := h.run
      exact Glob.mem_language_run.2 ⟨v, hv, ih h⟩
    | one =>
      obtain ⟨x, v, rfl, h⟩ := h
      exact Glob.mem_language_one.2 ⟨x, v, rfl, ih h⟩
    | char a =>
      obtain ⟨v, rfl, h⟩ := h
      exact Glob.mem_language_char.2 ⟨v, rfl, ih h⟩

/-! ## The loop accepts what is read -/

/-- A character of the pattern that the first branch of the loop takes for one of the text. -/
def Same (a x : Char) : Prop := a = '?' ∨ a = x

theorem readsStars_same {a x : Char} {p : Str} (h : Same a x) :
    ReadsStars (globOf (a :: p)) (x :: t) ↔ ReadsStars (globOf p) t := by
  by_cases hrun : a = '*'
  · subst hrun
    obtain rfl : '*' = x := h.resolve_left (by decide)
    simp [symbolOf, ReadsStars, globOf]
  · by_cases hone : a = '?'
    · subst hone
      simp [symbolOf, ReadsStars, globOf]
    · obtain rfl := h.resolve_left hone
      simp [symbolOf, hrun, hone, ReadsStars, globOf]

theorem readsStars_append {w u r : Str} (h : List.Forall₂ Same w u) :
    ReadsStars (globOf (w ++ r)) (u ++ t) ↔ ReadsStars (globOf r) t := by
  induction h with
  | nil => rfl
  | cons hsa _ ih => exact (readsStars_same hsa).trans ih

/-- What was read character by character from the front of a text cannot be read further to the left
from a suffix of it: behind it, a suffix of the rest is left. -/
theorem exists_readsStars_of_suffix {w u r v : Str} (h : List.Forall₂ Same w u)
    (hv : v <:+ u ++ t) (hre : ReadsStars (globOf (w ++ r)) v) :
    ∃ v', v' <:+ t ∧ ReadsStars (globOf r) v' := by
  induction h generalizing v with
  | nil => exact ⟨v, hv, hre⟩
  | @cons a x w u hsa _ ih =>
    rcases suffix_cons_iff.1 hv with rfl | hv
    · exact ih suffix_rfl ((readsStars_same hsa).1 hre)
    rw [cons_append, globOf, map_cons] at hre
    by_cases hrun : a = '*'
    · rw [symbolOf, if_pos hrun] at hre
      obtain ⟨v', hv', hre⟩ := hre.run
      exact ih (hv'.trans hv) hre
    · rw [symbolOf, if_neg hrun] at hre
      split at hre
      · obtain ⟨y, v', rfl, hre⟩ := hre
        exact ih ((suffix_cons y v').trans hv) hre
      · obtain ⟨v', rfl, hre⟩ := hre
        exact ih ((suffix_cons a v').trans hv) hre

theorem readsStars_nil {p : Str} :
    ReadsStars (globOf p) [] ↔ p.dropWhile (fun x => x = '*') = [] := by
  induction p with
  | nil => simp [globOf, ReadsStars]
  | cons a p ih =>
    by_cases hrun : a = '*'
    · subst hrun
      simpa [globOf, symbolOf, ReadsStars] using ih
    · by_cases hone : a = '?' <;> simp [globOf, symbolOf, ReadsStars, hrun, hone]

/-- The cursors stand in their texts, and from the star on everything was read character by
character. -/
structure Cursor.Ok (p t : Str) (c : Cursor) : Prop where
  pi_le : c.pi ≤ p.length
  ti_le : c.ti ≤ t.length
  starTi_le : c.starTi ≤ c.ti
  star_lt : ∀ s, c.star = some s → s < p.length
  read : ∀ s, c.star = some s → ∃ w u, p.drop (s + 1) = w ++ p.drop c.pi ∧
    t.drop c.starTi = u ++ t.drop c.ti ∧ List.Forall₂ Same w u

/-- What is still to be found: the rest of the pattern reads the rest of the text or, behind a star,
what follows the star reads some suffix of what is left since. -/
def Cursor.Accepts (p t : Str) (c : Cursor) : Prop :=
  match c.star with
  | none => ReadsStars (globOf (p.drop c.pi)) (t.drop c.ti)
  | some s => ∃ v, v <:+ t.drop c.starTi ∧ ReadsStars (globOf (p.drop (s + 1))) v

section

variable {p t : Str} {c : Cursor}

/-- The first branch: both cursors move on. -/
theorem Cursor.accepts_both (hok : c.Ok p t) (hpi : c.pi < p.length) (hti : c.ti < t.length)
    (hsa : Same p[c.pi] t[c.ti]) :
    Ok p t { c with pi := c.pi + 1, ti := c.ti + 1 } ∧
      (Accepts p t { c with pi := c.pi + 1, ti := c.ti + 1 } ↔ c.Accepts p t) := by
  have hp : p.drop c.pi = p[c.pi] :: p.drop (c.pi + 1) := drop_eq_getElem_cons hpi
  have ht : t.drop c.ti = t[c.ti] :: t.drop (c.ti + 1) := drop_eq_getElem_cons hti
  refine ⟨⟨hpi, hti, le_succ_of_le hok.starTi_le, hok.star_lt, fun s hs => ?_⟩, ?_⟩
  · obtain ⟨w, u, hw, hu, hre⟩ := hok.read s hs
    refine ⟨w ++ [p[c.pi]], u ++ [t[c.ti]], by rw [hw]; simp, by rw [hu]; simp, ?_⟩
    exact rel_append hre (.cons hsa .nil)
  · obtain ⟨pi, ti, star, starTi⟩ := c
    cases star with
    | none =>
      simp only [Accepts]
      rw [hp, ht, readsStars_same hsa]
    | some s => rfl

/-- The second branch: a star of the pattern that does not meet a star of the text. -/
theorem Cursor.accepts_star (hok : c.Ok p t) (hpi : c.pi < p.length) (hti : c.ti < t.length)
    (hst : p[c.pi] = '*') (hne : t[c.ti] ≠ '*') :
    Ok p t { pi := c.pi + 1, ti := c.ti, star := some c.pi, starTi := c.ti } ∧
      (Accepts p t { pi := c.pi + 1, ti := c.ti, star := some c.pi, starTi := c.ti } ↔
        c.Accepts p t) := by
  have hp : p.drop c.pi = '*' :: p.drop (c.pi + 1) := hst ▸ drop_eq_getElem_cons hpi
  have ht : t.drop c.ti = t[c.ti] :: t.drop (c.ti + 1) := drop_eq_getElem_cons hti
  -- Behind a new star any suffix of the rest of the text will do.
  have hrest : ReadsStars (globOf (p.drop c.pi)) (t.drop c.ti) ↔
      ∃ v, v <:+ t.drop c.ti ∧ ReadsStars (globOf (p.drop (c.pi + 1))) v := by
    rw [hp, ht, globOf, map_cons, symbolOf, if_pos rfl, ReadsStars, if_neg hne]
    rfl
  refine ⟨⟨hpi, hok.ti_le, le_rfl, ?_, ?_⟩, ?_⟩
  · rintro s ⟨⟩
    exact hpi
  · rintro s ⟨⟩
    exact ⟨[], [], rfl, rfl, .nil⟩
  · refine Iff.trans hrest.symm ?_
    obtain ⟨pi, ti, star, starTi⟩ := c
    cases star with
    | none => rfl
    | some s =>
      obtain ⟨w, u, hw, hu, hre⟩ := hok.read s rfl
      simp only [Accepts] at hw hu hp hrest ⊢
      rw [hw, hu]
      constructor
      · intro h
        exact ⟨_, suffix_rfl, (readsStars_append hre).2 h⟩
      · rintro ⟨v, hv, h⟩
        obtain ⟨v', hv', h'⟩ := exists_readsStars_of_suffix hre hv h
        rw [hp] at h'
        obtain ⟨v'', hv'', h''⟩ := h'.run
        exact hrest.2 ⟨v'', hv''.trans hv', h''⟩

/-- Neither branch: the rest of the pattern does not read the rest of the text. -/
theorem not_readsStars_of_ne (hti : c.ti < t.length)
    (hpi : ∀ h : c.pi < p.length, ¬ Same p[c.pi] t[c.ti] ∧ p[c.pi] ≠ '*') :
    ¬ ReadsStars (globOf (p.drop c.pi)) (t.drop c.ti) := by
  rw [drop_eq_getElem_cons hti]
  by_cases h : c.pi < p.length
  · obtain ⟨hsa, hrun⟩ := hpi h
    have hone : p[c.pi] ≠ '?' := fun hone => hsa (Or.inl hone)
    rw [drop_eq_getElem_cons h, globOf, map_cons, symbolOf, if_neg hrun, if_neg hone]
    rintro ⟨v, heq, -⟩
    exact hsa (Or.inr (cons.inj heq).1.symm)
  · rw [drop_eq_nil_of_le (not_lt.1 h)]
    rintro ⟨⟩

/-- The third branch: the place behind the star moves on. -/
theorem Cursor.accepts_back {s : Nat} (hok : c.Ok p t) (hti : c.ti < t.length)
    (hs : c.star = some s) (hnot : ¬ ReadsStars (globOf (p.drop c.pi)) (t.drop c.ti)) :
    Ok p t { c with pi := s + 1, ti := c.starTi + 1, starTi := c.starTi + 1 } ∧
      (Accepts p t { c with pi := s + 1, ti := c.starTi + 1, starTi := c.starTi + 1 } ↔
        c.Accepts p t) := by
  have hsta : c.starTi < t.length := hok.starTi_le.trans_lt hti
  obtain ⟨w, u, hw, hu, hre⟩ := hok.read s hs
  obtain ⟨pi, ti, star, starTi⟩ := c
  subst hs
  refine ⟨⟨hok.star_lt s rfl, hsta, le_rfl, hok.star_lt, ?_⟩, ?_⟩
  · rintro s ⟨⟩
    exact ⟨[], [], rfl, rfl, .nil⟩
  · constructor
    · rintro ⟨v, hv, h⟩
      exact ⟨v, hv.trans (drop_suffix_drop_left t (le_succ starTi)), h⟩
    · rintro ⟨v, hv, h⟩
      rw [drop_eq_getElem_cons hsta] at hv
      rcases suffix_cons_iff.1 hv with rfl | hv
      · rw [← drop_eq_getElem_cons hsta, hw, hu, readsStars_append hre] at h
        exact absurd h hnot
      · exact ⟨v, hv, h⟩

/-- **One round of the loop** keeps what is still to be found, and brings the end nearer. -/
theorem Cursor.advance_spec (hok : c.Ok p t) (hti : c.ti < t.length) :
    match c.advance p t with
    | some c' => c'.Ok p t ∧ (c'.Accepts p t ↔ c.Accepts p t) ∧ c'.rounds p t < c.rounds p t
    | none => ¬ c.Accepts p t := by
  have hmul : ∀ a b : Nat, a ≤ b → a * (p.length + 1) ≤ b * (p.length + 1) := fun a b h =>
    mul_le_mul_right _ h
  by_cases hboth : c.pi < p.length ∧ (p[c.pi]? = some '?' ∨ p[c.pi]? = t[c.ti]?)
  · rw [advance, if_pos hboth]
    obtain ⟨hpi, hsa⟩ := hboth
    rw [getElem?_eq_getElem hpi, getElem?_eq_getElem hti] at hsa
    obtain ⟨hok', hiff⟩ := accepts_both hok hpi hti (by simpa [Same] using hsa)
    refine ⟨hok', hiff, ?_⟩
    simp only [rounds]
    omega
  · rw [advance, if_neg hboth]
    by_cases hrun : c.pi < p.length ∧ p[c.pi]? = some '*'
    · rw [if_pos hrun]
      obtain ⟨hpi, hst⟩ := hrun
      rw [getElem?_eq_getElem hpi, Option.some.injEq] at hst
      have hne : t[c.ti] ≠ '*' := by
        intro heq
        refine hboth ⟨hpi, Or.inr ?_⟩
        rw [getElem?_eq_getElem hpi, getElem?_eq_getElem hti, hst, heq]
      obtain ⟨hok', hiff⟩ := accepts_star hok hpi hti hst hne
      refine ⟨hok', hiff, ?_⟩
      have hle := hmul _ _ (Nat.sub_le_sub_left hok.starTi_le t.length)
      simp only [rounds]
      omega
    · rw [if_neg hrun]
      have hre : ¬ ReadsStars (globOf (p.drop c.pi)) (t.drop c.ti) := by
        refine not_readsStars_of_ne hti fun hpi => ⟨fun hsa => hboth ⟨hpi, ?_⟩, fun hst => ?_⟩
        · rw [getElem?_eq_getElem hpi, getElem?_eq_getElem hti]
          simpa [Same] using hsa
        · exact hrun ⟨hpi, by rw [getElem?_eq_getElem hpi, hst]⟩
      cases hs : c.star with
      | none =>
        simp only [Accepts, hs]
        exact hre
      | some s =>
        obtain ⟨hok', hiff⟩ := accepts_back hok hti hs hre
        refine ⟨hs ▸ hok', hs ▸ hiff, ?_⟩
        have hsta : c.starTi < t.length := hok.starTi_le.trans_lt hti
        have hspl : t.length - c.starTi = (t.length - (c.starTi + 1)) + 1 := by omega
        simp only [rounds]
        rw [hspl, add_mul]
        omega

/-- At the end of the text only stars may be left. -/
theorem Cursor.accepts_end (hok : c.Ok p t) (hti : ¬ c.ti < t.length) :
    c.Accepts p t ↔ (p.drop c.pi).dropWhile (fun x => x = '*') = [] := by
  have ht : t.drop c.ti = [] := drop_eq_nil_of_le (not_lt.1 hti)
  rw [← readsStars_nil]
  obtain ⟨pi, ti, star, starTi⟩ := c
  cases star with
  | none => simp only [Accepts, ht]
  | some s =>
    obtain ⟨w, u, hw, hu, hre⟩ := hok.read s rfl
    simp only [Accepts] at hw hu ht ⊢
    rw [hw, hu, ht]
    constructor
    · rintro ⟨v, hv, h⟩
      obtain ⟨v', hv', h'⟩ := exists_readsStars_of_suffix hre hv h
      rwa [suffix_nil.1 hv'] at h'
    · intro h
      exact ⟨_, suffix_rfl, (readsStars_append hre).2 h⟩

/-- **The loop**, by induction on the rounds it is given. -/
theorem wildcardLoop_iff {fuel : Nat} (hok : c.Ok p t) (hfuel : c.rounds p t < fuel) :
    wildcardLoop p t fuel c = true ↔ c.Accepts p t := by
  induction fuel generalizing c with
  | zero => exact absurd hfuel (not_lt_zero _)
  | succ fuel ih =>
    rw [wildcardLoop]
    split
    · rename_i hti
      have hspec := Cursor.advance_spec hok hti
      cases hadv : c.advance p t with
      | none =>
        rw [hadv] at hspec
        simpa using hspec
      | some c' =>
        rw [hadv] at hspec
        obtain ⟨hok', hiff, hlt⟩ := hspec
        exact (ih hok' (hlt.trans_le (Nat.lt_succ_iff.1 hfuel))).trans hiff
    · rename_i hti
      rw [Cursor.accepts_end hok hti, decide_eq_true_iff]

theorem wildcardMatch_iff : wildcardMatch p t = true ↔ ReadsStars (globOf p) t :=
  wildcardLoop_iff ⟨zero_le _, zero_le _, le_rfl, nofun, nofun⟩
    (lt_succ_self _)

end

/-! ## The stance of a tool -/

namespace PermissionRule

/-- The rule is about this tool: the name is in the language of its glob, without regard to case. -/
def Matches (r : PermissionRule) (connectorId : Uuid) (toolName : Str) : Prop :=
  r.connectorId = connectorId ∧
    toAsciiLowercase toolName ∈ (globOf (toAsciiLowercase r.toolPattern)).language

/-- The rule is about this tool also where a star of its glob that meets a star of the name stands
for that character only. -/
def MatchesStars (r : PermissionRule) (connectorId : Uuid) (toolName : Str) : Prop :=
  r.connectorId = connectorId ∧
    ReadsStars (globOf (toAsciiLowercase r.toolPattern)) (toAsciiLowercase toolName)

end PermissionRule

def Stance.strictness : Stance → Nat
  | allow => 0
  | ask => 1
  | block => 2

open Classical in
/-- What the rules say about a tool: `block` before `ask` before `allow`. -/
noncomputable def declaredStance (rules : List PermissionRule) (connectorId : Uuid)
    (toolName : Str) : Stance :=
  if ∃ r ∈ rules, r.Matches connectorId toolName ∧ r.stance = .block then .block
  else if ∃ r ∈ rules, r.Matches connectorId toolName ∧ r.stance = .ask then .ask
  else .allow

/-- Wherever a rule that asks or blocks matches, one at least as strict matches also with the stars
of its glob that meet stars of the name standing for themselves. -/
def StarsCovered (rules : List PermissionRule) (connectorId : Uuid) (toolName : Str) : Prop :=
  ∀ r ∈ rules, r.Matches connectorId toolName → r.stance ≠ .allow →
    ∃ r' ∈ rules, r'.MatchesStars connectorId toolName ∧ r.stance.strictness ≤ r'.stance.strictness

namespace PermissionContext

variable {ctx : PermissionContext} {connectorId : Uuid} {toolName : Str}

theorem mem_matching {stance : Stance} : stance ∈ ctx.matching connectorId toolName ↔
    ∃ r ∈ ctx.rules, r.MatchesStars connectorId toolName ∧ r.stance = stance := by
  simp [matching, wildcardMatch_iff, PermissionRule.MatchesStars, and_assoc]

theorem getStance_eq : ctx.getStance connectorId toolName =
    if .block ∈ ctx.matching connectorId toolName then .block
    else if .ask ∈ ctx.matching connectorId toolName then .ask
    else .allow := by
  simp only [getStance]
  by_cases h : ctx.matching connectorId toolName = []
  · rw [h]
    rfl
  · rw [if_neg h]

/-- **The stance is the one that the rules declare** exactly if the stars are covered. -/
theorem getStance_eq_iff :
    ctx.getStance connectorId toolName = declaredStance ctx.rules connectorId toolName ↔
      StarsCovered ctx.rules connectorId toolName := by
  have hmat : ∀ stance, stance ∈ ctx.matching connectorId toolName →
      ∃ r ∈ ctx.rules, r.Matches connectorId toolName ∧ r.stance = stance := by
    intro stance h
    obtain ⟨r, hr, hstr, hsta⟩ := mem_matching.1 h
    exact ⟨r, hr, ⟨hstr.1, mem_language_of_readsStars hstr.2⟩, hsta⟩
  rw [getStance_eq, declaredStance]
  by_cases hblk : .block ∈ ctx.matching connectorId toolName
  · rw [if_pos hblk, if_pos (hmat _ hblk), eq_self, true_iff]
    intro r _ _ _
    obtain ⟨r', hr', hstr, hsta⟩ := mem_matching.1 hblk
    refine ⟨r', hr', hstr, ?_⟩
    rw [hsta]
    cases r.stance <;> decide
  rw [if_neg hblk]
  by_cases hdec : ∃ r ∈ ctx.rules, r.Matches connectorId toolName ∧ r.stance = .block
  · -- A blocking rule matches and none was found: the loop has missed it.
    constructor
    · intro h
      split at h <;> cases h
    · intro hcov
      obtain ⟨r, hr, hm, hsta⟩ := hdec
      obtain ⟨r', hr', hstr, hle⟩ := hcov r hr hm (by rw [hsta]; decide)
      refine absurd (mem_matching.2 ⟨r', hr', hstr, ?_⟩) hblk
      rw [hsta] at hle
      revert hle
      cases r'.stance <;> decide
  rw [if_neg hdec]
  have hnob : ∀ r ∈ ctx.rules, r.Matches connectorId toolName → r.stance ≠ .block :=
    fun r hr hm hsta => hdec ⟨r, hr, hm, hsta⟩
  by_cases hask : .ask ∈ ctx.matching connectorId toolName
  · rw [if_pos hask, if_pos (hmat _ hask), eq_self, true_iff]
    intro r hr hm _
    obtain ⟨r', hr', hstr, hsta⟩ := mem_matching.1 hask
    refine ⟨r', hr', hstr, ?_⟩
    have hne := hnob r hr hm
    rw [hsta]
    revert hne
    cases r.stance <;> decide
  rw [if_neg hask]
  by_cases hdec' : ∃ r ∈ ctx.rules, r.Matches connectorId toolName ∧ r.stance = .ask
  · rw [if_pos hdec']
    constructor
    · rintro ⟨⟩
    · intro hcov
      obtain ⟨r, hr, hm, hsta⟩ := hdec'
      obtain ⟨r', hr', hstr, hle⟩ := hcov r hr hm (by rw [hsta]; decide)
      refine absurd (mem_matching.2 ⟨r', hr', hstr, ?_⟩) hask
      have hne := hnob r' hr' ⟨hstr.1, mem_language_of_readsStars hstr.2⟩
      rw [hsta] at hle
      revert hle hne
      cases r'.stance <;> decide
  · rw [if_neg hdec', eq_self, true_iff]
    intro r hr hm hne
    refine absurd ⟨r, hr, hm, ?_⟩ hdec'
    have hne' := hnob r hr hm
    revert hne hne'
    cases r.stance <;> decide

/-- A tool named `*admin` is not blocked by the rule that blocks everything. -/
theorem star_name_not_blocked : getStance ⟨7, [1], [⟨1, "*", .block⟩], []⟩ 1 "*admin" = .allow ∧
      declaredStance [⟨1, "*", .block⟩] 1 "*admin" = .block := by
  refine ⟨by decide, ?_⟩
  rw [declaredStance, if_pos]
  refine ⟨_, mem_singleton_self _, ⟨rfl, ?_⟩, rfl⟩
  exact Glob.mem_language_run.2 ⟨[], nil_suffix, rfl⟩

end PermissionContext

end Nasiko.McpGateway
