import Nasiko.ToolCompact.Notation
import Nasiko.ToolCompact.SchemaJson

/-!
# Tool definitions survive encoding and decoding

`encodeToolsWith` writes one line per tool, `decodeTools` reads the lines back. What comes back
accepts the same arguments (`decodeTools_encodeToolsWith`), except for a tool without `parameters`:
its line is that of a tool with an open object without properties, so it comes back as one that
accepts everything.

The steps are those of the text: every line is one line (`oneLine_ty`), so that the text is cut
where the lines were joined; `toolParts` reads a line; the schema that is then written as JSON is
read as one that agrees with it.
-/

namespace Nasiko.ToolCompact

open SerdeJson Result List Bool Except Renderer Str

/-! ## Lines -/

/-- No line break is in the text. -/
def OneLine (s : Str) : Prop := ∀ c ∈ s, c ≠ '\n' ∧ c ≠ '\r'

variable {s line name : Str} {lines : List Str} {description : Option Str} {r : Renderer}
  {extra : List Char}

theorem OneLine.append {t : Str} (hs : OneLine s) (ht : OneLine t) : OneLine (s ++ t) :=
  forall_mem_append.2 ⟨hs, ht⟩

theorem OneLine.cons {c : Char} (hc : c ≠ '\n' ∧ c ≠ '\r') (hs : OneLine s) :
    OneLine (c :: s) := forall_mem_cons.2 ⟨hc, hs⟩

theorem oneLine_nil : OneLine [] := by simp [OneLine]

instance (s : Str) : Decidable (OneLine s) :=
  inferInstanceAs (Decidable (∀ c ∈ s, c ≠ '\n' ∧ c ≠ '\r'))

theorem OneLine.not_mem (h : OneLine s) : '\n' ∉ s := fun hmem => (h _ hmem).1 rfl

theorem OneLine.getLast? (h : OneLine s) : s.getLast? ≠ some '\r' :=
  fun hlast => (h _ (mem_of_getLast? hlast)).2 rfl

/-- Lines with a line feed between each two of them. -/
def joinLines : List Str → Str
  | [] => []
  | line :: lines => line ++ lines.flatMap fun l => '\n' :: l

theorem lines_joinLines (h : ∀ l ∈ lines, OneLine l ∧ l ≠ []) :
    Str.lines (joinLines lines) = lines := by
  cases lines with
  | nil => rfl
  | cons line lines =>
    induction lines generalizing line with
    | nil =>
      obtain ⟨hone, hne⟩ := h line mem_cons_self
      rw [joinLines, flatMap_nil, append_nil]
      exact lines_of_not_mem hone.not_mem hne
    | cons l lines ih =>
      obtain ⟨⟨hone, -⟩, hrest⟩ := forall_mem_cons.1 h
      rw [joinLines, flatMap_cons, cons_append, Str.lines_append hone.not_mem hone.getLast?]
      exact congrArg (line :: ·) (ih l hrest)

/-! ## Rendered text has no line breaks -/

theorem oneLine_of_printable (h : Json.Printable s) : OneLine s := by
  intro c hc
  have := h c hc
  constructor
  all_goals
    rintro rfl
    exact absurd this (by decide)

theorem oneLine_escapeChar {c : Char} : OneLine (escapeChar extra c) := by
  unfold escapeChar
  split_ifs with h₁ h₂ h₃ h₄ h₅
  · decide
  · decide
  · decide
  · decide
  · exact .cons (by decide) (.cons ⟨h₂, h₃⟩ oneLine_nil)
  · exact .cons ⟨h₂, h₃⟩ oneLine_nil

theorem oneLine_pushEscaped : OneLine (pushEscaped s extra) := by
  intro c hc
  obtain ⟨x, -, hx⟩ := mem_flatMap.1 hc
  exact oneLine_escapeChar c hx

theorem oneLine_pushQuoted : OneLine (pushQuoted s) :=
  .cons (by decide) (oneLine_pushEscaped.append (by decide))

theorem oneLine_of_all {p : Char → Bool} (hp : p '\n' = false ∧ p '\r' = false)
    (h : ∀ c ∈ s, p c = true) : OneLine s := by
  intro c hc
  have := h c hc
  constructor
  · rintro rfl
    rw [hp.1] at this
    cases this
  · rintro rfl
    rw [hp.2] at this
    cases this

theorem oneLine_of_isBareWord (h : isBareWord s = true) : OneLine s := by
  cases s with
  | nil => exact oneLine_nil
  | cons c s =>
    rw [isBareWord, and_eq_true, all_eq_true] at h
    have hc : OneLine [c] :=
      oneLine_of_all (p := fun c => isAsciiAlphabetic c || c == '_') (by decide)
        (by simpa using h.1)
    exact hc.append (oneLine_of_all (by decide) h.2)

theorem oneLine_pushKey : OneLine (pushKey name) := by
  unfold pushKey
  split_ifs with h
  · cases name with
    | nil => exact oneLine_nil
    | cons c s =>
      rw [isIdent, and_eq_true, all_eq_true] at h
      exact oneLine_of_all (by decide) h.2
  · exact oneLine_pushQuoted

section

variable {N F : Type} [SerdeJson N F] [hwrites : WritesJson N] {kind : Kind N (Ty N)}
  {name : Option Str} {v : Json N}

theorem oneLine_toText : OneLine (toText v) :=
  oneLine_of_printable (hwrites.toText_compact v).printable

theorem oneLine_numText {n : N} : OneLine (numText n) :=
  (isNumber_numText n).2 ▸ oneLine_toText

theorem oneLine_pushLiteral : OneLine (pushLiteral v) := by
  unfold pushLiteral
  split
  · split_ifs with h
    · rw [and_eq_true] at h
      exact oneLine_of_isBareWord h.1
    · exact oneLine_pushQuoted
  · exact oneLine_toText

theorem oneLine_literals {vs : List (Json N)} : OneLine (literals vs) := by
  induction vs with
  | nil => exact oneLine_nil
  | cons v vs ih =>
    refine oneLine_pushLiteral.append ?_
    split_ifs
    · exact oneLine_nil
    · exact .cons (by decide) ih

theorem oneLine_pushRange {r : Range N} : OneLine (pushRange r) := by
  have hbou : ∀ n : Option N, OneLine ((n.map numText).getD []) := by
    intro n
    cases n with
    | none => exact oneLine_nil
    | some n => exact oneLine_numText
  unfold pushRange
  split_ifs
  · exact oneLine_nil
  · exact .cons (by decide)
      ((((hbou r.min).append (by decide)).append (hbou r.max)).append (by decide))

theorem oneLine_suffix {default : Option (Json N)} :
    OneLine (r.suffix kind description default name) := by
  refine OneLine.append ?_ ?_
  · cases default with
    | none => exact oneLine_nil
    | some d => exact .cons (by decide) oneLine_toText
  · cases description with
    | none => exact oneLine_nil
    | some desc =>
      dsimp only
      split_ifs
      · exact .cons (by decide) oneLine_pushQuoted
      · exact oneLine_nil

omit hwrites in
theorem oneLine_nullMark {nullable : Bool} : OneLine (nullMark kind nullable) := by
  unfold nullMark
  split
  · exact oneLine_nil
  · cases nullable <;> decide

omit hwrites in
theorem oneLine_fields {fs : List (Field (Ty N))} (h : ∀ f ∈ fs, ∀ name, OneLine (r.ty f.ty name)) :
    OneLine (r.fields fs) := by
  induction fs with
  | nil => exact oneLine_nil
  | cons f fs ih =>
    obtain ⟨hf, hfs⟩ := forall_mem_cons.1 h
    rw [fields_cons]
    refine (oneLine_pushKey.append (.append ?_ (.cons (by decide) (hf _)))).append ?_
    · cases f.required <;> decide
    · unfold moreFields
      split_ifs
      · exact oneLine_nil
      · exact OneLine.append (by decide) (ih hfs)

/-- A type whose nodes below are written on one line is written on one line. -/
theorem oneLine_ty_of_kind {t : Ty N}
    (harr : ∀ items, t.kind = .array items → ∀ name, OneLine (r.ty items name))
    (hobj : ∀ obj, t.kind = .object obj → ∀ f ∈ obj.fields, ∀ name, OneLine (r.ty f.ty name)) :
    OneLine (r.ty t name) := by
  obtain ⟨kind, nullable, description, default⟩ := t
  refine ((?_ : OneLine (r.kind kind)).append oneLine_nullMark).append oneLine_suffix
  cases kind with
  | str f =>
    cases f with
    | none => exact (by decide : OneLine "str")
    | some f =>
      rw [kind]
      cases f <;> decide
  | int range | num range => exact OneLine.append (by decide) oneLine_pushRange
  | bool => exact (by decide : OneLine "bool")
  | any => exact (by decide : OneLine "any")
  | anyObject => exact (by decide : OneLine "obj")
  | enum values => exact oneLine_literals
  | array items => exact .cons (by decide) ((harr items rfl none).append (by decide))
  | object obj =>
    obtain ⟨fs, closed⟩ := obj
    refine .cons (by decide) ((oneLine_fields (hobj _ rfl)).append (.cons (by decide) ?_))
    cases closed <;> decide

theorem oneLine_ty (r : Renderer) {n : Nat} {t : Ty N} (h : WellFormed n t) (name : Option Str) :
    OneLine (r.ty t name) := by
  induction n generalizing t name with
  | zero => exact h.elim
  | succ n ih =>
    obtain ⟨-, hok⟩ := h
    refine oneLine_ty_of_kind (fun items hk name => ?_) (fun obj hk f hf name => ?_)
    · rw [hk] at hok
      rcases hok with rfl | hit
      · exact oneLine_ty_of_kind nofun nofun
      · exact ih hit name
    · rw [hk] at hok
      exact ih (hok.2 f hf) name

end

/-! ## One tool -/

variable {N F : Type} [SerdeJson N F] {u : Unicode} {tool : ToolDef N} {earlier : List (ToolDef N)}
  {obj : Object (Ty N)}
  {tools : List (ToolDef N)} {text : Str} {mark : Bool}

theorem wellFormed_parameters (hcan : ∀ p ∈ tool.parameters, p.Canonical)
    (h : parameters tool = .ok obj) :
    Arranged obj.fields ∧ ∀ f ∈ obj.fields, WellFormed maxDepth f.ty := by
  have hnil : Arranged ([] : List (Field (Ty N))) := ⟨.nil, .nil⟩
  unfold parameters at h
  split at h
  · obtain rfl := ok.inj h
    exact ⟨hnil, by simp⟩
  · next schema hsch =>
    split at h
    · next obj' hobj =>
      obtain rfl := ok.inj h
      obtain ⟨t, ht, hobj⟩ := bind_eq_ok_iff.1 hobj
      have hwf := wellFormed_fromJson (hcan schema hsch) ht
      split_ifs at hobj
      split at hobj
      · next o hk =>
        obtain rfl := ok.inj hobj
        have hok := hwf.2
        rw [hk] at hok
        exact hok
      · obtain rfl := ok.inj hobj
        exact ⟨hnil, by simp⟩
      · cases hobj
    · cases h

/-- What stands behind the arguments of a tool. -/
def toolTail (description : Option Str) : Str :=
  match description with
  | some desc => if desc.isEmpty then [] else " - " ++ pushEscaped desc []
  | none => []

theorem head_toolTail : (toolTail description).head? ≠ some '!' := by
  unfold toolTail
  split
  · split_ifs
    · simp
    · rintro ⟨⟩
  · simp

theorem oneLine_toolTail : OneLine (toolTail description) := by
  unfold toolTail
  split
  · split_ifs
    · exact oneLine_nil
    · exact OneLine.append (by decide) oneLine_pushEscaped
  · exact oneLine_nil

theorem renderTool_eq (h : renderTool u .keep tool = .ok line) :
    ∃ obj r, parameters tool = .ok obj ∧ r.policy = .keep ∧
      line = tool.name ++ '(' :: (fields r obj.fields ++
        ')' :: ((if obj.closed && tool.parameters.isSome then ['!'] else []) ++
          toolTail tool.description)) := by
  obtain ⟨obj, hobj, h⟩ := bind_eq_ok_iff.1 h
  exact ⟨obj, ⟨.keep, words u tool.name, u⟩, hobj, rfl, (ok.inj h).symm⟩

omit [SerdeJson N F] in
theorem toolDescription_reads (description : Option Str) (i : Nat) :
    toolDescription ⟨i, toolTail description⟩ =
      .ok (description.filter fun desc => !desc.isEmpty) := by
  cases description with
  | none => rfl
  | some desc =>
    by_cases hemp : desc.isEmpty = true
    · obtain rfl := isEmpty_iff.1 hemp
      rfl
    · have hdrop : (" - " ++ pushEscaped desc []).drop 3 = pushEscaped desc [] := rfl
      rw [toolTail, if_neg hemp, Option.filter_some, if_pos (by simpa using hemp),
        toolDescription, if_pos (by simp), hdrop, unescape_pushEscaped]
      rfl

theorem toolParts_reads [ReadsJson N] [WritesJson N] (hname : name ≠ [])
    (hcha : ∀ c ∈ name, isToolNameByte c = true) (harr : Arranged obj.fields)
    (hwf : ∀ f ∈ obj.fields, WellFormed maxDepth f.ty) (hs : Legible (.plain (.object obj)))
    (hr : r.policy = .keep) :
    toolParts (name ++ '(' :: (r.fields obj.fields ++
        ')' :: ((if mark then ['!'] else []) ++ toolTail description))) =
      .ok (name, ⟨stripFields obj.fields, mark⟩, description.filter fun desc => !desc.isEmpty) := by
  obtain ⟨-, -, -, hnm, hobj⟩ := hs
  generalize htail : toolTail description = tail
  have hopen : ∀ rest, Ends (· == '(') ('(' :: rest) := by simp [Ends]
  obtain ⟨i₁, h₁⟩ := takeWhile_reads hcha (· == '(') (by
    intro c hc
    obtain rfl : c = '(' := by simpa using hc
    decide) 0 _ (hopen (r.fields obj.fields ++ ')' :: ((if mark then ['!'] else []) ++ tail)))
  have hfs : ∀ f ∈ obj.fields, f.name ≠ [] ∧ ReadsTy r f.ty := fun f hf =>
    ⟨hnm obj rfl f hf, parseTy_reads hr (hwf f hf) (hobj obj rfl f hf)⟩
  generalize hli : name ++ '(' :: (r.fields obj.fields ++
    ')' :: ((if mark then ['!'] else []) ++ tail)) = line at h₁ ⊢
  have hfuel : 4 * (r.fields obj.fields).length + 2 ≤ 4 * line.length + 4 := by
    rw [← hli]
    simp only [length_append, length_cons]
    omega
  obtain ⟨i₂, h₂⟩ := parseFields_reads harr hfs hfuel ')' rfl (i₁ + 1)
    ((if mark then ['!'] else []) ++ tail)
  obtain ⟨i₃, h₃⟩ := eat_mark mark (htail ▸ head_toolTail) (i₂ + 1)
  have hd := toolDescription_reads description i₃
  rw [htail] at hd
  have hemp : ¬ name.isEmpty = true := by simpa using hname
  rw [toolParts, ok.inj h₁]
  dsimp only
  rw [if_neg hemp, expect_cons, ok_bind, h₂, ok_bind]
  rw [expect_cons, ok_bind, h₃]
  rw [hd]
  rfl

/-! ## The schema that is read back -/

omit [SerdeJson N F] in
theorem kind_of_stripKind_any {kind : Kind N (Ty N)} (h : stripKind kind = .any) : kind = .any := by
  cases kind with
  | any => rfl
  | _ => cases h

theorem writable_strip {t : Ty N} (hs : Survives t) : Writable t.strip := by
  induction hs with
  | @mk t _ _ henum _ _ hany _ iharray ihobject =>
    obtain ⟨kind, nullable, description, default⟩ := t
    cases kind with
    | enum values =>
      refine .mk ?_ nofun nofun nofun
      rintro _ ⟨⟩
      exact ⟨rfl, henum values rfl⟩
    | array items =>
      refine .mk nofun ?_ nofun nofun
      rintro _ ⟨⟩
      exact iharray items rfl
    | object obj =>
      obtain ⟨fields, closed⟩ := obj
      have hmem : ∀ f ∈ stripFields fields, ∃ g ∈ fields, f = ⟨g.name, g.required, g.ty.strip⟩ := by
        intro f hf
        rw [stripFields_eq_map, mem_map] at hf
        obtain ⟨g, hg, rfl⟩ := hf
        exact ⟨g, hg, rfl⟩
      refine .mk nofun nofun ?_ ?_
      · rintro _ ⟨⟩ f hf hk
        obtain ⟨g, hg, rfl⟩ := hmem f hf
        rw [strip_omittable]
        exact hany _ rfl g hg (kind_of_stripKind_any ((strip_kind g.ty).symm.trans hk))
      · rintro _ ⟨⟩ f hf
        obtain ⟨g, hg, rfl⟩ := hmem f hf
        exact ihobject _ rfl g hg
    | _ => exact .mk nofun nofun nofun nofun

theorem parametersFromJson_toJson (harr : Arranged obj.fields)
    (hwf : ∀ f ∈ obj.fields, WellFormed maxDepth f.ty) (hs : Survives (.plain (.object obj))) :
    ∃ obj', Ty.parametersFromJson
        (Ty.toJson (.plain (.object ⟨stripFields obj.fields, mark⟩))) = .ok obj' ∧
      ∀ args, Validate.object args obj' "$" = Validate.object args ⟨obj.fields, mark⟩ "$" := by
  obtain ⟨fields, closed⟩ := obj
  obtain ⟨-, -, hany, hobj⟩ := writable_strip hs
  have hmem : ∀ f ∈ stripFields fields, WellFormed maxDepth f.ty := by
    intro f hf
    rw [stripFields_eq_map, mem_map] at hf
    obtain ⟨g, hg, rfl⟩ := hf
    exact wellFormed_strip (hwf g hg)
  obtain ⟨fields', hfrom, hagr⟩ := fromJson_object mark (arranged_stripFields harr)
    (fun f hf => fromJson_toJson (hmem f hf) (hobj _ rfl f hf)) (hany _ rfl)
  have hstr : Forall₂ FieldAgree (stripFields fields) fields := by
    rw [stripFields_eq_map, forall₂_map_left_iff, forall₂_same]
    exact fun f hf => ⟨rfl, rfl, strip_omittable f, agree_strip (hwf f hf)⟩
  refine ⟨⟨fields', mark⟩, ?_, fun args => ?_⟩
  · rw [Ty.parametersFromJson, Ty.plain, hfrom]
    rfl
  · rw [← Validate.object_congr hagr, Validate.object_congr hstr]

/-- What a tool that was read back accepts, compared with the tool that was written. -/
def SameArguments (tool tool' : ToolDef N) : Prop :=
  ∃ obj obj', parameters tool = .ok obj ∧ parameters tool' = .ok obj' ∧
    ∀ args, Validate.object args obj' "$" =
      if tool.parameters.isSome then Validate.object args obj "$" else .ok ()

theorem object_open {args : Entries (Json N)} {path : Str} :
    Validate.object args ⟨[], false⟩ path = .ok () := by
  have hent : ∀ args : List (Str × Json N), Validate.tyEntries args ⟨[], false⟩ path = .ok () := by
    intro args
    induction args with
    | nil => rfl
    | cons e args ih => exact ih
  exact hent args

omit [SerdeJson N F] in
theorem name_of_checkName (h : checkName tool earlier = .ok ()) :
    tool.name ≠ [] ∧ ∀ c ∈ tool.name, isToolNameByte c = true := by
  unfold checkName at h
  dsimp only at h
  split_ifs at h with h₁ h₂ h₃
  refine ⟨fun hnil => h₁ (by simp [hnil]), ?_⟩
  simpa using h₂

/-- What the line of a tool with these arguments says: an empty description is not written, nor is
the closing mark of a tool without parameters. -/
def partsBack (tool : ToolDef N) (obj : Object (Ty N)) : Str × Object (Ty N) × Option Str :=
  (tool.name, ⟨stripFields obj.fields, obj.closed && tool.parameters.isSome⟩,
    tool.description.filter fun desc => !desc.isEmpty)

/-- The tool that comes back. -/
def readBack (tool : ToolDef N) (obj : Object (Ty N)) : ToolDef N :=
  let (name, obj, description) := partsBack tool obj
  ⟨name, description, some (Ty.toJson (.plain (.object obj)))⟩

theorem sameArguments_readBack (hcan : ∀ p ∈ tool.parameters, p.Canonical)
    (hobj : parameters tool = .ok obj) (hs : Survives (.plain (.object obj))) :
    SameArguments tool (readBack tool obj) := by
  obtain ⟨harr, hwf⟩ := wellFormed_parameters hcan hobj
  obtain ⟨obj', hobj', hargs⟩ := parametersFromJson_toJson harr hwf hs
  refine ⟨obj, obj', hobj, ?_, fun args => ?_⟩
  · dsimp only [parameters, readBack, partsBack]
    rw [hobj']
  · rw [hargs]
    cases hp : tool.parameters with
    | some p => simp
    | none =>
      rw [parameters, hp] at hobj
      obtain rfl := ok.inj hobj
      simpa using object_open

/-- The line of an accepted tool is one line, does not look empty, and is read. -/
theorem toolParts_renderTool [ReadsJson N] [WritesJson N] (hname : tool.name ≠ [])
    (hcha : ∀ c ∈ tool.name, isToolNameByte c = true) (hcan : ∀ p ∈ tool.parameters, p.Canonical)
    (hs : ∀ obj, parameters tool = .ok obj → Legible (.plain (.object obj)))
    (h : renderTool u .keep tool = .ok line) :
    OneLine line ∧ ¬ line.all isWhitespace = true ∧
      ∃ obj, parameters tool = .ok obj ∧ toolParts line = .ok (partsBack tool obj) := by
  obtain ⟨obj, r, hobj, hr, rfl⟩ := renderTool_eq h
  obtain ⟨harr, hwf⟩ := wellFormed_parameters hcan hobj
  refine ⟨?_, ?_, ?_⟩
  · refine (oneLine_of_all (by decide) hcha).append (.cons (by decide)
      ((oneLine_fields fun f hf => oneLine_ty r (hwf f hf)).append (.cons (by decide)
        (.append ?_ oneLine_toolTail))))
    cases obj.closed && tool.parameters.isSome <;> decide
  · have hbla : isWhitespace '(' = false := by decide
    simp [hbla]
  · exact ⟨obj, hobj, toolParts_reads hname hcha harr hwf (hs obj hobj) hr⟩

theorem encodeLoop_lines (h : encodeLoop u .keep earlier tools = .ok text) :
    ∃ lines, Forall₂ (fun tool line => renderTool u .keep tool = .ok line ∧
        tool.name ≠ [] ∧ ∀ c ∈ tool.name, isToolNameByte c = true) tools lines ∧
      text = if earlier.isEmpty then joinLines lines else lines.flatMap fun l => '\n' :: l := by
  induction tools generalizing earlier text with
  | nil =>
    obtain rfl := ok.inj h
    exact ⟨[], .nil, by split_ifs <;> rfl⟩
  | cons tool tools ih =>
    obtain ⟨⟨⟩, hname, h⟩ := bind_eq_ok_iff.1 h
    obtain ⟨line, hli, h⟩ := bind_eq_ok_iff.1 h
    obtain ⟨rest, hrest, h⟩ := bind_eq_ok_iff.1 h
    obtain ⟨lines, hlin, hrest⟩ := ih hrest
    refine ⟨line :: lines, .cons ⟨hli, name_of_checkName hname⟩ hlin, ?_⟩
    have hmore : ¬ (earlier ++ [tool]).isEmpty = true := by simp
    rw [if_neg hmore] at hrest
    rw [← ok.inj h, hrest]
    by_cases hear : earlier.isEmpty = true
    · rw [if_pos hear, if_pos hear]
      rfl
    · rw [if_neg hear, if_neg hear]
      rfl

theorem toolLines_of_forall₂ {tools' : List (ToolDef N)}
    (h : Forall₂ (fun line tool' => ¬ line.all isWhitespace = true ∧
      toolLine line = .ok tool') lines tools') {k : Nat} : toolLines k lines = .ok tools' := by
  induction h generalizing k with
  | nil => rfl
  | cons h _ ih =>
    rw [toolLines, if_neg h.1, h.2]
    rw [ih]
    rfl

/-- The line says what was rendered of the tool. -/
def SaysBack (tool : ToolDef N) (line : Str) : Prop :=
  ∃ obj, parameters tool = .ok obj ∧ toolParts line = .ok (partsBack tool obj)

theorem decodeTools_lines [ReadsJson N] [WritesJson N]
    {Same : ToolDef N → ToolDef N → Prop} (hcan : ∀ tool ∈ tools, ∀ p ∈ tool.parameters,
      p.Canonical)
    (hs : ∀ tool ∈ tools, ∀ obj, parameters tool = .ok obj → Legible (.plain (.object obj)))
    (hsame : ∀ tool ∈ tools, ∀ obj, parameters tool = .ok obj → Same tool (readBack tool obj))
    (h : encodeToolsWith u .keep tools = .ok text) :
    (∃ tools', decodeTools text = .ok tools' ∧ Forall₂ Same tools tools') ∧
      Forall₂ SaysBack tools (Str.lines text) := by
  obtain ⟨lines, hlin, htext⟩ := encodeLoop_lines h
  obtain rfl : text = joinLines lines := htext
  have hread : ∃ tools', Forall₂ (fun line tool' => ¬ line.all isWhitespace = true ∧
        toolLine line = .ok tool') lines tools' ∧ (∀ l ∈ lines, OneLine l ∧ l ≠ []) ∧
      Forall₂ Same tools tools' ∧ Forall₂ SaysBack tools lines := by
    clear h
    induction hlin with
    | nil => exact ⟨[], .nil, by simp, .nil, .nil⟩
    | @cons tool line tools lines hli _ ih =>
      obtain ⟨hcan₁, hcan⟩ := forall_mem_cons.1 hcan
      obtain ⟨hs₁, hs⟩ := forall_mem_cons.1 hs
      obtain ⟨hsame₁, hsame⟩ := forall_mem_cons.1 hsame
      obtain ⟨tools', h₁, h₂, h₃, h₄⟩ := ih hcan hs hsame
      obtain ⟨hone, hbla, obj, hobj, hread⟩ := toolParts_renderTool
        hli.2.1 hli.2.2 hcan₁ hs₁ hli.1
      have hne : line ≠ [] := fun hnil => hbla (by simp [hnil])
      have htool : toolLine line = .ok (readBack tool obj) := by
        rw [toolLine, hread]
        rfl
      exact ⟨readBack tool obj :: tools', .cons ⟨hbla, htool⟩ h₁,
        forall_mem_cons.2 ⟨⟨hone, hne⟩, h₂⟩, .cons (hsame₁ obj hobj) h₃,
        .cons ⟨obj, hobj, hread⟩ h₄⟩
  obtain ⟨tools', h₁, h₂, h₃, h₄⟩ := hread
  rw [decodeTools, definitions, lines_joinLines h₂]
  exact ⟨⟨tools', toolLines_of_forall₂ h₁, h₃⟩, h₄⟩

/-- **The model is read back.** The lines of the text are read as the arguments that were rendered,
up to the `nullable` flag of enums, and each tool comes back with its description and with the JSON
of them; an empty description comes back as none, and a tool without parameters as one with an open
object. -/
theorem decodeTools_model (hreads : ReadsJson N) (hwrites : WritesJson N) (u : Unicode)
    (hcan : ∀ tool ∈ tools, ∀ p ∈ tool.parameters, p.Canonical)
    (hs : ∀ tool ∈ tools, ∀ obj, parameters tool = .ok obj → Legible (.plain (.object obj)))
    (h : encodeToolsWith u .keep tools = .ok text) :
    (∃ tools', decodeTools text = .ok tools' ∧
      Forall₂ (fun tool tool' => ∃ obj, parameters tool = .ok obj ∧
        tool' = readBack tool obj) tools tools') ∧ Forall₂ SaysBack tools (Str.lines text) :=
  decodeTools_lines hcan hs (fun _ _ obj hobj => ⟨obj, hobj, rfl⟩) h

/-- **Tool definitions survive.** What was encoded is decoded, and each tool comes back with a
schema that accepts the arguments that the tool itself accepts; a tool without parameters comes back
as one that accepts every object. -/
theorem decodeTools_encodeToolsWith (hreads : ReadsJson N) (hwrites : WritesJson N) (u : Unicode)
    {tools : List (ToolDef N)} (hcan : ∀ tool ∈ tools, ∀ p ∈ tool.parameters, p.Canonical)
    (hs : ∀ tool ∈ tools, ∀ obj, parameters tool = .ok obj → Survives (.plain (.object obj)))
    {text : Str} (h : encodeToolsWith u .keep tools = .ok text) :
    ∃ tools', decodeTools text = .ok tools' ∧
      Forall₂ (fun tool tool' => tool'.name = tool.name ∧ SameArguments tool tool')
        tools tools' := by
  refine (decodeTools_lines hcan (fun tool htool obj hobj => (hs tool htool obj hobj).legible)
    ?_ h).1
  intro tool htool obj hobj
  exact ⟨rfl, sameArguments_readBack (hcan tool htool) hobj (hs tool htool obj hobj)⟩

/-- The character classes of `char` on ASCII. -/
def asciiUnicode : Unicode where
  isAlphanumeric := isAsciiAlphanumeric
  isUppercase c := 'A' ≤ c && c ≤ 'Z'
  isLowercase c := 'a' ≤ c && c ≤ 'z'
  isNumeric c := '0' ≤ c && c ≤ '9'
  toLowercase c := [c.toLower]

/-- A tool without parameters. -/
def ping : ToolDef Int := ⟨"ping", some "Is it up?", none⟩

/-- The schema of `days`, with a bound and a default. -/
def daysSchema : Json Int :=
  .object [("default", .number 3), ("minimum", .number 1),
    ("type", .string "integer")]

/-- The schema of `unit`, an enum with a member that has to be quoted. -/
def unitSchema : Json Int :=
  .object [("description", .string "it's a unit"),
    ("enum", .array [.string "c", .string "any"])]

/-- A tool with an enum, a bound and a default. -/
def forecast : ToolDef Int :=
  ⟨"forecast", none, some (.object [("additionalProperties", .bool false),
    ("properties", .object [("days", daysSchema), ("unit", unitSchema)]),
    ("required", .array [.string "unit"]),
    ("type", .string "object")])⟩

/-- The arguments of `forecast`. -/
def forecastArguments : Object (Ty Int) :=
  ⟨[⟨"unit", true, ⟨.enum [.string "c", .string "any"], false,
      some "it's a unit", none⟩⟩,
    ⟨"days", false, ⟨.int ⟨some 1, none⟩, false, none, some (.number 3)⟩⟩], true⟩

theorem survives_forecast : Survives (.plain (.object forecastArguments)) := by
  have hunit : Survives (⟨.enum [.string "c", .string "any"], false,
      some "it's a unit", none⟩ : Ty Int) := by
    refine .mk nofun ?_ ?_ nofun nofun nofun
      nofun
    · exact forall_mem_cons.2 ⟨.string _, forall_mem_singleton.2 (.string _)⟩
    · rintro _ ⟨⟩ hnull
      cases hnull
  have hdays : Survives (⟨.int ⟨some 1, none⟩, false, none, some (.number 3)⟩ : Ty Int) := by
    refine .mk ?_ ⟨?_, nofun⟩ nofun nofun nofun
      nofun nofun
    · rintro _ ⟨⟩
      exact ⟨by decide, .number (by decide +kernel : Exact (3 : Int))⟩
    · rintro _ ⟨⟩
      exact (by decide +kernel : Exact (1 : Int))
  refine .mk nofun trivial nofun nofun ?_ ?_ ?_
  · rintro _ ⟨⟩
    exact forall_mem_cons.2 ⟨by decide, forall_mem_singleton.2 (by decide)⟩
  · rintro _ ⟨⟩
    exact forall_mem_cons.2 ⟨nofun, forall_mem_singleton.2 nofun⟩
  · rintro _ ⟨⟩
    exact forall_mem_cons.2 ⟨hunit, forall_mem_singleton.2 hdays⟩

theorem survives_ping : Survives (N := Int) (.plain (.object ⟨[], true⟩)) :=
  .mk nofun trivial nofun nofun (by rintro _ ⟨⟩ f ⟨⟩)
    (by rintro _ ⟨⟩ f ⟨⟩) (by rintro _ ⟨⟩ f ⟨⟩)

theorem canonical_forecast : ∀ p ∈ forecast.parameters, p.Canonical := by
  rintro p hp
  have hval : (forecast.parameters.map Json.toValue) = forecast.parameters := by decide +kernel
  rw [hp, Option.map_some, Option.some_inj] at hval
  exact hval ▸ Json.canonical_toValue p

theorem canonical_sample : ∀ tool ∈ [forecast, ping], ∀ p ∈ tool.parameters, p.Canonical :=
  forall_mem_cons.2 ⟨canonical_forecast, forall_mem_singleton.2 nofun⟩

theorem survives_sample : ∀ tool ∈ [forecast, ping], ∀ obj, parameters tool = .ok obj →
    Survives (.plain (.object obj)) := by
  refine forall_mem_cons.2 ⟨fun obj h => ?_, forall_mem_singleton.2 fun obj h => ?_⟩
  · exact ok.inj h ▸ survives_forecast
  · obtain rfl : ⟨[], true⟩ = obj := ok.inj h
    exact survives_ping

/-- The text of the two tools. -/
def sampleText : Str :=
  "forecast(unit:c|'any' 'it\\'s a unit', days?:int(1..)=3)!\nping() - Is it up?"

theorem encode_sample : encodeToolsWith asciiUnicode .keep [forecast, ping] = .ok sampleText := by
  decide +kernel

theorem decodeTools_model_forecast :
    encodeToolsWith asciiUnicode .keep [forecast, ping] = .ok sampleText ∧
      (∃ tools', decodeTools sampleText = .ok tools' ∧
        Forall₂ (fun tool tool' => ∃ obj, parameters tool = .ok obj ∧
          tool' = readBack tool obj) [forecast, ping] tools') ∧
      Forall₂ SaysBack [forecast, ping] (Str.lines sampleText) := by
  refine ⟨encode_sample, decodeTools_model Json.Integers.readsJson Json.Integers.writesJson
    asciiUnicode canonical_sample (fun tool htool obj hobj => ?_) encode_sample⟩
  exact (survives_sample tool htool obj hobj).legible

/-- No property of `ping` has an empty name, and its line is read, but as a tool with an open
object. -/
theorem ping_read_back_open : parameters ping = .ok ⟨[], true⟩ ∧
      encodeToolsWith asciiUnicode .keep [ping] = .ok "ping() - Is it up?" ∧
      decodeTools (N := Int) "ping() - Is it up?" =
        .ok [⟨"ping", some "Is it up?", some (Ty.toJson (.plain (.object ⟨[], false⟩)))⟩] ∧
      Ty.toJson (N := Int) (.plain (.object ⟨[], false⟩)) ≠
        Ty.toJson (.plain (.object ⟨[], true⟩)) :=
  ⟨rfl, by decide +kernel, by decide +kernel, by decide +kernel⟩

theorem decodeTools_encodeToolsWith_forecast :
    ∃ text tools', encodeToolsWith asciiUnicode .keep [forecast, ping] = .ok text ∧
      decodeTools text = .ok tools' ∧
      Forall₂ (fun tool tool' => tool'.name = tool.name ∧ SameArguments tool tool')
        [forecast, ping] tools' := by
  obtain ⟨tools', h₁, h₂⟩ := decodeTools_encodeToolsWith Json.Integers.readsJson
    Json.Integers.writesJson asciiUnicode canonical_sample survives_sample encode_sample
  exact ⟨_, tools', encode_sample, h₁, h₂⟩

/-! ### Tools that come back as another tool -/

def accepts (tool : ToolDef Int) (args : Entries (Json Int)) : Bool :=
  match parameters tool with
  | .ok obj => Validate.object args obj "$" = .ok ()
  | .error _ => false

def isEncoded (tool : ToolDef Int) : Bool :=
  match encodeToolsWith asciiUnicode .keep [tool] with
  | .ok _ => true
  | .error _ => false

/-- Does the tool accept the arguments when it has been encoded and decoded? -/
def acceptsReadBack (tool : ToolDef Int) (args : Entries (Json Int)) : Bool :=
  match encodeToolsWith asciiUnicode .keep [tool] >>= decodeTools with
  | .ok [tool'] => accepts tool' args
  | _ => false

def oneProperty (name : String) (required : List (Json Int)) (schema : Json Int) : ToolDef Int :=
  ⟨"t", none, some (.object [("properties", .object [(name.toList, schema)]),
    ("required", .array required), ("type", .string "object")])⟩

/-- The schema or null, by `anyOf`. -/
def orNull (schema : Json Int) : Json Int :=
  .object [("anyOf",
    .array [schema, .object [("type", .string "null")]])]

/-- The tool is encoded and comes back as one that decides otherwise about the arguments. -/
def ReadsBackOtherwise (tool : ToolDef Int) (args : Entries (Json Int)) : Prop :=
  isEncoded tool = true ∧ acceptsReadBack tool args ≠ accepts tool args

instance (tool : ToolDef Int) (args : Entries (Json Int)) :
    Decidable (ReadsBackOtherwise tool args) :=
  inferInstanceAs
    (Decidable (isEncoded tool = true ∧ acceptsReadBack tool args ≠ accepts tool args))

/-- Tools that are encoded and come back as a tool that decides otherwise about some arguments.
The first one takes no arguments, and its line does not say so. The others are a property without
a name, a `null` next to members of one type, a required property of any type that may be left out,
and a default that nests too deep to be read. -/
theorem tools_read_back_otherwise : ReadsBackOtherwise ping [("x", .number 1)] ∧
      ReadsBackOtherwise (oneProperty "" [] (.object [])) [] ∧
      ReadsBackOtherwise (oneProperty "a" [] (.object [("enum", .array [.string "b", .null])])) [] ∧
      ReadsBackOtherwise (oneProperty "a" [.string "a"] (orNull (.object []))) [] ∧
      ReadsBackOtherwise (oneProperty "a" [] (.object [("default", nest 128)])) [] := by
  decide +kernel

end Nasiko.ToolCompact
