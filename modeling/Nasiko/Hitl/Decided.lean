import Nasiko.Hitl.System

/-!
# A decision is final

Five statements write the columns of a decision: the resolve of a row, the resolve of everything
that waits for a connector, a cancel, the expiry, and the start of an authorization. Each of them
selects pending rows only, and no other statement touches what was decided (`set_decision`). So a
decision is kept by every command, and between any two times of a run.

Main results: `decided_once`; `selection_kept_iff` about what is stored of an answer, and
`told_chosen` about what an agent is told of it.
-/

namespace Nasiko.Hitl

open Concurrency Sql Option Bool Json State Str

variable {config : Config} {r : HitlRequest}

/-- What was decided about a row: its status, the response, and who gave it. -/
def HitlRequest.decision (r : HitlRequest) : HitlStatus × Option Value × Option Uuid :=
  (r.status, r.humanResponse, r.resolvedBy)

theorem set_decision {w : World} {t : Requests} {q : Statement} {u : Update}
    (heff : q.effect w t = .update u) (hsel : u.selects r = true)
    (hdec : r.status ≠ .pending) : (u.set r).decision = r.decision := by
  -- An update that sets a column of the decision has `status = 'pending'` in its `WHERE`.
  have hgua : ∀ b : Bool, (b && r.status == .pending) = true → False := by
    intro b h
    simp only [and_eq_true, beq_iff_eq] at h
    exact hdec h.2
  cases q with
  | insertOrRefresh req conflict expiresAt =>
    simp only [Statement.effect] at heff
    split at heff
    · cases heff
      rfl
    · cases heff
  | updateResolve id status response resolvedBy =>
    cases heff
    exact absurd hsel fun h => hgua _ h
  | updateResolveConnector owner connector response =>
    cases heff
    simp only [and_eq_true, beq_iff_eq] at hsel
    exact absurd hsel.1.1.2 hdec
  | updateCancel id canceledBy =>
    cases heff
    exact absurd hsel fun h => hgua _ h
  | updateExpire =>
    cases heff
    simp only [and_eq_true, beq_iff_eq] at hsel
    exact absurd hsel.1 hdec
  | updateAuthStart id =>
    cases heff
    simp only [and_eq_true, beq_iff_eq] at hsel
    exact absurd hsel.1.2 hdec
  | _ =>
    cases heff
    try rfl

/-- A row that was decided is decided in the same way. -/
def KeepsDecision (r r' : HitlRequest) : Prop := r.status ≠ .pending → r'.decision = r.decision

theorem invariable_keepsDecision : Invariable KeepsDecision where
  refl r _ := rfl
  trans r r' r'' h h' hdec := by
    have hsame := h hdec
    have hst : r'.status = r.status := congrArg Prod.fst hsame
    exact (h' (hst ▸ hdec)).trans hsame
  set w t q u r heff hsel := set_decision heff hsel

/-- The step ends the wait of the row. -/
def LeavesPending (st : Step (hitlSystem config)) (id : Uuid) : Prop :=
  (∃ r, row st.before.state id = some r ∧ r.status = .pending) ∧
    ∃ r, row st.after.state id = some r ∧ r.status ≠ .pending

theorem not_leavesPending_later {s : State} {st : Step (hitlSystem config)} {id : Uuid}
    (hke : RowsKept KeepsDecision s st.before.state) (hrow : s.row id = some r)
    (hdec : r.status ≠ .pending) : ¬ LeavesPending st id := by
  rintro ⟨⟨x, hx, hpend⟩, -⟩
  obtain ⟨r', hr', hdcs⟩ := hke id r hrow
  obtain rfl : r' = x := some.inj (hr'.symm.trans hx)
  have hst : r'.status = r.status := congrArg Prod.fst (hdcs hdec)
  exact hdec (hst.symm.trans hpend)

/-- **A row is decided once.** In every run, from any database, at most one step takes a row out of
`pending`; and a row that is decided before some step has the same status, the same response and the
same `resolved_by` after that step and after every later one. -/
theorem decided_once {s : State} {h : List (Step (hitlSystem config))}
    {c : Concurrency.Config (hitlSystem config)} (hruns : Runs ⟨s, []⟩ h c) (id : Uuid) :
    (∀ (m n : Nat) (st st' : Step (hitlSystem config)), h[m]? = some st → h[n]? = some st' →
      LeavesPending st id → LeavesPending st' id → m = n) ∧
    ∀ (m n : Nat) (st st' : Step (hitlSystem config)) (r : HitlRequest), h[m]? = some st →
      h[n]? = some st' → m ≤ n → row st.before.state id = some r → r.status ≠ .pending →
      ∃ r', row st'.after.state id = some r' ∧ r'.decision = r.decision := by
  have hke : Persistent (hitlSystem config) (RowsKept KeepsDecision) :=
    invariable_keepsDecision.persistent
  have hfst : ∀ (m n : Nat) (st st' : Step (hitlSystem config)), h[m]? = some st →
      h[n]? = some st' → LeavesPending st id → LeavesPending st' id → ¬ m < n := by
    intro m n st st' hm hn hlea hlea' hlt
    obtain ⟨-, r, hrow, hdec⟩ := hlea
    exact not_leavesPending_later (hke.between hruns hm hn hlt) hrow hdec hlea'
  constructor
  · intro m n st st' hm hn hlea hlea'
    rcases Nat.lt_trichotomy m n with hlt | heq | hgt
    · exact absurd hlt (hfst m n st st' hm hn hlea hlea')
    · exact heq
    · exact absurd hgt (hfst n m st' st hn hm hlea' hlea)
  · intro m n st st' r hm hn hle hrow hdec
    have hpath : RowsKept KeepsDecision st.before.state st'.after.state := by
      rcases Nat.lt_or_eq_of_le hle with hlt | rfl
      · exact hke.trans _ _ _ (hke.trans _ _ _ (hke.to_end hruns hm).1
          (hke.between hruns hm hn hlt)) (hke.to_end hruns hn).1
      · obtain rfl : st = st' := some.inj (hm.symm.trans hn)
        exact (hke.to_end hruns hm).1
    obtain ⟨r', hr', hdcs⟩ := hpath id r hrow
    exact ⟨r', hr', hdcs hdec⟩

/-- The user agrees, and then cancels what they have agreed to. -/
def approveThenCancel : List (Action Request) :=
  .spawn (.resolve owner 1 approveOnce) :: .spawn (.cancel owner 1) ::
    (List.replicate 6 (.run 0 .done) ++ List.replicate 3 (.run 1 .done))

/-- The second step of the first request decides about the row, and the cancel changes nothing. -/
theorem approve_then_cancel_once :
    ∃ (h : List (Step (hitlSystem sampleConfig))) (c : _), Runs ⟨waiting, []⟩ h c ∧
      (∃ st, h[3]? = some st ∧ LeavesPending st 1) ∧
      ∃ st r, h[10]? = some st ∧ row st.after.state 1 = some r ∧
        r.decision = (.resolved, some (toolResponse .approve grantScopeOnce none), some 7) := by
  obtain ⟨h, c, hruns, hp⟩ := exists_runs
    (⟨waiting, []⟩ : Concurrency.Config (hitlSystem sampleConfig)) approveThenCancel
    (fun h _ =>
      (h[3]?.any fun st => (row st.before.state 1).any (fun r => r.status == .pending) &&
        (row st.after.state 1).any fun r => r.status != .pending) &&
      (h[4]?.any fun st => (row st.before.state 1).any fun r => r.status != .pending &&
        r.decision = (.resolved, some (toolResponse .approve grantScopeOnce none), some 7)) &&
      h[10]?.isSome)
    (by decide +kernel)
  simp only [and_eq_true, any_eq_true, beq_iff_eq, bne_iff_ne, decide_eq_true_eq] at hp
  obtain ⟨⟨⟨st₃, hst₃, hbef, haft⟩, st₄, hst₄, r, hr, hdec, hdcs⟩, hlast⟩ := hp
  obtain ⟨st, hst⟩ := isSome_iff_exists.1 hlast
  obtain ⟨r', hr', hsame⟩ := (decided_once hruns 1).2 4 10 st₄ st r hst₄ hst (by omega) hr hdec
  exact ⟨h, c, hruns, ⟨st₃, hst₃, hbef, haft⟩, st, r', hst, hr', hsame.trans hdcs⟩

/-! ## What is stored, and what an agent is told

The route checks an answer to a question with options and stores it as a document; the dispatcher
makes a text for the agent of that. -/

open List

variable {opts : StructuredOptions}

/-- The strings of an answer, as they were sent. -/
def sent : Option HitlAnswer → List Str
  | none => []
  | some (.single s) => [s]
  | some (.multiple items) => items

/-- What is left of a custom answer. -/
def customText (custom : Option Str) : Option Str := (custom.map trim).filter fun c => c ≠ []

/-- The labels are what was picked: without blanks around them, each once, in their order. -/
structure Picks (items labels : List Str) : Prop where
  sublist : labels <+ items.map trim
  nodup : labels.Nodup
  mem_iff : ∀ l, l ∈ labels ↔ l ∈ items.map trim ∧ l ≠ []

theorem selectLabels_ok {normalized selected labels : List Str} (hnodup : normalized.Nodup)
    (h : selectLabels opts normalized selected = .ok labels) :
    ∃ rest, labels = normalized ++ rest ∧ rest <+ selected.map trim ∧ rest ⊆ opts.labels ∧
      labels.Nodup ∧ ∀ l, l ∈ labels ↔ l ∈ normalized ∨ l ∈ selected.map trim ∧ l ≠ [] := by
  induction selected generalizing normalized with
  | nil =>
    cases h
    exact ⟨[], (append_nil _).symm, Sublist.slnil, nil_subset _, hnodup, by simp⟩
  | cons label selected ih =>
    rw [selectLabels] at h
    split_ifs at h with hblank hoff hdup
    case neg =>
      have hnew : trim label ∉ normalized := by simpa using hdup
      obtain ⟨rest, rfl, hsub, hoffered, hnodup, hmem⟩ :=
        ih (concat_eq_append ▸ hnodup.concat hnew) h
      refine ⟨trim label :: rest, by simp, hsub.cons_cons _, ?_, hnodup, fun l => ?_⟩
      · refine cons_subset.2 ⟨?_, hoffered⟩
        simpa [StructuredOptions.contains] using hoff
      · rw [hmem, map_cons, mem_cons, mem_append, mem_singleton]
        grind
    -- A label that is blank or there already is passed over.
    all_goals
      obtain ⟨rest, rfl, hsub, hoffered, hnodup, hmem⟩ := ih hnodup h
      refine ⟨rest, rfl, hsub.cons _, hoffered, hnodup, fun l => ?_⟩
      rw [hmem, map_cons, mem_cons]
      grind

/-- What is stored of an answer that is accepted. -/
inductive Stored (opts : StructuredOptions) (answer : Option HitlAnswer) (custom : Option Str) :
    Value → Prop
  | single (s : Str) : opts.multiSelect = false → answer = some (.single s) → trim s ≠ [] →
      (trim s ∈ opts.labels ∨ opts.allowCustomInput = true) →
      Stored opts answer custom (.object [("answer", .string (trim s))])
  | multiple (labels : List Str) : opts.multiSelect = true → Picks (sent answer) labels →
      labels ⊆ opts.labels → labels ++ (customText custom).toList ≠ [] →
      Stored opts answer custom (.object (("answer", .array (labels.map .string)) ::
        (customText custom).toList.map fun c => ("custom_answer", .string c)))

theorem picks_chosen {answer : Option HitlAnswer} {selected labels : List Str}
    (hchosen : chosen answer = .ok selected) (h : selectLabels opts [] selected = .ok labels) :
    Picks (sent answer) labels ∧ labels ⊆ opts.labels := by
  obtain ⟨rest, hrest, hsub, hoffered, hnodup, hmem⟩ := selectLabels_ok nodup_nil h
  obtain rfl : labels = rest := hrest
  have hsent : selected = sent answer ∨
      selected = [] ∧ ∃ s, answer = some (.single s) ∧ trim s = [] := by
    rcases answer with _ | s | items
    · cases hchosen
      exact .inl rfl
    · rw [chosen] at hchosen
      split_ifs at hchosen with hblank
      cases hchosen
      exact .inr ⟨rfl, s, rfl, hblank⟩
    · cases hchosen
      exact .inl rfl
  rcases hsent with rfl | ⟨rfl, s, rfl, hblank⟩
  · exact ⟨⟨hsub, hnodup, by simpa using hmem⟩, hoffered⟩
  · obtain rfl : labels = [] := sublist_nil.1 hsub
    exact ⟨⟨nil_sublist _, nodup_nil, by simp [sent, hblank]⟩, nil_subset _⟩

theorem stored_of_ok {answer : Option HitlAnswer} {custom : Option Str} {v : Value}
    (hv : resolveStructuredAnswer opts answer custom = .ok v) : Stored opts answer custom v := by
  unfold resolveStructuredAnswer at hv
  dsimp only at hv
  split_ifs at hv with hmulti
  · split at hv
    · cases hv
    · next selected hchosen =>
      split at hv
      · cases hv
      · next labels hlabels =>
        split_ifs at hv with hnone
        cases hv
        obtain ⟨hpicks, hoffered⟩ := picks_chosen hchosen hlabels
        exact .multiple labels hmulti hpicks hoffered (by simpa [customText] using hnone)
  · split at hv
    · next s =>
      split_ifs at hv with hblank hok
      cases hv
      refine .single s (by simpa using hmulti) rfl hblank ?_
      simpa [StructuredOptions.contains] using hok
    all_goals cases hv

/-- The strings of a stored answer. -/
def storedAnswers (v : Value) : List Str :=
  match v.get "answer" with
  | some (.string s) => [s]
  | some (.array items) => items.filterMap asStr
  | _ => []

def storedCustom (v : Value) : Option Str := (v.get "custom_answer").bind asStr

/-- The stored selection is one that the question admits: labels that were offered, each once, one
for a question with one answer; and other text only if that is allowed. -/
structure StructuredOptions.Admits (opts : StructuredOptions) (v : Value) : Prop where
  offered : ∀ a ∈ storedAnswers v, a ∈ opts.labels ∨ opts.allowCustomInput = true
  nodup : (storedAnswers v).Nodup
  one : opts.multiSelect = false → (storedAnswers v).length = 1 ∧ storedCustom v = none
  custom : storedCustom v ≠ none → opts.allowCustomInput = true

theorem filterMap_asStr (labels : List Str) :
    (labels.map (string : Str → Value)).filterMap asStr = labels := by
  rw [filterMap_map]
  exact filterMap_some

theorem stored_multiple (labels : List Str) (custom : Option Str) :
    let v : Value := .object (("answer", .array (labels.map .string)) ::
      custom.toList.map fun c => ("custom_answer", .string c))
    storedAnswers v = labels ∧ storedCustom v = custom :=
  ⟨filterMap_asStr labels, by cases custom <;> rfl⟩

/-- **A stored selection is one that the question admits, exactly if there is no other text for a
question with several answers that does not allow it.** -/
theorem selection_kept_iff (opts : StructuredOptions) (answer : Option HitlAnswer)
    (custom : Option Str) (v : Value) (hv : resolveStructuredAnswer opts answer custom = .ok v) :
    opts.Admits v ↔
      (opts.multiSelect = true → opts.allowCustomInput = true ∨ customText custom = none) := by
  cases stored_of_ok hv with
  | single s hsingle hanswer hblank hok =>
    refine iff_of_true ?_ fun h => absurd (h.symm.trans hsingle) (by decide)
    exact ⟨fun a ha => mem_singleton.1 ha ▸ hok, nodup_singleton _, fun _ => ⟨rfl, rfl⟩,
      fun h => absurd rfl h⟩
  | multiple labels hmulti hpicks hoffered hsome =>
    obtain ⟨hanswers, hcustom⟩ := stored_multiple labels (customText custom)
    refine ⟨fun h _ => ?_, fun h => ⟨fun a ha => ?_, ?_, fun h' => ?_, fun h' => ?_⟩⟩
    · by_cases hnone : customText custom = none
      · exact .inr hnone
      · exact .inl (h.custom (hcustom.trans_ne hnone))
    · rw [hanswers] at ha
      exact .inl (hoffered ha)
    · rw [hanswers]
      exact hpicks.nodup
    · exact absurd (h'.symm.trans hmulti) (by decide)
    · rw [hcustom] at h'
      exact (h hmulti).resolve_right h'

/-- Other text is stored for a question that does not allow it. -/
theorem custom_text_stored :
    let opts : StructuredOptions := ⟨["a", "b"], true, false⟩
    let v : Value := .object [("answer", .array [.string "b"]), ("custom_answer", .string "c")]
    resolveStructuredAnswer opts (some (.multiple ["b"])) (some "c") = .ok v ∧ ¬ opts.Admits v :=
  ⟨rfl, fun h => absurd (h.custom (by decide)) (by decide)⟩

theorem selection_kept_iff_allowed :
    StructuredOptions.Admits ⟨["a", "b"], true, true⟩
      (.object [("answer", .array [.string "b"]), ("custom_answer", .string "c")]) :=
  (selection_kept_iff ⟨["a", "b"], true, true⟩ (some (.multiple ["b", "b"])) (some "c") _ rfl).2
    fun _ => .inl rfl

/-- **The agent is told what was chosen**: the answer itself, or the labels that were picked and
then the other text, each on a line. -/
theorem told_chosen (opts : StructuredOptions) (answer : Option HitlAnswer) (custom : Option Str)
    (row : HitlRequest) (v : Value) (hrow : row.humanResponse = some v)
    (hv : resolveStructuredAnswer opts answer custom = .ok v) :
    (opts.multiSelect = false → ∃ s, answer = some (.single s) ∧ answerText row = trim s ∧
      trim s ≠ [] ∧ (trim s ∈ opts.labels ∨ opts.allowCustomInput = true)) ∧
    (opts.multiSelect = true → ∃ labels, Picks (sent answer) labels ∧ labels ⊆ opts.labels ∧
      labels ++ (customText custom).toList ≠ [] ∧
      answerText row = intercalate "\n" (labels ++ (customText custom).toList)) := by
  cases stored_of_ok hv with
  | single s hsingle hanswer hblank hok =>
    refine ⟨fun _ => ⟨s, hanswer, ?_, hblank, hok⟩, fun h => absurd (h.symm.trans hsingle)
      (by decide)⟩
    rw [answerText, hrow]
    rfl
  | multiple labels hmulti hpicks hoffered hsome =>
    refine ⟨fun h => absurd (h.symm.trans hmulti) (by decide),
      fun _ => ⟨labels, hpicks, hoffered, hsome, ?_⟩⟩
    rw [answerText, hrow]
    cases customText custom with
    | none => exact congrArg (fun ls => intercalate _ (ls ++ [])) (filterMap_asStr labels)
    | some c => exact congrArg (fun ls => intercalate _ (ls ++ [c])) (filterMap_asStr labels)

theorem told_chosen_other :
    let v : Value := .object [("answer", .array [.string "b"]), ("custom_answer", .string "c")]
    ∃ labels, Picks ["b", "b"] labels ∧
      answerText { pausedTask with humanResponse := some v } =
        intercalate "\n" (labels ++ ["c".toList]) := by
  obtain ⟨labels, hpicks, -, -, htold⟩ := (told_chosen ⟨["a", "b"], true, false⟩
    (some (.multiple ["b", "b"])) (some "c")
    { pausedTask with humanResponse := some _ } _ rfl rfl).2 rfl
  exact ⟨labels, hpicks, htold⟩

end Nasiko.Hitl
