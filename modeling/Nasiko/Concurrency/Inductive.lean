import Nasiko.Concurrency.System
import Mathlib.Logic.Function.Basic

/-!
# Properties of all runs

Every program of a system follows a protocol, so each task has a context that says what it knows. An
assertion `J` about the run so far, the configuration and the contexts of the tasks holds in every
run if it holds at the start and each kind of step keeps it (`Inductive.holds`). A step may be
restricted to those that meet a condition, for properties of the runs whose steps all meet it.
-/

namespace Nasiko.Concurrency

open List Function Option Config

variable {Q C : Type} {R : C → Type} {E A : Type}

/-- Every task that was not dropped follows the protocol from the context it has reached. -/
structure Knows (S : System Q C R E A) (P : Protocol C R E)
    (post : Q → P.Ctx → Except E A → Prop) (g : Nat → Option P.Ctx) (c : Config S) : Prop where
  running : ∀ i q p, c.tasks[i]? = some ⟨q, .running p⟩ → ∃ x, g i = some x ∧ Follows P x p (post q)
  known : ∀ i x, g i = some x → ∃ q p, c.tasks[i]? = some ⟨q, .running p⟩

/-- The assertion `J` is kept by every step of a run from `c₀` that meets `Meets`. -/
structure Inductive (S : System Q C R E A) (P : Protocol C R E) (c₀ : Config S) (start : Q → P.Ctx)
    (post : Q → P.Ctx → Except E A → Prop) (Meets : Step S → Prop)
    (J : List (Step S) → Config S → (Nat → Option P.Ctx) → Prop) : Prop where
  spawn : ∀ h c g q c', Runs c₀ h c → c' = ⟨c.state, c.tasks ++ [⟨q, .running (S.handle q)⟩]⟩ →
    Meets ⟨c, .spawn q, c'⟩ → Knows S P post g c → J h c g →
    J (h ++ [⟨c, .spawn q, c'⟩]) c' (Function.update g c.tasks.length (some (start q)))
  run : ∀ h c g i o q cmd k x r s c', Runs c₀ h c → c.tasks[i]? = some ⟨q, .running (.call cmd k)⟩ →
    S.exec c.state i cmd o = some (r, s) → c' = ⟨s, c.tasks.set i ⟨q, .running (k r)⟩⟩ →
    g i = some x → P.allow x cmd → Meets ⟨c, .run i o, c'⟩ → Knows S P post g c → J h c g →
    J (h ++ [⟨c, .run i o, c'⟩]) c' (Function.update g i (some (P.after x cmd r)))
  drop : ∀ h c g i q cmd k c', Runs c₀ h c → c.tasks[i]? = some ⟨q, .running (.call cmd k)⟩ →
    c' = ⟨S.release c.state i, c.tasks.set i ⟨q, .dropped⟩⟩ → Meets ⟨c, .drop i, c'⟩ →
    Knows S P post g c → J h c g → J (h ++ [⟨c, .drop i, c'⟩]) c' (Function.update g i none)
  crash : ∀ h c g c', Runs c₀ h c → c' = ⟨S.crash c.state, c.tasks.map Task.interrupt⟩ →
    Meets ⟨c, .crash, c'⟩ → Knows S P post g c → J h c g →
    J (h ++ [⟨c, .crash, c'⟩]) c' fun i => if (c.answer i).isSome then g i else none

variable {S : System Q C R E A} {P : Protocol C R E} {post : Q → P.Ctx → Except E A → Prop}
  {g : Nat → Option P.Ctx} {c : Config S}

/-! ## What the tasks know after a step -/

variable {i : Nat} {x : P.Ctx} {q : Q}

section

variable (h : Knows S P post g c) {r : Except E A}

include h

theorem Knows.none_of_length_le (hi : c.tasks.length ≤ i) : g i = none := by
  cases hx : g i with
  | none => rfl
  | some x =>
    obtain ⟨q, p, hta⟩ := h.known i x hx
    rw [getElem?_eq_none hi] at hta
    cases hta

theorem Knows.of_answer (hx : g i = some x) (hreq : c.request i = some q)
    (hans : c.answer i = some r) : post q x r := by
  obtain ⟨q', p, hta⟩ := h.known i x hx
  obtain ⟨y, hy, hfol⟩ := h.running i q' p hta
  obtain rfl : x = y := some.inj (hx.symm.trans hy)
  simp only [request, answer, hta, map_some, some.injEq]
    at hreq hans
  subst hreq
  cases p with
  | ret a | fail e => exact (some.inj hans) ▸ hfol
  | call cmd k => cases hans

theorem Knows.exists_of_answer (hreq : c.request i = some q) (hans : c.answer i = some r) :
    ∃ x, g i = some x ∧ post q x r := by
  obtain ⟨⟨q', status⟩, hta, rfl⟩ := map_eq_some_iff.1 hreq
  cases status with
  | dropped =>
    rw [answer, hta] at hans
    cases hans
  | running p =>
    obtain ⟨x, hx, -⟩ := h.running i q' p hta
    exact ⟨x, hx, h.of_answer hx hreq hans⟩

theorem Knows.of_next {cmd : C} (hnext : c.next i = some cmd) :
    ∃ x, g i = some x ∧ P.allow x cmd := by
  obtain ⟨⟨q, status⟩, hta, htne⟩ := bind_eq_some_iff.1 hnext
  match status with
  | .dropped | .running (.ret _) | .running (.fail _) => cases htne
  | .running (.call cmd' k) =>
    cases htne
    obtain ⟨x, hx, hfol⟩ := h.running i q _ hta
    exact ⟨x, hx, hfol.1⟩

theorem Knows.answered (hx : g i = some x) (hnext : c.next i = none) :
    ∃ q r, c.request i = some q ∧ c.answer i = some r ∧ post q x r := by
  obtain ⟨q, p, hta⟩ := h.known i x hx
  have hreq : c.request i = some q := by rw [request, hta, map_some]
  have hans : c.answer i = p.answer := by rw [answer, hta, bind_some, Task.answer]
  cases p with
  | ret a => exact ⟨q, .ok a, hreq, hans, h.of_answer hx hreq hans⟩
  | fail e => exact ⟨q, .error e, hreq, hans, h.of_answer hx hreq hans⟩
  | call cmd k =>
    rw [next_of_getElem? hta] at hnext
    cases hnext

theorem Knows.spawn (hfol : Follows P x (S.handle q) (post q)) :
    Knows S P post (update g c.tasks.length (some x))
      ⟨c.state, c.tasks ++ [⟨q, .running (S.handle q)⟩]⟩ := by
  constructor
  · intro i q' p hta
    by_cases hi : i = c.tasks.length
    · subst hi
      simp only [getElem?_concat_length] at hta
      obtain ⟨rfl, rfl⟩ := hta
      exact ⟨x, update_self .., hfol⟩
    · rw [getElem?_append] at hta
      split at hta
      · rw [update_of_ne hi]
        exact h.running i q' p hta
      · rw [getElem?_eq_none (by simp; omega)] at hta
        cases hta
  · intro i y hy
    by_cases hi : i = c.tasks.length
    · exact ⟨q, S.handle q, by rw [hi]; simp⟩
    · rw [update_of_ne hi] at hy
      obtain ⟨q', p, hta⟩ := h.known i y hy
      have hlt : i < c.tasks.length := (List.getElem?_eq_some_iff.1 hta).1
      exact ⟨q', p, by rw [getElem?_append_left hlt, hta]⟩

theorem Knows.run {cmd : C} {k : Except E (R cmd) → Program C R E A}
    (r : Except E (R cmd)) (s : S.State) (hta : c.tasks[i]? = some ⟨q, .running (.call cmd k)⟩)
    (hfol : Follows P x (.call cmd k) (post q)) :
    Knows S P post (update g i (some (P.after x cmd r)))
      ⟨s, c.tasks.set i ⟨q, .running (k r)⟩⟩ := by
  have hlt : i < c.tasks.length := (List.getElem?_eq_some_iff.1 hta).1
  constructor
  · intro j q' p hj
    by_cases hij : j = i
    · subst hij
      rw [getElem?_set_self hlt] at hj
      obtain ⟨rfl, rfl⟩ := hj
      exact ⟨_, update_self .., hfol.2 r⟩
    · rw [getElem?_set_ne (Ne.symm hij)] at hj
      rw [update_of_ne hij]
      exact h.running j q' p hj
  · intro j y hy
    by_cases hij : j = i
    · exact ⟨q, k r, by rw [hij, getElem?_set_self hlt]⟩
    · rw [update_of_ne hij] at hy
      rw [getElem?_set_ne (Ne.symm hij)]
      exact h.known j y hy

theorem Knows.drop (q : Q) (s : S.State) (hlt : i < c.tasks.length) :
    Knows S P post (update g i none) ⟨s, c.tasks.set i ⟨q, .dropped⟩⟩ := by
  constructor
  · intro j q' p hj
    by_cases hij : j = i
    · rw [hij, getElem?_set_self hlt] at hj
      cases hj
    · rw [getElem?_set_ne (Ne.symm hij)] at hj
      rw [update_of_ne hij]
      exact h.running j q' p hj
  · intro j y hy
    by_cases hij : j = i
    · rw [hij, update_self] at hy
      cases hy
    · rw [update_of_ne hij] at hy
      rw [getElem?_set_ne (Ne.symm hij)]
      exact h.known j y hy

theorem Knows.crash (s : S.State) :
    Knows S P post (fun i => if (c.answer i).isSome then g i else none)
      ⟨s, c.tasks.map Task.interrupt⟩ := by
  constructor
  · intro i q p hi
    simp only [getElem?_map, map_eq_some_iff] at hi
    obtain ⟨t, hta, hinte⟩ := hi
    unfold Task.interrupt at hinte
    split at hinte
    · rename_i hans
      subst hinte
      have hsome : (c.answer i).isSome := by simpa [answer, hta] using hans
      simp only [hsome]
      exact h.running i q p hta
    · cases hinte
  · intro i x hx
    split at hx
    · rename_i hans
      obtain ⟨q, p, hta⟩ := h.known i x hx
      refine ⟨q, p, ?_⟩
      rw [answer, hta] at hans
      simp only [getElem?_map, hta, map_some, some.injEq]
      exact if_pos hans
    · cases hx

end

/-! ## The rule -/

/-- **An inductive assertion holds in every run** whose programs follow the protocol. -/
theorem Inductive.holds {start : Q → P.Ctx} {Meets : Step S → Prop}
    {J : List (Step S) → Config S → (Nat → Option P.Ctx) → Prop} {c₀ : Config S}
    {h : List (Step S)} (hJ : Inductive S P c₀ start post Meets J)
    (hfol : ∀ q, Follows P (start q) (S.handle q) (post q)) (htas : c₀.tasks = [])
    (hst : J [] c₀ fun _ => none) (hru : Runs c₀ h c) (hmt : ∀ s ∈ h, Meets s) :
    ∃ g, Knows S P post g c ∧ J h c g := by
  induction hru with
  | nil =>
    refine ⟨fun _ => none, ⟨fun i q p hi => ?_, nofun⟩, hst⟩
    rw [htas] at hi
    cases hi
  | @snoc h c c' a hru hstep ih =>
    obtain ⟨g, hkn, hg⟩ := ih fun s hs => hmt s (mem_append_left _ hs)
    have hmeet : Meets ⟨c, a, c'⟩ := hmt _ (mem_append_right _ (mem_singleton_self _))
    cases a with
    | spawn q =>
      cases hstep
      exact ⟨_, hkn.spawn (hfol q), hJ.spawn h c g q _ hru rfl hmeet hkn hg⟩
    | run i o =>
      obtain ⟨q, cmd, k, r, s, hta, hec, rfl⟩ := step_run hstep
      obtain ⟨x, hx, hfol⟩ := hkn.running i q _ hta
      exact ⟨_, hkn.run r s hta hfol,
        hJ.run h c g i o q cmd k x r s _ hru hta hec rfl hx hfol.1 hmeet hkn hg⟩
    | drop i =>
      obtain ⟨q, cmd, k, hta, rfl⟩ := step_drop hstep
      exact ⟨_, hkn.drop q _ (List.getElem?_eq_some_iff.1 hta).1,
        hJ.drop h c g i q cmd k _ hru hta rfl hmeet hkn hg⟩
    | crash =>
      cases hstep
      exact ⟨_, hkn.crash _, hJ.crash h c g _ hru rfl hmeet hkn hg⟩

/-! ## Assertions that are kept in general -/

variable {start : Q → P.Ctx} {Meets : Step S → Prop} {c₀ : Config S}
  {J J' : List (Step S) → Config S → (Nat → Option P.Ctx) → Prop}

theorem Inductive.and (hJ : Inductive S P c₀ start post Meets J)
    (hJ' : Inductive S P c₀ start post Meets J') :
    Inductive S P c₀ start post Meets fun h c g => J h c g ∧ J' h c g where
  spawn h c g q c' hru hc' hmt hkn hg :=
    ⟨hJ.spawn h c g q c' hru hc' hmt hkn hg.1, hJ'.spawn h c g q c' hru hc' hmt hkn hg.2⟩
  run h c g i o q cmd k x r s c' hru hta hec hc' hx hal hmt hkn hg :=
    ⟨hJ.run h c g i o q cmd k x r s c' hru hta hec hc' hx hal hmt hkn hg.1,
      hJ'.run h c g i o q cmd k x r s c' hru hta hec hc' hx hal hmt hkn hg.2⟩
  drop h c g i q cmd k c' hru hta hc' hmt hkn hg :=
    ⟨hJ.drop h c g i q cmd k c' hru hta hc' hmt hkn hg.1,
      hJ'.drop h c g i q cmd k c' hru hta hc' hmt hkn hg.2⟩
  crash h c g c' hru hc' hmt hkn hg :=
    ⟨hJ.crash h c g c' hru hc' hmt hkn hg.1, hJ'.crash h c g c' hru hc' hmt hkn hg.2⟩

/-- Fewer steps keep more. -/
theorem Inductive.of_meets {Meets' : Step S → Prop} (hJ : Inductive S P c₀ start post Meets J)
    (hmt' : ∀ st, Meets' st → Meets st) : Inductive S P c₀ start post Meets' J where
  spawn h c g q c' hru hc' hmt := hJ.spawn h c g q c' hru hc' (hmt' _ hmt)
  run h c g i o q cmd k x r s c' hru hta hec hc' hx hal hmt :=
    hJ.run h c g i o q cmd k x r s c' hru hta hec hc' hx hal (hmt' _ hmt)
  drop h c g i q cmd k c' hru hta hc' hmt :=
    hJ.drop h c g i q cmd k c' hru hta hc' (hmt' _ hmt)
  crash h c g c' hru hc' hmt := hJ.crash h c g c' hru hc' (hmt' _ hmt)

/-- A fact about the state and what a task knows: it holds when the task starts, and the steps of
the task itself and of the other tasks keep it. -/
structure Local (S : System Q C R E A) (P : Protocol C R E) (start : Q → P.Ctx)
    (F : S.State → P.Ctx → Prop) : Prop where
  start : ∀ s q, F s (start q)
  own : ∀ s i cmd o r s' x, S.exec s i cmd o = some (r, s') → P.allow x cmd → F s x →
    F s' (P.after x cmd r)
  other : ∀ s i cmd o r s' y, S.exec s i cmd o = some (r, s') → F s y → F s' y
  release : ∀ s i y, F s y → F (S.release s i) y
  crash : ∀ s y, F s y → F (S.crash s) y

variable {j : Nat}

theorem update_none {X : Type} {f : Nat → Option X} {x : X} (hx : update f i none j = some x) :
    j ≠ i ∧ f j = some x := by
  by_cases hij : j = i
  · rw [hij, update_self] at hx
    cases hx
  · rw [update_of_ne hij] at hx
    exact ⟨hij, hx⟩

theorem update_some {X : Type} {f : Nat → Option X} {x y : X}
    (hy : update f i (some x) j = some y) : j = i ∧ y = x ∨ j ≠ i ∧ f j = some y := by
  by_cases hij : j = i
  · rw [hij, update_self] at hy
    exact Or.inl ⟨hij, (some.inj hy).symm⟩
  · rw [update_of_ne hij] at hy
    exact Or.inr ⟨hij, hy⟩

/-- What is known after a crash was known before, by a task that has answered. -/
theorem of_crash (hx : (if (c.answer j).isSome then g j else none) = some x) :
    (c.answer j).isSome ∧ g j = some x := by
  split at hx
  · rename_i hans
    exact ⟨hans, hx⟩
  · cases hx

theorem Local.isInductive {F : S.State → P.Ctx → Prop} (hF : Local S P start F) :
    Inductive S P c₀ start post Meets fun _ c g => ∀ i x, g i = some x → F c.state x where
  spawn h c g q c' hru hc' hmt hkn hg j y hy := by
    subst hc'
    rcases update_some hy with ⟨-, rfl⟩ | ⟨-, hy⟩
    · exact hF.start _ _
    · exact hg j y hy
  run h c g i o q cmd k x r s c' hru hta hec hc' hx hal hmt hkn hg j y hy := by
    subst hc'
    rcases update_some hy with ⟨-, rfl⟩ | ⟨-, hy⟩
    · exact hF.own _ _ _ _ _ _ _ hec hal (hg i x hx)
    · exact hF.other _ _ _ _ _ _ _ hec (hg j y hy)
  drop h c g i q cmd k c' hru hta hc' hmt hkn hg j y hy := by
    subst hc'
    exact hF.release _ _ _ (hg j y (update_none hy).2)
  crash h c g c' hru hc' hmt hkn hg j y hy := by
    subst hc'
    exact hF.crash _ _ (hg j y (of_crash hy).2)

/-- A fact about a request and what its task knows: it holds when the task starts, and the steps of
the task itself keep it. -/
theorem inductive_task {F : Q → P.Ctx → Prop}
    (hst : ∀ c q c', Meets ⟨c, .spawn q, c'⟩ → F q (start q))
    (haft : ∀ c i o c' q cmd x r s, Meets ⟨c, .run i o, c'⟩ → c.next i = some cmd →
      S.exec c.state i cmd o = some (r, s) → P.allow x cmd → F q x → F q (P.after x cmd r)) :
    Inductive S P c₀ start post Meets fun _ c g =>
      ∀ i x, g i = some x → ∃ q, c.request i = some q ∧ F q x where
  spawn h c g q c' hru hc' hmt hkn hg j y hy := by
    have hnew := hst _ _ _ hmt
    subst hc'
    rcases update_some hy with ⟨hj, rfl⟩ | ⟨-, hy⟩
    · exact ⟨q, by simp [request, hj], hnew⟩
    · obtain ⟨q', hreq, hF⟩ := hg j y hy
      exact ⟨q', request_append _ _ hreq, hF⟩
  run h c g i o q cmd k x r s c' hru hta hec hc' hx hal hmt hkn hg j y hy := by
    have hnext := next_of_getElem? hta
    have hown : ∀ q, F q x → F q (P.after x cmd r) := fun q =>
      haft _ _ _ _ q _ _ _ _ hmt hnext hec hal
    subst hc'
    rw [request_set s hta]
    rcases update_some hy with ⟨hj, rfl⟩ | ⟨-, hy⟩
    · obtain ⟨q', hreq, hF⟩ := hg i x hx
      exact ⟨q', hj ▸ hreq, hown q' hF⟩
    · exact hg j y hy
  drop h c g i q cmd k c' hru hta hc' hmt hkn hg j y hy := by
    subst hc'
    rw [request_set _ hta]
    exact hg j y (update_none hy).2
  crash h c g c' hru hc' hmt hkn hg j y hy := by
    subst hc'
    rw [request_interrupt]
    exact hg j y (of_crash hy).2

/-- A task knows what it was asked for, if its program starts with this and never forgets it. -/
theorem inductive_request {asked : P.Ctx → Q} (hst : ∀ q, asked (start q) = q)
    (haft : ∀ x cmd r, asked (P.after x cmd r) = asked x) :
    Inductive S P c₀ start post Meets fun _ c g =>
      ∀ i x, g i = some x → c.request i = some (asked x) := by
  have hfact : Inductive S P c₀ start post Meets fun _ c g =>
      ∀ i x, g i = some x → ∃ q, c.request i = some q ∧ asked x = q :=
    inductive_task (fun _ q _ _ => hst q)
      fun _ _ _ _ q cmd x r _ _ _ _ _ h => (haft x cmd r).trans h
  simpa using hfact

end Nasiko.Concurrency
