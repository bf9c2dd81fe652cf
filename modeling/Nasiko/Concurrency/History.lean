import Nasiko.Concurrency.System

/-!
# Looking back in a run

A run is a list of steps, and the place of a step in the list is its time. What a task was asked for
and what it has answered never changes afterwards, and the last step leads to the configuration that
the run has reached.

A relation that every command keeps between the state before and the state after (`Persistent`)
holds between any two times of a run.
-/

namespace Nasiko.Concurrency

open List Option Config

variable {Q C : Type} {R : C → Type} {E A : Type} {S : System Q C R E A}
  {c₀ c c' : Config S} {h : List (Step S)} {st st' : Step S} {a : Action Q} {m i : Nat}
  {r : Except E A} {q : Q} {j : Nat} {s : S.State} {t : Task Q C R E A}

/-! ## One step -/

theorem Config.answer_set {st st' : Status C R E A}
    (hta : c.tasks[i]? = some ⟨q, st⟩) (hrun : (⟨q, st⟩ : Task Q C R E A).answer = none)
    (h : c.answer j = some r) : (⟨s, c.tasks.set i ⟨q, st'⟩⟩ : Config S).answer j = some r := by
  have hne : i ≠ j := by
    rintro rfl
    rw [answer, hta, bind_some, hrun] at h
    cases h
  rwa [answer, getElem?_set_ne hne]

theorem Config.answer_step (hsp : c.step a = some c')
    (h : c.answer i = some r) : c'.answer i = some r := by
  cases a with
  | spawn q =>
    cases hsp
    obtain ⟨t, ht, -⟩ := bind_eq_some_iff.1 h
    rwa [answer, List.getElem?_append_left (List.getElem?_eq_some_iff.1 ht).1]
  | run j o =>
    obtain ⟨q, cmd, k, x, s, hta, -, rfl⟩ := step_run hsp
    exact answer_set hta rfl h
  | drop j =>
    obtain ⟨q, cmd, k, hta, rfl⟩ := step_drop hsp
    exact answer_set hta rfl h
  | crash =>
    cases hsp
    obtain ⟨t, ht, hr⟩ := bind_eq_some_iff.1 h
    simp only [answer, getElem?_map, ht, map_some, bind_some]
    rw [Task.answer_interrupt, hr]

theorem Config.request_step (hsp : c.step a = some c') (h : c.request i = some q) :
    c'.request i = some q := by
  cases a with
  | spawn q' =>
    cases hsp
    exact request_append _ _ h
  | run j o =>
    obtain ⟨q', cmd, k, x, s, hta, -, rfl⟩ := step_run hsp
    rw [request_set _ hta, h]
  | drop j =>
    obtain ⟨q', cmd, k, hta, rfl⟩ := step_drop hsp
    rw [request_set _ hta, h]
  | crash =>
    cases hsp
    rw [request_interrupt, h]

theorem Config.request_append_cases (h : (⟨s, c.tasks ++ [t]⟩ : Config S).request j = some q) :
    j < c.tasks.length ∧ c.request j = some q ∨ j = c.tasks.length ∧ q = t.request := by
  rcases Nat.lt_trichotomy j c.tasks.length with hlt | rfl | hgt
  · rw [request, getElem?_append_left hlt] at h
    exact .inl ⟨hlt, h⟩
  · rw [request, getElem?_concat_length] at h
    exact .inr ⟨rfl, (some.inj h).symm⟩
  · rw [request, getElem?_eq_none (by simp; omega)] at h
    cases h

/-- Only the later one of two requests may be the new one. -/
theorem Config.request_append_lt {q' : Q} (hij : i < j)
    (hi : (⟨s, c.tasks ++ [t]⟩ : Config S).request i = some q)
    (hj : (⟨s, c.tasks ++ [t]⟩ : Config S).request j = some q') :
    i < c.tasks.length ∧ c.request i = some q := by
  rcases request_append_cases hi with hi | ⟨rfl, -⟩
  · exact hi
  · rcases request_append_cases hj with ⟨hlt, -⟩ | ⟨rfl, -⟩ <;> omega

theorem Config.next_set_ne (hij : j ≠ i) (s : S.State) (t : Task Q C R E A) :
    (⟨s, c.tasks.set i t⟩ : Config S).next j = c.next j := by
  rw [next, next, getElem?_set_ne (Ne.symm hij)]

theorem Config.next_append (hlt : j < c.tasks.length) (s : S.State)
    (t : Task Q C R E A) : (⟨s, c.tasks ++ [t]⟩ : Config S).next j = c.next j := by
  rw [next, next, getElem?_append_left hlt]

theorem Config.next_interrupt (s : S.State) (j : Nat) :
    (⟨s, c.tasks.map Task.interrupt⟩ : Config S).next j = none := by
  rw [next, getElem?_map]
  cases c.tasks[j]? with
  | none => rfl
  | some t =>
    obtain ⟨q, p | _⟩ := t
    · cases p <;> rfl
    · rfl

/-! ## The steps of a run -/

theorem getElem?_snoc_cases (hst : (h ++ [st])[m]? = some st') :
    h[m]? = some st' ∨ m = h.length ∧ st' = st := by
  rcases Nat.lt_trichotomy m h.length with hlt | rfl | hgt
  · rw [getElem?_append_left hlt] at hst
    exact .inl hst
  · simp only [getElem?_concat_length, some.injEq] at hst
    exact .inr ⟨rfl, hst.symm⟩
  · rw [getElem?_eq_none (by simp; omega)] at hst
    cases hst

theorem getElem?_snoc (hst : h[m]? = some st) (st' : Step S) : (h ++ [st'])[m]? = some st := by
  rwa [List.getElem?_append_left (List.getElem?_eq_some_iff.1 hst).1]

section

variable (hru : Runs c₀ h c) (hst : h[m]? = some st)

include hru hst

theorem Runs.last (hlen : m + 1 = h.length) : st.after = c := by
  cases hru with
  | nil => cases hst
  | snoc hru hsp =>
    rcases getElem?_snoc_cases hst with hst | ⟨-, rfl⟩
    · have hlt := (List.getElem?_eq_some_iff.1 hst).1
      simp only [length_append, length_singleton] at hlen
      omega
    · rfl

theorem Runs.take : Runs c₀ (h.take m) st.before ∧ st.before.step st.action = some st.after := by
  induction hru with
  | nil => cases hst
  | @snoc h c c' a hru hsp ih =>
    rcases getElem?_snoc_cases hst with hst | ⟨rfl, rfl⟩
    · rw [List.take_append_of_le_length (Nat.le_of_lt (List.getElem?_eq_some_iff.1 hst).1)]
      exact ih hst
    · rw [take_left]
      exact ⟨hru, hsp⟩

/-- What holds after a step, and is kept by every step, holds at the end. -/
theorem Runs.of_after {P : Config S → Prop}
    (hkeep : ∀ {c c' : Config S} {a : Action Q}, c.step a = some c' → P c → P c')
    (hP : P st.after) : P c := by
  induction hru with
  | nil => cases hst
  | snoc hru hsp ih =>
    rcases getElem?_snoc_cases hst with hst | ⟨-, rfl⟩
    · exact hkeep hsp (ih hst)
    · exact hP

theorem Runs.answer_of_before (hans : st.before.answer i = some r) : c.answer i = some r :=
  hru.of_after hst answer_step (answer_step (hru.take hst).2 hans)

theorem Runs.request_of_before (hreq : st.before.request i = some q) : c.request i = some q :=
  hru.of_after hst request_step (request_step (hru.take hst).2 hreq)

theorem Runs.request_of_spawn
    (hact : st.action = .spawn q) : c.request st.before.tasks.length = some q := by
  refine hru.of_after hst request_step ?_
  have hsp := (hru.take hst).2
  rw [hact] at hsp
  rw [← some.inj hsp]
  simp [request]

theorem Runs.before_succ (hst' : h[m + 1]? = some st') : st'.before = st.after := by
  induction hru with
  | nil => cases hst
  | @snoc h c c' a hru hsp ih =>
    rcases getElem?_snoc_cases hst' with hst' | ⟨hlen, rfl⟩
    · have hlt := (List.getElem?_eq_some_iff.1 hst').1
      rw [getElem?_append_left (by omega)] at hst
      exact ih hst hst'
    · rw [getElem?_append_left (by omega)] at hst
      exact (hru.last hst hlen).symm

/-- What holds after step `m`, and is kept by the steps between, holds before step `n`. -/
theorem Runs.keeps {P : S.State → Prop} {n : Nat}
    (hP : P st.after.state) (hst' : h[n]? = some st') (hlt : m < n)
    (hkeep : ∀ (k : Nat) (u : Step S), h[k]? = some u → m < k → k < n → P u.before.state →
      P u.after.state) : P st'.before.state := by
  induction n generalizing st' with
  | zero => omega
  | succ n ih =>
    rcases Nat.lt_or_eq_of_le (Nat.le_of_lt_succ hlt) with hmn | rfl
    · have hlen := (List.getElem?_eq_some_iff.1 hst').1
      obtain ⟨u, hu⟩ : ∃ u, h[n]? = some u := ⟨_, getElem?_eq_getElem (by omega)⟩
      have hbef := ih hu hmn fun k v hv hmk hkn => hkeep k v hv hmk (by omega)
      rw [hru.before_succ hu hst']
      exact hkeep n u hu hmn (Nat.lt_succ_self n) hbef
    · rwa [hru.before_succ hst hst']

end

/-! ## Relations between the states of a run -/

/-- A relation that holds from each state to the next one, and so to all later ones. -/
structure Persistent (S : System Q C R E A) (rel : S.State → S.State → Prop) : Prop where
  refl : ∀ s, rel s s
  trans : ∀ s t u, rel s t → rel t u → rel s u
  exec : ∀ s i cmd o r s', S.exec s i cmd o = some (r, s') → rel s s'
  release : ∀ s i, rel s (S.release s i)
  crash : ∀ s, rel s (S.crash s)

namespace Persistent

variable {rel : S.State → S.State → Prop} {n : Nat}

theorem step (hrel : Persistent S rel) (hsp : c.step a = some c') : rel c.state c'.state := by
  cases a with
  | spawn q =>
    cases hsp
    exact hrel.refl _
  | run i o =>
    obtain ⟨q, cmd, k, r, s, -, hexec, rfl⟩ := step_run hsp
    exact hrel.exec _ _ _ _ _ _ hexec
  | drop i =>
    obtain ⟨q, cmd, k, -, rfl⟩ := step_drop hsp
    exact hrel.release _ _
  | crash =>
    cases hsp
    exact hrel.crash _

/-- The relation holds from the state after a step to the state that the run has reached. -/
theorem to_end (hrel : Persistent S rel) (hru : Runs c₀ h c) (hst : h[m]? = some st) :
    rel st.before.state st.after.state ∧ rel st.after.state c.state := by
  refine ⟨hrel.step (hru.take hst).2, ?_⟩
  exact hru.of_after (P := fun c => rel st.after.state c.state) hst
    (fun hsp h => hrel.trans _ _ _ h (hrel.step hsp)) (hrel.refl _)

/-- The relation holds from the state after a step to the state before a later one. -/
theorem between (hrel : Persistent S rel) (hru : Runs c₀ h c) (hst : h[m]? = some st)
    (hst' : h[n]? = some st') (hlt : m < n) : rel st.after.state st'.before.state := by
  induction hru with
  | nil => cases hst
  | snoc hru hsp ih =>
    have hlen := (List.getElem?_eq_some_iff.1 hst').1
    rcases getElem?_snoc_cases hst with hst | ⟨rfl, -⟩
    · rcases getElem?_snoc_cases hst' with hst' | ⟨-, rfl⟩
      · exact ih hst hst'
      · exact (hrel.to_end hru hst).2
    · simp only [length_append, length_singleton] at hlen
      omega

end Persistent

end Nasiko.Concurrency
