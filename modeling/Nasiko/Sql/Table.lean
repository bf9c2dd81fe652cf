import Mathlib.Data.List.Pairwise
import Mathlib.Data.List.Sort

/-!
# Tables with constraints

A `Table` is a list of rows that keeps the constraints of its `Schema`: a primary key, a check of
every row, and unique indexes, which say that some rows do not stand side by side. A statement that
would break a constraint fails and changes nothing, as in SQL.

- `insert` adds a row.
- `update` changes the rows that a condition selects.
- `firstBy` is what `ORDER BY … LIMIT 1` gives.

What a statement does to the row with a given key is said by `get_insert` and `get_update`.
-/

namespace Nasiko.Sql

open List Option

/-- What a table asks of its rows. -/
structure Schema (α K : Type) where
  key : α → K
  check : α → Bool
  /-- Does a unique index forbid that the two rows stand side by side? -/
  clash : α → α → Bool

variable {α K : Type} [DecidableEq K] {S : Schema α K}

/-- The rows keep the constraints. -/
structure Schema.Valid (S : Schema α K) (rows : List α) : Prop where
  check : ∀ r ∈ rows, S.check r = true
  key : rows.Pairwise fun a b => S.key a ≠ S.key b
  unique : rows.Pairwise fun a b => S.clash a b = false

/-- A list of rows that keeps the constraints. -/
structure Table (S : Schema α K) where
  rows : List α
  valid : S.Valid rows

/-- Which kind of constraint a statement breaks. -/
inductive Violation where
  | check
  | unique
  deriving DecidableEq

namespace Table

def store (rows : List α) : Except Violation (Table S) :=
  if hcheck : ∀ r ∈ rows, S.check r = true then
    if hunique : rows.Pairwise (fun a b => S.key a ≠ S.key b) ∧
        rows.Pairwise (fun a b => S.clash a b = false) then
      .ok ⟨rows, hcheck, hunique.1, hunique.2⟩
    else .error .unique
  else .error .check

variable (t : Table S)

/-- The row with the key. -/
def get (k : K) : Option α := t.rows.find? fun r => S.key r = k

def insert (r : α) : Except Violation (Table S) := store (t.rows ++ [r])

/-- Change the rows that the condition selects. -/
def update (p : α → Bool) (f : α → α) : Except Violation (Table S) :=
  store (t.rows.map fun r => if p r then f r else r)

/-- The first of the rows in an order; of rows that the order does not separate, the oldest. -/
def firstBy (p : α → Bool) (le : α → α → Bool) : Option α :=
  ((t.rows.filter p).insertionSort fun a b => le a b).head?

variable {t t' : Table S} {k : K} {r : α} {p : α → Bool} {f : α → α}

theorem rows_of_store {rows : List α} (h : store rows = .ok t) : t.rows = rows := by
  rw [store] at h
  split at h
  · split at h
    · cases h
      rfl
    · cases h
  · cases h

theorem get_eq_some : t.get k = some r ↔ r ∈ t.rows ∧ S.key r = k := by
  constructor
  · intro h
    exact ⟨mem_of_find?_eq_some h, by simpa using find?_some h⟩
  · rintro ⟨hmem, rfl⟩
    rw [get]
    have hex : (t.rows.find? fun x => S.key x = S.key r).isSome := by
      rw [find?_isSome]
      exact ⟨r, hmem, by simp⟩
    obtain ⟨x, hx⟩ := isSome_iff_exists.1 hex
    have hkey : S.key x = S.key r := by simpa using find?_some hx
    have hnd : (t.rows.map S.key).Nodup := pairwise_map.2 t.valid.key
    rw [hx, inj_on_of_nodup_map hnd (mem_of_find?_eq_some hx) hmem hkey]

theorem get_eq_none : t.get k = none ↔ ∀ r ∈ t.rows, S.key r ≠ k := by
  simp [get]

theorem key_of_get (h : t.get k = some r) : S.key r = k :=
  (get_eq_some.1 h).2

theorem get_update (h : t.update p f = .ok t') (hf : ∀ r, S.key (f r) = S.key r) (k : K) :
    t'.get k = (t.get k).map fun r => if p r then f r else r := by
  have hrows := rows_of_store h
  have hkey : ∀ r, S.key (if p r then f r else r) = S.key r := by
    intro r
    split_ifs
    · exact hf r
    · rfl
  cases hget : t.get k with
  | none =>
    rw [get_eq_none] at hget
    rw [map_none, get_eq_none, hrows]
    intro r hr
    obtain ⟨x, hx, rfl⟩ := mem_map.1 hr
    rw [hkey]
    exact hget x hx
  | some r =>
    obtain ⟨hmem, hk⟩ := get_eq_some.1 hget
    rw [map_some, get_eq_some, hrows]
    exact ⟨mem_map_of_mem hmem, (hkey r).trans hk⟩

/-- An update that changes nothing that a constraint looks at is carried out. -/
theorem update_ok (hkey : ∀ r, S.key (f r) = S.key r)
    (hchk : ∀ r, S.check (f r) = S.check r) (hleft : ∀ a b, S.clash (f a) b = S.clash a b)
    (hrig : ∀ a b, S.clash a (f b) = S.clash a b) : ∃ t', t.update p f = .ok t' := by
  have hval : S.Valid (t.rows.map fun r => if p r then f r else r) := by
    refine ⟨fun r hr => ?_, ?_, ?_⟩
    · obtain ⟨x, hx, rfl⟩ := mem_map.1 hr
      have hx := t.valid.check x hx
      split_ifs
      · rw [hchk, hx]
      · exact hx
    · refine pairwise_map.2 (t.valid.key.imp fun {a b} hab => ?_)
      split_ifs <;> simpa [hkey] using hab
    · refine pairwise_map.2 (t.valid.unique.imp fun {a b} hab => ?_)
      split_ifs <;> simpa [hleft, hrig] using hab
  rw [update, store, dif_pos hval.check, dif_pos ⟨hval.key, hval.unique⟩]
  exact ⟨_, rfl⟩

theorem get_insert (h : t.insert r = .ok t') (k : K) :
    t'.get k = if S.key r = k then some r else t.get k := by
  have hrows := rows_of_store h
  split_ifs with hk
  · rw [get_eq_some, hrows]
    exact ⟨by simp, hk⟩
  · cases hget : t.get k with
    | none =>
      rw [get_eq_none] at hget ⊢
      intro x hx
      rw [hrows, mem_append, mem_singleton] at hx
      rcases hx with hx | rfl
      · exact hget x hx
      · exact hk
    | some x =>
      obtain ⟨hmem, hkey⟩ := get_eq_some.1 hget
      rw [get_eq_some, hrows]
      exact ⟨mem_append_left _ hmem, hkey⟩

theorem get_of_insert {x : α} (h : t.insert r = .ok t') (hget : t.get k = some x) :
    t'.get k = some x := by
  obtain ⟨hmem, hkey⟩ := get_eq_some.1 hget
  rw [get_eq_some, rows_of_store h]
  exact ⟨mem_append_left _ hmem, hkey⟩

omit [DecidableEq K] in
theorem firstBy_spec {le : α → α → Bool} (h : t.firstBy p le = some r) :
    r ∈ t.rows ∧ p r = true := by
  have hmem := mem_of_mem_head? h
  rw [mem_insertionSort, mem_filter] at hmem
  exact hmem

variable {t : Table S} {p : α → Bool} {le : α → α → Bool}

omit [DecidableEq K] in
theorem exists_firstBy {x : α} (hx : x ∈ t.rows) (hp : p x = true) :
    ∃ r, t.firstBy p le = some r := by
  refine isSome_iff_exists.1 (isSome_head?.2 fun hnil => ?_)
  have hmem : x ∈ (t.rows.filter p).insertionSort fun a b => le a b :=
    (mem_insertionSort _).2 (mem_filter.2 ⟨hx, hp⟩)
  rw [hnil] at hmem
  cases hmem

omit [DecidableEq K] in
theorem firstBy_le [Std.Total fun a b => le a b = true] [IsTrans α fun a b => le a b = true]
    {r x : α}
    (h : t.firstBy p le = some r) (hx : x ∈ t.rows) (hp : p x = true) : x = r ∨ le r x = true := by
  have hmem : x ∈ (t.rows.filter p).insertionSort fun a b => le a b :=
    (mem_insertionSort _).2 (mem_filter.2 ⟨hx, hp⟩)
  have hsor := pairwise_insertionSort (fun a b => le a b = true) (t.rows.filter p)
  rw [firstBy] at h
  cases hsort : (t.rows.filter p).insertionSort fun a b => le a b with
  | nil =>
    rw [hsort] at hmem
    cases hmem
  | cons y ys =>
    rw [hsort] at hmem hsor h
    cases h
    exact (mem_cons.1 hmem).imp (fun h => h) (rel_of_pairwise_cons hsor)

end Table

end Nasiko.Sql
