import Nasiko.ToolCompact.Validate
import Nasiko.ToolCompact.WellFormed

/-!
# Schemas that accept the same values

Two nodes *agree* when validation gives the same verdict on every value, at every path. The
relation is about what a schema means and not about how it is written, so it is kept by everything
that builds a node from nodes: `Agree.array` and `object_congr` are those rules.

`Ty.strip` drops the `nullable` flag of enums, which means nothing since the members of an enum
alone decide; `agree_strip` says so.
-/

namespace Nasiko.ToolCompact

open SerdeJson Result List Validate Object

variable {N F : Type} [SerdeJson N F]

/-- Validation gives the same verdict. -/
def Agree (t t' : Ty N) : Prop := ∀ v path, ty v t path = ty v t' path

theorem Agree.refl (t : Ty N) : Agree t t := fun _ _ => rfl

/-- The fields say the same about one property. -/
structure FieldAgree (f f' : Field (Ty N)) : Prop where
  name : f.name = f'.name
  required : f.required = f'.required
  omittable : f.omittable = f'.omittable
  ty : Agree f.ty f'.ty

namespace Validate

/-- What `ty` checks of a value that does not pass as `null`. -/
def tyKind (v : Json N) (kind : Kind N (Ty N)) (path : Str) : Except Violation Unit :=
  match v, kind with
  | .array list, .array items => tyItems list items path 0
  | .object map, .object obj => object map obj path
  | v, kind => scalar v kind path

theorem ty_eq (v : Json N) (t : Ty N) (path : Str) :
    ty v t path = if passesAsNull v t then .ok () else tyKind v t.kind path := by
  rw [ty.eq_def]
  split_ifs with h
  · rfl
  · cases v with
    | _ => cases t.kind <;> rfl

theorem tyItems_congr {items items' : Ty N} (h : Agree items items') {list : List (Json N)}
    {path : Str} {i : Nat} : tyItems list items path i = tyItems list items' path i := by
  induction list generalizing i with
  | nil => rfl
  | cons v list ih => rw [tyItems, tyItems, h, ih]

variable {fields fields' : List (Field (Ty N))} (hf : List.Forall₂ FieldAgree fields fields')
include hf

variable (closed : Bool) (args : Entries (Json N))

theorem checkRequired_congr (path : Str) :
    checkRequired args ⟨fields, closed⟩ path = checkRequired args ⟨fields', closed⟩ path := by
  induction hf with
  | nil => rfl
  | @cons f f' fs fs' h hfs ih =>
    unfold checkRequired at ih ⊢
    have hcond : (f.required && !f.omittable && !args.containsKey f.name) =
        (f'.required && !f'.omittable && !args.containsKey f'.name) := by
      rw [h.required, h.omittable, h.name]
    simp only [find?_cons, hcond]
    cases hb : f'.required && !f'.omittable && !args.containsKey f'.name with
    | true => simp [h.name]
    | false => exact ih

/-- A property is found in both objects, with types that agree, or in neither. -/
theorem field_congr (name : Str) : (∃ f f', field ⟨fields, closed⟩ name = some f ∧
        field ⟨fields', closed⟩ name = some f' ∧ Agree f.ty f'.ty) ∨
      (field ⟨fields, closed⟩ name = none ∧ field ⟨fields', closed⟩ name = none) := by
  induction hf with
  | nil => exact .inr ⟨rfl, rfl⟩
  | @cons f f' fs fs' h hfs ih =>
    simp only [field, find?_cons] at ih ⊢
    rw [← h.name]
    cases f.name == name with
    | true => exact .inl ⟨f, f', rfl, rfl, h.ty⟩
    | false => exact ih

theorem tyEntries_congr (path : Str) :
    tyEntries args ⟨fields, closed⟩ path = tyEntries args ⟨fields', closed⟩ path := by
  induction args with
  | nil => rfl
  | cons e args ih =>
    obtain ⟨key, value⟩ := e
    simp only [tyEntries]
    rw [ih]
    rcases field_congr hf closed key with ⟨f, f', h₁, h₂, hty⟩ | ⟨h₁, h₂⟩
    · rw [h₁, h₂]
      dsimp only
      rw [hty]
    · rw [h₁, h₂]

/-- Objects whose fields agree accept the same arguments. -/
theorem object_congr (path : Str) :
    object args ⟨fields, closed⟩ path = object args ⟨fields', closed⟩ path := by
  rw [object, object, checkRequired_congr hf, tyEntries_congr hf]

end Validate

open Validate

variable {t t' : Ty N} {fields : List (Field (Ty N))}

/-- Kinds that give the same verdict make nodes that agree, if `null` passes by the flag in both or
in neither. -/
theorem Agree.of_kind (hnull : ∀ v, passesAsNull v t = passesAsNull v t')
    (hki : ∀ v path, tyKind v t.kind path = tyKind v t'.kind path) : Agree t t' := by
  intro v path
  rw [ty_eq, ty_eq, hnull, hki]

theorem agree_any (h : t.kind = .any) (h' : t'.kind = .any) : Agree t t' := by
  have key : ∀ {t : Ty N}, t.kind = .any → ∀ v path, ty v t path = .ok () := by
    intro t ht v path
    rw [ty_eq, ht]
    split_ifs
    · rfl
    · cases v <;> rfl
  intro v path
  rw [key h, key h']

theorem agree_enum {values : List (Json N)} (h : t.kind = .enum values)
    (h' : t'.kind = .enum values) : Agree t t' := by
  refine .of_kind (fun v => ?_) (fun v path => by rw [h, h'])
  simp [passesAsNull, h, h']

theorem Agree.array {items items' : Ty N} (h : t.kind = .array items) (h' : t'.kind = .array items')
    (hn : t.nullable = t'.nullable) (hit : Agree items items') : Agree t t' := by
  refine .of_kind (fun v => ?_) (fun v path => ?_)
  · simp [passesAsNull, h, h', hn]
  · rw [h, h']
    cases v with
    | array list => exact tyItems_congr hit
    | _ => rfl

theorem Agree.object {fields' : List (Field (Ty N))} {closed : Bool}
    (h : t.kind = .object ⟨fields, closed⟩) (h' : t'.kind = .object ⟨fields', closed⟩)
    (hn : t.nullable = t'.nullable) (hf : Forall₂ FieldAgree fields fields') : Agree t t' := by
  refine .of_kind (fun v => ?_) (fun v path => ?_)
  · simp [passesAsNull, h, h', hn]
  · rw [h, h']
    cases v with
    | object map => exact object_congr hf closed map path
    | _ => rfl

theorem Agree.of_eq (hk : t.kind = t'.kind) (hn : t.nullable = t'.nullable) : Agree t t' := by
  refine .of_kind (fun v => ?_) (fun v path => by rw [hk])
  simp [passesAsNull, hk, hn]

/-- What `omittable` looks at. -/
theorem omittable_congr {f f' : Field (Ty N)} (hr : f.required = f'.required)
    (ha : f.ty.allowsNull = f'.ty.allowsNull) (hd : f.ty.default = f'.ty.default) :
    f.omittable = f'.omittable := by
  simp [Field.omittable, hr, ha, hd]

/-! ## Enums without their flag -/

mutual

def Ty.strip : Ty N → Ty N
  | ⟨kind, nullable, description, default⟩ =>
    ⟨stripKind kind,
      match kind with
        | .enum _ => false
        | _ => nullable,
      description, default⟩
termination_by structural t => t

def stripKind : Kind N (Ty N) → Kind N (Ty N)
  | .array items => .array (Ty.strip items)
  | .object obj => .object (stripObject obj)
  | .str format => .str format
  | .int r => .int r
  | .num r => .num r
  | .bool => .bool
  | .any => .any
  | .anyObject => .anyObject
  | .enum values => .enum values
termination_by structural k => k

def stripObject : Object (Ty N) → Object (Ty N)
  | ⟨fields, closed⟩ => ⟨stripFields fields, closed⟩
termination_by structural o => o

def stripFields : List (Field (Ty N)) → List (Field (Ty N))
  | [] => []
  | ⟨name, required, t⟩ :: fields => ⟨name, required, Ty.strip t⟩ :: stripFields fields
termination_by structural fs => fs

end

theorem stripFields_eq_map (fields : List (Field (Ty N))) :
    stripFields fields = fields.map fun f => ⟨f.name, f.required, f.ty.strip⟩ := by
  induction fields with
  | nil => rfl
  | cons f fields ih =>
    rw [stripFields, ih]
    rfl

theorem strip_kind (t : Ty N) : t.strip.kind = stripKind t.kind := by
  cases t
  rfl

theorem strip_nullable (h : ∀ values, t.kind ≠ .enum values) : t.strip.nullable = t.nullable := by
  obtain ⟨kind, nullable, description, default⟩ := t
  cases kind with
  | enum values => exact absurd rfl (h values)
  | _ => rfl

theorem strip_default : t.strip.default = t.default := by
  cases t
  rfl

theorem strip_allowsNull : t.strip.allowsNull = t.allowsNull := by
  obtain ⟨kind, nullable, description, default⟩ := t
  cases kind <;> rfl

theorem strip_omittable (f : Field (Ty N)) :
    (Field.mk f.name f.required f.ty.strip).omittable = f.omittable :=
  omittable_congr rfl strip_allowsNull strip_default

theorem agree_strip {n : Nat} (h : WellFormed n t) : Agree t.strip t := by
  induction n generalizing t with
  | zero => exact h.elim
  | succ n ih =>
    have hki := strip_kind t
    cases hk : t.kind with
    | enum values =>
      rw [hk] at hki
      exact agree_enum hki hk
    | array items =>
      rw [hk] at hki
      refine .array hki hk (strip_nullable (by simp [hk])) ?_
      have hok := h.2
      rw [hk] at hok
      rcases hok with rfl | hit
      · exact .refl _
      · exact ih hit
    | object obj =>
      obtain ⟨fields, closed⟩ := obj
      rw [hk] at hki
      refine .object hki hk (strip_nullable (by simp [hk])) ?_
      have hok := h.2
      rw [hk] at hok
      rw [stripFields_eq_map, forall₂_map_left_iff, forall₂_same]
      exact fun f hf => ⟨rfl, rfl, strip_omittable f, ih (hok.2 f hf)⟩
    | _ => exact .of_eq (hki.trans (by rw [hk]; rfl)) (strip_nullable (by simp [hk]))

theorem arranged_stripFields (h : Arranged fields) : Arranged (stripFields fields) := by
  rw [stripFields_eq_map]
  refine ⟨pairwise_map.2 h.sorted, ?_⟩
  rw [map_map]
  exact h.nodup

theorem wellFormed_strip {n : Nat} (h : WellFormed n t) : WellFormed n t.strip := by
  induction n generalizing t with
  | zero => exact h.elim
  | succ n ih =>
    refine ⟨by rw [strip_default]; exact h.1, ?_⟩
    have hok := h.2
    rw [strip_kind]
    cases hk : t.kind with
    | array items =>
      rw [hk] at hok
      rcases hok with rfl | hit
      · exact .inl rfl
      · exact .inr (ih hit)
    | object obj =>
      obtain ⟨fields, closed⟩ := obj
      rw [hk] at hok
      refine ⟨arranged_stripFields hok.1, fun f hf => ?_⟩
      rw [stripObject, stripFields_eq_map, mem_map] at hf
      obtain ⟨g, hg, rfl⟩ := hf
      exact ih (hok.2 g hg)
    | enum values =>
      rw [hk] at hok
      exact hok
    | _ => exact trivial

end Nasiko.ToolCompact
