import Nasiko.Result
import Nasiko.ToolCompact.Schema

/-!
# What a schema that was read looks like

`WellFormed n t` collects what `Ty.fromJson` guarantees about a node it returned, where `n` bounds
how deep the node nests: enums are nonempty lists of scalars, the fields of an object are in order
and have different names, defaults are ordered maps. `wellFormed_fromJson` is the one result; its
proof follows the reader function by function.
-/

namespace Nasiko.ToolCompact

open SerdeJson Result List Except Object Ty

/-! ## Fields in order -/

section

variable {T : Type} {o : Object T}

theorem before_trans {a b c : Field T} (hab : before a b = true)
    (hbc : before b c = true) : before a c = true := by
  unfold before at *
  rcases ha : a.required <;> rcases hb : b.required <;> rcases hc : c.required <;>
    simp_all
  all_goals exact le_trans hab hbc

theorem before_antisymm {a b : Field T} (hab : before a b = true)
    (hba : before b a = true) : a.name = b.name := by
  unfold before at *
  rcases ha : a.required <;> rcases hb : b.required <;> simp_all
  all_goals exact le_antisymm hab hba

instance : Std.Total fun a b : Field T => Object.before a b = true where
  total a b := by
    unfold Object.before
    rcases ha : a.required <;> rcases hb : b.required <;> simp [le_total]

instance : IsTrans (Field T) fun a b => Object.before a b = true := ⟨fun _ _ _ => before_trans⟩

/-- The order in which `sortFields` leaves the fields, with no name twice. -/
structure Arranged (fields : List (Field T)) : Prop where
  sorted : fields.Pairwise fun a b => Object.before a b = true
  nodup : (fields.map Field.name).Nodup

theorem arranged_sortFields (h : (o.fields.map Field.name).Nodup) :
    Arranged o.sortFields.fields where
  sorted := pairwise_insertionSort _ _
  nodup := ((perm_insertionSort _ _).map Field.name).nodup_iff.2 h

theorem Arranged.sortFields_eq (h : Arranged o.fields) : o.sortFields = o := by
  have := Pairwise.insertionSort_eq h.sorted
  simp only [sortFields] at this ⊢
  rw [this]

end

/-! ## Well-formed nodes -/

variable {N F : Type} [SerdeJson N F]

/-- Neither an array nor an object. -/
def IsScalar (v : Json N) : Prop := v.isArray = false ∧ v.isObject = false

/-- A kind whose nodes below satisfy `P`. -/
def KindOk (P : Ty N → Prop) : Kind N (Ty N) → Prop
  | .enum values => values ≠ [] ∧ ∀ v ∈ values, IsScalar v
  | .array items => items = plain .any ∨ P items
  | .object obj => Arranged obj.fields ∧ ∀ f ∈ obj.fields, P f.ty
  | _ => True

/-- A node as the reader returns it, nesting less than `n` deep. -/
def WellFormed : Nat → Ty N → Prop
  | 0, _ => False
  | n + 1, t => (∀ d ∈ t.default, d.Canonical) ∧ KindOk (WellFormed n) t.kind

theorem KindOk.mono {P Q : Ty N → Prop} (hPQ : ∀ t, P t → Q t) {k : Kind N (Ty N)}
    (h : KindOk P k) : KindOk Q k := by
  cases k with
  | array items => exact h.imp id (hPQ items)
  | object obj => exact ⟨h.1, fun f hf => hPQ _ (h.2 f hf)⟩
  | enum values => exact h
  | _ => exact trivial

variable {n : Nat} {t : Ty N} {map : Entries (Json N)}

theorem WellFormed.succ (h : WellFormed n t) : WellFormed (n + 1) t := by
  induction n generalizing t with
  | zero => exact h.elim
  | succ n ih => exact ⟨h.1, h.2.mono fun t ht => ih ht⟩

/-! ## The reader, function by function -/

theorem canonical_get? (h : (Json.object map).Canonical) {k : Str} {v : Json N}
    (hv : map.get? k = some v) : v.Canonical := by
  obtain ⟨-, hall⟩ : Entries.Sorted map ∧ ∀ f ∈ map, f.2.Canonical := by
    cases h with
    | object hs hall => exact ⟨hs, hall⟩
  exact hall (k, v) (Entries.mem_of_get? hv)

theorem enumValues_ok {values : List (Json N)} (h : enumValues map = .ok (some values)) :
    values ≠ [] ∧ ∀ v ∈ values, IsScalar v := by
  have key : ∀ vs : List (Json N), (if vs.isEmpty then error "enum is empty".toList
        else if vs.any fun v => v.isArray || v.isObject then
          .error "enum values must be scalars".toList
        else .ok (some vs)) = ok (some values) →
      values ≠ [] ∧ ∀ v ∈ values, IsScalar v := by
    intro vs hvs
    split_ifs at hvs with h₁ h₂
    cases hvs
    refine ⟨by simpa using h₁, fun v hv => ?_⟩
    simp only [any_eq_true, not_exists, not_and, Bool.not_eq_true, Bool.or_eq_false_iff] at h₂
    exact h₂ v hv
  unfold enumValues at h
  split at h
  · cases h
  · exact key _ h
  · cases h
  · exact key _ h
  · cases h

section

variable {fromJson : Json N → Except Str (Ty N)} {P : Ty N → Prop}
  (hrec : ∀ s t, s.Canonical → fromJson s = .ok t → P t)
include hrec

variable {map props : Entries (Json N)} {k : Kind N (Ty N)} {required : List Str}

theorem arrayItems_ok (hmap : (Json.object map).Canonical) (h : arrayItems fromJson map = .ok k) :
    KindOk P k := by
  obtain ⟨items, hit, rfl⟩ := map_eq_ok_iff.1 h
  unfold itemsFromJson at hit
  split at hit
  · exact Or.inl (ok.inj hit).symm
  · next m hget => exact Or.inr (hrec _ _ (canonical_get? hmap hget) hit)
  · cases hit

theorem propertyFields_ok (hpro : ∀ e ∈ props, e.2.Canonical) {fields : List (Field (Ty N))}
    (h : propertyFields fromJson required props = .ok fields) :
    fields.map Field.name = props.map Prod.fst ∧ ∀ f ∈ fields, P f.ty := by
  induction props generalizing fields with
  | nil =>
    obtain rfl := ok.inj h
    simp
  | cons e props ih =>
    obtain ⟨hsch, hpro⟩ := forall_mem_cons.1 hpro
    rw [propertyFields] at h
    split at h
    · cases h
    · next t ht =>
      obtain ⟨fs, hfs, rfl⟩ := map_eq_ok_iff.1 h
      obtain ⟨hnm, hall⟩ := ih hpro hfs
      refine ⟨by simp [hnm], forall_mem_cons.2 ⟨hrec _ _ hsch ht, hall⟩⟩

theorem objectFields_ok {closed : Bool} (hpro : (Json.object props).Canonical)
    (h : objectFields fromJson required closed props = .ok k) : KindOk P k := by
  obtain ⟨hsor, hcan⟩ : Entries.Sorted props ∧ ∀ f ∈ props, f.2.Canonical := by
    cases hpro with
    | object hs hall => exact ⟨hs, hall⟩
  unfold objectFields at h
  split at h
  · cases h
  · obtain ⟨fields, hfs, hk⟩ := bind_eq_ok_iff.1 h
    obtain rfl := ok.inj hk
    obtain ⟨hnm, hall⟩ := propertyFields_ok hrec hcan hfs
    refine ⟨arranged_sortFields ?_, fun f hf => hall f ((perm_insertionSort _ _).mem_iff.1 hf)⟩
    rw [hnm, Nodup, pairwise_map]
    exact hsor.imp fun h => h.ne

theorem object_ok (hmap : (Json.object map).Canonical) (h : object fromJson map = .ok k) :
    KindOk P k := by
  obtain ⟨closed, -, h⟩ := bind_eq_ok_iff.1 h
  obtain ⟨required, -, h⟩ := bind_eq_ok_iff.1 h
  have hnil : (Json.object ([] : List (Str × Json N))).Canonical := .object .nil (by simp)
  split at h
  · split_ifs at h with hany
    · obtain rfl := ok.inj h
      exact trivial
    · exact objectFields_ok hrec hnil h
  · next props hget => exact objectFields_ok hrec (canonical_get? hmap hget) h
  · cases h

theorem kindFromJson_ok (hmap : (Json.object map).Canonical) {typeName : Option Str}
    {nullable : Bool} {p : Kind N (Ty N) × List Str}
    (h : kindFromJson fromJson map typeName nullable = .ok p) : KindOk P p.1 := by
  obtain ⟨e, he, h⟩ := bind_eq_ok_iff.1 h
  cases e with
  | some values =>
    have hvals := enumValues_ok he
    cases typeName with
    | none =>
      obtain rfl := ok.inj h
      exact hvals
    | some t =>
      dsimp only at h
      split_ifs at h
      obtain rfl := ok.inj h
      exact hvals
  | none =>
    cases typeName with
    | none =>
      obtain rfl := ok.inj h
      exact trivial
    | some t =>
      dsimp only at h
      split_ifs at h
      · obtain ⟨f, -, h⟩ := bind_eq_ok_iff.1 h
        obtain rfl := ok.inj h
        exact trivial
      · obtain ⟨r, -, h⟩ := bind_eq_ok_iff.1 h
        obtain rfl := ok.inj h
        exact trivial
      · obtain ⟨r, -, h⟩ := bind_eq_ok_iff.1 h
        obtain rfl := ok.inj h
        exact trivial
      · obtain rfl := ok.inj h
        exact trivial
      · obtain ⟨k, hk, h⟩ := bind_eq_ok_iff.1 h
        obtain rfl := ok.inj h
        exact arrayItems_ok hrec hmap hk
      · obtain ⟨k, hk, h⟩ := bind_eq_ok_iff.1 h
        obtain rfl := ok.inj h
        exact object_ok hrec hmap hk

end

theorem nodeFromJson_ok (hmap : (Json.object map).Canonical)
    (hrec : ∀ s t, s.Canonical → fromJson (N := N) n s = .ok t → WellFormed n t)
    (h : nodeFromJson (fromJson n) map = .ok t) : WellFormed (n + 1) t := by
  obtain ⟨description, -, h⟩ := bind_eq_ok_iff.1 h
  obtain ⟨⟨typeName, nullable⟩, -, h⟩ := bind_eq_ok_iff.1 h
  obtain ⟨⟨kind, used⟩, hkind, h⟩ := bind_eq_ok_iff.1 h
  dsimp only at h
  split at h
  · cases h
  · obtain rfl := ok.inj h
    exact ⟨fun d hd => canonical_get? hmap hd, kindFromJson_ok hrec hmap hkind⟩

theorem wellFormed_admitNull (h : WellFormed (n + 1) t) : WellFormed (n + 1) (admitNull t) := by
  obtain ⟨kind, nullable, description, default⟩ := t
  unfold admitNull
  cases kind with
  | enum values =>
    dsimp only
    split_ifs
    · exact h
    · refine ⟨h.1, by simp, fun v hv => ?_⟩
      rcases mem_append.1 hv with hv | hv
      · exact h.2.2 v hv
      · obtain rfl := mem_singleton.1 hv
        exact ⟨rfl, rfl⟩
  | _ => exact ⟨h.1, h.2⟩

theorem canonical_of_mem_anyOf (hmap : (Json.object map).Canonical) {inner : Json N}
    (h : anyOfBranch map = .ok inner) : inner.Canonical := by
  unfold anyOfBranch at h
  split at h
  · next a b hab =>
    obtain ⟨v, hv, hva⟩ := Option.bind_eq_some_iff.1 hab
    have hcan := canonical_get? hmap hv
    cases v with
    | array vs =>
      cases hva
      obtain ⟨ha, hb⟩ : a.Canonical ∧ b.Canonical := by
        cases hcan with
        | array hall => exact ⟨hall a (by simp), hall b (by simp)⟩
      split_ifs at h
      · exact ok.inj h ▸ ha
      · exact ok.inj h ▸ hb
    | _ => cases hva
  · cases h

theorem optionalAnyOf_ok (hmap : (Json.object map).Canonical)
    (hrec : ∀ s t, s.Canonical → fromJson (N := N) n s = .ok t → WellFormed n t)
    (h : optionalAnyOf (fromJson n) map = .ok t) : WellFormed (n + 1) t := by
  unfold optionalAnyOf at h
  dsimp only at h
  split at h
  · cases h
  · obtain ⟨inner, hinn, h⟩ := bind_eq_ok_iff.1 h
    obtain ⟨t₀, ht₀, h⟩ := bind_eq_ok_iff.1 h
    split_ifs at h
    obtain ⟨t₁, ht₁, h⟩ := bind_eq_ok_iff.1 h
    have hwf := wellFormed_admitNull (hrec _ _ (canonical_of_mem_anyOf hmap hinn) ht₀).succ
    have hwf₁ : WellFormed (n + 1) t₁ := by
      unfold wrapDescription at ht₁
      split at ht₁
      · exact ok.inj ht₁ ▸ hwf
      · obtain rfl := ok.inj ht₁
        exact ⟨hwf.1, hwf.2⟩
      · cases ht₁
    unfold wrapDefault at h
    split at h
    · exact ok.inj h ▸ hwf₁
    · next d hd =>
      split_ifs at h
      obtain rfl := ok.inj h
      refine ⟨fun d' hd' => ?_, hwf₁.2⟩
      cases hd'
      exact canonical_get? hmap hd

/-- **A node that was read is well formed.** -/
theorem wellFormed_fromJson {s : Json N} (hs : s.Canonical) (h : fromJson n s = .ok t) :
    WellFormed n t := by
  induction n generalizing s t with
  | zero => cases h
  | succ n ih =>
    cases s with
    | object map =>
      rw [fromJson] at h
      split_ifs at h
      · exact optionalAnyOf_ok hs (fun s t hs h => ih hs h) h
      · exact nodeFromJson_ok hs (fun s t hs h => ih hs h) h
    | _ => cases h

end Nasiko.ToolCompact
