import Mathlib.Data.List.Perm.Basic
import Nasiko.ToolCompact.Agree

/-!
# Writing a schema and reading it again

`Ty.toJson` followed by `Ty.fromJson` gives a node that agrees with the one that was written
(`fromJson_toJson`). Two things in a node are not written in a way that is read back, and
`Writable` excludes them: an enum with a `null` member whose other members share a type, which the
reader rejects, and a required field of any type that may be left out, whose flag is dropped.

A node is written as the map of `nodeEntries`: the keywords of its kind, then its type, its
description and its default, each as far as there is one. `get?_built` says what the reader finds in
such a map, and `fromJson_of_kind` reduces it to what it makes of the kind.
-/

namespace Nasiko.ToolCompact

open SerdeJson Result List Entries Json Object Ty

variable {N F : Type} [SerdeJson N F]

/-! ## The map of a node -/

variable {m : Entries (Json N)} {es : List (Str × Option (Json N))} {k t : Str} {e : Str × Json N}
  {description : Option Str} {nullable : Bool} {default : Option (Json N)}
  {fromJson : Json N → Except Str (Ty N)} {kind : Kind N (Ty N)} {n : Nat} {values : List (Json N)}
  {fields fs : List (Field (Ty N))}
  {f : Field (Ty N)} {v : Json N}

/-- The entries that have a value, put into a map. -/
def built (es : List (Str × Option (Json N))) (m : Entries (Json N)) : Entries (Json N) :=
  es.foldl (fun m e => insertSome e.1 e.2 m) m

theorem get?_insertSome (k l : Str) (v : Option (Json N)) :
    get? (insertSome k v m) l = if l = k then v.or (m.get? l) else m.get? l := by
  cases v with
  | none => simp [insertSome]
  | some v => simp [insertSome, get?_insert m k l v, eq_comm]

theorem get?_built (hke : (es.map Prod.fst).Nodup) (k : Str) :
    (built es m).get? k = (es.lookup k).join.or (m.get? k) := by
  induction es generalizing m with
  | nil => rfl
  | cons e es ih =>
    obtain ⟨hnot, hke⟩ := nodup_cons.1 hke
    rw [built, foldl_cons, ← built, ih hke, get?_insertSome, lookup_cons]
    by_cases hk : k = e.1
    · subst hk
      have hnone : es.lookup e.1 = none := by
        rw [lookup_eq_none_iff]
        intro f hf
        simpa using fun heq : e.1 = f.1 => hnot (heq ▸ mem_map_of_mem hf)
      simp [hnone]
    · simp [hk, beq_false_of_ne hk]

theorem mem_built (h : e ∈ built es m) : (e.1, some e.2) ∈ es ∨ e ∈ m := by
  induction es generalizing m with
  | nil => exact .inr h
  | cons f es ih =>
    obtain ⟨k, v⟩ := f
    rcases ih h with h | h
    · exact .inl (mem_cons_of_mem _ h)
    · cases v with
      | none => exact .inr h
      | some v =>
        rcases mem_insert h with rfl | h
        · exact .inl mem_cons_self
        · exact .inr h

/-- The keywords of a kind, with the values of those that are written. -/
def kindEntries : Kind N (Ty N) → List (Str × Option (Json N))
  | .str f => [("format", f.map fun f => .string f.schemaName)]
  | .int r | .num r => [("minimum", r.min.map .number), ("maximum", r.max.map .number)]
  | .enum values => [("enum", some (.array values))]
  | .array items => [("items", if items.isBare then none else some items.toJson)]
  | .object obj =>
    [("properties", some (.object (Entries.ofList (fieldsToJson obj.fields)))),
      ("required", requiredJson obj.fields),
      ("additionalProperties", if obj.closed then some (.bool false) else none)]
  | .bool | .any | .anyObject => []

def nodeEntries (t : Ty N) : List (Str × Option (Json N)) :=
  kindEntries t.kind ++ ([("type", (kindToJson t.kind).2.map fun b => typeJson b t.nullable),
    ("description", t.description.map .string), ("default", t.default)] :
      List (Str × Option (Json N)))

def nodeMap (t : Ty N) : Entries (Json N) := built (nodeEntries t) []

theorem toJson_eq (t : Ty N) : t.toJson = .object (nodeMap t) := by
  obtain ⟨kind, nullable, description, default⟩ := t
  cases kind with
  | array items =>
    simp only [toJson, kindToJson, nodeMap, nodeEntries, kindEntries]
    split_ifs <;> rfl
  | object obj =>
    obtain ⟨fields, _ | _⟩ := obj <;> rfl
  | _ => rfl

theorem get?_node (t : Ty N) (k : Str) : (nodeMap t).get? k = ((nodeEntries t).lookup k).join := by
  have hke : ((nodeEntries t).map Prod.fst).Nodup := by
    obtain ⟨kind, nullable, description, default⟩ := t
    cases kind <;> simp [nodeEntries, kindEntries]
  rw [nodeMap, get?_built hke, get?_nil, Option.or_none]

/-! ## Reading the map of a node -/

/-- A type name that `type` may hold. -/
theorem parseType_typeJson (ht : t ≠ "null".toList) :
    parseType (some (typeJson (N := N) t nullable)) = .ok (some t, nullable) := by
  cases nullable with
  | false => simp only [typeJson, parseType, Bool.false_eq_true, if_false, if_neg ht]
  | true =>
    have hcond : "null".toList = "null".toList ∧
        [t, "null".toList].length = [string (N := N) t, .string "null".toList].length ∧
        t ≠ "null".toList := ⟨rfl, rfl, ht⟩
    exact if_pos hcond

/-- The keywords that a kind uses. -/
def usedBy : Kind N (Ty N) → List Str
  | .str _ => ["type", "format"]
  | .int _ | .num _ => ["type", "minimum", "maximum"]
  | .bool => ["type"]
  | .any => []
  | .enum _ => ["enum", "const", "type"]
  | .array _ => ["type", "items"]
  | .anyObject | .object _ =>
    ["type", "properties", "required", "additionalProperties"]

theorem scalarType_ne_null (h : scalarType v = some t) : t ≠ "null" := by
  cases v with
  | number n =>
    cases h
    split_ifs <;> decide
  | string s | bool b => exact Option.some.inj h ▸ by decide
  | _ => cases h

theorem commonScalarType_ne_null (h : commonScalarType values = some t) : t ≠ "null" := by
  unfold commonScalarType at h
  split at h
  · cases h
  · split at h
    · cases h
    · next t' ht' =>
      split_ifs at h
      exact Option.some.inj h ▸ scalarType_ne_null ht'

theorem base_ne_null (h : (kindToJson kind).2 = some t) : t ≠ "null" := by
  cases kind with
  | any => cases h
  | enum values => exact commonScalarType_ne_null h
  | _ => exact Option.some.inj h ▸ by decide

theorem get?_annotations (t : Ty N) : (nodeMap t).get? "anyOf" = none ∧
      (nodeMap t).get? "description" = t.description.map .string ∧
      (nodeMap t).get? "default" = t.default ∧
      (nodeMap t).get? "type" = (kindToJson t.kind).2.map fun b => typeJson b t.nullable := by
  rw [get?_node, get?_node, get?_node, get?_node]
  obtain ⟨kind, nullable, description, default⟩ := t
  cases kind <;> exact ⟨rfl, rfl, rfl, rfl⟩

theorem mem_usedBy {t : Ty N} (he : e ∈ nodeMap t) :
    e.1 ∈ usedBy t.kind ∨ e.1 = "description" ∨ e.1 = "default" := by
  have hmem := (mem_built he).resolve_right not_mem_nil
  obtain ⟨kind, nullable, description, default⟩ := t
  cases kind <;> simp [nodeEntries, kindEntries, kindToJson, usedBy] at hmem ⊢ <;> tauto

/-- A node whose kind is read back as `kind'`. -/
theorem fromJson_of_kind {t : Ty N} {kind' : Kind N (Ty N)}
    (hnu : (kindToJson t.kind).2 = none → t.nullable = false)
    (hkind : kindFromJson (Ty.fromJson n) (nodeMap t) (kindToJson t.kind).2 t.nullable =
      .ok (kind', usedBy t.kind)) :
    Ty.fromJson (n + 1) t.toJson = .ok { t with kind := kind' } := by
  obtain ⟨hany, hdesc, hdef, htype⟩ := get?_annotations t
  have hdesc' : descriptionOf (nodeMap t) = .ok t.description := by
    rw [descriptionOf, hdesc]
    cases t.description <;> rfl
  have htype' : parseType ((nodeMap t).get? "type") = .ok ((kindToJson t.kind).2, t.nullable) := by
    rw [htype]
    cases hbase : (kindToJson t.kind).2 with
    | none => rw [hnu hbase]; rfl
    | some b => exact parseType_typeJson (base_ne_null hbase)
  have hkno : (nodeMap t).find? (fun e =>
      !((usedBy t.kind).contains e.1 || e.1 == "description".toList || e.1 == "default".toList ||
        ignoredKeywords.contains e.1)) = none := by
    rw [find?_eq_none]
    intro e he
    rcases mem_usedBy he with h | h | h <;> simp [h]
  rw [toJson_eq, fromJson, containsKey_eq_isSome, hany, if_neg (by simp)]
  simp only [nodeFromJson, hdesc', hdef, htype', hkind, ok_bind, hkno]
  rfl

/-! ## What is read back -/

/-- A node that is read back as what it says. -/
inductive Writable : Ty N → Prop
  | mk {t : Ty N}
      (enum : ∀ values, t.kind = .enum values → t.nullable = false ∧
        (contains values .null = true → commonScalarType values = none))
      (array : ∀ items, t.kind = .array items → Writable items)
      (any : ∀ obj, t.kind = .object obj → ∀ f ∈ obj.fields,
        f.ty.kind = .any → f.omittable = false)
      (object : ∀ obj, t.kind = .object obj → ∀ f ∈ obj.fields, Writable f.ty) : Writable t

/-- `t'` is what `t` is read back as. Only a node of any type loses its `nullable` flag. -/
structure ReadAs (t t' : Ty N) : Prop where
  agree : Agree t t'
  default : t'.default = t.default
  any : t.kind = .any → t'.allowsNull = false
  other : t.kind ≠ .any → t'.allowsNull = t.allowsNull

theorem ReadAs.fieldAgree {t' : Ty N} (h : ReadAs f.ty t')
    (hany : f.ty.kind = .any → f.omittable = false) :
    FieldAgree f ⟨f.name, f.required, t'⟩ := by
  refine ⟨rfl, rfl, ?_, h.agree⟩
  by_cases hk : f.ty.kind = .any
  · rw [hany hk]
    simp [Field.omittable, h.any hk]
  · exact omittable_congr rfl (h.other hk).symm h.default.symm

theorem ReadAs.same (hk : kind ≠ .any) (nullable : Bool) (description : Option Str)
    (default : Option (Json N)) :
    ReadAs ⟨kind, nullable, description, default⟩ ⟨kind, nullable, description, default⟩ :=
  ⟨.refl _, rfl, fun h => absurd h hk, fun _ => rfl⟩

theorem enumValues_node {t : Ty N} (h : ∀ values, t.kind ≠ .enum values) :
    enumValues (nodeMap t) = .ok none := by
  have hnone : (nodeMap t).get? "enum" = none ∧ (nodeMap t).get? "const" = none := by
    rw [get?_node, get?_node]
    obtain ⟨kind, nullable, description, default⟩ := t
    cases kind with
    | enum values => exact absurd rfl (h values)
    | _ => exact ⟨rfl, rfl⟩
  simp only [enumValues, hnone]

theorem range_node {t : Ty N} {r : Range N} (ht : t.kind = .int r ∨ t.kind = .num r) :
    range (nodeMap t) = .ok r := by
  rw [range, bound, bound, get?_node, get?_node]
  obtain ⟨kind, nullable, description, default⟩ := t
  obtain ⟨min, max⟩ := r
  rcases ht with rfl | rfl <;> cases min <;> cases max <;> rfl

/-! ### Enums -/

theorem valueHasType_scalarType (h : scalarType v = some t) : valueHasType v t = true := by
  cases v with
  | string s | bool b =>
    cases h
    rfl
  | number n =>
    cases h
    by_cases hn : (isI64 n || isU64 n) = true
    · rw [if_pos hn]
      exact hn
    · rw [if_neg hn]
      rfl
  | _ => cases h

theorem commonScalarType_all (h : commonScalarType values = some t) :
    ∀ v ∈ values, v.isNull = false → scalarType v = some t := by
  intro v hv hnu
  have hmem : v ∈ values.filter fun v => !v.isNull := mem_filter.2 ⟨hv, by simp [hnu]⟩
  unfold commonScalarType at h
  split at h
  · cases h
  · next w ws hfil =>
    rw [hfil] at hmem
    split at h
    · cases h
    · next t' ht' =>
      split_ifs at h with hall
      cases h
      rcases mem_cons.1 hmem with rfl | hmem
      · exact ht'
      · simpa using all_eq_true.1 hall v hmem

theorem contains_null_iff : contains values .null = true ↔ null ∈ values := by
  simp only [contains, any_eq_true]
  constructor
  · rintro ⟨v, hv, heq⟩
    cases v with
    | null => exact hv
    | _ => cases heq
  · exact fun h => ⟨.null, h, rfl⟩

theorem kindFromJson_enum {t : Ty N} (ht : t.kind = .enum values) (hfal : t.nullable = false)
    (hne : values ≠ []) (hsca : ∀ v ∈ values, IsScalar v)
    (hnu : contains values .null = true → commonScalarType values = none) :
    kindFromJson fromJson (nodeMap t) (kindToJson t.kind).2 t.nullable =
      .ok (.enum values, usedBy t.kind) := by
  obtain ⟨kind, nullable, description, default⟩ := t
  obtain rfl : kind = .enum values := ht
  obtain rfl : nullable = false := hfal
  have henum := get?_node (⟨.enum values, false, description, default⟩ : Ty N) "enum"
  have hcon := get?_node (⟨.enum values, false, description, default⟩ : Ty N) "const"
  have hemp : ¬ values.isEmpty = true := by simpa using hne
  have hany : ¬ (values.any fun v => v.isArray || v.isObject) = true := by
    simp only [any_eq_true, not_exists, not_and, Bool.not_eq_true, Bool.or_eq_false_iff]
    exact fun v hv => hsca v hv
  have hvals : enumValues (nodeMap ⟨.enum values, false, description, default⟩) =
      .ok (some values) := by
    rw [enumValues, henum, hcon]
    exact (if_neg hemp).trans (if_neg hany)
  unfold kindFromJson
  rw [hvals, ok_bind]
  cases hc : commonScalarType values with
  | none =>
    rw [kindToJson, hc]
    rfl
  | some t =>
    have hall : (values.all fun v => valueHasType v t || (false && v.isNull)) = true := by
      rw [all_eq_true]
      intro v hv
      have hv' : v.isNull = false := by
        rw [← Bool.not_eq_true, isNull_iff]
        rintro rfl
        rw [hnu (contains_null_iff.2 hv)] at hc
        cases hc
      rw [valueHasType_scalarType (commonScalarType_all hc v hv hv'), Bool.true_or]
    rw [kindToJson, hc]
    simp only [hall]
    rfl

/-! ### Arrays and objects -/

theorem isBare_kind {t : Ty N} (h : t.isBare = true) : t.kind = .any := by
  unfold isBare at h
  split at h
  · assumption
  · cases h

theorem fieldsToJson_eq_map (fields : List (Field (Ty N))) :
    fieldsToJson fields = fields.map fun f => (f.name, f.ty.toJson) := by
  induction fields with
  | nil => rfl
  | cons f fields ih =>
    rw [fieldsToJson, ih]
    rfl

def requiredOf (fields : List (Field (Ty N))) : List Str :=
  (fields.filter Field.required).map Field.name

theorem requiredNames_names : requiredNames.names (fs.map fun f => string (N := N) f.name) =
      .ok (fs.map Field.name) := by
  induction fs with
  | nil => rfl
  | cons f fs ih =>
    rw [map_cons, requiredNames.names, ih]
    rfl

theorem contains_requiredOf (hnd : (fields.map Field.name).Nodup)
    (hf : f ∈ fields) : (requiredOf fields).contains f.name = f.required := by
  rw [Bool.eq_iff_iff, contains_iff_mem, requiredOf, mem_map]
  constructor
  · rintro ⟨g, hg, hname⟩
    obtain ⟨hg, hreq⟩ := mem_filter.1 hg
    exact inj_on_of_nodup_map hnd hg hf hname ▸ hreq
  · exact fun hreq => ⟨f, mem_filter.2 ⟨hf, hreq⟩, rfl⟩

section

variable {fromJson : Json N → Except Str (Ty N)} {g : Field (Ty N) → Ty N}

theorem propertyFields_map {required : List Str}
    (hreq : ∀ f ∈ fs, required.contains f.name = f.required)
    (hg : ∀ f ∈ fs, fromJson f.ty.toJson = .ok (g f)) :
    propertyFields fromJson required (fs.map fun f => (f.name, f.ty.toJson)) =
      .ok (fs.map fun f => ⟨f.name, f.required, g f⟩) := by
  induction fs with
  | nil => rfl
  | cons f fs ih =>
    obtain ⟨hreqf, hreq⟩ := forall_mem_cons.1 hreq
    obtain ⟨hgf, hg⟩ := forall_mem_cons.1 hg
    simp only [map_cons, propertyFields, hgf, hreqf, ih hreq hg]
    rfl

variable {fields : List (Field (Ty N))}

/-- The map of `properties` is ordered by name; sorting the fields undoes that. -/
theorem objectFields_ofList (harr : Arranged fields)
    (hg : ∀ f ∈ fields, fromJson f.ty.toJson = .ok (g f)) (closed : Bool) :
    objectFields fromJson (requiredOf fields) closed (ofList (fieldsToJson fields)) =
      .ok (.object ⟨fields.map fun f => ⟨f.name, f.required, g f⟩, closed⟩) := by
  have hke : ((fieldsToJson fields).map Prod.fst).Nodup := by
    rw [fieldsToJson_eq_map, map_map]
    exact harr.nodup
  have hperm : (ofList (fieldsToJson fields)).Perm (fields.map fun f => (f.name, f.ty.toJson)) :=
    fieldsToJson_eq_map fields ▸ ofList_perm hke
  have hmis : (requiredOf fields).find? (fun r =>
      !containsKey (ofList (fieldsToJson fields)) r) = none := by
    rw [find?_eq_none]
    intro r hr
    obtain ⟨f, hf, rfl⟩ := mem_map.1 hr
    have hmem := hperm.mem_iff.2 (mem_map_of_mem (mem_of_mem_filter hf))
    have := containsKey_iff.2 ⟨_, hmem, rfl⟩
    simpa using this
  obtain ⟨fs, hfs, hfsp⟩ : ∃ fs : List (Field (Ty N)),
      ofList (fieldsToJson fields) = fs.map (fun f => (f.name, f.ty.toJson)) ∧ fs.Perm fields := by
    have := congrFun (congrFun (eq_map_comp_perm fun f : Field (Ty N) =>
      (f.name, f.ty.toJson)) (ofList (fieldsToJson fields))) fields
    exact this.mpr hperm
  have hreq : ∀ f ∈ fs, (requiredOf fields).contains f.name = f.required :=
    fun f hf => contains_requiredOf harr.nodup (hfsp.mem_iff.1 hf)
  have hpro := propertyFields_map hreq fun f hf => hg f (hfsp.mem_iff.1 hf)
  have hsort : fs.insertionSort (fun a b => before a b = true) = fields := by
    refine Perm.eq_of_pairwise (fun a b ha hb hab hba => ?_) (pairwise_insertionSort _ fs)
      harr.sorted ((perm_insertionSort _ fs).trans hfsp)
    refine inj_on_of_nodup_map harr.nodup (hfsp.mem_iff.1
      ((mem_insertionSort _).1 ha)) hb (before_antisymm hab hba)
  rw [objectFields, hmis]
  rw [hfs, hpro]
  have hmap := map_insertionSort (r := fun a b : Field (Ty N) => before a b = true)
    (s := fun a b : Field (Ty N) => before a b = true)
    (fun f : Field (Ty N) => Field.mk f.name f.required (g f)) fs (fun a _ b _ => Iff.rfl)
  rw [hsort] at hmap
  rw [hmap]
  rfl

theorem kindFromJson_object {t : Ty N} {closed : Bool} (ht : t.kind = .object ⟨fields, closed⟩)
    (harr : Arranged fields) (hg : ∀ f ∈ fields, fromJson f.ty.toJson = .ok (g f)) :
    kindFromJson fromJson (nodeMap t) (kindToJson t.kind).2 t.nullable =
      .ok (.object ⟨fields.map fun f => ⟨f.name, f.required, g f⟩, closed⟩, usedBy t.kind) := by
  have henum := enumValues_node (by rw [ht]; rintro _ ⟨⟩)
  have hget := get?_node t
  obtain ⟨kind, nullable, description, default⟩ := t
  obtain rfl : kind = .object ⟨fields, closed⟩ := ht
  have hclo : closedFlag (nodeMap ⟨.object ⟨fields, closed⟩, nullable, description, default⟩) =
      .ok closed := by
    rw [closedFlag, hget]
    cases closed <;> rfl
  have hrqr : requiredNames (nodeMap ⟨.object ⟨fields, closed⟩, nullable, description,
      default⟩) = .ok (requiredOf fields) := by
    have hreq : _ = requiredJson fields := hget "required"
    rw [requiredNames, hreq, requiredJson, requiredOf]
    cases fields.filter Field.required with
    | nil => rfl
    | cons f fs => exact requiredNames_names
  have hpro : _ = some (Json.object (ofList (fieldsToJson fields))) := hget "properties"
  rw [kindFromJson.eq_def, henum]
  change (object _ _ >>= fun k => .ok (k, _)) = _
  rw [object, hclo, hrqr, ok_bind, ok_bind, hpro]
  dsimp only
  rw [objectFields_ofList harr hg, ok_bind]
  rfl

end

/-! ### Nodes -/

theorem fromJson_object (closed : Bool) (harr : Arranged fields)
    (hfs : ∀ f ∈ fields, ∃ t', Ty.fromJson n f.ty.toJson = .ok t' ∧ ReadAs f.ty t')
    (hany : ∀ f ∈ fields, f.ty.kind = .any → f.omittable = false) :
    ∃ fields', (∀ nullable description default, Ty.fromJson (n + 1)
          (toJson ⟨.object ⟨fields, closed⟩, nullable, description, default⟩) =
        .ok ⟨.object ⟨fields', closed⟩, nullable, description, default⟩) ∧
      List.Forall₂ FieldAgree fields fields' := by
  have : Nonempty (Ty N) := ⟨.plain .any⟩
  choose! g hg using hfs
  refine ⟨fields.map fun f => ⟨f.name, f.required, g f⟩, fun nullable description default => ?_, ?_⟩
  · exact fromJson_of_kind nofun (kindFromJson_object rfl harr fun f hf => (hg f hf).1)
  · rw [forall₂_map_right_iff, forall₂_same]
    exact fun f hf => (hg f hf).2.fieldAgree (hany f hf)

/-- **A node that is written is read back as one that agrees with it.** -/
theorem fromJson_toJson {t : Ty N} (h : WellFormed n t) (hw : Writable t) :
    ∃ t', Ty.fromJson n t.toJson = .ok t' ∧ ReadAs t t' := by
  induction n generalizing t with
  | zero => exact h.elim
  | succ n ih =>
    obtain ⟨kind, nullable, description, default⟩ := t
    obtain ⟨hwen, hwar, hwany, hwob⟩ := hw
    obtain ⟨-, hok⟩ := h
    have hget := get?_node (⟨kind, nullable, description, default⟩ : Ty N)
    cases kind with
    | str f =>
      refine ⟨_, fromJson_of_kind (by rintro ⟨⟩) ?_, .same (by rintro ⟨⟩) _ _ _⟩
      rw [kindFromJson.eq_def, enumValues_node (by rintro _ ⟨⟩)]
      change (stringFormat _ >>= fun f => .ok (Kind.str f, _)) = _
      have hfor : _ = f.map fun f => string f.schemaName := hget "format"
      rw [stringFormat, hfor]
      cases f with
      | none => rfl
      | some f => simp [Format.fromSchemaName_schemaName, usedBy]
    | int r =>
      refine ⟨_, fromJson_of_kind (by rintro ⟨⟩) ?_, .same (by rintro ⟨⟩) _ _ _⟩
      rw [kindFromJson.eq_def, enumValues_node (by rintro _ ⟨⟩)]
      rw [range_node (.inl rfl)]
      rfl
    | num r =>
      refine ⟨_, fromJson_of_kind (by rintro ⟨⟩) ?_, .same (by rintro ⟨⟩) _ _ _⟩
      rw [kindFromJson.eq_def, enumValues_node (by rintro _ ⟨⟩)]
      rw [range_node (.inr rfl)]
      rfl
    | bool =>
      refine ⟨_, fromJson_of_kind (by rintro ⟨⟩) ?_, .same (by rintro ⟨⟩) _ _ _⟩
      rw [kindFromJson.eq_def, enumValues_node (by rintro _ ⟨⟩)]
      rfl
    | anyObject =>
      refine ⟨_, fromJson_of_kind (by rintro ⟨⟩) ?_, .same (by rintro ⟨⟩) _ _ _⟩
      rw [kindFromJson.eq_def, enumValues_node (by rintro _ ⟨⟩)]
      simp only [object, closedFlag, requiredNames, hget]
      rfl
    | any =>
      refine ⟨⟨.any, false, description, default⟩, ?_, agree_any rfl rfl, rfl, fun _ => rfl,
        fun h => absurd rfl h⟩
      change fromJson (n + 1) (toJson ⟨.any, false, description, default⟩) = _
      refine fromJson_of_kind (fun _ => rfl) ?_
      rw [kindFromJson.eq_def, enumValues_node (by rintro _ ⟨⟩)]
      rfl
    | enum values =>
      obtain ⟨hfal, hnu⟩ := hwen values rfl
      exact ⟨_, fromJson_of_kind (fun _ => hfal)
        (kindFromJson_enum rfl hfal hok.1 hok.2 hnu), .same (by rintro ⟨⟩) _ _ _⟩
    | array items =>
      obtain ⟨items', hit, hagr⟩ : ∃ items', (itemsFromJson (fromJson n)
          (nodeMap ⟨.array items, nullable, description, default⟩) = .ok items') ∧
            Agree items items' := by
        have hit : _ = if items.isBare then none else some items.toJson := hget "items"
        rw [itemsFromJson, hit]
        cases hbare : items.isBare with
        | true => exact ⟨.plain .any, rfl, agree_any (isBare_kind hbare) rfl⟩
        | false =>
          rcases hok with rfl | hit
          · cases hbare
          · obtain ⟨items', h₁, h₂⟩ := ih hit (hwar items rfl)
            rw [toJson_eq] at h₁ ⊢
            exact ⟨items', h₁, h₂.agree⟩
      refine ⟨⟨.array items', nullable, description, default⟩, fromJson_of_kind nofun ?_,
        .array rfl rfl rfl hagr, rfl, nofun, fun _ => rfl⟩
      rw [kindFromJson.eq_def, enumValues_node (by rintro _ ⟨⟩)]
      rw [arrayItems, hit]
      rfl
    | object obj =>
      obtain ⟨fields, closed⟩ := obj
      obtain ⟨fields', hfrom, hagr⟩ := fromJson_object closed hok.1
        (fun f hf => ih (hok.2 f hf) (hwob _ rfl f hf)) (hwany _ rfl)
      exact ⟨_, hfrom nullable description default, .object rfl rfl rfl hagr, rfl,
        by rintro ⟨⟩, fun _ => rfl⟩

end Nasiko.ToolCompact
