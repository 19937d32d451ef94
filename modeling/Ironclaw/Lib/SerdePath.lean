import Ironclaw.Lib.Serde

/-!
# Paths into serialized values

A path is a list of keys. `Json.valueAt` is the value there and `Ty.typeAt` its type; `Json.setAt` puts another value
there.

- `setAt_spec`: what is read after one place of a tree was changed: the type of the place reads what was put there, and
  no other place has changed;
- `setAt_of_typeAt`: a value that the type of the place reads can be put there.
-/

namespace Ironclaw

open OrderedMap

namespace Json

/-- The value at a path. -/
def valueAt (j : Json) : List Str → Option Json
  | [] => some j
  | k :: p => (j.get k).bind fun x => x.valueAt p

/-- The tree with a value put at a path: what is above it has to be there. -/
def setAt (v : Json) : List Str → Json → Option Json
  | [], _ => some v
  | k :: p, .obj kvs =>
    match p with
    | [] => some (.obj (insertKey k v kvs))
    | _ :: _ => (kvs.lookup k).bind fun x => (setAt v p x).map fun x => .obj (insertKey k x kvs)
  | _ :: _, _ => none

end Json

namespace Serde

/-! ## The type at a path -/

def fieldNamed (fields : List (Field × Ty)) (k : Str) : Option (Field × Ty) := fields.find? fun ft => ft.1.name == k

namespace Ty

/-- The type of the values under a key. -/
def child : Ty → Str → Option Ty
  | .option t, k => child t k
  | .map t, _ => some t
  | .struct fields, k => (fieldNamed fields k).map Prod.snd
  | _, _ => none

/-- `None` under the key is left out. -/
def omits : Ty → Str → Bool
  | .option t, k => omits t k
  | .struct fields, k => (fieldNamed fields k).any fun ft => ft.1.skipNone
  | _, _ => false

/-- The type at a path. -/
def typeAt (t : Ty) : List Str → Option Ty
  | [] => some t
  | k :: p => (t.child k).bind fun c => c.typeAt p

/-- `None` at the path is left out. -/
def omitsAt (t : Ty) : List Str → Bool
  | [] => false
  | [k] => t.omits k
  | k :: l :: p => (t.child k).any fun c => c.omitsAt (l :: p)

/-- What is written of a value under a key. -/
def shows (t : Ty) (k : Str) (c : Ty) (d : Json) : Option Json :=
  if t.omits k = true ∧ d = .null then none else some (toValue c d)

end Ty

/-- What `wf` says of one field. -/
structure FieldWf (all : List Str) (f : Field) (t : Ty) : Prop where
  wf : wf t = true
  alias_notMem : ∀ a ∈ f.aliasName, a ∉ all
  skip : f.skipNone = true → f.default = some .null ∧ f.aliasName = none
  option : f.skipNone = true → t = .option .string

theorem isOptionalString_iff {t : Ty} : t.isOptionalString = true ↔ t = .option .string := by
  constructor
  · intro h
    match t, h with
    | .option .string, _ => rfl
  · rintro rfl
    rfl

theorem fieldWf_of_mem {all : List Str} {ft : Field × Ty} : ∀ {fields : List (Field × Ty)}, wfFields all fields = true →
    ft ∈ fields → FieldWf all ft.1 ft.2
  | (f, t) :: fields, h, hmem => by
    simp only [wfFields, Bool.and_eq_true] at h
    obtain ⟨⟨⟨⟨ht, -⟩, hname⟩, hskip⟩, hfields⟩ := h
    rcases List.mem_cons.mp hmem with rfl | hmem
    · have hskip : f.skipNone = true →
          (f.default = some .null ∧ f.aliasName = none) ∧ t.isOptionalString = true :=
            fun hs => by simpa [hs] using hskip
      refine ⟨ht, fun a ha => ?_, fun hs => (hskip hs).1, fun hs => isOptionalString_iff.1 (hskip hs).2⟩
      rw [Option.mem_def.mp ha] at hname
      simpa using hname
    · exact fieldWf_of_mem hfields hmem

theorem fieldNamed_eq_some {ft : Field × Ty} {k : Str} {fields : List (Field × Ty)}
    (h : fieldNamed fields k = some ft) :
    ft ∈ fields ∧ ft.1.name = k := by
  have hname : (ft.1.name == k) = true := List.find?_some (p := fun ft : Field × Ty => ft.1.name == k) h
  exact ⟨List.mem_of_find?_eq_some h, beq_iff_eq.mp hname⟩

theorem fieldNamed_eq_none {k : Str} {fields : List (Field × Ty)} (h : fieldNamed fields k = none) :
    k ∉ names fields := by
  intro hk
  obtain ⟨ft, hft, hname⟩ := List.mem_map.mp hk
  exact List.find?_eq_none.mp h ft hft (beq_iff_eq.mpr hname)

/-- A field of a struct, replaced by a value of its type. -/
theorem admitsFields_insertEntry {k : Str} {v : Json} {ft : Field × Ty} (hv : admits ft.2 v = true) :
    ∀ {fields : List (Field × Ty)} {kvs : List (Str × Json)}, admitsFields fields kvs = true →
      fieldNamed fields k = some ft → admitsFields fields (Json.insertEntry k v kvs) = true
  | (f, t) :: fields, (l, d) :: kvs, h, hft => by
    simp only [admitsFields, Bool.and_eq_true, beq_iff_eq] at h
    obtain ⟨⟨rfl, hd⟩, hrest⟩ := h
    rw [fieldNamed, List.find?_cons] at hft
    rw [Json.insertEntry]
    by_cases hk : k = f.name
    · rw [beq_iff_eq.mpr hk.symm] at hft
      cases hft
      simp [hk, admitsFields, hv, hrest]
    · rw [beq_false_of_ne (Ne.symm hk)] at hft
      simp [hk, admitsFields, hd, admitsFields_insertEntry hv hrest hft]

/-- The value of each field of a struct. -/
theorem exists_mem_zip {ft : Field × Ty} : ∀ {fields : List (Field × Ty)} {ds : List (Str × Json)},
    admitsFields fields ds = true → ft ∈ fields → ∃ d, (ft, d) ∈ fields.zip (ds.map Prod.snd) ∧ admits ft.2 d = true
  | (f, t) :: fields, (k, d) :: ds, h, hmem => by
    simp only [admitsFields, Bool.and_eq_true] at h
    obtain ⟨⟨-, hd⟩, hds⟩ := h
    rcases List.mem_cons.mp hmem with rfl | hmem
    · exact ⟨d, List.mem_cons_self, hd⟩
    · obtain ⟨e, he, hadmits⟩ := exists_mem_zip hds hmem
      exact ⟨e, List.mem_cons_of_mem _ he, hadmits⟩

theorem mem_zip_readMap {ft : Field × Ty} {m : List (Str × Json)} :
    ∀ {fields : List (Field × Ty)} {ds : List (Str × Json)}, readMap fields m = some ds → ft ∈ fields →
    ∃ d, (ft, d) ∈ fields.zip (ds.map Prod.snd) ∧ readField (fromValue ft.2) ft.1 m = some d
  | (f, t) :: fields, ds, h, hmem => by
    obtain ⟨d, hd, h⟩ := Option.bind_eq_some_iff.mp h
    obtain ⟨ds', hds', rfl⟩ := Option.map_eq_some_iff.mp h
    rcases List.mem_cons.mp hmem with rfl | hmem
    · exact ⟨d, List.mem_cons_self, hd⟩
    · obtain ⟨e, he, hread⟩ := mem_zip_readMap hds' hmem
      exact ⟨e, List.mem_cons_of_mem _ he, hread⟩

theorem exists_readMap {m : List (Str × Json)} : ∀ {fields : List (Field × Ty)},
    (∀ ft ∈ fields, ∃ d, readField (fromValue ft.2) ft.1 m = some d) → ∃ ds, readMap fields m = some ds
  | [], _ => ⟨[], rfl⟩
  | (f, t) :: fields, h => by
    obtain ⟨d, hd⟩ := h (f, t) List.mem_cons_self
    obtain ⟨ds, hds⟩ := exists_readMap fun ft hft => h ft (List.mem_cons_of_mem _ hft)
    exact ⟨(f.name, d) :: ds, by rw [readMap, hd, hds]; rfl⟩

section Struct

variable {fields : List (Field × Ty)} {ds : List (Str × Json)} {k : Str} {v : Json}

theorem lookup_struct (hwf : wf (.struct fields) = true) {ft : Field × Ty} {d : Json}
    (h : (ft, d) ∈ fields.zip (ds.map Prod.snd)) : (ofEntries (written fields ds)).lookup ft.1.name =
      shown ft.1 ft.2 d := by
  rw [lookup_ofEntries]
  exact lookup_written (of_decide_eq_true (Bool.and_eq_true_iff.mp hwf).1) h

theorem lookup_struct_of_notMem (h : k ∉ names fields) : (ofEntries (written fields ds)).lookup k = none := by
  rw [lookup_ofEntries]
  exact lookup_written_of_notMem h

/-- The field that has the key reads the new value. -/
theorem readField_insertKey_self {read : Json → Option Json} {f : Field} {t : Ty} (hwf : FieldWf (names fields) f t)
    (hmem : f.name ∈ names fields) :
    readField read f (insertKey f.name v (ofEntries (written fields ds))) = read v := by
  refine readField_name (by rw [lookup_insertKey, if_pos rfl]) ?_
  cases ha : f.aliasName with
  | none => rfl
  | some a =>
    have hnot := hwf.alias_notMem a ha
    have hne : a ≠ f.name := by
      rintro rfl
      exact hnot hmem
    rw [Option.bind_some, lookup_insertKey, if_neg hne]
    exact lookup_struct_of_notMem hnot

/-- The other fields read what they had. -/
theorem readField_insertKey_ne (hstruct : wf (.struct fields) = true) {ft : Field × Ty} {d : Json}
    (hwf : FieldWf (names fields) ft.1 ft.2) (hne : ft.1.name ≠ k) (halias : ft.1.aliasName ≠ some k)
    (hd : (ft, d) ∈ fields.zip (ds.map Prod.snd)) (hadmits : admits ft.2 d = true) :
    readField (fromValue ft.2) ft.1 (insertKey k v (ofEntries (written fields ds))) = some d := by
  have hname : (insertKey k v (ofEntries (written fields ds))).lookup ft.1.name = shown ft.1 ft.2 d := by
    rw [lookup_insertKey, if_neg hne, lookup_struct hstruct hd]
  have hnone : (ft.1.aliasName.bind fun a => (insertKey k v (ofEntries (written fields ds))).lookup a) = none := by
    cases ha : ft.1.aliasName with
    | none => rfl
    | some a =>
      rw [Option.bind_some, lookup_insertKey, if_neg fun heq => halias (ha.trans (congrArg some heq))]
      exact lookup_struct_of_notMem (hwf.alias_notMem a ha)
  rw [shown] at hname
  split at hname
  next hnull => rw [readField_default hname hnone, (hwf.skip hnull.1).1, hnull.2]
  · rw [readField_name hname hnone]
    exact fromValue_toValue hwf.wf hadmits

/-- **A struct** with one entry changed. -/
theorem struct_insertKey {ds' : List (Str × Json)} (hwf : wf (.struct fields) = true)
    (h : admitsFields fields ds = true)
    (hread : readMap fields (insertKey k v (ofEntries (written fields ds))) = some ds') :
    (∀ l, l ≠ k → (ofEntries (written fields ds')).lookup l = (ofEntries (written fields ds)).lookup l) ∧
    ((Ty.struct fields).child k = none → (ofEntries (written fields ds')).lookup k = none) ∧
    ∀ c, (Ty.struct fields).child k = some c → ∃ d, fromValue c v = some d ∧
      (ofEntries (written fields ds')).lookup k = (Ty.struct fields).shows k c d := by
  have hfields := (Bool.and_eq_true_iff.mp hwf).2
  refine ⟨fun l hl => ?_, fun hnone => ?_, fun c hc => ?_⟩
  · by_cases hmem : l ∈ names fields
    · obtain ⟨ft, hft, rfl⟩ := List.mem_map.mp hmem
      have hfwf := fieldWf_of_mem hfields hft
      obtain ⟨d, hd, hadmits⟩ := exists_mem_zip h hft
      obtain ⟨d', hd', hfield⟩ := mem_zip_readMap hread hft
      have halias : ft.1.aliasName ≠ some k := by
        -- a key that is the alias of a field with a name is a duplicate
        intro ha
        have hk : (ft.1.aliasName.bind fun a => (insertKey k v (ofEntries (written fields ds))).lookup a) = some v := by
          rw [ha, Option.bind_some, lookup_insertKey, if_pos rfl]
        have hskip : ft.1.skipNone = false := by
          by_contra hs
          have hnone := (hfwf.skip (Bool.not_eq_false _ ▸ hs)).2
          rw [ha] at hnone
          cases hnone
        have hname : (insertKey k v (ofEntries (written fields ds))).lookup ft.1.name = some (toValue ft.2 d) := by
          rw [lookup_insertKey, if_neg hl, lookup_struct hwf hd, shown, hskip]
          exact if_neg (by simp)
        rw [readField, hname, hk] at hfield
        cases hfield
      rw [readField_insertKey_ne hwf hfwf hl halias hd hadmits] at hfield
      obtain rfl := Option.some.inj hfield
      rw [lookup_struct hwf hd, lookup_struct hwf hd']
    · rw [lookup_struct_of_notMem hmem, lookup_struct_of_notMem hmem]
  · exact lookup_struct_of_notMem (fieldNamed_eq_none (Option.map_eq_none_iff.mp hnone))
  · obtain ⟨ft, hft, rfl⟩ := Option.map_eq_some_iff.mp hc
    obtain ⟨hmem, rfl⟩ := fieldNamed_eq_some hft
    obtain ⟨d, hd, hfield⟩ := mem_zip_readMap hread hmem
    rw [readField_insertKey_self (fieldWf_of_mem hfields hmem) (mem_names hmem)] at hfield
    refine ⟨d, hfield, ?_⟩
    rw [lookup_struct hwf hd, shown, Ty.shows, Ty.omits, hft]
    rfl

theorem struct_insertKey_of_child {c : Ty} {d : Json} (hwf : wf (.struct fields) = true)
    (h : admitsFields fields ds = true)
    (hc : (Ty.struct fields).child k = some c) (hd : fromValue c v = some d) :
    ∃ ds', readMap fields (insertKey k v (ofEntries (written fields ds))) = some ds' := by
  have hfields := (Bool.and_eq_true_iff.mp hwf).2
  obtain ⟨ft, hft, rfl⟩ := Option.map_eq_some_iff.mp hc
  obtain ⟨hmem, rfl⟩ := fieldNamed_eq_some hft
  refine exists_readMap fun gu hgu => ?_
  have hgwf := fieldWf_of_mem hfields hgu
  by_cases hname : gu.1.name = ft.1.name
  · obtain rfl : gu = ft :=
      List.inj_on_of_nodup_map (of_decide_eq_true (Bool.and_eq_true_iff.mp hwf).1) hgu hmem hname
    exact ⟨d, by rw [readField_insertKey_self hgwf (mem_names hgu), hd]⟩
  · obtain ⟨e, he, hadmits⟩ := exists_mem_zip h hgu
    have halias : gu.1.aliasName ≠ some ft.1.name := fun ha => hgwf.alias_notMem _ ha (mem_names hmem)
    exact ⟨e, readField_insertKey_ne hwf hgwf hname halias he hadmits⟩

end Struct

/-- Null is read as nothing but an option. -/
theorem fromValue_ne_null {t : Ty} {j d : Json} (ht : t.isOption = false) (hwf : wf t = true)
    (h : fromValue t j = some d) :
    d ≠ .null := by
  rintro rfl
  have hadmits := admits_fromValue hwf h
  cases t with
  | option t => cases ht
  | bool | uint | i64 | string | variants | vec | map | struct => simp [admits] at hadmits

section Map

variable {t : Ty} {kvs ds : List (Str × Json)} {k : Str} {v : Json}

/-- **A map** with one entry changed. -/
theorem map_insertKey (hwf : wf t = true) (h : admits (.map t) (.obj kvs) = true)
    (hread : readValues (fromValue t) (insertKey k v (mapValues (toValue t) kvs)) = some ds) :
    (∀ l, l ≠ k → (mapValues (toValue t) (ofEntries ds)).lookup l = (mapValues (toValue t) kvs).lookup l) ∧
    ∃ d, fromValue t v = some d ∧ (mapValues (toValue t) (ofEntries ds)).lookup k = some (toValue t d) := by
  have hlookup : ∀ l, (mapValues (toValue t) (ofEntries ds)).lookup l =
      (((insertKey k v (mapValues (toValue t) kvs)).lookup l).bind (fromValue t)).map (toValue t) := by
    intro l
    rw [lookup_mapValues, lookup_ofEntries, lookup_readValues l hread]
  refine ⟨fun l hl => ?_, ?_⟩
  · rw [hlookup, lookup_insertKey, if_neg hl, lookup_mapValues]
    cases hx : kvs.lookup l with
    | none => rfl
    | some x =>
      have hadmits := List.all_eq_true.mp (Bool.and_eq_true_iff.mp h).2 _ (mem_of_lookup hx)
      rw [Option.map_some, Option.bind_some, fromValue_toValue hwf hadmits]
      rfl
  · have hmem : (k, v) ∈ insertKey k v (mapValues (toValue t) kvs) :=
      mem_of_lookup (by rw [lookup_insertKey, if_pos rfl])
    obtain ⟨d, hd⟩ := exists_of_readValues hread hmem
    refine ⟨d, hd, ?_⟩
    rw [hlookup, lookup_insertKey, if_pos rfl, Option.bind_some, hd]
    rfl

theorem map_insertKey_of_value {d : Json} (hwf : wf t = true) (h : admits (.map t) (.obj kvs) = true)
    (hd : fromValue t v = some d) :
    ∃ ds, readValues (fromValue t) (insertKey k v (mapValues (toValue t) kvs)) = some ds := by
  refine exists_readValues fun kv hkv => ?_
  rcases mem_insertKey hkv with rfl | hkv
  · exact ⟨d, hd⟩
  · obtain ⟨e, he, rfl⟩ := List.mem_map.mp hkv
    exact ⟨e.2, fromValue_toValue hwf (List.all_eq_true.mp (Bool.and_eq_true_iff.mp h).2 e he)⟩

end Map

/-- A type whose values are written as objects. -/
theorem toValue_eq_obj {t : Ty} {d : Json} {kvs : List (Str × Json)} (h : admits t d = true)
    (hkvs : toValue t d = .obj kvs) :
    (∃ fields ds, t = .struct fields ∧ d = .obj ds ∧ kvs = ofEntries (written fields ds)) ∨
    (∃ u ds, t = .map u ∧ d = .obj ds ∧ kvs = mapValues (toValue u) ds) ∨
    ∃ u, t = .option u ∧ d ≠ .null ∧ admits u d = true ∧ toValue u d = .obj kvs := by
  cases t with
  | struct fields =>
    cases d with
    | obj ds => exact .inl ⟨fields, ds, rfl, rfl, (Json.obj.inj hkvs).symm⟩
    | _ => cases h
  | map u =>
    cases d with
    | obj ds => exact .inr (.inl ⟨u, ds, rfl, rfl, (Json.obj.inj hkvs).symm⟩)
    | _ => cases h
  | option u =>
    rw [toValue] at hkvs
    split at hkvs
    · cases hkvs
    next hd => exact .inr (.inr ⟨u, rfl, hd, (Bool.or_eq_true_iff.mp h).resolve_left (by simpa using hd), hkvs⟩)
  | bool | uint | i64 | string | variants | vec => cases d <;> simp [toValue, admits] at h hkvs

theorem toValue_option {t : Ty} {d : Json} (hd : d ≠ .null) : toValue (.option t) d = toValue t d := by
  rw [toValue, if_neg hd]

/-- **One level**: what is read after the value of a key was changed. The other keys have what they had, and the type of
the key has read the new value. -/
theorem insertKey_spec : ∀ {t : Ty} {d d' v : Json} {k : Str} {kvs : List (Str × Json)}, wf t = true →
    admits t d = true →
    toValue t d = .obj kvs → fromValue t (.obj (insertKey k v kvs)) = some d' →
    (∀ l, l ≠ k → (toValue t d').get l = kvs.lookup l) ∧
    (t.child k = none → (toValue t d').get k = none) ∧
    ∀ c, t.child k = some c → ∃ e, fromValue c v = some e ∧ (toValue t d').get k = t.shows k c e
  | t, d, d', v, k, kvs, hwf, h, hkvs, hread => by
    rcases toValue_eq_obj h hkvs with ⟨fields, ds, rfl, rfl, rfl⟩ | ⟨u, ds, rfl, rfl, rfl⟩ | ⟨u, rfl, hd, hadmits, hkvs⟩
    · obtain ⟨ds', hds', rfl⟩ := Option.map_eq_some_iff.mp hread
      exact struct_insertKey hwf h hds'
    · obtain ⟨ds', hds', rfl⟩ := Option.map_eq_some_iff.mp hread
      obtain ⟨hothers, e, he, hk⟩ := map_insertKey (t := u) (Bool.and_eq_true_iff.mp hwf).1 h hds'
      refine ⟨hothers, nofun, fun c hc => ?_⟩
      obtain rfl := Option.some.inj hc
      exact ⟨e, he, hk⟩
    · obtain ⟨hu, hoption⟩ := Bool.and_eq_true_iff.mp hwf
      have hread : fromValue u (.obj (insertKey k v kvs)) = some d' := hread
      have hd' : d' ≠ .null := fromValue_ne_null (by simpa using hoption) hu hread
      rw [toValue_option hd']
      exact insertKey_spec hu hadmits hkvs hread

/-- A value that the type of the key reads can be put there. -/
theorem insertKey_of_child : ∀ {t c : Ty} {d e v : Json} {k : Str} {kvs : List (Str × Json)}, wf t = true →
    admits t d = true → toValue t d = .obj kvs → t.child k = some c → fromValue c v = some e →
    ∃ d', fromValue t (.obj (insertKey k v kvs)) = some d'
  | t, c, d, e, v, k, kvs, hwf, h, hkvs, hc, he => by
    rcases toValue_eq_obj h hkvs with ⟨fields, ds, rfl, rfl, rfl⟩ | ⟨u, ds, rfl, rfl, rfl⟩ | ⟨u, rfl, hd, hadmits, hkvs⟩
    · obtain ⟨ds', hds'⟩ := struct_insertKey_of_child hwf h hc he
      exact ⟨.obj ds', Option.map_eq_some_iff.mpr ⟨ds', hds', rfl⟩⟩
    · obtain rfl := Option.some.inj hc
      obtain ⟨ds', hds'⟩ := map_insertKey_of_value (t := u) (k := k) (Bool.and_eq_true_iff.mp hwf).1 h he
      exact ⟨.obj (ofEntries ds'), Option.map_eq_some_iff.mpr ⟨ds', hds', rfl⟩⟩
    · obtain ⟨d', hd'⟩ := insertKey_of_child (Bool.and_eq_true_iff.mp hwf).1 hadmits hkvs hc he
      exact ⟨d', hd'⟩

theorem wf_child : ∀ {t c : Ty} {k : Str}, wf t = true → t.child k = some c → wf c = true
  | .option t, c, k, hwf, hc => wf_child (t := t) (Bool.and_eq_true_iff.mp hwf).1 hc
  | .map t, c, k, hwf, hc => by
    obtain rfl := Option.some.inj hc
    exact (Bool.and_eq_true_iff.mp hwf).1
  | .struct fields, c, k, hwf, hc => by
    obtain ⟨ft, hft, rfl⟩ := Option.map_eq_some_iff.mp hc
    exact (fieldWf_of_mem (Bool.and_eq_true_iff.mp hwf).2 (fieldNamed_eq_some hft).1).wf

theorem wf_typeAt : ∀ {p : List Str} {t c : Ty}, wf t = true → t.typeAt p = some c → wf c = true
  | [], t, c, hwf, hc => Option.some.inj hc ▸ hwf
  | k :: p, t, c, hwf, hc => by
    obtain ⟨b, hb, hc⟩ := Option.bind_eq_some_iff.mp hc
    exact wf_typeAt (wf_child hwf hb) hc

theorem depth_child : ∀ {t c : Ty} {k : Str}, t.child k = some c → c.depth ≤ t.depth
  | .option t, c, k, hc => by
    rw [Ty.depth]
    exact depth_child (t := t) hc
  | .map t, c, k, hc => by
    obtain rfl := Option.some.inj hc
    rw [Ty.depth]
    exact Nat.le_succ _
  | .struct fields, c, k, hc => by
    obtain ⟨ft, hft, rfl⟩ := Option.map_eq_some_iff.mp hc
    rw [Ty.depth]
    exact (depth_le_of_mem (fieldNamed_eq_some hft).1).trans (Nat.le_succ _)

theorem depth_typeAt : ∀ {p : List Str} {t c : Ty}, t.typeAt p = some c → c.depth ≤ t.depth
  | [], t, c, hc => (congrArg Ty.depth (Option.some.inj hc)).ge
  | k :: p, t, c, hc => by
    obtain ⟨b, hb, hc⟩ := Option.bind_eq_some_iff.mp hc
    exact (depth_typeAt hc).trans (depth_child hb)

/-- What is written under a key is a value of the type of the key. -/
theorem exists_of_get : ∀ {t : Ty} {d x : Json} {k : Str}, wf t = true → admits t d = true →
    (toValue t d).get k = some x →
    ∃ c e, t.child k = some c ∧ admits c e = true ∧ x = toValue c e
  | t, d, x, k, hwf, h, hx => by
    obtain ⟨kvs, hkvs, -⟩ := Json.mem_of_get hx
    rcases toValue_eq_obj h hkvs with ⟨fields, ds, rfl, rfl, -⟩ | ⟨u, ds, rfl, rfl, -⟩ | ⟨u, rfl, hd, hadmits, -⟩
    · have hx : (ofEntries (written fields ds)).lookup k = some x := hx
      cases hft : fieldNamed fields k with
      | none =>
        rw [lookup_struct_of_notMem (fieldNamed_eq_none hft)] at hx
        cases hx
      | some ft =>
        obtain ⟨hmem, rfl⟩ := fieldNamed_eq_some hft
        obtain ⟨e, he, hadmits⟩ := exists_mem_zip h hmem
        rw [lookup_struct hwf he, shown] at hx
        split at hx
        · cases hx
        · exact ⟨ft.2, e, by rw [Ty.child, hft, Option.map_some], hadmits, (Option.some.inj hx).symm⟩
    · have hx : (mapValues (toValue u) ds).lookup k = some x := hx
      rw [lookup_mapValues] at hx
      obtain ⟨e, he, rfl⟩ := Option.map_eq_some_iff.mp hx
      exact ⟨u, e, rfl, List.all_eq_true.mp (Bool.and_eq_true_iff.mp h).2 _ (mem_of_lookup he), rfl⟩
    · rw [toValue_option hd] at hx
      exact exists_of_get (t := u) (Bool.and_eq_true_iff.mp hwf).1 hadmits hx

theorem valueAt_cons_congr {j j' : Json} {k : Str} (h : j.get k = j'.get k) (p : List Str) :
    j.valueAt (k :: p) = j'.valueAt (k :: p) := by rw [Json.valueAt, Json.valueAt, h]

theorem setAt_singleton {v j j' : Json} {k : Str} (h : Json.setAt v [k] j = some j') :
    ∃ kvs, j = .obj kvs ∧ j' = .obj (insertKey k v kvs) := by
  cases j with
  | obj kvs => exact ⟨kvs, rfl, (Option.some.inj h).symm⟩
  | _ => cases h

theorem setAt_cons {v j j' : Json} {k l : Str} {p : List Str} (h : Json.setAt v (k :: l :: p) j = some j') :
    ∃ kvs x x', j = .obj kvs ∧ kvs.lookup k = some x ∧ Json.setAt v (l :: p) x = some x' ∧
      j' = .obj (insertKey k x' kvs) := by
  cases j with
  | obj kvs =>
    obtain ⟨x, hx, h⟩ := Option.bind_eq_some_iff.mp h
    obtain ⟨x', hx', rfl⟩ := Option.map_eq_some_iff.mp h
    exact ⟨kvs, x, x', rfl, hx, hx', rfl⟩
  | _ => cases h

theorem setAt_eq_obj {v j j' : Json} {k : Str} {p : List Str} (h : Json.setAt v (k :: p) j = some j') :
    ∃ kvs, j' = .obj kvs := by
  cases p with
  | nil =>
    obtain ⟨kvs, -, rfl⟩ := setAt_singleton h
    exact ⟨_, rfl⟩
  | cons l p =>
    obtain ⟨kvs, x, x', -, -, -, rfl⟩ := setAt_cons h
    exact ⟨_, rfl⟩

theorem fromValue_obj_ne_null {t : Ty} {kvs : List (Str × Json)} {d : Json} (hwf : wf t = true)
    (h : fromValue t (.obj kvs) = some d) : d ≠ .null := by
  by_cases ht : t.isOption = true
  · cases t with
    | option u =>
      obtain ⟨hu, hoption⟩ := Bool.and_eq_true_iff.mp hwf
      have h : fromValue u (.obj kvs) = some d := h
      exact fromValue_ne_null (by simpa using hoption) hu h
    | _ => cases ht
  · exact fromValue_ne_null (Bool.not_eq_true _ ▸ ht) hwf h

/-- **One place changed.** The other places have what they had, and the type of the place has read the new value. -/
theorem setAt_spec : ∀ {p : List Str} {t : Ty} {d d' v j : Json}, wf t = true → admits t d = true → p ≠ [] →
    Json.setAt v p (toValue t d) = some j → fromValue t j = some d' →
    (∀ q, ¬q <+: p → ¬p <+: q → (toValue t d').valueAt q = (toValue t d).valueAt q) ∧
    (t.typeAt p = none → (toValue t d').valueAt p = none) ∧
    ∀ c, t.typeAt p = some c → ∃ e, fromValue c v = some e ∧
      (toValue t d').valueAt p = if t.omitsAt p = true ∧ e = .null then none else some (toValue c e)
  | [], _, _, _, _, _, _, _, hp, _, _ => absurd rfl hp
  | [k], t, d, d', v, j, hwf, h, _, hset, hread => by
    obtain ⟨kvs, hkvs, rfl⟩ := setAt_singleton hset
    obtain ⟨hothers, hnone, hchild⟩ := insertKey_spec hwf h hkvs hread
    refine ⟨fun q hq hk => ?_, fun ht => ?_, fun c hc => ?_⟩
    · cases q with
      | nil => exact absurd List.nil_prefix hq
      | cons l q =>
        have hl : l ≠ k := fun heq => hk (heq ▸ List.prefix_append [l] q)
        refine valueAt_cons_congr ?_ q
        rw [hothers l hl, hkvs, Json.get]
    · rw [Ty.typeAt] at ht
      cases hc : t.child k with
      | none => rw [Json.valueAt, hnone hc, Option.bind_none]
      | some c =>
        rw [hc] at ht
        cases ht
    · rw [Ty.typeAt] at hc
      cases hc' : t.child k with
      | none =>
        rw [hc'] at hc
        cases hc
      | some c' =>
        rw [hc'] at hc
        obtain rfl := Option.some.inj hc
        obtain ⟨e, he, hget⟩ := hchild _ hc'
        refine ⟨e, he, ?_⟩
        rw [Json.valueAt, hget, Ty.shows, Ty.omitsAt]
        split <;> rfl
  | k :: l :: p, t, d, d', v, j, hwf, h, _, hset, hread => by
    obtain ⟨kvs, x, x', hkvs, hx, hx', rfl⟩ := setAt_cons hset
    have hget : (toValue t d).get k = some x := by rw [hkvs, Json.get, hx]
    obtain ⟨c, e, hc, he, rfl⟩ := exists_of_get hwf h hget
    have hcwf := wf_child hwf hc
    obtain ⟨hothers, -, hchild⟩ := insertKey_spec hwf h hkvs hread
    obtain ⟨e', he', hget'⟩ := hchild c hc
    have hnull : e' ≠ .null := by
      obtain ⟨m, rfl⟩ := setAt_eq_obj hx'
      exact fromValue_obj_ne_null hcwf he'
    have hget' : (toValue t d').get k = some (toValue c e') := by
      rw [hget', Ty.shows, if_neg fun hs => hnull hs.2]
    obtain ⟨ihothers, ihnone, ihsome⟩ := setAt_spec hcwf he (List.cons_ne_nil l p) hx' he'
    have hat : ∀ q, (toValue t d').valueAt (k :: q) = (toValue c e').valueAt q := by
      intro q
      rw [Json.valueAt, hget', Option.bind_some]
    have htype : t.typeAt (k :: l :: p) = c.typeAt (l :: p) := by rw [Ty.typeAt, hc, Option.bind_some]
    have homits : t.omitsAt (k :: l :: p) = c.omitsAt (l :: p) := by rw [Ty.omitsAt, hc, Option.any_some]
    refine ⟨fun q hq hp => ?_, fun ht => ?_, fun c' hc' => ?_⟩
    · cases q with
      | nil => exact absurd List.nil_prefix hq
      | cons i q =>
        by_cases hi : i = k
        · subst hi
          rw [hat, ihothers q (fun hpre => hq (List.cons_prefix_cons.mpr ⟨rfl, hpre⟩))
            (fun hpre => hp (List.cons_prefix_cons.mpr ⟨rfl, hpre⟩)), Json.valueAt, hget, Option.bind_some]
        · refine valueAt_cons_congr ?_ q
          rw [hothers i hi, hkvs, Json.get]
    · rw [hat]
      exact ihnone (htype.symm.trans ht)
    · obtain ⟨e'', he'', hvalue⟩ := ihsome c' (htype.symm.trans hc')
      refine ⟨e'', he'', ?_⟩
      rw [hat, hvalue, homits]

/-- A value that the type of the place reads can be put there. -/
theorem setAt_of_typeAt : ∀ {p : List Str} {t c : Ty} {d e v j : Json}, wf t = true → admits t d = true → p ≠ [] →
    Json.setAt v p (toValue t d) = some j → t.typeAt p = some c → fromValue c v = some e → ∃ d', fromValue t j = some d'
  | [], _, _, _, _, _, _, _, _, hp, _, _, _ => absurd rfl hp
  | [k], t, c, d, e, v, j, hwf, h, _, hset, hc, he => by
    obtain ⟨kvs, hkvs, rfl⟩ := setAt_singleton hset
    obtain ⟨c', hc', hc⟩ := Option.bind_eq_some_iff.mp hc
    obtain rfl := Option.some.inj hc
    exact insertKey_of_child hwf h hkvs hc' he
  | k :: l :: p, t, c, d, e, v, j, hwf, h, _, hset, hc, he => by
    obtain ⟨kvs, x, x', hkvs, hx, hx', rfl⟩ := setAt_cons hset
    obtain ⟨b, hb, hc⟩ := Option.bind_eq_some_iff.mp hc
    obtain ⟨b', y, hb', hy, rfl⟩ := exists_of_get hwf h (by rw [hkvs, Json.get, hx])
    obtain rfl := Option.some.inj (hb.symm.trans hb')
    obtain ⟨y', hy'⟩ := setAt_of_typeAt (wf_child hwf hb) hy (List.cons_ne_nil l p) hx' hc he
    exact insertKey_of_child hwf h hkvs hb hy'

/-! ## Values that are left out -/

theorem fromValue_eq_null {t : Ty} {j : Json} (hwf : wf t = true) (h : fromValue t j = some .null) :
    t.isOption = true ∧ j = .null := by
  have ht : t.isOption = true := by
    by_contra ht
    exact fromValue_ne_null (Bool.not_eq_true _ ▸ ht) hwf h rfl
  cases t with
  | option u =>
    rw [fromValue] at h
    split at h
    next hj => exact ⟨rfl, hj⟩
    · obtain ⟨hu, hoption⟩ := Bool.and_eq_true_iff.mp hwf
      exact absurd rfl (fromValue_ne_null (by simpa using hoption) hu h)
  | _ => cases ht

/-- Only an option reads null, as `None`. -/
theorem fromValue_null {t : Ty} {d : Json} (h : fromValue t .null = some d) : t.isOption = true ∧ d = .null := by
  cases t with
  | option u => exact ⟨rfl, (Option.some.inj h).symm⟩
  | _ => cases h

/-- What is there of a value that may be left out is a string. -/
theorem get_of_omits : ∀ {t : Ty} {d x : Json} {k : Str}, wf t = true → admits t d = true → t.omits k = true →
    (toValue t d).get k = some x → ∃ s, x = .str s
  | t, d, x, k, hwf, h, homits, hx => by
    obtain ⟨kvs, hkvs, -⟩ := Json.mem_of_get hx
    rcases toValue_eq_obj h hkvs with ⟨fields, ds, rfl, rfl, -⟩ | ⟨u, ds, rfl, rfl, -⟩ | ⟨u, rfl, hd, hadmits, -⟩
    · obtain ⟨ft, hft, hskip⟩ := (Option.any_eq_true ..).mp homits
      obtain ⟨hmem, rfl⟩ := fieldNamed_eq_some hft
      obtain ⟨e, he, hadmits⟩ := exists_mem_zip h hmem
      have hx : (ofEntries (written fields ds)).lookup ft.1.name = some x := hx
      rw [lookup_struct hwf he, shown] at hx
      split at hx
      · cases hx
      next hnull =>
        have hty := (fieldWf_of_mem (Bool.and_eq_true_iff.mp hwf).2 hmem).option hskip
        rw [hty] at hadmits hx
        have hnull : e ≠ .null := fun heq => hnull ⟨hskip, heq⟩
        rw [toValue_option hnull] at hx
        have hstring : admits .string e = true := (Bool.or_eq_true_iff.mp hadmits).resolve_left (by simpa using hnull)
        cases e with
        | str s => exact ⟨s, (Option.some.inj hx).symm⟩
        | _ => cases hstring
    · cases homits
    · rw [toValue_option hd] at hx
      exact get_of_omits (t := u) (Bool.and_eq_true_iff.mp hwf).1 hadmits homits hx

/-- An option that is not there was left out. -/
theorem omits_of_lookup : ∀ {t c : Ty} {d : Json} {k : Str} {kvs : List (Str × Json)}, wf t = true → admits t d = true →
    toValue t d = .obj kvs → t.child k = some c → c.isOption = true → kvs.lookup k = none → t.omits k = true
  | t, c, d, k, kvs, hwf, h, hkvs, hc, hoption, hnone => by
    rcases toValue_eq_obj h hkvs with ⟨fields, ds, rfl, rfl, rfl⟩ | ⟨u, ds, rfl, rfl, rfl⟩ | ⟨u, rfl, hd, hadmits, hkvs⟩
    · obtain ⟨ft, hft, rfl⟩ := Option.map_eq_some_iff.mp hc
      obtain ⟨hmem, rfl⟩ := fieldNamed_eq_some hft
      obtain ⟨e, he, hadmits⟩ := exists_mem_zip h hmem
      rw [lookup_struct hwf he, shown] at hnone
      split at hnone
      next hskip => rw [Ty.omits, hft, Option.any_some, hskip.1]
      · cases hnone
    · obtain rfl := Option.some.inj hc
      have hu := (Bool.and_eq_true_iff.mp hwf).2
      rw [hoption] at hu
      cases hu
    · exact omits_of_lookup (t := u) (Bool.and_eq_true_iff.mp hwf).1 hadmits hkvs hc hoption hnone

theorem valueAt_of_omitsAt : ∀ {p : List Str} {t : Ty} {d x : Json}, wf t = true → admits t d = true →
    t.omitsAt p = true → (toValue t d).valueAt p = some x → ∃ s, x = .str s
  | [], _, _, _, _, _, homits, _ => by cases homits
  | [k], t, d, x, hwf, h, homits, hx => by
    obtain ⟨y, hy, hx⟩ := Option.bind_eq_some_iff.mp hx
    obtain rfl := Option.some.inj hx
    exact get_of_omits hwf h homits hy
  | k :: l :: p, t, d, x, hwf, h, homits, hx => by
    obtain ⟨y, hy, hx⟩ := Option.bind_eq_some_iff.mp hx
    obtain ⟨c, e, hc, he, rfl⟩ := exists_of_get hwf h hy
    rw [Ty.omitsAt, hc] at homits
    exact valueAt_of_omitsAt (wf_child hwf hc) he homits hx

theorem omitsAt_of_valueAt : ∀ {p : List Str} {t c : Ty} {d v j : Json}, wf t = true → admits t d = true → p ≠ [] →
    Json.setAt v p (toValue t d) = some j → t.typeAt p = some c → c.isOption = true → (toValue t d).valueAt p = none →
    t.omitsAt p = true
  | [], _, _, _, _, _, _, _, hp, _, _, _, _ => absurd rfl hp
  | [k], t, c, d, v, j, hwf, h, _, hset, hc, hoption, hnone => by
    obtain ⟨kvs, hkvs, rfl⟩ := setAt_singleton hset
    obtain ⟨c', hc', hc⟩ := Option.bind_eq_some_iff.mp hc
    obtain rfl := Option.some.inj hc
    refine omits_of_lookup hwf h hkvs hc' hoption ?_
    rw [Json.valueAt, hkvs, Json.get] at hnone
    cases hx : kvs.lookup k with
    | none => rfl
    | some x =>
      rw [hx] at hnone
      cases hnone
  | k :: l :: p, t, c, d, v, j, hwf, h, _, hset, hc, hoption, hnone => by
    obtain ⟨kvs, x, x', hkvs, hx, hx', rfl⟩ := setAt_cons hset
    obtain ⟨b, hb, hc⟩ := Option.bind_eq_some_iff.mp hc
    have hget : (toValue t d).get k = some x := by rw [hkvs, Json.get, hx]
    obtain ⟨b', y, hb', hy, rfl⟩ := exists_of_get hwf h hget
    obtain rfl := Option.some.inj (hb.symm.trans hb')
    rw [Json.valueAt, hget, Option.bind_some] at hnone
    rw [Ty.omitsAt, hb, Option.any_some]
    exact omitsAt_of_valueAt (wf_child hwf hb) hy (List.cons_ne_nil l p) hx' hc hoption hnone

/-! ## Parents -/

theorem valueAt_of_dropLast : ∀ {p : List Str} {j : Json} {obj : List (Str × Json)}, p ≠ [] →
    j.valueAt p.dropLast = some (.obj obj) → j.valueAt p = obj.lookup (p.getLastD [])
  | [], _, _, hp, _ => absurd rfl hp
  | [k], j, obj, _, h => by
    obtain rfl := Option.some.inj h
    show (obj.lookup k).bind some = obj.lookup k
    exact Option.bind_fun_some _
  | k :: l :: p, j, obj, _, h => by
    obtain ⟨x, hx, h⟩ := Option.bind_eq_some_iff.mp h
    rw [Json.valueAt, hx, Option.bind_some, valueAt_of_dropLast (List.cons_ne_nil l p) h]
    rfl

theorem exists_dropLast : ∀ {p : List Str} {j x : Json}, p ≠ [] → j.valueAt p = some x →
    ∃ obj, j.valueAt p.dropLast = some (.obj obj)
  | [], _, _, hp, _ => absurd rfl hp
  | [k], j, x, _, h => by
    obtain ⟨y, hy, -⟩ := Option.bind_eq_some_iff.mp h
    obtain ⟨kvs, rfl, -⟩ := Json.mem_of_get hy
    exact ⟨kvs, rfl⟩
  | k :: l :: p, j, x, _, h => by
    obtain ⟨y, hy, h⟩ := Option.bind_eq_some_iff.mp h
    obtain ⟨obj, hobj⟩ := exists_dropLast (List.cons_ne_nil l p) h
    exact ⟨obj, by rw [List.dropLast_cons_of_ne_nil (List.cons_ne_nil l p), Json.valueAt, hy, Option.bind_some, hobj]⟩

theorem exists_setAt (v : Json) : ∀ {p : List Str} {j : Json} {obj : List (Str × Json)}, p ≠ [] →
    j.valueAt p.dropLast = some (.obj obj) → ∃ j', Json.setAt v p j = some j'
  | [], _, _, hp, _ => absurd rfl hp
  | [k], j, obj, _, h => by
    obtain rfl := Option.some.inj h
    exact ⟨_, rfl⟩
  | k :: l :: p, j, obj, _, h => by
    obtain ⟨x, hx, hobj⟩ := Option.bind_eq_some_iff.mp h
    obtain ⟨kvs, rfl, -⟩ := Json.mem_of_get hx
    obtain ⟨x', hx'⟩ := exists_setAt v (List.cons_ne_nil l p) hobj
    have hx : kvs.lookup k = some x := hx
    exact ⟨.obj (insertKey k x' kvs), by rw [Json.setAt, hx, Option.bind_some, hx', Option.map_some]⟩

/-- The other keys at the top are as they were. -/
theorem get_setAt {v j j' : Json} {k l : Str} {p : List Str} (h : Json.setAt v (k :: p) j = some j') (hl : l ≠ k) :
    j'.get l = j.get l := by
  cases p with
  | nil =>
    obtain ⟨kvs, rfl, rfl⟩ := setAt_singleton h
    rw [Json.get, Json.get, lookup_insertKey, if_neg hl]
  | cons i p =>
    obtain ⟨kvs, x, x', rfl, -, -, rfl⟩ := setAt_cons h
    rw [Json.get, Json.get, lookup_insertKey, if_neg hl]

/-! ## Fixed places -/

namespace Ty

/-- The path goes through fields that are always written. -/
def fixed : Ty → List Str → Bool
  | _, [] => true
  | .struct fields, k :: p => (fieldNamed fields k).any fun ft => !ft.1.skipNone && ft.2.fixed p
  | _, _ => false

end Ty

mutual

/-- Nothing but what every value of the type has: the maps are empty and the options absent. -/
def bare : Ty → Json → Bool
  | .option _, d => decide (d = .null)
  | .map _, .obj kvs => kvs.isEmpty
  | .struct fields, .obj kvs => bareFields fields kvs
  | .i64, _ => false
  | _, _ => true

def bareFields : List (Field × Ty) → List (Str × Json) → Bool
  | (_, t) :: fields, (_, d) :: kvs => bare t d && bareFields fields kvs
  | _, _ => true

end

theorem bare_of_mem_zip {ft : Field × Ty} {d : Json} : ∀ {fields : List (Field × Ty)} {ds : List (Str × Json)},
    bareFields fields ds = true → (ft, d) ∈ fields.zip (ds.map Prod.snd) → bare ft.2 d = true
  | (f, t) :: fields, (k, e) :: ds, h, hmem => by
    obtain ⟨hbare, hrest⟩ := Bool.and_eq_true_iff.mp h
    rcases List.mem_cons.mp hmem with heq | hmem
    · obtain ⟨rfl, rfl⟩ := Prod.mk.inj heq
      exact hbare
    · exact bare_of_mem_zip hrest hmem

/-- The value of a field that is always written. -/
theorem get_struct {fields : List (Field × Ty)} {ds : List (Str × Json)} {ft : Field × Ty} {d : Json}
    (hwf : wf (.struct fields) = true) (hskip : ft.1.skipNone = false) (h : (ft, d) ∈ fields.zip (ds.map Prod.snd)) :
    (toValue (.struct fields) (.obj ds)).get ft.1.name = some (toValue ft.2 d) := by
  refine (lookup_struct hwf h).trans ?_
  rw [shown, hskip]
  exact if_neg fun hs => Bool.false_ne_true hs.1

/-- Every value has something at a fixed place. -/
theorem valueAt_of_fixed : ∀ {p : List Str} {t : Ty} {d : Json}, wf t = true → admits t d = true → t.fixed p = true →
    ∃ c e, t.typeAt p = some c ∧ admits c e = true ∧ (toValue t d).valueAt p = some (toValue c e)
  | [], t, d, _, h, _ => ⟨t, d, rfl, h, rfl⟩
  | k :: p, .struct fields, d, hwf, h, hfixed => by
    obtain ⟨ft, hft, hshown⟩ := (Option.any_eq_true ..).mp hfixed
    obtain ⟨hskip, hrest⟩ := Bool.and_eq_true_iff.mp hshown
    obtain ⟨hmem, rfl⟩ := fieldNamed_eq_some hft
    cases d with
    | obj ds =>
      obtain ⟨e, he, hadmits⟩ := exists_mem_zip h hmem
      obtain ⟨c, e', hc, he', hvalue⟩ :=
        valueAt_of_fixed (fieldWf_of_mem (Bool.and_eq_true_iff.mp hwf).2 hmem).wf hadmits hrest
      refine ⟨c, e', ?_, he', ?_⟩
      · rw [Ty.typeAt, Ty.child, hft, Option.map_some, Option.bind_some, hc]
      · rw [Json.valueAt, get_struct hwf (by simpa using hskip) he, Option.bind_some, hvalue]
    | _ => cases h

theorem omitsAt_of_fixed : ∀ {p : List Str} {t : Ty}, t.fixed p = true → t.omitsAt p = false
  | [], _, _ => rfl
  | [k], .struct fields, h => by
    obtain ⟨ft, hft, hfixed⟩ := (Option.any_eq_true ..).mp h
    rw [Ty.omitsAt, Ty.omits, hft, Option.any_some]
    simpa using (Bool.and_eq_true_iff.mp hfixed).1
  | k :: l :: p, .struct fields, h => by
    obtain ⟨ft, hft, hfixed⟩ := (Option.any_eq_true ..).mp h
    rw [Ty.omitsAt, Ty.child, hft, Option.map_some, Option.any_some]
    exact omitsAt_of_fixed (Bool.and_eq_true_iff.mp hfixed).2

/-- What a bare value has is at fixed places. -/
theorem fixed_of_bare : ∀ {p : List Str} {t : Ty} {d x : Json}, wf t = true → admits t d = true → bare t d = true →
    (toValue t d).valueAt p = some x →
    t.fixed p = true ∧ ∃ c e, t.typeAt p = some c ∧ admits c e = true ∧ bare c e = true ∧ x = toValue c e
  | [], t, d, x, _, h, hbare, hx => ⟨by rw [Ty.fixed], t, d, rfl, h, hbare, (Option.some.inj hx).symm⟩
  | k :: p, t, d, x, hwf, h, hbare, hx => by
    obtain ⟨y, hy, hx⟩ := Option.bind_eq_some_iff.mp hx
    obtain ⟨kvs, hkvs, -⟩ := Json.mem_of_get hy
    rcases toValue_eq_obj h hkvs with ⟨fields, ds, rfl, rfl, -⟩ | ⟨u, ds, rfl, rfl, -⟩ | ⟨u, rfl, hd, -, -⟩
    · have hy : (ofEntries (written fields ds)).lookup k = some y := hy
      cases hft : fieldNamed fields k with
      | none =>
        rw [lookup_struct_of_notMem (fieldNamed_eq_none hft)] at hy
        cases hy
      | some ft =>
        obtain ⟨hmem, rfl⟩ := fieldNamed_eq_some hft
        obtain ⟨e, he, hadmits⟩ := exists_mem_zip h hmem
        have hfwf := fieldWf_of_mem (Bool.and_eq_true_iff.mp hwf).2 hmem
        have hebare : bare ft.2 e = true := bare_of_mem_zip hbare he
        rw [lookup_struct hwf he, shown] at hy
        split at hy
        · cases hy
        next hnull =>
          obtain rfl := Option.some.inj hy
          obtain ⟨hfixed, c, e', hc, he', hbare', rfl⟩ := fixed_of_bare hfwf.wf hadmits hebare hx
          have hskip : ft.1.skipNone = false := by
            by_contra hs
            have hs : ft.1.skipNone = true := Bool.not_eq_false _ ▸ hs
            rw [hfwf.option hs, bare] at hebare
            exact hnull ⟨hs, of_decide_eq_true hebare⟩
          refine ⟨?_, c, e', ?_, he', hbare', rfl⟩
          · rw [Ty.fixed, hft, Option.any_some, hskip, hfixed]
            rfl
          · rw [Ty.typeAt, Ty.child, hft, Option.map_some, Option.bind_some, hc]
    · have hempty : ds = [] := List.isEmpty_iff.mp hbare
      subst hempty
      cases hy
    · exact absurd (of_decide_eq_true hbare) hd

end Serde

end Ironclaw
