import Ironclaw.Lib.JsonText
import Ironclaw.Lib.OrderedMap
import Mathlib.Data.Char

/-!
# Derived serialization

What `derive(Serialize)` and `derive(Deserialize)` make of types that are built from numbers, strings, options, vectors,
maps and structs. A type is described by a `Ty`, a struct by its fields with their attributes. A value is a tree: `None`
is null, a map is an object with its keys in order, and a struct is the object of all its fields as they are declared
(`admits`).

- `toValue` and `fromValue`: the trees that are written for the values, and the values that are read from trees;
- `fromValue_toValue`: what is written is read back;
- `admits_fromValue`: what is read is a value;
- `exact_toValue`: what is written has no floats and its objects are in order.
-/

namespace Ironclaw

open OrderedMap

namespace Serde

/-- A field of a struct and its attributes. -/
structure Field where
  name : Str
  aliasName : Option Str
  /-- The value when the field is missing; without one it must be there. -/
  default : Option Json
  /-- `skip_serializing_if = "Option::is_none"` -/
  skipNone : Bool

inductive Ty
  | bool
  | uint (bits : Nat)
  | i64
  | string
  /-- An enumeration without data. -/
  | variants (names : List Str)
  | option (t : Ty)
  | vec (t : Ty)
  | map (t : Ty)
  | struct (fields : List (Field × Ty))

mutual

/-- The tree is a value of the type. -/
def admits : Ty → Json → Bool
  | .bool, .bool _ => true
  | .uint bits, .num (.int n) => decide (0 ≤ n ∧ n < 2 ^ bits)
  | .i64, .num (.int n) => decide (-2 ^ 63 ≤ n ∧ n < 2 ^ 63)
  | .string, .str _ => true
  | .variants names, .str s => names.contains s
  | .option t, d => decide (d = .null) || admits t d
  | .vec t, .arr xs => xs.all (admits t)
  | .map t, .obj kvs => decide (InOrder kvs) && kvs.all fun kv => admits t kv.2
  | .struct fields, .obj kvs => admitsFields fields kvs
  | _, _ => false

def admitsFields : List (Field × Ty) → List (Str × Json) → Bool
  | [], [] => true
  | (f, t) :: fields, (k, d) :: kvs => k == f.name && admits t d && admitsFields fields kvs
  | _, _ => false

end

mutual

/-- `serde_json::to_value` -/
def toValue : Ty → Json → Json
  | .option t, d => if d = .null then .null else toValue t d
  | .vec t, .arr xs => .arr (xs.map (toValue t))
  | .map t, .obj kvs => .obj (mapValues (toValue t) kvs)
  | .struct fields, .obj kvs => .obj (ofEntries (written fields kvs))
  | _, d => d

/-- The entries that are written for the fields of a struct. -/
def written : List (Field × Ty) → List (Str × Json) → List (Str × Json)
  | (f, t) :: fields, (_, d) :: kvs =>
    if f.skipNone = true ∧ d = .null then written fields kvs else (f.name, toValue t d) :: written fields kvs
  | _, _ => []

end

/-- The values of the entries, read. -/
def readValues {ν ω : Type*} (f : ν → Option ω) (kvs : List (Str × ν)) : Option (List (Str × ω)) :=
  kvs.mapM fun kv => (f kv.2).map fun d => (kv.1, d)

/-- The value of a field, among the entries of an object. -/
def readField (read : Json → Option Json) (f : Field) (kvs : List (Str × Json)) : Option Json :=
  match kvs.lookup f.name, f.aliasName.bind fun a => kvs.lookup a with
  | some _, some _ => none  -- a duplicate field
  | some v, none | none, some v => read v
  | none, none => f.default

mutual

/-- `serde_json::from_value` -/
def fromValue : Ty → Json → Option Json
  | .bool, .bool b => some (.bool b)
  | .uint bits, .num (.int n) => if 0 ≤ n ∧ n < 2 ^ bits then some (.num (.int n)) else none
  | .i64, .num (.int n) => if -2 ^ 63 ≤ n ∧ n < 2 ^ 63 then some (.num (.int n)) else none
  | .string, .str s => some (.str s)
  | .variants names, .str s => if s ∈ names then some (.str s) else none
  -- a variant may also be the only key of an object
  | .variants names, .obj [(k, .null)] => if k ∈ names then some (.str k) else none
  | .option t, j => if j = .null then some .null else fromValue t j
  | .vec t, .arr xs => (xs.mapM (fromValue t)).map .arr
  | .map t, .obj kvs => (readValues (fromValue t) kvs).map fun ds => .obj (ofEntries ds)
  | .struct fields, .obj kvs => (readMap fields kvs).map .obj
  | .struct fields, .arr xs => (readSeq fields xs).map .obj
  | _, _ => none

/-- A struct read from an object: unknown keys are passed over. -/
def readMap : List (Field × Ty) → List (Str × Json) → Option (List (Str × Json))
  | [], _ => some []
  | (f, t) :: fields, kvs =>
    (readField (fromValue t) f kvs).bind fun d => (readMap fields kvs).map fun ds => (f.name, d) :: ds

/-- A struct read from an array, by position. -/
def readSeq : List (Field × Ty) → List Json → Option (List (Str × Json))
  | [], [] => some []
  | [], _ :: _ => none
  | (f, _) :: fields, [] => f.default.bind fun d => (readSeq fields []).map fun ds => (f.name, d) :: ds
  | (f, t) :: fields, x :: xs => (fromValue t x).bind fun d => (readSeq fields xs).map fun ds => (f.name, d) :: ds

end

def Ty.isOption : Ty → Bool
  | .option _ => true
  | _ => false

def Ty.isOptionalString : Ty → Bool
  | .option .string => true
  | _ => false

def names (fields : List (Field × Ty)) : List Str := fields.map fun ft => ft.1.name

mutual

/-- The types as they are used here: names are distinct and no alias is one, defaults are values, the values of a map
are no options, and only an optional string is left out. -/
def wf : Ty → Bool
  | .uint bits => decide (bits ≤ 64)
  | .option t => wf t && !t.isOption
  | .vec t => wf t
  | .map t => wf t && !t.isOption
  | .struct fields => decide (names fields).Nodup && wfFields (names fields) fields
  | _ => true

def wfFields (all : List Str) : List (Field × Ty) → Bool
  | [] => true
  | (f, t) :: fields =>
    wf t && f.default.all (admits t) && f.aliasName.all (fun a => !all.contains a) &&
      (!f.skipNone || (f.default == some .null && f.aliasName == none && t.isOptionalString)) && wfFields all fields

end

/-! ## Vectors and maps -/

section Lists

variable {α β ν ω : Type*}

theorem mapM_cons_eq_some {f : α → Option β} {a : α} {as : List α} {bs : List β} :
    (a :: as).mapM f = some bs ↔ ∃ b bs', f a = some b ∧ as.mapM f = some bs' ∧ bs = b :: bs' := by
  rw [List.mapM_cons]
  cases f a with
  | none => simp
  | some b => cases as.mapM f <;> simp [eq_comm]

theorem mapM_map {f : α → Option β} {g : β → α} : ∀ {bs : List β}, (∀ b ∈ bs, f (g b) = some b) →
    (bs.map g).mapM f = some bs
  | [], _ => rfl
  | b :: bs, h => mapM_cons_eq_some.2
    ⟨b, bs, h b List.mem_cons_self, mapM_map fun c hc => h c (List.mem_cons_of_mem b hc), rfl⟩

theorem mem_mapM {f : α → Option β} {b : β} : ∀ {as : List α} {bs : List β}, as.mapM f = some bs → b ∈ bs →
    ∃ a ∈ as, f a = some b
  | [], bs, h, hb => by
    obtain rfl : [] = bs := Option.some.inj h
    cases hb
  | a :: as, bs, h, hb => by
    obtain ⟨c, bs', hc, hbs', rfl⟩ := mapM_cons_eq_some.1 h
    rcases List.mem_cons.mp hb with rfl | hb
    · exact ⟨a, List.mem_cons_self, hc⟩
    · obtain ⟨a', ha', hf⟩ := mem_mapM hbs' hb
      exact ⟨a', List.mem_cons_of_mem a ha', hf⟩

theorem lookup_readValues {f : ν → Option ω} (k : Str) : ∀ {kvs : List (Str × ν)} {ds : List (Str × ω)},
    readValues f kvs = some ds → ds.lookup k = (kvs.lookup k).bind f
  | [], ds, h => by
    obtain rfl : [] = ds := Option.some.inj h
    rfl
  | (l, v) :: kvs, ds, h => by
    obtain ⟨b, ds', hb, hds', rfl⟩ := mapM_cons_eq_some.1 h
    obtain ⟨d, hd, rfl⟩ := Option.map_eq_some_iff.mp hb
    show List.lookup k ((l, d) :: ds') = _
    rw [lookup_cons, lookup_cons, lookup_readValues k hds']
    split
    · exact hd.symm
    · rfl

theorem exists_of_readValues {f : ν → Option ω} {kv : Str × ν} : ∀ {kvs : List (Str × ν)} {ds : List (Str × ω)},
    readValues f kvs = some ds → kv ∈ kvs → ∃ d, f kv.2 = some d
  | _ :: kvs, ds, h, hmem => by
    obtain ⟨b, ds', hb, hds', rfl⟩ := mapM_cons_eq_some.1 h
    rcases List.mem_cons.mp hmem with rfl | hmem
    · obtain ⟨d, hd, -⟩ := Option.map_eq_some_iff.mp hb
      exact ⟨d, hd⟩
    · exact exists_of_readValues hds' hmem

theorem exists_readValues {f : ν → Option ω} : ∀ {kvs : List (Str × ν)}, (∀ kv ∈ kvs, ∃ d, f kv.2 = some d) →
    ∃ ds, readValues f kvs = some ds
  | [], _ => ⟨[], rfl⟩
  | kv :: kvs, h => by
    obtain ⟨d, hd⟩ := h kv List.mem_cons_self
    obtain ⟨ds, hds⟩ := exists_readValues fun e he => h e (List.mem_cons_of_mem kv he)
    exact ⟨(kv.1, d) :: ds, mapM_cons_eq_some.2 ⟨(kv.1, d), ds, by rw [hd]; rfl, hds, rfl⟩⟩

end Lists

/-! ## What is written is read back -/

/-- What is written for a field. -/
def shown (f : Field) (t : Ty) (d : Json) : Option Json :=
  if f.skipNone = true ∧ d = .null then none else some (toValue t d)

theorem mem_names {ft : Field × Ty} {fields : List (Field × Ty)} (h : ft ∈ fields) : ft.1.name ∈ names fields :=
  List.mem_map_of_mem h

/-- The names of the entries are among those of the fields. -/
theorem lookup_written_of_notMem {k : Str} : ∀ {fields : List (Field × Ty)} {kvs : List (Str × Json)},
    k ∉ names fields →
    (written fields kvs).lookup k = none
  | [], kvs, _ => by cases kvs <;> rfl
  | (f, t) :: fields, [], _ => rfl
  | (f, t) :: fields, (l, d) :: kvs, h => by
    obtain ⟨hk, hrest⟩ := not_or.mp (List.mem_cons.not.mp h)
    rw [written]
    split
    · exact lookup_written_of_notMem hrest
    · rw [lookup_cons, if_neg hk]
      exact lookup_written_of_notMem hrest

theorem lookup_written : ∀ {fields : List (Field × Ty)} {kvs : List (Str × Json)}, (names fields).Nodup →
    ∀ {ft : Field × Ty} {d : Json}, (ft, d) ∈ fields.zip (kvs.map Prod.snd) →
    (written fields kvs).lookup ft.1.name = shown ft.1 ft.2 d
  | [], _, _, _, _, h => by cases h
  | _ :: _, [], _, _, _, h => by cases h
  | (f, t) :: fields, (l, e) :: kvs, hnodup, ft, d, h => by
    obtain ⟨hf, hrest⟩ := List.nodup_cons.mp hnodup
    rw [written]
    rcases List.mem_cons.mp h with h | h
    · obtain ⟨rfl, rfl⟩ := Prod.mk.inj h
      rw [shown]
      split
      · exact lookup_written_of_notMem hf
      · rw [lookup_cons, if_pos rfl]
    · have hne : ft.1.name ≠ f.name := by
        intro heq
        have hmem : ft.1.name ∈ names fields := mem_names (List.of_mem_zip h).1
        exact hf (by rwa [heq] at hmem)
      split
      · exact lookup_written hrest h
      · rw [lookup_cons, if_neg hne]
        exact lookup_written hrest h

theorem readField_name {read : Json → Option Json} {f : Field} {kvs : List (Str × Json)} {v : Json}
    (h : kvs.lookup f.name = some v) (halias : (f.aliasName.bind fun a => kvs.lookup a) = none) :
    readField read f kvs = read v := by rw [readField, h, halias]

theorem readField_default {read : Json → Option Json} {f : Field} {kvs : List (Str × Json)}
    (h : kvs.lookup f.name = none) (halias : (f.aliasName.bind fun a => kvs.lookup a) = none) :
    readField read f kvs = f.default := by rw [readField, h, halias]

/-- A field is read from its default or from one of the entries. -/
theorem readField_eq_some {read : Json → Option Json} {f : Field} {kvs : List (Str × Json)} {d : Json}
    (h : readField read f kvs = some d) : f.default = some d ∨ ∃ v, read v = some d := by
  unfold readField at h
  split at h
  · cases h
  · exact .inr ⟨_, h⟩
  · exact .inr ⟨_, h⟩
  · exact .inl h

/-- Only an option is written as null. -/
theorem toValue_ne_null {t : Ty} {d : Json} (ht : t.isOption = false) (h : admits t d = true) :
    toValue t d ≠ .null := by
  cases t with
  | option t => cases ht
  | bool | uint | i64 | string | variants | vec | map | struct => cases d <;> simp [toValue, admits] at h ⊢

/-- Only `None` is written as null. -/
theorem eq_null_of_toValue {t : Ty} {d : Json} (hwf : wf t = true) (h : admits t d = true)
    (hnull : toValue t d = .null) :
    d = .null := by
  cases hoption : t.isOption with
  | false => exact absurd hnull (toValue_ne_null hoption h)
  | true =>
    match t, hoption with
    | .option u, _ =>
      by_contra hd
      have hadmits : admits u d = true := (Bool.or_eq_true_iff.mp h).resolve_left (by simpa using hd)
      have hu : u.isOption = false := by simpa using (Bool.and_eq_true_iff.mp hwf).2
      rw [toValue, if_neg hd] at hnull
      exact toValue_ne_null hu hadmits hnull

mutual

theorem fromValue_toValue : ∀ {t : Ty} {d : Json}, wf t = true → admits t d = true → fromValue t (toValue t d) = some d
  | .bool, d, _, h => by
    cases d with
    | bool b => rfl
    | _ => cases h
  | .uint bits, d, _, h => by
    match d, h with
    | .num (.int n), h => exact if_pos (of_decide_eq_true h)
  | .i64, d, _, h => by
    match d, h with
    | .num (.int n), h => exact if_pos (of_decide_eq_true h)
  | .string, d, _, h => by
    cases d with
    | str s => rfl
    | _ => cases h
  | .variants names, d, _, h => by
    cases d with
    | str s => exact if_pos (List.contains_iff_mem.mp h)
    | _ => cases h
  | .option t, d, hwf, h => by
    obtain ⟨hwf, ht⟩ := Bool.and_eq_true_iff.mp hwf
    rw [toValue, fromValue]
    by_cases hd : d = .null
    · rw [if_pos hd, if_pos rfl, hd]
    · have hadmits : admits t d = true := (Bool.or_eq_true_iff.mp h).resolve_left (by simpa using hd)
      rw [if_neg hd, if_neg (toValue_ne_null (by simpa using ht) hadmits)]
      exact fromValue_toValue hwf hadmits
  | .vec t, d, hwf, h => by
    cases d with
    | arr xs =>
      rw [toValue, fromValue, mapM_map fun x hx => fromValue_toValue (t := t) hwf (List.all_eq_true.mp h x hx)]
      rfl
    | _ => cases h
  | .map t, d, hwf, h => by
    cases d with
    | obj kvs =>
      obtain ⟨horder, hkvs⟩ := Bool.and_eq_true_iff.mp h
      have hread : readValues (fromValue t) (mapValues (toValue t) kvs) = some kvs := by
        refine mapM_map fun kv hkv => ?_
        dsimp only
        rw [fromValue_toValue (Bool.and_eq_true_iff.mp hwf).1 (List.all_eq_true.mp hkvs kv hkv)]
        rfl
      rw [toValue, fromValue, hread, Option.map_some, ofEntries_of_inOrder (of_decide_eq_true horder)]
    | _ => cases h
  | .struct fields, d, hwf, h => by
    cases d with
    | obj kvs =>
      obtain ⟨hnodup, hfields⟩ := Bool.and_eq_true_iff.mp hwf
      rw [toValue, fromValue, readMap_written hfields h]
      · rfl
      · intro a ha
        rw [lookup_ofEntries]
        exact lookup_written_of_notMem fun hmem => by simp [hmem] at ha
      · intro ft d hd
        rw [lookup_ofEntries]
        exact lookup_written (of_decide_eq_true hnodup) hd
    | _ => cases h

/-- A struct is read from any entries that show its fields. -/
theorem readMap_written : ∀ {fields : List (Field × Ty)} {all : List Str} {kvs m : List (Str × Json)},
    wfFields all fields = true → admitsFields fields kvs = true → (∀ a, all.contains a = false → m.lookup a = none) →
    (∀ ft d, (ft, d) ∈ fields.zip (kvs.map Prod.snd) → m.lookup ft.1.name = shown ft.1 ft.2 d) →
    readMap fields m = some kvs
  | [], all, [], m, _, _, _, _ => rfl
  | (f, t) :: fields, all, (k, d) :: kvs, m, hwf, h, halias, hm => by
    simp only [wfFields, Bool.and_eq_true] at hwf
    obtain ⟨⟨⟨⟨ht, -⟩, hname⟩, hskip⟩, hfields⟩ := hwf
    simp only [admitsFields, Bool.and_eq_true] at h
    obtain ⟨⟨hk, hd⟩, hkvs⟩ := h
    have hrest : readMap fields m = some kvs := readMap_written hfields hkvs halias fun ft e he =>
      hm ft e (List.mem_cons_of_mem _ he)
    have hnone : (f.aliasName.bind fun a => m.lookup a) = none := by
      cases ha : f.aliasName with
      | none => rfl
      | some a =>
        rw [ha] at hname
        exact halias a (by simpa using hname)
    have hshown : m.lookup f.name = shown f t d := hm (f, t) d List.mem_cons_self
    have hread : readField (fromValue t) f m = some d := by
      rw [shown] at hshown
      split at hshown
      next hnull =>
        rw [readField_default hshown hnone, hnull.2]
        have hskip : (f.default = some .null ∧ f.aliasName = none) ∧ t.isOptionalString = true := by
          simpa [hnull.1] using hskip
        exact hskip.1.1
      · rw [readField_name hshown hnone]
        exact fromValue_toValue ht hd
    rw [readMap, hread, hrest, Option.bind_some, Option.map_some, beq_iff_eq.mp hk]

end

/-! ## What is read is a value -/

mutual

theorem admits_fromValue : ∀ {t : Ty} {j d : Json}, wf t = true → fromValue t j = some d → admits t d = true
  | .bool, j, d, _, h => by
    cases j with
    | bool b =>
      obtain rfl := Option.some.inj h
      rfl
    | _ => cases h
  | .uint bits, j, d, _, h => by
    match j, h with
    | .num (.int n), h =>
      obtain ⟨hn, heq⟩ := Option.ite_none_right_eq_some.mp h
      obtain rfl := Option.some.inj heq
      exact decide_eq_true hn
  | .i64, j, d, _, h => by
    match j, h with
    | .num (.int n), h =>
      obtain ⟨hn, heq⟩ := Option.ite_none_right_eq_some.mp h
      obtain rfl := Option.some.inj heq
      exact decide_eq_true hn
  | .string, j, d, _, h => by
    cases j with
    | str s =>
      obtain rfl := Option.some.inj h
      rfl
    | _ => cases h
  | .variants names, j, d, _, h => by
    match j, h with
    | .str s, h =>
      obtain ⟨hs, heq⟩ := Option.ite_none_right_eq_some.mp h
      obtain rfl := Option.some.inj heq
      exact List.contains_iff_mem.mpr hs
    | .obj [(k, .null)], h =>
      obtain ⟨hk, heq⟩ := Option.ite_none_right_eq_some.mp h
      obtain rfl := Option.some.inj heq
      exact List.contains_iff_mem.mpr hk
  | .option t, j, d, hwf, h => by
    rw [fromValue] at h
    rw [admits, Bool.or_eq_true]
    split at h
    · obtain rfl := Option.some.inj h
      exact .inl rfl
    · exact .inr (admits_fromValue (Bool.and_eq_true_iff.mp hwf).1 h)
  | .vec t, j, d, hwf, h => by
    cases j with
    | arr xs =>
      obtain ⟨ds, hds, rfl⟩ := Option.map_eq_some_iff.mp h
      refine List.all_eq_true.mpr fun e he => ?_
      obtain ⟨x, -, hx⟩ := mem_mapM hds he
      exact admits_fromValue (t := t) hwf hx
    | _ => cases h
  | .map t, j, d, hwf, h => by
    cases j with
    | obj kvs =>
      obtain ⟨ds, hds, rfl⟩ := Option.map_eq_some_iff.mp h
      refine Bool.and_eq_true_iff.mpr ⟨decide_eq_true (inOrder_ofEntries ds), List.all_eq_true.mpr fun e he => ?_⟩
      obtain ⟨kv, -, hkv⟩ := mem_mapM hds (mem_of_mem_ofEntries he)
      obtain ⟨d, hd, rfl⟩ := Option.map_eq_some_iff.mp hkv
      exact admits_fromValue (Bool.and_eq_true_iff.mp hwf).1 hd
    | _ => cases h
  | .struct fields, j, d, hwf, h => by
    have hfields := (Bool.and_eq_true_iff.mp hwf).2
    cases j with
    | obj kvs =>
      obtain ⟨ds, hds, rfl⟩ := Option.map_eq_some_iff.mp h
      exact admits_readMap hfields hds
    | arr xs =>
      obtain ⟨ds, hds, rfl⟩ := Option.map_eq_some_iff.mp h
      exact admits_readSeq hfields hds
    | _ => cases h

theorem admits_readMap : ∀ {fields : List (Field × Ty)} {all : List Str} {kvs ds : List (Str × Json)},
    wfFields all fields = true → readMap fields kvs = some ds → admitsFields fields ds = true
  | [], all, kvs, ds, _, h => by
    obtain rfl := Option.some.inj h
    rfl
  | (f, t) :: fields, all, kvs, ds, hwf, h => by
    simp only [wfFields, Bool.and_eq_true] at hwf
    obtain ⟨⟨⟨⟨ht, hdefault⟩, -⟩, -⟩, hfields⟩ := hwf
    obtain ⟨d, hd, h⟩ := Option.bind_eq_some_iff.mp h
    obtain ⟨ds, hds, rfl⟩ := Option.map_eq_some_iff.mp h
    simp only [admitsFields, Bool.and_eq_true]
    refine ⟨⟨beq_self_eq_true f.name, ?_⟩, admits_readMap hfields hds⟩
    rcases readField_eq_some hd with hd | ⟨v, hv⟩
    · rw [hd] at hdefault
      exact hdefault
    · exact admits_fromValue ht hv

theorem admits_readSeq : ∀ {fields : List (Field × Ty)} {all : List Str} {xs : List Json} {ds : List (Str × Json)},
    wfFields all fields = true → readSeq fields xs = some ds → admitsFields fields ds = true
  | [], all, [], ds, _, h => by
    obtain rfl := Option.some.inj h
    rfl
  | (f, t) :: fields, all, [], ds, hwf, h => by
    simp only [wfFields, Bool.and_eq_true] at hwf
    obtain ⟨⟨⟨⟨ht, hdefault⟩, -⟩, -⟩, hfields⟩ := hwf
    obtain ⟨d, hd, h⟩ := Option.bind_eq_some_iff.mp h
    obtain ⟨ds, hds, rfl⟩ := Option.map_eq_some_iff.mp h
    simp only [admitsFields, Bool.and_eq_true]
    rw [hd] at hdefault
    exact ⟨⟨beq_self_eq_true f.name, hdefault⟩, admits_readSeq hfields hds⟩
  | (f, t) :: fields, all, x :: xs, ds, hwf, h => by
    simp only [wfFields, Bool.and_eq_true] at hwf
    obtain ⟨⟨⟨⟨ht, -⟩, -⟩, -⟩, hfields⟩ := hwf
    obtain ⟨d, hd, h⟩ := Option.bind_eq_some_iff.mp h
    obtain ⟨ds, hds, rfl⟩ := Option.map_eq_some_iff.mp h
    simp only [admitsFields, Bool.and_eq_true]
    exact ⟨⟨beq_self_eq_true f.name, admits_fromValue ht hd⟩, admits_readSeq hfields hds⟩

end

/-! ## Trees without floats -/

mutual

theorem exact_toValue : ∀ {t : Ty} {d : Json}, wf t = true → admits t d = true → (toValue t d).Exact
  | .bool, d, _, h => by
    cases d with
    | bool b => exact .bool b
    | _ => cases h
  | .uint bits, d, hwf, h => by
    match d, h with
    | .num (.int n), h =>
      have hn : 0 ≤ n ∧ n < 2 ^ bits := of_decide_eq_true h
      have hbits : (2 : Int) ^ bits ≤ 2 ^ 64 := pow_le_pow_right₀ (by norm_num) (of_decide_eq_true hwf)
      exact .int ⟨(by norm_num : (-2 ^ 63 : Int) ≤ 0).trans hn.1, hn.2.trans_le hbits⟩
  | .i64, d, _, h => by
    match d, h with
    | .num (.int n), h =>
      have hn : -2 ^ 63 ≤ n ∧ n < 2 ^ 63 := of_decide_eq_true h
      exact .int ⟨hn.1, hn.2.trans (by norm_num)⟩
  | .string, d, _, h => by
    cases d with
    | str s => exact .str s
    | _ => cases h
  | .variants names, d, _, h => by
    cases d with
    | str s => exact .str s
    | _ => cases h
  | .option t, d, hwf, h => by
    rw [toValue]
    split
    · exact .null
    next hd =>
      exact exact_toValue (Bool.and_eq_true_iff.mp hwf).1 ((Bool.or_eq_true_iff.mp h).resolve_left (by simpa using hd))
  | .vec t, d, hwf, h => by
    cases d with
    | arr xs =>
      refine .arr fun x hx => ?_
      obtain ⟨e, he, rfl⟩ := List.mem_map.mp hx
      exact exact_toValue (t := t) hwf (List.all_eq_true.mp h e he)
    | _ => cases h
  | .map t, d, hwf, h => by
    cases d with
    | obj kvs =>
      obtain ⟨horder, hkvs⟩ := Bool.and_eq_true_iff.mp h
      refine .obj (inOrder_mapValues.mpr (of_decide_eq_true horder)) fun kv hkv => ?_
      obtain ⟨e, he, rfl⟩ := List.mem_map.mp hkv
      exact exact_toValue (Bool.and_eq_true_iff.mp hwf).1 (List.all_eq_true.mp hkvs e he)
    | _ => cases h
  | .struct fields, d, hwf, h => by
    cases d with
    | obj kvs =>
      exact .obj (inOrder_ofEntries _) fun kv hkv =>
        exact_written (Bool.and_eq_true_iff.mp hwf).2 h kv (mem_of_mem_ofEntries hkv)
    | _ => cases h

theorem exact_written : ∀ {fields : List (Field × Ty)} {all : List Str} {kvs : List (Str × Json)},
    wfFields all fields = true → admitsFields fields kvs = true → ∀ kv ∈ written fields kvs, kv.2.Exact
  | [], all, kvs, _, _, kv, hkv => by cases kvs <;> cases hkv
  | (f, t) :: fields, all, (k, d) :: kvs, hwf, h, kv, hkv => by
    simp only [wfFields, Bool.and_eq_true] at hwf
    obtain ⟨⟨⟨⟨ht, -⟩, -⟩, -⟩, hfields⟩ := hwf
    simp only [admitsFields, Bool.and_eq_true] at h
    obtain ⟨⟨-, hd⟩, hkvs⟩ := h
    rw [written] at hkv
    split at hkv
    · exact exact_written hfields hkvs kv hkv
    · rcases List.mem_cons.mp hkv with rfl | hkv
      · exact exact_toValue ht hd
      · exact exact_written hfields hkvs kv hkv

end

/-! ## How deep trees are -/

mutual

/-- How deep the arrays and objects of a value of the type are nested. -/
def Ty.depth : Ty → Nat
  | .option t => t.depth
  | .vec t => t.depth + 1
  | .map t => t.depth + 1
  | .struct fields => depthFields fields + 1
  | _ => 0

def depthFields : List (Field × Ty) → Nat
  | [] => 0
  | (_, t) :: fields => max t.depth (depthFields fields)

end

theorem depth_le_of_mem {fields : List (Field × Ty)} {ft : Field × Ty} (h : ft ∈ fields) :
    ft.2.depth ≤ depthFields fields := by
  induction fields with
  | nil => cases h
  | cons gt fields ih =>
    rw [depthFields]
    rcases List.mem_cons.mp h with rfl | h
    · exact le_max_left _ _
    · exact (ih h).trans (le_max_right _ _)

mutual

theorem within_toValue : ∀ {t : Ty} {d : Json}, admits t d = true → (toValue t d).Within t.depth
  | .bool, d, h => by
    cases d with
    | bool b => exact .bool _ b
    | _ => cases h
  | .uint bits, d, h => by
    match d, h with
    | .num (.int n), _ => exact .num _ _
  | .i64, d, h => by
    match d, h with
    | .num (.int n), _ => exact .num _ _
  | .string, d, h => by
    cases d with
    | str s => exact .str _ s
    | _ => cases h
  | .variants names, d, h => by
    cases d with
    | str s => exact .str _ s
    | _ => cases h
  | .option t, d, h => by
    rw [toValue, Ty.depth]
    split
    · exact .null _
    next hd => exact within_toValue ((Bool.or_eq_true_iff.mp h).resolve_left (by simpa using hd))
  | .vec t, d, h => by
    rw [Ty.depth]
    cases d with
    | arr xs =>
      refine .arr fun x hx => ?_
      obtain ⟨e, he, rfl⟩ := List.mem_map.mp hx
      exact within_toValue (t := t) (List.all_eq_true.mp h e he)
    | _ => cases h
  | .map t, d, h => by
    rw [Ty.depth]
    cases d with
    | obj kvs =>
      obtain ⟨-, hkvs⟩ := Bool.and_eq_true_iff.mp h
      refine .obj fun kv hkv => ?_
      obtain ⟨e, he, rfl⟩ := List.mem_map.mp hkv
      exact within_toValue (List.all_eq_true.mp hkvs e he)
    | _ => cases h
  | .struct fields, d, h => by
    rw [Ty.depth]
    cases d with
    | obj kvs => exact .obj fun kv hkv => within_written h kv (mem_of_mem_ofEntries hkv)
    | _ => cases h

theorem within_written : ∀ {fields : List (Field × Ty)} {kvs : List (Str × Json)}, admitsFields fields kvs = true →
    ∀ kv ∈ written fields kvs, kv.2.Within (depthFields fields)
  | [], kvs, _, kv, hkv => by cases kvs <;> cases hkv
  | (f, t) :: fields, (k, d) :: kvs, h, kv, hkv => by
    simp only [admitsFields, Bool.and_eq_true] at h
    obtain ⟨⟨-, hd⟩, hkvs⟩ := h
    have hrest : ∀ kv ∈ written fields kvs, kv.2.Within (max t.depth (depthFields fields)) :=
      fun kv hkv => (within_written hkvs kv hkv).mono (le_max_right _ _)
    rw [written] at hkv
    rw [depthFields]
    split at hkv
    · exact hrest kv hkv
    · rcases List.mem_cons.mp hkv with rfl | hkv
      · exact (within_toValue hd).mono (le_max_left _ _)
      · exact hrest kv hkv

end

end Serde

end Ironclaw
