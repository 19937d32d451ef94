import Ironclaw.Lib.JsonLeaves
import Ironclaw.Settings.Merge

/-!
# Stored settings

The settings are stored in the database as one row for each leaf of their tree, with the dotted path as its key, and are
loaded by a `set` of each row over the defaults, in the order in which a hash map gives them.

- `row_cases`, `mem_toDbMap`: the rows beside a path of the defaults;
- `valueAt_loadEntry_apart`, `loadEntry_below`, `valueAt_loadEntry`: what one row changes;
- `load_store`: which settings are loaded as they were stored.
-/

namespace Ironclaw.Settings

open Json Serde Text OrderedMap

mutual

/-- `collect_settings_json`; the hash map has its keys in order here. -/
def collectSettingsJson : Json → (pre : Str) → (results : List (Str × Json)) → List (Str × Json)
  | .obj entries, pre, results => collectEntries entries pre results
  | other, pre, results => insertKey pre other results

def collectEntries : List (Str × Json) → (pre : Str) → (results : List (Str × Json)) → List (Str × Json)
  | [], _, results => results
  | (key, val) :: entries, pre, results => collectEntries entries pre (collectSettingsJson val (dotted pre key) results)

end

def OWNER_ID : Str := "owner_id".toList

def toDbMap (s : Settings) : List (Str × Json) := (collectSettingsJson s.toValue [] []).filter (·.1 ≠ OWNER_ID)

section Load

variable (json : JsonText) (round : Str → Option Str) (refusal : Json → Str)

/-- One row of the database over the settings; a `set` that fails leaves them. -/
def loadEntry (s : Settings) (row : Str × Json) : Settings :=
  if row.1 = OWNER_ID then s
  else
    match row.2 with
    | .null => s
    | value => (s.set json round refusal row.1 (render json value)).2

/-- `Settings::from_db_map`, with the rows in the order in which they come. -/
def fromDbMap (rows : List (Str × Json)) : Settings := rows.foldl (loadEntry json round refusal) default

/-! ## The rows -/

/-- A row of a leaf. -/
def addRow (pre : Str) (results : List (Str × Json)) (leaf : List Str × Json) : List (Str × Json) :=
  insertKey (leaf.1.foldl dotted pre) leaf.2 results

mutual

theorem collect_eq : ∀ (j : Json) (pre : Str) (results : List (Str × Json)),
    collectSettingsJson j pre results = (leaves j).foldl (addRow pre) results
  | .obj kvs, pre, results => collectEntries_eq kvs pre results
  | .null, _, _ | .bool _, _, _ | .num _, _, _ | .str _, _, _ | .arr _, _, _ => rfl

theorem collectEntries_eq : ∀ (kvs : List (Str × Json)) (pre : Str) (results : List (Str × Json)),
    collectEntries kvs pre results = (leavesOf kvs).foldl (addRow pre) results
  | [], _, _ => rfl
  | (key, val) :: kvs, pre, results => by
    rw [collectEntries, collect_eq val, collectEntries_eq kvs, leavesOf, List.foldl_append, List.foldl_map]
    rfl

end

theorem inOrder_foldl {pre : Str} {ls : List (List Str × Json)} {m : List (Str × Json)} (h : InOrder m) :
    InOrder (ls.foldl (addRow pre) m) := by
  induction ls generalizing m with
  | nil => exact h
  | cons l ls ih => exact ih h.insertKey

/-- A row is there when all leaves with its key have its value. -/
theorem lookup_foldl {pre key : Str} {x : Json} {ls : List (List Str × Json)} {m : List (Str × Json)}
    (hall : ∀ l ∈ ls, l.1.foldl dotted pre = key → l.2 = x)
    (h : m.lookup key = some x ∨ ∃ l ∈ ls, l.1.foldl dotted pre = key) :
    (ls.foldl (addRow pre) m).lookup key = some x := by
  induction ls generalizing m with
  | nil => exact h.resolve_right (by simp)
  | cons l ls ih =>
    refine ih (fun l' hl' => hall l' (List.mem_cons_of_mem _ hl')) ?_
    rw [addRow, lookup_insertKey]
    by_cases hkey : key = l.1.foldl dotted pre
    · rw [if_pos hkey, hall l List.mem_cons_self hkey.symm]
      exact .inl rfl
    · rw [if_neg hkey]
      refine h.imp_right ?_
      rintro ⟨l', hl', heq⟩
      rcases List.mem_cons.mp hl' with rfl | hl'
      · exact absurd heq.symm hkey
      · exact ⟨l', hl', heq⟩

theorem mem_foldl {pre : Str} {row : Str × Json} {ls : List (List Str × Json)} {m : List (Str × Json)}
    (h : row ∈ ls.foldl (addRow pre) m) : row ∈ m ∨ ∃ l ∈ ls, row = (l.1.foldl dotted pre, l.2) := by
  induction ls generalizing m with
  | nil => exact .inl h
  | cons l ls ih =>
    rcases ih h with h | ⟨l', hl', heq⟩
    · exact (mem_insertKey h).symm.imp_right fun heq => ⟨l, List.mem_cons_self, heq⟩
    · exact .inr ⟨l', List.mem_cons_of_mem _ hl', heq⟩

/-- **The rows**: each is of a leaf, and none has the key of the owner. -/
theorem of_mem_toDbMap {s : Settings} {row : Str × Json} (h : row ∈ s.toDbMap) :
    row.1 ≠ OWNER_ID ∧ ∃ q x, s.toValue.valueAt q = some x ∧ x.Leaf ∧ row = (q.foldl dotted [], x) := by
  obtain ⟨hmem, hkey⟩ := List.mem_filter.mp h
  rw [collect_eq] at hmem
  obtain ⟨⟨q, x⟩, hl, heq⟩ := (mem_foldl hmem).resolve_left (by simp)
  obtain ⟨hx, hleaf⟩ := (mem_leaves s.exact).mp hl
  exact ⟨of_decide_eq_true hkey, q, x, hx, hleaf, heq⟩

theorem nodup_toDbMap (s : Settings) : s.toDbMap.Nodup := by
  rw [toDbMap, collect_eq]
  have horder : InOrder ((leaves s.toValue).foldl (addRow []) []) := inOrder_foldl List.Pairwise.nil
  exact (horder.imp fun hlt heq => hlt.ne (congrArg Prod.fst heq)).filter _

/-! ## One row over the settings -/

variable {json round refusal}

variable (json round refusal) in
/-- A row is passed over or set. -/
theorem loadEntry_cases (s : Settings) (row : Str × Json) :
    loadEntry json round refusal s row = s ∨
      loadEntry json round refusal s row = (s.set json round refusal row.1 (render json row.2)).2 := by
  unfold loadEntry
  split
  · exact .inl rfl
  · split
    · exact .inl rfl
    · exact .inr rfl

theorem valueAt_loadEntry_apart {s : Settings} {row : Str × Json} {p : List Str} (h : Apart p (parts row.1)) :
    (loadEntry json round refusal s row).toValue.valueAt p = s.toValue.valueAt p := by
  rcases loadEntry_cases json round refusal s row with hload | hload <;> rw [hload]
  rcases set_cases json round refusal s row.1 (render json row.2) with ⟨e, hset⟩ | ⟨v, tree, s', -, htree, hs', hset⟩
  · rw [hset]
  · obtain ⟨hothers, -⟩ := setAt_spec wf_ty s.admitted (parts_ne_nil row.1) htree (shown_of_fromValue hs')
    rw [hset]
    exact hothers p h.1 h.2

/-- Below an absent value nothing is set. -/
theorem loadEntry_below {s : Settings} {row : Str × Json} {p q : List Str} (hnull : s.toValue.valueAt p = some .null)
    (hq : q ≠ []) (h : parts row.1 = p ++ q) : loadEntry json round refusal s row = s := by
  have hparent : ∀ obj, s.toValue.valueAt (parts row.1).dropLast ≠ some (.obj obj) := by
    intro obj hobj
    rw [h, List.dropLast_append_of_ne_nil hq, valueAt_append, hnull, Option.bind_some] at hobj
    cases hd : q.dropLast with
    | nil => simp [hd, Json.valueAt] at hobj
    | cons k q' => simp [hd, Json.valueAt, Json.get] at hobj
  rcases loadEntry_cases json round refusal s row with hload | hload
  · exact hload
  rw [hload, set]
  split
  · rfl
  next obj hobj => exact absurd hobj (hparent obj)
  · rfl

/-- What a row makes of a value in its place. -/
def reload (json : JsonText) (round : Str → Option Str) (t : Ty) (path : Str) (v x : Json) : Json :=
  match newValue json round path (render json x) (some v) with
  | .ok w => ((Serde.fromValue t w).map (Serde.toValue t)).getD v
  | .error _ => v

theorem valueAt_loadEntry {s : Settings} {key : Str} {x v : Json} {t : Ty} (ht : ty.typeAt (parts key) = some t)
    (homits : ty.omitsAt (parts key) = false) (hv : s.toValue.valueAt (parts key) = some v) (hkey : key ≠ OWNER_ID)
    (hx : x ≠ .null) :
    (loadEntry json round refusal s (key, x)).toValue.valueAt (parts key) = some (reload json round t key v x) := by
  have hload : loadEntry json round refusal s (key, x) = (s.set json round refusal key (render json x)).2 := by
    rw [loadEntry, if_neg hkey]
    cases x with
    | null => exact absurd rfl hx
    | _ => rfl
  rw [hload]
  rcases set_cases json round refusal s key (render json x) with ⟨e, hset⟩ | ⟨w, tree, s', hw, htree, hs', hset⟩
  · -- nothing was set, so the type does not read the new value
    rw [hset, hv, reload]
    cases hw : newValue json round key (render json x) (some v) with
    | error e => rfl
    | ok w =>
      dsimp only
      cases he : Serde.fromValue t w with
      | none => rfl
      | some e =>
        obtain ⟨s', hset', -⟩ := set_of_typeAt refusal ht hv hw he homits
        rw [hset] at hset'
        cases hset'
  · obtain ⟨-, -, hsome⟩ := setAt_spec wf_ty s.admitted (parts_ne_nil key) htree (shown_of_fromValue hs')
    obtain ⟨e, he, hplace⟩ := hsome t ht
    rw [hv] at hw
    rw [hset, reload, hw]
    dsimp only
    rw [he, Option.map_some, Option.getD_some]
    rw [if_neg fun h => Bool.false_ne_true (homits.symm.trans h.1)] at hplace
    exact hplace

/-! ## All rows -/

theorem foldl_apart {p : List Str} {rows : List (Str × Json)} (h : ∀ row ∈ rows, Apart p (parts row.1)) {s : Settings} :
    (rows.foldl (loadEntry json round refusal) s).toValue.valueAt p = s.toValue.valueAt p := by
  induction rows generalizing s with
  | nil => rfl
  | cons row rows ih =>
    rw [List.foldl_cons, ih fun row' h' => h row' (List.mem_cons_of_mem _ h')]
    exact valueAt_loadEntry_apart (h row List.mem_cons_self)

theorem foldl_below {p : List Str} {rows : List (Str × Json)} {s : Settings} (hnull : s.toValue.valueAt p = some .null)
    (h : ∀ row ∈ rows, Apart p (parts row.1) ∨ ∃ q, q ≠ [] ∧ parts row.1 = p ++ q) :
    (rows.foldl (loadEntry json round refusal) s).toValue.valueAt p = some .null := by
  induction rows generalizing s with
  | nil => exact hnull
  | cons row rows ih =>
    rw [List.foldl_cons]
    refine ih ?_ fun row' h' => h row' (List.mem_cons_of_mem _ h')
    rcases h row List.mem_cons_self with hapart | ⟨q, hq, hparts⟩
    · rw [valueAt_loadEntry_apart hapart, hnull]
    · rw [loadEntry_below hnull hq hparts, hnull]

/-- Of rows of which only one is not apart, that one is what counts. -/
theorem foldl_one {p : List Str} {row : Str × Json} {rows : List (Str × Json)} (hnodup : rows.Nodup) (hrow : row ∈ rows)
    (h : ∀ row' ∈ rows, row' ≠ row → Apart p (parts row'.1)) :
    ∃ s : Settings, s.toValue.valueAt p = default.toValue.valueAt p ∧
      (fromDbMap json round refusal rows).toValue.valueAt p =
        (loadEntry json round refusal s row).toValue.valueAt p := by
  obtain ⟨before, after, rfl⟩ := List.append_of_mem hrow
  obtain ⟨hbefore, hafter, hdisjoint⟩ := List.nodup_append.mp hnodup
  refine ⟨before.foldl (loadEntry json round refusal) default, foldl_apart fun row' h' => ?_, ?_⟩
  · refine h row' (List.mem_append_left _ h') ?_
    rintro rfl
    exact hdisjoint row' h' row' List.mem_cons_self rfl
  · rw [fromDbMap, List.foldl_append, List.foldl_cons]
    refine foldl_apart fun row' h' => h row' (List.mem_append_right _ (List.mem_cons_of_mem _ h')) ?_
    rintro rfl
    exact (List.nodup_cons.mp hafter).1 h'

/-! ## The rows beside a path of the defaults -/

theorem plain_ty : plain ty = true := by decide_cbv

theorem obj_toValue (s : Settings) : ∃ kvs, s.toValue = .obj kvs := by
  obtain ⟨shown, hex, h⟩ := s
  cases shown with
  | obj ds => exact ⟨_, rfl⟩
  | _ => cases h

/-- The key of a row is read as the keys of its leaf, one by one. -/
theorem parts_row {s : Settings} {q : List Str} {x : Json} (hx : s.toValue.valueAt q = some x) (hleaf : x.Leaf) :
    parts (q.foldl dotted []) = q.flatMap (·.splitOn '.') := by
  obtain ⟨kvs, hobj⟩ := s.obj_toValue
  cases q with
  | nil =>
    rw [hobj] at hx
    exact absurd (Option.some.inj hx).symm (hleaf kvs)
  | cons k q =>
    obtain ⟨y, hy, -⟩ := Option.bind_eq_some_iff.mp hx
    obtain ⟨c, e, hc, -⟩ := exists_of_get wf_ty s.admitted hy
    obtain ⟨ft, hft, -⟩ := Option.map_eq_some_iff.mp hc
    obtain ⟨hmem, rfl⟩ := fieldNamed_eq_some hft
    exact parts_dotted (plain_of_mem plain_ty hmem).1 q

/-- A row is of a leaf at the path or below it, or is apart from it. -/
theorem row_cases {s : Settings} {row : Str × Json} (hrow : row ∈ s.toDbMap) {p : List Str}
    (hfixed : ty.fixed p = true) :
    row.1 ≠ OWNER_ID ∧ row.2.Leaf ∧ (Apart p (parts row.1) ∨ ∃ q, s.toValue.valueAt (p ++ q) = some row.2 ∧
      row.1 = (p ++ q).foldl dotted [] ∧ parts row.1 = p ++ q.flatMap (·.splitOn '.')) := by
  obtain ⟨hkey, q, x, hx, hleaf, rfl⟩ := of_mem_toDbMap hrow
  refine ⟨hkey, hleaf, ?_⟩
  rw [parts_row hx hleaf]
  rcases leaf_cases wf_ty s.admitted plain_ty hfixed hx hleaf with ⟨r, rfl⟩ | hapart
  · refine .inr ⟨r, hx, rfl, ?_⟩
    rw [List.flatMap_append, flatMap_splitOn (plain_of_fixed plain_ty hfixed)]
  · exact .inl hapart

/-- A leaf at a path has a row. -/
theorem mem_toDbMap {s : Settings} {p : List Str} {x : Json} (hfixed : ty.fixed p = true) (howner : p ≠ [OWNER_ID])
    (hx : s.toValue.valueAt p = some x) (hleaf : x.Leaf) :
    parts (p.foldl dotted []) = p ∧ (p.foldl dotted [], x) ∈ s.toDbMap := by
  have hplain : p.flatMap (·.splitOn '.') = p := flatMap_splitOn (plain_of_fixed plain_ty hfixed)
  have hparts : parts (p.foldl dotted []) = p := (parts_row hx hleaf).trans hplain
  refine ⟨hparts, List.mem_filter.mpr ⟨mem_of_lookup ?_, decide_eq_true ?_⟩⟩
  · rw [collect_eq]
    refine lookup_foldl ?_ (.inr ⟨(p, x), (mem_leaves s.exact).mpr ⟨hx, hleaf⟩, rfl⟩)
    rintro ⟨q, y⟩ hl hkey
    obtain ⟨hy, hyleaf⟩ := (mem_leaves s.exact).mp hl
    have hq : q.flatMap (·.splitOn '.') = p := by rw [← parts_row hy hyleaf, ← hparts, hkey]
    rcases leaf_cases wf_ty s.admitted plain_ty hfixed hy hyleaf with ⟨r, rfl⟩ | hapart
    · rw [valueAt_append, hx, Option.bind_some] at hy
      exact (valueAt_leaf hleaf hy).2
    · rw [hq] at hapart
      exact absurd List.prefix_rfl hapart.1
  · intro hkey
    have hkey : p.foldl dotted [] = OWNER_ID := hkey
    refine howner ?_
    rw [← hparts, hkey]
    decide

/-! ## What is loaded -/

variable (json) in
/-- Where the default is absent, a text is not read as anything else, and there is no object. -/
def Reloads (v x : Json) : Prop :=
  v = .null →
    match x with
    | .str text => ∀ w, json.parse text = .ok w → w = .str text
    | .obj _ => False
    | _ => True

/-- In place of an absent default, a text comes back if it is not read as anything else. -/
theorem reload_text {t : Ty} (hwf : wf (.option t) = true) (hplain : plain (.option t) = true) (path : Str) {text : Str}
    {e : Json} (hread : Serde.fromValue (.option t) (.str text) = some e)
    (hwritten : Serde.toValue (.option t) e = .str text) :
    reload json round (.option t) path .null (.str text) = .str text ↔
      ∀ w, json.parse text = .ok w → w = .str text := by
  rw [reload, render, newValue]
  cases hparse : json.parse text with
  | error e =>
    refine iff_of_true ?_ fun w hw => ?_
    · dsimp only
      rw [hread, Option.map_some, hwritten]
      rfl
    · cases hw
  | ok w =>
    dsimp only
    constructor
    · intro heq w' hw'
      obtain rfl := Except.ok.inj hw'
      cases he : Serde.fromValue (.option t) w with
      | none =>
        rw [he] at heq
        cases heq
      | some e =>
        rw [he] at heq
        exact str_of_fromValue hwf hplain he heq
    · intro hall
      rw [hall w rfl, hread, Option.map_some, hwritten]
      rfl

theorem reload_iff (hjson : json.ReadsBack) (hprint : ∀ x, (∀ text, x ≠ .str text) → json.print x = render json x)
    {t : Ty}
    {d e : Json} (hwf : wf t = true) (hplain : plain t = true) (hd : admits t d = true) (he : admits t e = true)
    (hbare : bare t d = true) (hdepth : t.depth ≤ JsonText.MAX_NESTING) (hleaf : (Serde.toValue t e).Leaf)
      (path : Str) :
    reload json round t path (Serde.toValue t d) (Serde.toValue t e) = Serde.toValue t e ↔
      Reloads json (Serde.toValue t d) (Serde.toValue t e) := by
  have hexact : (Serde.toValue t e).Exact := exact_toValue hwf he
  have hwithin : (Serde.toValue t e).Within JsonText.MAX_NESTING := (within_toValue he).mono hdepth
  have hread : Serde.fromValue t (Serde.toValue t e) = some e := Serde.fromValue_toValue hwf he
  cases hoption : t.isOption with
  | false =>
    have hnew : newValue json round path (render json (Serde.toValue t e)) (some (Serde.toValue t d)) =
        .ok (Serde.toValue t e) :=
      (newValue_congr path _ hoption he hd hbare).symm.trans (newValue_render hjson path hexact hwithin)
    refine iff_of_true ?_ fun hnull => absurd hnull (toValue_ne_null hoption hd)
    rw [reload, hnew]
    dsimp only
    rw [hread]
    rfl
  | true =>
    match t, hoption with
    | .option u, _ =>
      obtain rfl : d = .null := of_decide_eq_true hbare
      rw [show Serde.toValue (.option u) .null = .null from rfl]
      generalize hx : Serde.toValue (.option u) e = x at hexact hwithin hread hleaf
      have hother (hstr : ∀ text, x ≠ .str text) : reload json round (.option u) path .null x = x := by
        have hparse : json.parse (render json x) = .ok x := by
          rw [← hprint x hstr]
          exact hjson.exact x hexact hwithin
        rw [reload, newValue, hparse]
        dsimp only
        rw [hread, Option.map_some, hx, Option.getD_some]
      cases x with
      | str text =>
        rw [Reloads]
        exact (reload_text hwf hplain path hread hx).trans ⟨fun h _ => h, fun h => h rfl⟩
      | obj kvs => exact absurd rfl (hleaf kvs)
      | _ =>
        refine iff_of_true (hother fun text htext => ?_) fun _ => trivial
        cases htext

/-- Where the default is there and no object, no value is an object. -/
theorem leaf_of_default {t : Ty} {d e : Json} (hoption : t.isOption = false) (hd : admits t d = true)
    (he : admits t e = true)
    (hleaf : (Serde.toValue t d).Leaf) : (Serde.toValue t e).Leaf := by
  intro kvs hkvs
  rcases toValue_eq_obj he hkvs with ⟨fields, ds, rfl, -, -⟩ | ⟨u, ds, rfl, -, -⟩ | ⟨u, rfl, -⟩
  · cases d with
    | obj ds => exact hleaf _ rfl
    | _ => cases hd
  · cases d with
    | obj ds => exact hleaf _ rfl
    | _ => cases hd
  · cases hoption

section Place

variable {s : Settings} {rows : List (Str × Json)} {p : List Str} {t : Ty} {d e : Json}

/-- What is left when no row is of the setting itself. -/
theorem load_without_row (hperm : rows.Perm s.toDbMap) (hfixed : ty.fixed p = true) (ht : ty.typeAt p = some t)
    (hd : admits t d = true) (he : admits t e = true) (hbare : bare t d = true)
    (hp : default.toValue.valueAt p = some (Serde.toValue t d)) (hv : (Serde.toValue t d).Leaf)
    (hx : s.toValue.valueAt p = some (Serde.toValue t e)) (hrow : ¬((Serde.toValue t e).Leaf ∧ p ≠ [OWNER_ID])) :
    Serde.toValue t d = .null ∧ (fromDbMap json round refusal rows).toValue.valueAt p = some .null := by
  have habsent : Serde.toValue t d = .null := by
    cases hoption : t.isOption with
    | false =>
      have hleaf : (Serde.toValue t e).Leaf := leaf_of_default hoption hd he hv
      have howner : p = [OWNER_ID] := by
        by_contra h
        exact hrow ⟨hleaf, h⟩
      subst howner
      obtain rfl := Option.some.inj ((rfl : ty.typeAt [OWNER_ID] = some (.option .string)).symm.trans ht)
      cases hoption
    | true =>
      match t, hoption with
      | .option u, _ => rw [of_decide_eq_true hbare]; rfl
  refine ⟨habsent, foldl_below (hp.trans (congrArg some habsent)) fun row hmem => ?_⟩
  obtain ⟨hkey, hleaf, hcases⟩ := row_cases (hperm.mem_iff.mp hmem) hfixed
  refine hcases.imp_right ?_
  rintro ⟨q, hq, hrowkey, hparts⟩
  refine ⟨q.flatMap (·.splitOn '.'), ?_, hparts⟩
  intro hnil
  cases q with
  | nil =>
    rw [List.append_nil] at hq hrowkey
    rw [← Option.some.inj (hx.symm.trans hq)] at hleaf
    refine hrow ⟨hleaf, ?_⟩
    rintro rfl
    exact hkey hrowkey
  | cons k q => exact List.splitOn_ne_nil '.' k (List.append_eq_nil_iff.mp hnil).1

/-- The row of a setting is the only one that is not apart from it. -/
theorem load_of_row (hjson : json.ReadsBack) (hprint : ∀ x, (∀ text, x ≠ .str text) → json.print x = render json x)
    (hperm : rows.Perm s.toDbMap) (hfixed : ty.fixed p = true) (ht : ty.typeAt p = some t)
    (hd : admits t d = true) (he : admits t e = true) (hbare : bare t d = true)
    (hp : default.toValue.valueAt p = some (Serde.toValue t d))
    (hx : s.toValue.valueAt p = some (Serde.toValue t e)) (hleaf : (Serde.toValue t e).Leaf) (howner : p ≠ [OWNER_ID]) :
    (fromDbMap json round refusal rows).toValue.valueAt p = some (Serde.toValue t e) ↔
      Reloads json (Serde.toValue t d) (Serde.toValue t e) := by
  obtain ⟨hparts, hmem⟩ := mem_toDbMap hfixed howner hx hleaf
  have hothers : ∀ row ∈ rows, row ≠ (p.foldl dotted [], Serde.toValue t e) → Apart p (parts row.1) := by
    intro row hrow hne
    obtain ⟨-, -, hcases⟩ := row_cases (hperm.mem_iff.mp hrow) hfixed
    refine hcases.resolve_right ?_
    rintro ⟨q, hq, hkey, -⟩
    rw [valueAt_append, hx, Option.bind_some] at hq
    obtain ⟨rfl, hvalue⟩ := valueAt_leaf hleaf hq
    rw [List.append_nil] at hkey
    exact hne (Prod.ext hkey hvalue)
  obtain ⟨s', hs', hload⟩ := foldl_one (hperm.nodup_iff.mpr (nodup_toDbMap s)) (hperm.mem_iff.mpr hmem) hothers
  have hkey : p.foldl dotted [] ≠ OWNER_ID := (row_cases hmem hfixed).1
  rw [hload]
  by_cases hnull : Serde.toValue t e = .null
  · have hoption : t.isOption = true := by
      by_contra h
      exact toValue_ne_null (Bool.not_eq_true _ ▸ h) he hnull
    match t, hoption with
    | .option u, _ =>
      obtain rfl : d = .null := of_decide_eq_true hbare
      rw [hnull]
      refine iff_of_true ?_ fun _ => trivial
      have hskip : loadEntry json round refusal s' (p.foldl dotted [], .null) = s' := by
        rw [loadEntry, if_neg hkey]
      rw [hskip, hs', hp]
      rfl
  · have hat : (loadEntry json round refusal s' (p.foldl dotted [], Serde.toValue t e)).toValue.valueAt p =
        some (reload json round t (p.foldl dotted []) (Serde.toValue t d) (Serde.toValue t e)) := by
      have hplace : (loadEntry json round refusal s' (p.foldl dotted [], Serde.toValue t e)).toValue.valueAt
          (parts (p.foldl dotted [])) =
            some (reload json round t (p.foldl dotted []) (Serde.toValue t d) (Serde.toValue t e)) :=
        valueAt_loadEntry (hparts.symm ▸ ht) (hparts.symm ▸ omitsAt_of_fixed hfixed) (hparts.symm ▸ hs'.trans hp)
          hkey hnull
      rwa [hparts] at hplace
    rw [hat, Option.some.injEq]
    exact reload_iff hjson hprint (wf_typeAt wf_ty ht) (plain_typeAt plain_ty hfixed ht) hd he hbare
      ((depth_typeAt ht).trans depth_ty) hleaf _

end Place

variable (json round refusal)

/-- **Stored and loaded.** Whatever the order of the rows, a setting of the defaults is loaded as it was stored, unless
it is the owner, or its default is absent and it is an object or a text that is read as something else. -/
theorem load_store (hjson : json.ReadsBack) (hprint : ∀ x, (∀ text, x ≠ .str text) → json.print x = render json x)
    (s : Settings) {rows : List (Str × Json)} (hperm : rows.Perm s.toDbMap) {p : List Str} {v x : Json}
    (hp : default.toValue.valueAt p = some v) (hv : v.Leaf) (hx : s.toValue.valueAt p = some x) :
    (fromDbMap json round refusal rows).toValue.valueAt p = some x ↔ (p = [OWNER_ID] → x = .null) ∧
    Reloads json v x := by
  obtain ⟨hfixed, t, d, ht, hd, hbare, rfl⟩ := fixed_of_bare wf_ty default.admitted bare_default hp
  obtain ⟨t', e, ht', he, hplace⟩ := valueAt_of_fixed wf_ty s.admitted hfixed
  obtain rfl := Option.some.inj (ht.symm.trans ht')
  obtain rfl := Option.some.inj (hplace.symm.trans hx)
  by_cases hrow : (Serde.toValue t e).Leaf ∧ p ≠ [OWNER_ID]
  · rw [load_of_row hjson hprint hperm hfixed ht hd he hbare hp hx hrow.1 hrow.2]
    exact ⟨fun h => ⟨fun howner => absurd howner hrow.2, h⟩, And.right⟩
  · obtain ⟨habsent, hloaded⟩ := load_without_row hperm hfixed ht hd he hbare hp hv hx hrow
    rw [hloaded, habsent, Option.some.injEq]
    by_cases howner : p = [OWNER_ID]
    · constructor
      · intro hnull
        rw [← hnull]
        exact ⟨fun _ => rfl, fun _ => trivial⟩
      · exact fun h => (h.1 howner).symm
    · cases hobj : Serde.toValue t e with
      | obj kvs => exact iff_of_false nofun fun h => h.2 rfl
      | _ => exact absurd ⟨by rw [hobj]; exact fun _ => nofun, howner⟩ hrow

end Load

theorem print_compact (x : Json) (hx : ∀ text, x ≠ .str text) : JsonText.compact.print x = render .compact x := by
  cases x with
  | str text => exact absurd rfl (hx text)
  | _ => rfl

theorem load_store_withModel : withModel.toDbMap.Perm withModel.toDbMap ∧
    default.toValue.valueAt ["selected_model".toList] = some .null ∧ Leaf .null ∧
    withModel.toValue.valueAt ["selected_model".toList] = some (text "gpt") ∧
    ((fromDbMap .compact some (fun _ => []) withModel.toDbMap).toValue.valueAt ["selected_model".toList] =
      some (text "gpt") ↔
      (["selected_model".toList] = [OWNER_ID] → text "gpt" = .null) ∧ Reloads .compact .null (text "gpt")) :=
  ⟨.refl _, model_default, leaf_null, model_withModel,
    load_store .compact some (fun _ => []) JsonText.readsBack_compact print_compact withModel (.refl _)
      model_default leaf_null
      model_withModel⟩

end Ironclaw.Settings
