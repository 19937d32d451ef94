import Ironclaw.Lib.SerdePath

/-!
# Merging trees over defaults

A tree is put over another one, where it differs from a tree of defaults: `mergeNonDefault`.

- `valueAt_merge`: what the merged tree has at a leaf of the defaults;
- `merge_default`, `merge_again`, `merge_assoc`: the laws of merging, for trees that have an object wherever the
  defaults have one (`Covers`);
- `covers_of_bare` and `exists_merge`: what is written for the values of one type covers the bare values, and the merged
  tree is again what is written for a value.
-/

namespace Ironclaw

open OrderedMap

namespace Json

mutual

/-- Put over `target` what differs from the defaults. -/
def mergeNonDefault : (target other defaults : Json) → Json
  | .obj t, .obj o, .obj d => .obj (mergeEntries t o d)
  | target, other, defaults => if other = defaults then target else other

/-- The loop over the entries of the other object. -/
def mergeEntries : (t o d : List (Str × Json)) → List (Str × Json)
  | t, [], _ => t
  | t, (key, otherVal) :: o, d =>
    let defaultVal := (d.lookup key).getD .null
    match t.lookup key with
    | some targetVal => mergeEntries (insertKey key (mergeNonDefault targetVal otherVal defaultVal) t) o d
    | none => if otherVal = defaultVal then mergeEntries t o d else mergeEntries (insertKey key otherVal t) o d

end

/-- What the merged object has under a key, from what the three objects have there. -/
def mergedAt : (t o : Option Json) → (d : Json) → Option Json
  | t, none, _ => t
  | some t, some o, d => some (mergeNonDefault t o d)
  | none, some o, d => if o = d then none else some o

theorem mergeNonDefault_obj (t o d : List (Str × Json)) :
    mergeNonDefault (.obj t) (.obj o) (.obj d) = .obj (mergeEntries t o d) := by
  rw [mergeNonDefault]

/-- No object. -/
def Leaf (d : Json) : Prop := ∀ kvs, d ≠ .obj kvs

theorem leaf_null : Leaf .null := fun _ => nofun

theorem mergeNonDefault_leaf {d : Json} (hd : d.Leaf) (t o : Json) :
    mergeNonDefault t o d = if o = d then t else o := by
  cases d with
  | obj kvs => exact absurd rfl (hd kvs)
  | _ => simp only [mergeNonDefault]

theorem lookup_of_head {k : Str} {v : Json} {m : List (Str × Json)} (h : InOrder ((k, v) :: m)) :
    m.lookup k = none := by
  by_contra hne
  obtain ⟨w, hw⟩ := Option.ne_none_iff_exists'.mp hne
  exact absurd ((List.pairwise_cons.mp h).1 _ (mem_of_lookup hw)) (lt_irrefl k)

theorem lookup_mergeEntries (k : Str) : ∀ {o : List (Str × Json)}, InOrder o → ∀ t d : List (Str × Json),
    (mergeEntries t o d).lookup k = mergedAt (t.lookup k) (o.lookup k) ((d.lookup k).getD .null)
  | [], _, t, d => by
    rw [mergeEntries]
    rfl
  | (l, v) :: o, ho, t, d => by
    have hhead := lookup_of_head ho
    have ih := lookup_mergeEntries k (List.pairwise_cons.mp ho).2
    rw [mergeEntries, lookup_cons]
    by_cases hk : k = l
    · subst hk
      rw [if_pos rfl]
      cases ht : t.lookup k with
      | some tv => simp only [ih, lookup_insertKey, hhead, mergedAt, if_true]
      | none =>
        dsimp only
        split
        next hv => rw [ih, ht, hhead, mergedAt, mergedAt, if_pos hv]
        next hv => rw [ih, lookup_insertKey, if_pos rfl, hhead, mergedAt, mergedAt, if_neg hv]
    · rw [if_neg hk]
      cases ht : t.lookup l with
      | some tv => simp only [ih, lookup_insertKey, if_neg hk]
      | none =>
        dsimp only
        split
        · rw [ih]
        · rw [ih, lookup_insertKey, if_neg hk]

theorem inOrder_mergeEntries : ∀ {o t : List (Str × Json)} (d : List (Str × Json)), InOrder t →
    InOrder (mergeEntries t o d)
  | [], t, d, ht => by rwa [mergeEntries]
  | (l, v) :: o, t, d, ht => by
    rw [mergeEntries]
    split
    · exact inOrder_mergeEntries d ht.insertKey
    · split
      · exact inOrder_mergeEntries d ht
      · exact inOrder_mergeEntries d ht.insertKey

/-! ## Trees over the defaults -/

/-- Where the defaults have an object, the tree has one. -/
def Covers (d x : Json) : Prop := ∀ p kvs, d.valueAt p = some (.obj kvs) → ∃ kvs', x.valueAt p = some (.obj kvs')

/-- An induction over the defaults: for a missing key the default is null. -/
theorem Exact.over_defaults {P : Json → Prop} (leaf : ∀ d, d.Leaf → P d)
    (obj : ∀ ds, InOrder ds → (∀ k, P ((ds.lookup k).getD .null)) → P (.obj ds)) {d : Json} (hd : d.Exact) : P d := by
  induction hd with
  | @obj ds hkeys _ ih =>
    refine obj ds hkeys fun k => ?_
    cases hk : ds.lookup k with
    | none => exact leaf _ leaf_null
    | some v => exact ih _ (mem_of_lookup hk)
  | _ => exact leaf _ nofun

section Covers

variable {ds xs : List (Str × Json)} {k : Str} {x d : Json}

theorem Covers.exists_obj (h : Covers (.obj ds) x) : ∃ xs, x = .obj xs := by
  obtain ⟨xs, hxs⟩ := h [] ds rfl
  exact ⟨xs, Option.some.inj hxs⟩

theorem Covers.child (h : Covers (.obj ds) (.obj xs)) (hk : xs.lookup k = some x) :
    Covers ((ds.lookup k).getD .null) x := by
  intro p kvs hp
  cases hd : ds.lookup k with
  | none =>
    rw [hd] at hp
    cases p <;> cases hp
  | some d =>
    rw [hd] at hp
    obtain ⟨kvs', hkvs'⟩ := h (k :: p) kvs (by rw [valueAt, get, hd]; exact hp)
    rw [valueAt, get, hk] at hkvs'
    exact ⟨kvs', hkvs'⟩

/-- The default under a missing key is a leaf. -/
theorem Covers.leaf_of_missing (h : Covers (.obj ds) (.obj xs)) (hk : xs.lookup k = none) :
    Leaf ((ds.lookup k).getD .null) := by
  intro kvs hkvs
  cases hd : ds.lookup k with
  | none =>
    rw [hd] at hkvs
    cases hkvs
  | some d =>
    rw [hd, Option.getD_some] at hkvs
    obtain ⟨kvs', hkvs'⟩ := h [k] kvs (by rw [valueAt, get, hd, hkvs]; rfl)
    rw [valueAt, get, hk] at hkvs'
    cases hkvs'

end Covers

theorem Exact.of_lookup {kvs : List (Str × Json)} (h : (Json.obj kvs).Exact) {k : Str} {x : Json}
    (hx : kvs.lookup k = some x) : x.Exact := by
  cases h with
  | obj _ hkvs => exact hkvs _ (mem_of_lookup hx)

theorem Exact.inOrder {kvs : List (Str × Json)} (h : (Json.obj kvs).Exact) : InOrder kvs := by
  cases h with
  | obj hkeys _ => exact hkeys

/-- Two merged objects are the same when they have the same under each key. -/
theorem merge_congr {t o t' o' d : List (Str × Json)} (ht : InOrder t) (ho : InOrder o) (ht' : InOrder t')
    (ho' : InOrder o') (h : ∀ k, mergedAt (t.lookup k) (o.lookup k) ((d.lookup k).getD .null) =
      mergedAt (t'.lookup k) (o'.lookup k) ((d.lookup k).getD .null)) : mergeEntries t o d = mergeEntries t' o' d := by
  refine ext (inOrder_mergeEntries d ht) (inOrder_mergeEntries d ht') fun k => ?_
  rw [lookup_mergeEntries k ho, lookup_mergeEntries k ho', h]

/-! ## The laws -/

/-- Merging the defaults changes nothing. -/
theorem merge_default {d : Json} (hd : d.Exact) : ∀ {t : Json}, t.Exact → Covers d t → mergeNonDefault t d d = t := by
  refine hd.over_defaults (P := fun d => ∀ {t : Json}, t.Exact → Covers d t → mergeNonDefault t d d = t) ?_ ?_
  · intro d hd t _ _
    rw [mergeNonDefault_leaf hd, if_pos rfl]
  · intro ds hds ih t ht hcovers
    obtain ⟨ts, rfl⟩ := hcovers.exists_obj
    rw [mergeNonDefault_obj]
    refine congrArg Json.obj (ext (inOrder_mergeEntries ds ht.inOrder) ht.inOrder fun k => ?_)
    rw [lookup_mergeEntries k hds]
    cases hdk : ds.lookup k with
    | none => rfl
    | some v =>
      cases htk : ts.lookup k with
      | none => exact if_pos rfl
      | some tv =>
        have hmerge := ih k (ht.of_lookup htk) (hcovers.child htk)
        rw [hdk, Option.getD_some] at hmerge
        rw [mergedAt, Option.getD_some, hmerge]

/-- Merging again changes nothing. -/
theorem merge_again {d : Json} (hd : d.Exact) : ∀ {t o : Json}, t.Exact → o.Exact → Covers d t → Covers d o →
    mergeNonDefault (mergeNonDefault t o d) o d = mergeNonDefault t o d := by
  refine hd.over_defaults (P := fun d => ∀ {t o : Json}, t.Exact → o.Exact → Covers d t → Covers d o →
    mergeNonDefault (mergeNonDefault t o d) o d = mergeNonDefault t o d) ?_ ?_
  · intro d hd t o _ _ _ _
    simp only [mergeNonDefault_leaf hd]
    split <;> rfl
  · intro ds _ ih t o ht ho hct hco
    obtain ⟨ts, rfl⟩ := hct.exists_obj
    obtain ⟨os, rfl⟩ := hco.exists_obj
    simp only [mergeNonDefault_obj]
    refine congrArg Json.obj (merge_congr (inOrder_mergeEntries ds ht.inOrder) ho.inOrder ht.inOrder ho.inOrder
      fun k => ?_)
    rw [lookup_mergeEntries k ho.inOrder]
    cases hok : os.lookup k with
    | none => rfl
    | some v =>
      cases htk : ts.lookup k with
      | some tv =>
        simp only [mergedAt]
        rw [ih k (ht.of_lookup htk) (ho.of_lookup hok) (hct.child htk) (hco.child hok)]
      | none =>
        rw [mergedAt]
        by_cases hv : v = (ds.lookup k).getD .null
        · rw [if_pos hv, mergedAt, if_pos hv]
        · rw [if_neg hv, mergedAt, mergeNonDefault_leaf (hct.leaf_of_missing htk), if_neg hv]

/-- Merging one after the other is merging them together. -/
theorem merge_assoc {d : Json} (hd : d.Exact) : ∀ {a b c : Json}, a.Exact → b.Exact → c.Exact →
    Covers d a → Covers d b → Covers d c →
    mergeNonDefault (mergeNonDefault a b d) c d = mergeNonDefault a (mergeNonDefault b c d) d := by
  refine hd.over_defaults (P := fun d => d.Exact → ∀ {a b c : Json}, a.Exact → b.Exact → c.Exact →
    Covers d a → Covers d b → Covers d c →
    mergeNonDefault (mergeNonDefault a b d) c d = mergeNonDefault a (mergeNonDefault b c d) d) ?_ ?_ hd
  · intro d hd _ a b c _ _ _ _ _ _
    simp only [mergeNonDefault_leaf hd]
    by_cases hb : b = d <;> by_cases hc : c = d <;> simp [hb, hc]
  · intro ds _ ih hds a b c ha hb hc hca hcb hcc
    obtain ⟨as, rfl⟩ := hca.exists_obj
    obtain ⟨bs, rfl⟩ := hcb.exists_obj
    obtain ⟨cs, rfl⟩ := hcc.exists_obj
    simp only [mergeNonDefault_obj]
    refine congrArg Json.obj (merge_congr (inOrder_mergeEntries ds ha.inOrder) hc.inOrder ha.inOrder
      (inOrder_mergeEntries ds hb.inOrder) fun k => ?_)
    rw [lookup_mergeEntries k hb.inOrder, lookup_mergeEntries k hc.inOrder]
    have hdk : ((ds.lookup k).getD .null).Exact := by
      cases h : ds.lookup k with
      | none => exact .null
      | some v => exact hds.of_lookup h
    cases hbk : bs.lookup k with
    | none =>
      cases hck : cs.lookup k with
      | none => rfl
      | some c =>
        by_cases hc' : c = (ds.lookup k).getD .null
        · have hnone : mergedAt none (some c) ((ds.lookup k).getD .null) = none := if_pos hc'
          rw [hnone]
          cases hak : as.lookup k with
          | none => exact hnone
          | some a =>
            simp only [mergedAt]
            rw [hc', merge_default hdk (ha.of_lookup hak) (hca.child hak)]
        · have hsome : mergedAt none (some c) ((ds.lookup k).getD .null) = some c := if_neg hc'
          rw [hsome]
          rfl
    | some b =>
      cases hck : cs.lookup k with
      | none => cases as.lookup k <;> rfl
      | some c =>
        cases hak : as.lookup k with
        | some a =>
          simp only [mergedAt]
          rw [ih k hdk (ha.of_lookup hak) (hb.of_lookup hbk) (hc.of_lookup hck) (hca.child hak) (hcb.child hbk)
            (hcc.child hck)]
        | none =>
          -- the default is a leaf, which the first tree does not have
          have hleaf := hca.leaf_of_missing hak
          simp only [mergedAt, mergeNonDefault_leaf hleaf]
          by_cases hb' : b = (ds.lookup k).getD .null <;> by_cases hc' : c = (ds.lookup k).getD .null <;>
            simp [hb', hc', mergeNonDefault_leaf hleaf]

/-- The default at a place where the defaults have no object. -/
def leafAt : Json → List Str → Option Json
  | .obj _, [] => none
  | d, [] => some d
  | .obj kvs, k :: p => leafAt ((kvs.lookup k).getD .null) p
  | _, _ :: _ => none

theorem leafAt_leaf {d : Json} (hd : d.Leaf) {p : List Str} {v : Json} (h : d.leafAt p = some v) : p = [] ∧ v = d := by
  cases d with
  | obj kvs => exact absurd rfl (hd kvs)
  | _ =>
    cases p with
    | nil => exact ⟨rfl, (Option.some.inj h).symm⟩
    | cons k p => cases h

/-- **The merged tree**: what the other tree has at a leaf of the defaults is taken where it differs from the
default. -/
theorem valueAt_merge {d : Json} (hd : d.Exact) : ∀ {t o : Json} {p : List Str} {v : Json}, o.Exact → Covers d t →
    Covers d o → d.leafAt p = some v →
    (mergeNonDefault t o d).valueAt p =
      if o.valueAt p = none ∨ o.valueAt p = some v then t.valueAt p else o.valueAt p := by
  refine hd.over_defaults (P := fun d => ∀ {t o : Json} {p : List Str} {v : Json}, o.Exact → Covers d t →
    Covers d o → d.leafAt p = some v →
    (mergeNonDefault t o d).valueAt p =
      if o.valueAt p = none ∨ o.valueAt p = some v then t.valueAt p else o.valueAt p) ?_ ?_
  · intro d hd t o p v _ _ _ hp
    obtain ⟨rfl, rfl⟩ := leafAt_leaf hd hp
    rw [mergeNonDefault_leaf hd]
    by_cases ho : o = v <;> simp [valueAt, ho]
  · intro ds _ ih t o p v ho hct hco hp
    obtain ⟨ts, rfl⟩ := hct.exists_obj
    obtain ⟨os, rfl⟩ := hco.exists_obj
    cases p with
    | nil => cases hp
    | cons k p =>
      have hp : leafAt ((ds.lookup k).getD .null) p = some v := hp
      simp only [mergeNonDefault_obj, valueAt, get, lookup_mergeEntries k ho.inOrder]
      rcases Option.eq_none_or_eq_some (os.lookup k) with hok | ⟨w, hok⟩
      · simp [hok, mergedAt]
      rcases Option.eq_none_or_eq_some (ts.lookup k) with htk | ⟨tv, htk⟩
      · obtain ⟨rfl, rfl⟩ := leafAt_leaf (hct.leaf_of_missing htk) hp
        by_cases hw : w = (ds.lookup k).getD .null <;> simp [hok, htk, mergedAt, hw, valueAt]
      · simp only [hok, htk, mergedAt, Option.bind_some]
        exact ih k (ho.of_lookup hok) (hct.child htk) (hco.child hok) hp

end Json

namespace Serde

open Json

/-! ## Trees of one type -/

/-- What is written for the values of a type covers what is written for a bare one. -/
theorem covers_of_bare {t : Ty} {d x : Json} (hwf : wf t = true) (hd : admits t d = true) (hbare : bare t d = true)
    (hx : admits t x = true) : Covers (toValue t d) (toValue t x) := by
  intro p kvs hp
  obtain ⟨hfixed, c, e, hc, he, hcbare, hkvs⟩ := fixed_of_bare hwf hd hbare hp
  obtain ⟨c', e', hc', he', hvalue⟩ := valueAt_of_fixed hwf hx hfixed
  obtain rfl := Option.some.inj (hc.symm.trans hc')
  rcases toValue_eq_obj he hkvs.symm with ⟨fields, ds, rfl, -, -⟩ | ⟨u, ds, rfl, -, -⟩ | ⟨u, rfl, hne, -, -⟩
  · cases e' with
    | obj ds' => exact ⟨_, hvalue⟩
    | _ => cases he'
  · cases e' with
    | obj ds' => exact ⟨_, hvalue⟩
    | _ => cases he'
  · exact absurd (of_decide_eq_true hcbare) hne

/-- Over a leaf one of the two trees is taken. -/
theorem exists_merge_leaf {t : Ty} {a b d : Json} (ha : admits t a = true) (hb : admits t b = true) (hd : d.Leaf) :
    ∃ e, admits t e = true ∧ toValue t e = mergeNonDefault (toValue t a) (toValue t b) d := by
  rw [mergeNonDefault_leaf hd]
  split
  · exact ⟨a, ha, rfl⟩
  · exact ⟨b, hb, rfl⟩

/-- A map whose values are written for values of a type. -/
theorem exists_mapValues {t : Ty} : ∀ {m : List (Str × Json)}, InOrder m →
    (∀ k v, m.lookup k = some v → ∃ e, admits t e = true ∧ v = toValue t e) →
    ∃ kvs, admits (.map t) (.obj kvs) = true ∧ mapValues (toValue t) kvs = m
  | [], _, _ => ⟨[], rfl, rfl⟩
  | (k, v) :: m, hm, h => by
    obtain ⟨hk, hrest⟩ := List.pairwise_cons.mp hm
    obtain ⟨e, he, rfl⟩ := h k v (by rw [lookup_cons, if_pos rfl])
    obtain ⟨kvs, hkvs, rfl⟩ := exists_mapValues hrest fun l w hl => h l w (by
      have hlt : k < l := hk _ (mem_of_lookup hl)
      rw [lookup_cons, if_neg hlt.ne', hl])
    obtain ⟨horder, hall⟩ := Bool.and_eq_true_iff.mp hkvs
    have hkvs : InOrder kvs := of_decide_eq_true horder
    refine ⟨(k, e) :: kvs, Bool.and_eq_true_iff.mpr ⟨decide_eq_true (p := InOrder _) ?_, ?_⟩, rfl⟩
    · refine List.pairwise_cons.mpr ⟨fun kv hkv => ?_, hkvs⟩
      exact hk (kv.1, toValue t kv.2) (List.mem_map_of_mem hkv)
    · rw [List.all_cons, he, hall]
      rfl

theorem exists_merge_map {t : Ty} {as bs : List (Str × Json)} (ha : admits (.map t) (.obj as) = true)
    (hb : admits (.map t) (.obj bs) = true) :
    ∃ kvs, admits (.map t) (.obj kvs) = true ∧
      mapValues (toValue t) kvs = mergeEntries (mapValues (toValue t) as) (mapValues (toValue t) bs) [] := by
  obtain ⟨horder, ha⟩ := Bool.and_eq_true_iff.mp ha
  obtain ⟨horder', hb⟩ := Bool.and_eq_true_iff.mp hb
  refine exists_mapValues (inOrder_mergeEntries [] (inOrder_mapValues.mpr (of_decide_eq_true horder))) fun k v hv => ?_
  rw [lookup_mergeEntries k (inOrder_mapValues.mpr (of_decide_eq_true horder')), lookup_mapValues,
    lookup_mapValues] at hv
  cases hbk : bs.lookup k with
  | none =>
    rw [hbk] at hv
    obtain ⟨a, hak, rfl⟩ := Option.map_eq_some_iff.mp hv
    exact ⟨a, List.all_eq_true.mp ha _ (mem_of_lookup hak), rfl⟩
  | some b =>
    have hb := List.all_eq_true.mp hb _ (mem_of_lookup hbk)
    cases hak : as.lookup k with
    | none =>
      rw [hbk, hak] at hv
      obtain ⟨-, hv⟩ := Option.ite_none_left_eq_some.mp hv
      exact ⟨b, hb, (Option.some.inj hv).symm⟩
    | some a =>
      rw [hbk, hak] at hv
      obtain rfl := Option.some.inj hv
      obtain ⟨e, he, hmerge⟩ := exists_merge_leaf (List.all_eq_true.mp ha _ (mem_of_lookup hak)) hb leaf_null
      exact ⟨e, he, hmerge.symm⟩

/-- A bare value that is written as an object is one of a struct or of a map. -/
theorem leaf_of_bare {t : Ty} {d : Json} (h : admits t d = true) (hbare : bare t d = true)
    (hstruct : ∀ fields, t ≠ .struct fields) (hmap : ∀ u, t ≠ .map u) : (toValue t d).Leaf := by
  intro kvs hkvs
  rcases toValue_eq_obj h hkvs with ⟨fields, ds, ht, -, -⟩ | ⟨u, ds, ht, -, -⟩ | ⟨u, rfl, hne, -, -⟩
  · exact hstruct fields ht
  · exact hmap u ht
  · exact hne (of_decide_eq_true hbare)

/-- A field that may be left out. -/
theorem exists_merge_skipped {f : Field} {t : Ty} {a b : Json} (ht : wf t = true) (ha : admits t a = true)
    (hb : admits t b = true) (hskip : f.skipNone = true) :
    ∃ e, admits t e = true ∧ shown f t e = mergedAt (shown f t a) (shown f t b) .null := by
  by_cases hnull : b = .null
  · refine ⟨a, ha, ?_⟩
    rw [shown, shown, if_pos (c := _ ∧ b = _) ⟨hskip, hnull⟩]
    rfl
  · have hvalue : toValue t b ≠ .null := fun h => hnull (eq_null_of_toValue ht hb h)
    refine ⟨b, hb, ?_⟩
    have hshown : shown f t b = some (toValue t b) := if_neg fun h => hnull h.2
    rw [hshown]
    cases shown f t a with
    | none => exact (if_neg hvalue).symm
    | some x => rw [mergedAt, mergeNonDefault_leaf leaf_null, if_neg hvalue]

mutual

/-- **What is merged**: the merged tree is what is written for a value of the type. -/
theorem exists_merge : ∀ {t : Ty} {a b d : Json}, wf t = true → admits t a = true → admits t b = true →
    admits t d = true → bare t d = true →
    ∃ e, admits t e = true ∧ toValue t e = mergeNonDefault (toValue t a) (toValue t b) (toValue t d)
  | .struct fields, a, b, d, hwf, ha, hb, hd, hbare => by
    match a, b, d, ha, hb, hd with
    | .obj as, .obj bs, .obj ds, ha, hb, hd =>
      obtain ⟨es, hes, hshown⟩ := exists_mergeFields (Bool.and_eq_true_iff.mp hwf).2 ha hb hd hbare
      refine ⟨.obj es, hes, ?_⟩
      simp only [toValue, mergeNonDefault_obj]
      refine congrArg Json.obj (ext (inOrder_ofEntries _) (inOrder_mergeEntries _ (inOrder_ofEntries _)) fun k => ?_)
      rw [lookup_mergeEntries k (inOrder_ofEntries _)]
      by_cases hk : k ∈ names fields
      · obtain ⟨ft, hft, rfl⟩ := List.mem_map.mp hk
        obtain ⟨e, he, -⟩ := exists_mem_zip hes hft
        obtain ⟨a, b, d, ha, hb, hd, hmerged⟩ := hshown ft e he
        rw [lookup_struct hwf he, lookup_struct hwf ha, lookup_struct hwf hb, lookup_struct hwf hd, hmerged]
      · rw [lookup_struct_of_notMem hk, lookup_struct_of_notMem hk, lookup_struct_of_notMem hk]
        rfl
  | .map t, a, b, d, _, ha, hb, hd, hbare => by
    match a, b, d, ha, hb, hd with
    | .obj as, .obj bs, .obj ds, ha, hb, hd =>
      obtain rfl : ds = [] := List.isEmpty_iff.mp hbare
      obtain ⟨kvs, hkvs, hmerge⟩ := exists_merge_map ha hb
      exact ⟨.obj kvs, hkvs, by simp only [toValue, mergeNonDefault_obj, hmerge]; rfl⟩
  | .bool, _, _, _, _, ha, hb, hd, hbare => exists_merge_leaf ha hb (leaf_of_bare hd hbare nofun nofun)
  | .uint _, _, _, _, _, ha, hb, hd, hbare => exists_merge_leaf ha hb (leaf_of_bare hd hbare nofun nofun)
  | .i64, _, _, _, _, ha, hb, hd, hbare => exists_merge_leaf ha hb (leaf_of_bare hd hbare nofun nofun)
  | .string, _, _, _, _, ha, hb, hd, hbare => exists_merge_leaf ha hb (leaf_of_bare hd hbare nofun nofun)
  | .variants _, _, _, _, _, ha, hb, hd, hbare => exists_merge_leaf ha hb (leaf_of_bare hd hbare nofun nofun)
  | .option _, _, _, _, _, ha, hb, hd, hbare => exists_merge_leaf ha hb (leaf_of_bare hd hbare nofun nofun)
  | .vec _, _, _, _, _, ha, hb, hd, hbare => exists_merge_leaf ha hb (leaf_of_bare hd hbare nofun nofun)

theorem exists_mergeFields : ∀ {fields : List (Field × Ty)} {all : List Str} {as bs ds : List (Str × Json)},
    wfFields all fields = true → admitsFields fields as = true → admitsFields fields bs = true →
    admitsFields fields ds = true → bareFields fields ds = true →
    ∃ es, admitsFields fields es = true ∧ ∀ ft e, (ft, e) ∈ fields.zip (es.map Prod.snd) →
      ∃ a b d, (ft, a) ∈ fields.zip (as.map Prod.snd) ∧ (ft, b) ∈ fields.zip (bs.map Prod.snd) ∧
        (ft, d) ∈ fields.zip (ds.map Prod.snd) ∧
        shown ft.1 ft.2 e = mergedAt (shown ft.1 ft.2 a) (shown ft.1 ft.2 b) ((shown ft.1 ft.2 d).getD .null)
  | [], _, [], [], [], _, _, _, _, _ => ⟨[], rfl, fun _ _ h => by cases h⟩
  | (f, t) :: fields, all, (k, a) :: as, (k', b) :: bs, (k'', d) :: ds, hwf, ha, hb, hd, hbare => by
    have hfield : FieldWf all f t := fieldWf_of_mem hwf List.mem_cons_self
    simp only [wfFields, Bool.and_eq_true] at hwf
    simp only [admitsFields, Bool.and_eq_true] at ha hb hd
    obtain ⟨⟨-, ha⟩, has⟩ := ha
    obtain ⟨⟨-, hb⟩, hbs⟩ := hb
    obtain ⟨⟨-, hd⟩, hds⟩ := hd
    obtain ⟨hbare, hbares⟩ := Bool.and_eq_true_iff.mp hbare
    obtain ⟨es, hes, hshown⟩ := exists_mergeFields hwf.2 has hbs hds hbares
    obtain ⟨e, he, hmerged⟩ : ∃ e, admits t e = true ∧
        shown f t e = mergedAt (shown f t a) (shown f t b) ((shown f t d).getD .null) := by
      cases hskip : f.skipNone with
      | true =>
        have hnull : d = .null := by
          rw [hfield.option hskip] at hbare
          exact of_decide_eq_true hbare
        have hdefault : shown f t d = none := if_pos ⟨hskip, hnull⟩
        rw [hdefault]
        exact exists_merge_skipped hfield.wf ha hb hskip
      | false =>
        obtain ⟨e, he, hmerge⟩ := exists_merge (t := t) hfield.wf ha hb hd hbare
        refine ⟨e, he, ?_⟩
        simp only [shown, hskip, Bool.false_eq_true, false_and, if_false, mergedAt, Option.getD_some, hmerge]
    refine ⟨(f.name, e) :: es, by simp [admitsFields, he, hes], fun ft x hx => ?_⟩
    rcases List.mem_cons.mp hx with hx | hx
    · obtain ⟨rfl, rfl⟩ := Prod.mk.inj hx
      exact ⟨a, b, d, List.mem_cons_self, List.mem_cons_self, List.mem_cons_self, hmerged⟩
    · obtain ⟨a', b', d', ha', hb', hd', h⟩ := hshown ft x hx
      exact ⟨a', b', d', List.mem_cons_of_mem _ ha', List.mem_cons_of_mem _ hb', List.mem_cons_of_mem _ hd', h⟩

end

end Serde

end Ironclaw
