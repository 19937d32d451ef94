import Ironclaw.Lib.JsonMerge

/-!
# The leaves of a tree

The values of a tree that are no objects, with the paths that lead to them. A path may be written as a text, with a dot
between two keys, and is found again as long as no key has a dot itself; the keys of the fields of a struct have none.

- `mem_leaves`: the leaves are the values that are no objects;
- `parts_dotted`: the keys that are read from a path that was written;
- `leaf_cases`: the path of a leaf beside a path through the fields of structs.
-/

namespace Ironclaw

open OrderedMap

namespace Json

mutual

def leaves : Json → List (List Str × Json)
  | .obj kvs => leavesOf kvs
  | j => [([], j)]

def leavesOf : List (Str × Json) → List (List Str × Json)
  | [] => []
  | (k, x) :: kvs => (leaves x).map (fun px => (k :: px.1, px.2)) ++ leavesOf kvs

end

theorem mem_leavesOf {q : List Str} {y : Json} : ∀ {kvs : List (Str × Json)},
    (q, y) ∈ leavesOf kvs ↔ ∃ k x p, (k, x) ∈ kvs ∧ (p, y) ∈ leaves x ∧ q = k :: p
  | [] => by simp [leavesOf]
  | (k, x) :: kvs => by
    rw [leavesOf, List.mem_append, mem_leavesOf, List.mem_map]
    constructor
    · rintro (⟨⟨p, y'⟩, hp, heq⟩ | ⟨k', x', p, hmem, hp, rfl⟩)
      · obtain ⟨rfl, rfl⟩ := Prod.mk.inj heq
        exact ⟨k, x, p, List.mem_cons_self, hp, rfl⟩
      · exact ⟨k', x', p, List.mem_cons_of_mem _ hmem, hp, rfl⟩
    · rintro ⟨k', x', p, hmem, hp, rfl⟩
      rcases List.mem_cons.mp hmem with heq | hmem
      · obtain ⟨rfl, rfl⟩ := Prod.mk.inj heq
        exact .inl ⟨(p, y), hp, rfl⟩
      · exact .inr ⟨k', x', p, hmem, hp, rfl⟩

/-- **The leaves** are the values that are no objects. -/
theorem mem_leaves {q : List Str} {j y : Json} (hj : j.Exact) : (q, y) ∈ leaves j ↔ j.valueAt q = some y ∧ y.Leaf := by
  induction q generalizing j with
  | nil =>
    cases j with
    | obj kvs =>
      refine iff_of_false (fun h => ?_) fun h => h.2 kvs (Option.some.inj h.1).symm
      obtain ⟨k, x, p, -, -, hnil⟩ := mem_leavesOf.mp h
      cases hnil
    | _ =>
      simp only [leaves, List.mem_singleton, Prod.mk.injEq, valueAt, Option.some.injEq, true_and]
      constructor
      · rintro rfl
        refine ⟨rfl, fun kvs hkvs => ?_⟩
        cases hkvs
      · rintro ⟨rfl, -⟩
        rfl
  | cons k q ih =>
    cases j with
    | obj kvs =>
      rw [leaves, mem_leavesOf, valueAt, get]
      constructor
      · rintro ⟨k', x, p, hmem, hp, heq⟩
        obtain ⟨rfl, rfl⟩ := List.cons.inj heq
        have hx : kvs.lookup k = some x := lookup_of_mem hj.inOrder hmem
        rw [hx, Option.bind_some]
        exact (ih (hj.of_lookup hx)).mp hp
      · rintro ⟨hy, hleaf⟩
        obtain ⟨x, hx, hy⟩ := Option.bind_eq_some_iff.mp hy
        exact ⟨k, x, q, mem_of_lookup hx, (ih (hj.of_lookup hx)).mpr ⟨hy, hleaf⟩, rfl⟩
    | _ => simp [leaves, valueAt, get]

theorem valueAt_append {j : Json} (p q : List Str) : j.valueAt (p ++ q) = (j.valueAt p).bind (·.valueAt q) := by
  induction p generalizing j with
  | nil => rfl
  | cons k p ih =>
    rw [List.cons_append, valueAt, valueAt, Option.bind_assoc]
    exact Option.bind_congr fun x _ => ih

theorem valueAt_leaf {j x : Json} (h : j.Leaf) {p : List Str} (hx : j.valueAt p = some x) : p = [] ∧ x = j := by
  cases p with
  | nil => exact ⟨rfl, (Option.some.inj hx).symm⟩
  | cons k p =>
    obtain ⟨y, hy, -⟩ := Option.bind_eq_some_iff.mp hx
    obtain ⟨kvs, rfl, -⟩ := mem_of_get hy
    exact absurd rfl (h kvs)

end Json

/-! ## Dotted paths -/

/-- One key more. -/
def dotted (pre key : Str) : Str := if pre = [] then key else pre ++ '.' :: key

theorem dotted_ne_nil {pre key : Str} (h : pre ≠ []) : dotted pre key ≠ [] := by
  simp [dotted, h]

theorem splitOn_dotted {pre key : Str} (h : pre ≠ []) :
    (dotted pre key).splitOn '.' = pre.splitOn '.' ++ key.splitOn '.' := by
  rw [dotted, if_neg h, List.splitOn_append_cons_self]

theorem splitOn_foldl {q : List Str} : ∀ {pre : Str}, pre ≠ [] →
    (q.foldl dotted pre).splitOn '.' = pre.splitOn '.' ++ q.flatMap (·.splitOn '.') := by
  induction q with
  | nil => simp
  | cons k q ih =>
    intro pre h
    rw [List.foldl_cons, ih (dotted_ne_nil h), splitOn_dotted h, List.flatMap_cons, List.append_assoc]

/-- A key without dots. -/
def Plain (key : Str) : Prop := key ≠ [] ∧ '.' ∉ key

instance (key : Str) : Decidable (Plain key) := inferInstanceAs (Decidable (_ ∧ _))

theorem Plain.splitOn {key : Str} (h : Plain key) : key.splitOn '.' = [key] := List.splitOn_eq_singleton h.2

/-- The keys that are read from a path that was written. -/
theorem parts_dotted {k : Str} (hk : Plain k) (q : List Str) :
    ((k :: q).foldl dotted []).splitOn '.' = (k :: q).flatMap (·.splitOn '.') := by
  rw [List.foldl_cons, show dotted [] k = k from if_pos rfl, splitOn_foldl hk.1, List.flatMap_cons]

theorem flatMap_splitOn {q : List Str} (h : ∀ k ∈ q, Plain k) : q.flatMap (·.splitOn '.') = q := by
  induction q with
  | nil => rfl
  | cons k q ih =>
    rw [List.flatMap_cons, (h k List.mem_cons_self).splitOn, ih fun l hl => h l (List.mem_cons_of_mem _ hl)]
    rfl

namespace Serde

open Json

mutual

/-- The fields of all structs have keys without dots, and no enumeration is optional. -/
def plain : Ty → Bool
  | .struct fields => plainFields fields
  | .option (.variants _) => false
  | .option t => plain t
  | .map t => plain t
  | _ => true

def plainFields : List (Field × Ty) → Bool
  | [] => true
  | (f, t) :: fields => decide (Plain f.name) && plain t && plainFields fields

end

theorem plain_of_mem {ft : Field × Ty} : ∀ {fields : List (Field × Ty)}, plainFields fields = true → ft ∈ fields →
    Plain ft.1.name ∧ plain ft.2 = true
  | (f, t) :: fields, h, hmem => by
    simp only [plainFields, Bool.and_eq_true, decide_eq_true_eq] at h
    rcases List.mem_cons.mp hmem with rfl | hmem
    · exact h.1
    · exact plain_of_mem h.2 hmem

theorem plain_of_fixed : ∀ {p : List Str} {t : Ty}, plain t = true → t.fixed p = true → ∀ k ∈ p, Plain k
  | [], _, _, _, _, hk => by cases hk
  | l :: p, .struct fields, h, hfixed, k, hk => by
    obtain ⟨ft, hft, hrest⟩ := (Option.any_eq_true ..).mp hfixed
    obtain ⟨hmem, rfl⟩ := fieldNamed_eq_some hft
    obtain ⟨hname, hplain⟩ := plain_of_mem h hmem
    rcases List.mem_cons.mp hk with rfl | hk
    · exact hname
    · exact plain_of_fixed hplain (Bool.and_eq_true_iff.mp hrest).2 k hk

theorem plain_typeAt : ∀ {p : List Str} {t c : Ty}, plain t = true → t.fixed p = true → t.typeAt p = some c →
    plain c = true
  | [], _, _, h, _, hc => Option.some.inj hc ▸ h
  | k :: p, .struct fields, c, h, hfixed, hc => by
    obtain ⟨ft, hft, hrest⟩ := (Option.any_eq_true ..).mp hfixed
    rw [Ty.typeAt, Ty.child, hft, Option.map_some, Option.bind_some] at hc
    exact plain_typeAt (plain_of_mem h (fieldNamed_eq_some hft).1).2 (Bool.and_eq_true_iff.mp hrest).2 hc

/-- An optional text is read from this text only. -/
theorem str_of_fromValue {t : Ty} {w e : Json} {text : Str} (hwf : wf (.option t) = true)
    (hplain : plain (.option t) = true)
    (h : fromValue (.option t) w = some e) (htext : toValue (.option t) e = .str text) : w = .str text := by
  obtain ⟨ht, hoption⟩ := Bool.and_eq_true_iff.mp hwf
  rw [fromValue] at h
  split at h
  · obtain rfl := Option.some.inj h
    cases htext
  next hw =>
    rw [toValue] at htext
    split at htext
    · cases htext
    next he =>
      have hadmits : admits t e = true := admits_fromValue ht h
      cases t with
      | string =>
        cases w with
        | str s =>
          obtain rfl := Option.some.inj h
          exact htext
        | _ => cases h
      | variants names => cases hplain
      | option u => cases hoption
      | bool | uint | i64 | vec | map | struct => cases e <;> simp [admits, toValue] at hadmits htext

/-- Neither path leads on from the other. -/
def Apart (p q : List Str) : Prop := ¬p <+: q ∧ ¬q <+: p

theorem Apart.of_ne {k l : Str} (h : k ≠ l) (p q : List Str) : Apart (k :: p) (l :: q) :=
  ⟨fun hpre => h (List.cons_prefix_cons.mp hpre).1, fun hpre => h (List.cons_prefix_cons.mp hpre).1.symm⟩

theorem Apart.cons {p q : List Str} (h : Apart p q) (k : Str) : Apart (k :: p) (k :: q) :=
  ⟨fun hpre => h.1 (List.cons_prefix_cons.mp hpre).2, fun hpre => h.2 (List.cons_prefix_cons.mp hpre).2⟩

/-- **Beside a fixed path**, the path of a leaf leads on from there, or is apart as it is read. -/
theorem leaf_cases : ∀ {p q : List Str} {t : Ty} {d x : Json}, wf t = true → admits t d = true → plain t = true →
    t.fixed p = true → (toValue t d).valueAt q = some x → x.Leaf → p <+: q ∨ Apart p (q.flatMap (·.splitOn '.'))
  | [], q, _, _, _, _, _, _, _, _, _ => .inl List.nil_prefix
  | k :: p, q, .struct fields, d, x, hwf, h, hplain, hfixed, hx, hleaf => by
    obtain ⟨ft, hft, hrest⟩ := (Option.any_eq_true ..).mp hfixed
    obtain ⟨hmem, rfl⟩ := fieldNamed_eq_some hft
    cases d with
    | obj ds =>
      cases q with
      | nil => exact absurd (Option.some.inj hx).symm (hleaf _)
      | cons l q =>
        obtain ⟨y, hy, hx⟩ := Option.bind_eq_some_iff.mp hx
        have hy : (ofEntries (written fields ds)).lookup l = some y := hy
        cases hft' : fieldNamed fields l with
        | none =>
          rw [lookup_struct_of_notMem (fieldNamed_eq_none hft')] at hy
          cases hy
        | some ft' =>
          obtain ⟨hmem', rfl⟩ := fieldNamed_eq_some hft'
          have hname : Plain ft'.1.name := (plain_of_mem hplain hmem').1
          rw [List.flatMap_cons, hname.splitOn, List.singleton_append]
          by_cases hne : ft.1.name = ft'.1.name
          · obtain rfl : ft = ft' := Option.some.inj (hft.symm.trans (hne ▸ hft'))
            obtain ⟨e, he, hadmits⟩ := exists_mem_zip h hmem
            rw [lookup_struct hwf he, shown] at hy
            split at hy
            · cases hy
            · obtain rfl := Option.some.inj hy
              have hwf' : wf ft.2 = true := (fieldWf_of_mem (Bool.and_eq_true_iff.mp hwf).2 hmem).wf
              rcases leaf_cases hwf' hadmits (plain_of_mem hplain hmem).2 (Bool.and_eq_true_iff.mp hrest).2 hx
                  hleaf with
                hpre | hapart
              · exact .inl (List.cons_prefix_cons.mpr ⟨rfl, hpre⟩)
              · exact .inr (hapart.cons _)
          · exact .inr (.of_ne hne _ _)
    | _ => cases h

end Serde

end Ironclaw
