import Mathlib.Data.List.Sort
import Mathlib.Tactic

/-!
# Splicing out ranges

A loop goes over ranges of a list in the order of their starts, copies what lies between the end of the last range and
the start of the next, and puts a mark in place of each range. The positions outside all ranges are copied in order,
each once; a position inside a range is copied too when it lies behind the end of a later range and before the next
start.

- `mem_kept`: where a copied position lies;
- `kept_eq_filter_iff`: just the positions outside all ranges are copied when every range that ends before an earlier
  one is followed by a range that starts before its end.
-/

namespace Ironclaw.Splice

variable {α β : Type*}

/-- The list with marks in place of the ranges, from a position on. -/
def splice (mark content : List α) : (lastEnd : Nat) → List (Nat × Nat) → List α
  | lastEnd, [] => content.drop lastEnd
  | lastEnd, range :: ranges =>
    (content.drop lastEnd).take (range.1 - lastEnd) ++ mark ++ splice mark content range.2 ranges

theorem map_splice (f : α → β) (mark content : List α) : ∀ (lastEnd : Nat) (ranges : List (Nat × Nat)),
    (splice mark content lastEnd ranges).map f = splice (mark.map f) (content.map f) lastEnd ranges
  | lastEnd, [] => List.map_drop
  | lastEnd, range :: ranges => by
    have ih := map_splice f mark content range.2 ranges
    simp only [splice, List.map_append, List.map_take, List.map_drop, ih]

/-- What is spliced comes from the list or from a mark. -/
theorem mem_splice {mark content : List α} {a : α} : ∀ {ranges : List (Nat × Nat)} {lastEnd : Nat},
    a ∈ splice mark content lastEnd ranges → a ∈ content ∨ a ∈ mark
  | [], _, h => .inl (List.mem_of_mem_drop h)
  | range :: ranges, lastEnd, h => by
    rw [splice, List.mem_append, List.mem_append] at h
    rcases h with (h | h) | h
    · exact .inl (List.mem_of_mem_drop (List.mem_of_mem_take h))
    · exact .inr h
    · exact mem_splice h

/-! ## The positions that are copied -/

/-- The positions of a list of length `n` that are copied. -/
def kept (n lastEnd : Nat) (ranges : List (Nat × Nat)) : List Nat := splice [] (List.range n) lastEnd ranges

/-- What is left when the marks are dropped. -/
theorem filterMap_splice (mark : List β) (content : List α) : ∀ (lastEnd : Nat) (ranges : List (Nat × Nat)),
    (splice (mark.map fun _ => none) (content.map some) lastEnd ranges).filterMap id = splice [] content lastEnd ranges
  | lastEnd, [] => by
    rw [splice, splice, ← List.map_drop, List.filterMap_map]
    exact List.filterMap_some
  | lastEnd, range :: ranges => by
    have ih := filterMap_splice mark content range.2 ranges
    have hmark : (mark.map fun _ => (none : Option α)).filterMap id = [] := by
      rw [List.filterMap_map]
      exact List.filterMap_eq_nil_iff.mpr fun _ _ => rfl
    have hslice : ∀ l : List α, (l.map some).filterMap id = l := by
      intro l
      rw [List.filterMap_map]
      exact List.filterMap_some
    rw [splice, splice, List.filterMap_append, List.filterMap_append, ih, hmark, ← List.map_drop,
      ← List.map_take, hslice]

section Kept

variable {n p : Nat} {s : Nat × Nat} {ranges : List (Nat × Nat)}

theorem mem_segment {i k : Nat} : p ∈ ((List.range n).drop i).take k ↔ p < n ∧ i ≤ p ∧ p < i + k := by
  rw [List.mem_take_iff_getElem]
  constructor
  · rintro ⟨j, hj, rfl⟩
    rw [List.getElem_drop, List.getElem_range]
    rw [List.length_drop, List.length_range] at hj
    omega
  · rintro ⟨hn, hi, hk⟩
    refine ⟨p - i, ?_, ?_⟩
    · rw [List.length_drop, List.length_range]
      omega
    · rw [List.getElem_drop, List.getElem_range]
      omega

/-- A copied position lies after a range and before the one that follows it; the loop starts after `s`. -/
theorem mem_kept : ∀ {ranges : List (Nat × Nat)} {s : Nat × Nat}, p ∈ kept n s.2 ranges ↔
    p < n ∧ ∃ pre r post, s :: ranges = pre ++ r :: post ∧ r.2 ≤ p ∧ ∀ r' ∈ post.head?, p < r'.1
  | [], s => by
    have hkept : p ∈ kept n s.2 [] ↔ p < n ∧ s.2 ≤ p := by
      rw [kept, splice, List.range_eq_range', List.drop_range', List.mem_range'_1]
      omega
    rw [hkept]
    refine and_congr_right fun _ => ⟨fun hs => ⟨[], s, [], rfl, hs, fun r' hr' => by cases hr'⟩, ?_⟩
    rintro ⟨pre, r, post, hsplit, hr, -⟩
    have hmem : r ∈ [s] := hsplit ▸ List.mem_append_right pre List.mem_cons_self
    rwa [List.mem_singleton.mp hmem] at hr
  | range :: ranges, s => by
    have ih := @mem_kept ranges range
    have hkept : p ∈ kept n s.2 (range :: ranges) ↔
        (p < n ∧ s.2 ≤ p ∧ p < s.2 + (range.1 - s.2)) ∨ p ∈ kept n range.2 ranges := by
      rw [kept, splice, List.append_nil, List.mem_append, mem_segment]
      rfl
    rw [hkept, ih]
    constructor
    · rintro (⟨hn, hs, hp⟩ | ⟨hn, pre, r, post, hsplit, hr, hnext⟩)
      · refine ⟨hn, [], s, range :: ranges, rfl, hs, fun r' hr' => ?_⟩
        obtain rfl : range = r' := Option.some.inj hr'
        omega
      · exact ⟨hn, s :: pre, r, post, by rw [hsplit, List.cons_append], hr, hnext⟩
    · rintro ⟨hn, pre, r, post, hsplit, hr, hnext⟩
      cases pre with
      | nil =>
        obtain ⟨rfl, rfl⟩ := List.cons_eq_cons.mp hsplit
        have hp := hnext range rfl
        exact .inl ⟨hn, hr, by omega⟩
      | cons s' pre =>
        obtain ⟨-, hsplit⟩ := List.cons_eq_cons.mp hsplit
        exact .inr ⟨hn, pre, r, post, hsplit, hr, hnext⟩

/-- The ranges lie in a list of length `n` and are ordered by their starts. -/
structure Sorted (n : Nat) (ranges : List (Nat × Nat)) : Prop where
  within : ∀ r ∈ ranges, r.1 ≤ r.2 ∧ r.2 ≤ n
  starts : ranges.Pairwise fun r r' => r.1 ≤ r'.1

theorem Sorted.tail {r : Nat × Nat} (h : Sorted n (r :: ranges)) : Sorted n ranges :=
  ⟨fun r' hr' => h.within r' (List.mem_cons_of_mem r hr'), (List.pairwise_cons.mp h.starts).2⟩

theorem Sorted.head_le {r r' : Nat × Nat} (h : Sorted n (r :: ranges)) (hr' : r' ∈ r :: ranges) : r.1 ≤ r'.1 := by
  rcases List.mem_cons.mp hr' with rfl | hr'
  · exact Nat.le_refl _
  · exact (List.pairwise_cons.mp h.starts).1 r' hr'

/-- Positions are copied in order, each once. -/
theorem kept_pairwise : ∀ {ranges : List (Nat × Nat)} {lastEnd : Nat}, Sorted n ranges →
    (kept n lastEnd ranges).Pairwise (· < ·)
  | [], lastEnd, _ => List.pairwise_lt_range.sublist (List.drop_sublist lastEnd _)
  | range :: ranges, lastEnd, h => by
    have ih := @kept_pairwise ranges range.2 h.tail
    rw [kept, splice, List.append_nil]
    refine List.pairwise_append.mpr ⟨?_, ih, fun p hp q hq => ?_⟩
    · exact List.pairwise_lt_range.sublist ((List.take_sublist _ _).trans (List.drop_sublist _ _))
    · obtain ⟨-, hlow, hhigh⟩ := mem_segment.1 hp
      obtain ⟨-, pre, r, post, hsplit, hr, -⟩ := mem_kept.1 hq
      have hmem : r ∈ range :: ranges := hsplit ▸ List.mem_append_right pre List.mem_cons_self
      have hstart : range.1 ≤ r.1 := h.head_le hmem
      have hle : r.1 ≤ r.2 := (h.within r hmem).1
      omega

/-- A position outside all ranges comes after one of them and before the next. -/
theorem exists_split : ∀ {ranges : List (Nat × Nat)} {s : Nat × Nat}, s.2 ≤ p → (∀ r ∈ ranges, p < r.1 ∨ r.2 ≤ p) →
    ∃ pre r post, s :: ranges = pre ++ r :: post ∧ r.2 ≤ p ∧ ∀ r' ∈ post.head?, p < r'.1
  | [], s, hs, _ => ⟨[], s, [], rfl, hs, fun r' hr' => by cases hr'⟩
  | range :: ranges, s, hs, hout => by
    rcases hout range List.mem_cons_self with hlt | hge
    · refine ⟨[], s, range :: ranges, rfl, hs, fun r' hr' => ?_⟩
      obtain rfl : range = r' := Option.some.inj hr'
      exact hlt
    · obtain ⟨pre, r, post, hsplit, hr, hnext⟩ := exists_split hge fun r hr => hout r (List.mem_cons_of_mem range hr)
      exact ⟨s :: pre, r, post, by rw [hsplit, List.cons_append], hr, hnext⟩

/-- A position lies in one of the ranges. -/
def Inside (ranges : List (Nat × Nat)) (p : Nat) : Prop := ∃ r ∈ ranges, r.1 ≤ p ∧ p < r.2

instance (ranges : List (Nat × Nat)) (p : Nat) : Decidable (Inside ranges p) :=
  inferInstanceAs (Decidable (∃ r ∈ ranges, r.1 ≤ p ∧ p < r.2))

/-- A range that ends before an earlier one is followed by a range that starts no later than its end. -/
def EndsCovered (ranges : List (Nat × Nat)) : Prop :=
  ∀ pre r post, ranges = pre ++ r :: post → (∀ q ∈ pre, q.2 ≤ r.2) ∨ ∃ r' ∈ post.head?, r'.1 ≤ r.2

theorem kept_of_not_inside (hp : p < n) (hout : ¬Inside ranges p) : p ∈ kept n 0 ranges := by
  refine (mem_kept (s := (0, 0))).mpr ⟨hp, exists_split (Nat.zero_le p) fun r hr => ?_⟩
  by_contra hin
  rw [not_or, Nat.not_lt, Nat.not_le] at hin
  exact hout ⟨r, hr, hin⟩

/-- Behind a range that ends before an earlier one, a position inside the earlier one is copied. -/
theorem endsCovered_of_kept (h : Sorted n ranges) (hkept : ∀ p ∈ kept n 0 ranges, ¬Inside ranges p) :
    EndsCovered ranges := by
  intro pre r post hsplit
  by_contra hcond
  rw [not_or] at hcond
  obtain ⟨hshort, hnext⟩ := hcond
  push Not at hshort hnext
  obtain ⟨q, hq, hlt⟩ := hshort
  have hqmem : q ∈ ranges := hsplit ▸ List.mem_append_left _ hq
  have hrmem : r ∈ ranges := hsplit ▸ List.mem_append_right pre List.mem_cons_self
  have hstart : q.1 ≤ r.1 := (List.pairwise_append.mp (hsplit ▸ h.starts)).2.2 q hq r List.mem_cons_self
  have hr := h.within r hrmem
  have hend := (h.within q hqmem).2
  refine hkept r.2 ?_ ⟨q, hqmem, by omega, hlt⟩
  refine (mem_kept (s := (0, 0))).mpr ⟨by omega, (0, 0) :: pre, r, post, by rw [hsplit, List.cons_append],
    Nat.le_refl _, ?_⟩
  exact hnext

/-- A position that is copied lies outside all ranges, when the ends are covered. -/
theorem not_inside_of_kept (h : Sorted n ranges) (hends : EndsCovered ranges) (hp : p ∈ kept n 0 ranges) :
    ¬Inside ranges p := by
  obtain ⟨-, pre, r, post, hsplit, hr, hnext⟩ := (mem_kept (s := (0, 0))).mp hp
  rintro ⟨q, hq, hlow, hhigh⟩
  have hafter : ∀ r' ∈ post, p < r'.1 := by
    cases post with
    | nil =>
      intro r' hr'
      cases hr'
    | cons t post =>
      intro r' hr'
      have hp := hnext t rfl
      have hstarts : ((0, 0) :: ranges).Pairwise fun r r' => r.1 ≤ r'.1 :=
        List.pairwise_cons.mpr ⟨fun r' _ => Nat.zero_le _, h.starts⟩
      rw [hsplit] at hstarts
      have htail := (List.pairwise_cons.mp (List.pairwise_append.mp hstarts).2.1).2
      rcases List.mem_cons.mp hr' with rfl | hr'
      · exact hp
      · exact Nat.lt_of_lt_of_le hp ((List.pairwise_cons.mp htail).1 r' hr')
  cases pre with
  | nil =>
    obtain ⟨-, rfl⟩ := List.cons_eq_cons.mp hsplit
    exact absurd (hafter q hq) (Nat.not_lt.mpr hlow)
  | cons s pre =>
    obtain ⟨-, rfl⟩ := List.cons_eq_cons.mp hsplit
    rcases List.mem_append.mp hq with hq | hq
    · rcases hends pre r post rfl with hle | ⟨r', hr', hle⟩
      · have := hle q hq
        omega
      · have := hnext r' hr'
        omega
    · rcases List.mem_cons.mp hq with rfl | hq
      · omega
      · exact absurd (hafter q hq) (Nat.not_lt.mpr hlow)

/-- Just the positions outside all ranges are copied when the ends are covered, and only then. -/
theorem kept_eq_filter_iff (h : Sorted n ranges) :
    kept n 0 ranges = (List.range n).filter (fun p => ¬Inside ranges p) ↔ EndsCovered ranges := by
  constructor
  · intro hkept
    refine endsCovered_of_kept h fun p hp => ?_
    rw [hkept] at hp
    exact of_decide_eq_true (List.mem_filter.mp hp).2
  · intro hends
    refine List.Pairwise.eq_of_mem_iff (kept_pairwise h) (List.pairwise_lt_range.filter _) fun p => ?_
    rw [List.mem_filter, List.mem_range, decide_eq_true_iff]
    constructor
    · intro hp
      exact ⟨(mem_kept (s := (0, 0)).mp hp).1, not_inside_of_kept h hends hp⟩
    · rintro ⟨hp, hout⟩
      exact kept_of_not_inside hp hout

end Kept

end Ironclaw.Splice
