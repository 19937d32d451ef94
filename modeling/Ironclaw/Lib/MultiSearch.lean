import Mathlib.Data.List.MinMax
import Ironclaw.Lib.Text

/-!
# Search for several texts at once

The standard non-overlapping search of an Aho-Corasick automaton: the text is read from left to right, and as soon as a
pattern ends the longest such pattern is reported and the search starts again behind it.

- `hit_sound`: a hit is an occurrence;
- `hits_apart`: hits do not overlap;
- `exists_hit`: where a pattern occurs, some hit ends within the occurrence, and its pattern overlaps the occurrence.
-/

namespace Ironclaw.MultiSearch

/-- A hit: the index of the pattern, and where it starts and ends. -/
structure Hit where
  pattern : Nat
  start : Nat
  stop : Nat
  deriving DecidableEq

/-- The longest pattern that ends a text, the first one of that length, with its index. The text is given in reverse. -/
def endingHere (pats : List Str) (seen : Str) : Option (Str × Nat) :=
  (pats.zipIdx.filter fun p => !p.1.isEmpty && p.1.reverse.isPrefixOf seen).argmax fun p => p.1.length

/-- The hits in the rest of a text; `pos` characters were read, `seen` are those since the last hit, in reverse. -/
def hitsFrom (pats : List Str) : (pos : Nat) → (seen : Str) → Str → List Hit
  | _, _, [] => []
  | pos, seen, c :: cs =>
    match endingHere pats (c :: seen) with
    | some (p, idx) => ⟨idx, pos + 1 - p.length, pos + 1⟩ :: hitsFrom pats (pos + 1) [] cs
    | none => hitsFrom pats (pos + 1) (c :: seen) cs

/-- `AhoCorasick::find_iter`. -/
def hits (pats : List Str) (s : Str) : List Hit := hitsFrom pats 0 [] s

/-- The pattern occurs in the text at the position. -/
def OccursAt (p : Str) (i : Nat) (s : Str) : Prop := p <+: s.drop i

/-- A hit of a pattern. -/
def IsHit (pats : List Str) (s : Str) (p : Str) (h : Hit) : Prop :=
  pats[h.pattern]? = some p ∧ p ≠ [] ∧ h.stop = h.start + p.length ∧ OccursAt p h.start s

theorem endingHere_some {pats : List Str} {x : Str} {p : Str} {idx : Nat}
    (h : endingHere pats x.reverse = some (p, idx)) : pats[idx]? = some p ∧ p ≠ [] ∧ p <:+ x := by
  obtain ⟨hmem, hp⟩ := List.mem_filter.mp (List.argmax_mem h)
  obtain ⟨hne, hpre⟩ := Bool.and_eq_true_iff.mp hp
  refine ⟨List.mem_zipIdx_iff_getElem?.mp hmem, ?_, List.reverse_prefix.mp (List.isPrefixOf_iff_prefix.mp hpre)⟩
  rintro rfl
  cases hne

theorem endingHere_none {pats : List Str} {x : Str} (h : endingHere pats x.reverse = none) :
    ∀ p ∈ pats, p ≠ [] → ¬p <:+ x := by
  intro p hp hne hsuf
  have hnil := List.argmax_eq_none.mp h
  obtain ⟨idx, hidx⟩ := List.getElem?_of_mem hp
  have hmem : (p, idx) ∈ pats.zipIdx.filter fun p => !p.1.isEmpty && p.1.reverse.isPrefixOf x.reverse := by
    refine List.mem_filter.mpr ⟨List.mem_zipIdx_iff_getElem?.mpr hidx, ?_⟩
    simp only [Bool.and_eq_true, Bool.not_eq_true', List.isEmpty_eq_false_iff, List.isPrefixOf_iff_prefix]
    exact ⟨hne, List.reverse_prefix.mpr hsuf⟩
  rw [hnil] at hmem
  cases hmem

section Hits

variable (pats : List Str)

/-- What `hitsFrom` finds behind `done`, with `seen` read since the last hit. -/
theorem mem_hitsFrom : ∀ (rest done seen : Str) (h : Hit),
    h ∈ hitsFrom pats (done.length + seen.length) seen.reverse rest →
      done.length ≤ h.start ∧ ∃ p, IsHit pats (done ++ seen ++ rest) p h
  | [], _, _, _, hh => by cases hh
  | c :: cs, done, seen, h, hh => by
    have hseen : c :: seen.reverse = (seen ++ [c]).reverse := by rw [List.reverse_append]; rfl
    have htext : done ++ (seen ++ [c]) ++ cs = done ++ seen ++ c :: cs := by
      simp only [List.append_assoc, List.singleton_append]
    have hlen : (done ++ (seen ++ [c])).length = done.length + seen.length + 1 := by
      simp only [List.length_append, List.length_singleton, Nat.add_assoc]
    simp only [hitsFrom, hseen] at hh
    split at hh
    next p idx hend =>
      obtain ⟨hidx, hne, y, hy⟩ := endingHere_some hend
      rcases List.mem_cons.mp hh with rfl | hh
      · have hylen : y.length + p.length = seen.length + 1 := by
          rw [← List.length_append, hy, List.length_append, List.length_singleton]
        have hstart : done.length + seen.length + 1 - p.length = (done ++ y).length := by
          rw [List.length_append]
          omega
        refine ⟨?_, p, hidx, hne, ?_, ?_⟩
        · show done.length ≤ done.length + seen.length + 1 - p.length
          omega
        · show done.length + seen.length + 1 = done.length + seen.length + 1 - p.length + p.length
          omega
        · show p <+: _
          rw [hstart, ← htext, ← hy, ← List.append_assoc, List.append_assoc, List.drop_left]
          exact List.prefix_append p cs
      · have := mem_hitsFrom cs (done ++ (seen ++ [c])) [] h (by rw [hlen]; exact hh)
        rw [hlen, List.append_nil, htext] at this
        exact ⟨by omega, this.2⟩
    · have := mem_hitsFrom cs done (seen ++ [c]) h (by rw [List.length_append, List.length_singleton]; exact hh)
      rw [htext] at this
      exact this

theorem hitsFrom_apart : ∀ (rest done seen : Str),
    (hitsFrom pats (done.length + seen.length) seen.reverse rest).Pairwise fun h h' => h.stop ≤ h'.start
  | [], _, _ => List.Pairwise.nil
  | c :: cs, done, seen => by
    have hseen : c :: seen.reverse = (seen ++ [c]).reverse := by rw [List.reverse_append]; rfl
    have hlen : (done ++ (seen ++ [c])).length = done.length + seen.length + 1 := by
      simp only [List.length_append, List.length_singleton, Nat.add_assoc]
    simp only [hitsFrom, hseen]
    split
    · have hrec := hitsFrom_apart cs (done ++ (seen ++ [c])) []
      rw [hlen] at hrec
      refine List.pairwise_cons.mpr ⟨fun h' hh' => ?_, hrec⟩
      have := (mem_hitsFrom pats cs (done ++ (seen ++ [c])) [] h' (by rw [hlen]; exact hh')).1
      rw [hlen] at this
      exact this
    · have hrec := hitsFrom_apart cs done (seen ++ [c])
      rw [List.length_append, List.length_singleton] at hrec
      exact hrec

/-- An occurrence that starts behind `done` and is not yet read to its end. -/
theorem exists_hitFrom {p : Str} (hp : p ∈ pats) (hne : p ≠ []) {i : Nat} : ∀ (rest done seen : Str),
    done.length ≤ i → done.length + seen.length < i + p.length → OccursAt p i (done ++ seen ++ rest) →
      ∃ h ∈ hitsFrom pats (done.length + seen.length) seen.reverse rest, i < h.stop ∧ h.stop ≤ i + p.length
  | [], done, seen, hi, hlt, hocc => by
    have hlen := hocc.length_le
    rw [List.append_nil, List.length_drop, List.length_append] at hlen
    have hpos := List.length_pos_iff.mpr hne
    omega
  | c :: cs, done, seen, hi, hlt, hocc => by
    have hseen : c :: seen.reverse = (seen ++ [c]).reverse := by rw [List.reverse_append]; rfl
    have htext : done ++ (seen ++ [c]) ++ cs = done ++ seen ++ c :: cs := by
      simp only [List.append_assoc, List.singleton_append]
    have hlen : (done ++ (seen ++ [c])).length = done.length + seen.length + 1 := by
      simp only [List.length_append, List.length_singleton, Nat.add_assoc]
    simp only [hitsFrom, hseen]
    split
    next q idx hend =>
      by_cases hin : i < done.length + seen.length + 1
      · exact ⟨_, List.mem_cons_self, hin, hlt⟩
      · have hocc' : OccursAt p i ((done ++ (seen ++ [c])) ++ [] ++ cs) := by
          rw [List.append_nil, htext]
          exact hocc
        have hpos := List.length_pos_iff.mpr hne
        obtain ⟨h, hh, hstop⟩ := exists_hitFrom hp hne cs (done ++ (seen ++ [c])) [] (by rw [hlen]; omega)
          (by rw [hlen, List.length_nil]; omega) hocc'
        rw [hlen] at hh
        exact ⟨h, List.mem_cons_of_mem _ hh, hstop⟩
    next hend =>
      have hnot := endingHere_none hend p hp hne
      have hmore : done.length + seen.length + 1 ≠ i + p.length := by
        -- the pattern would end here
        intro heq
        apply hnot
        have htake : p = ((done ++ (seen ++ [c])).drop i) := by
          obtain ⟨t, ht⟩ := hocc
          have hcut : (done ++ (seen ++ [c])).drop i ++ cs = p ++ t := by
            have hle : i ≤ (done ++ (seen ++ [c])).length := by
              rw [hlen]
              omega
            rw [ht, ← htext, List.drop_append_of_le_length hle]
          refine (List.append_inj hcut ?_).1.symm
          rw [List.length_drop, hlen]
          omega
        rw [htake, List.drop_append, List.drop_eq_nil_of_le hi, List.nil_append]
        exact List.drop_suffix _ _
      obtain ⟨h, hh, hstop⟩ := exists_hitFrom hp hne cs done (seen ++ [c]) hi
        (by rw [List.length_append, List.length_singleton]; omega) (by rw [htext]; exact hocc)
      rw [List.length_append, List.length_singleton] at hh
      exact ⟨h, hh, hstop⟩

/-- A hit is an occurrence of its pattern. -/
theorem hit_sound {s : Str} {h : Hit} (hh : h ∈ hits pats s) : ∃ p, IsHit pats s p h :=
  (mem_hitsFrom pats s [] [] h hh).2

/-- Hits do not overlap. -/
theorem hits_apart {s : Str} {h h' : Hit} (hh : h ∈ hits pats s) (hh' : h' ∈ hits pats s) :
    h = h' ∨ h.stop ≤ h'.start ∨ h'.stop ≤ h.start := by
  have hall : ∀ l : List Hit, l.Pairwise (fun h h' => h.stop ≤ h'.start) → ∀ h ∈ l, ∀ h' ∈ l,
      h = h' ∨ h.stop ≤ h'.start ∨ h'.stop ≤ h.start := by
    intro l hl
    induction hl with
    | nil =>
      intro h hh
      cases hh
    | cons hfirst _ ih =>
      intro h hh h' hh'
      rcases List.mem_cons.mp hh with rfl | hin
      · rcases List.mem_cons.mp hh' with rfl | hin'
        · exact .inl rfl
        · exact .inr (.inl (hfirst h' hin'))
      · rcases List.mem_cons.mp hh' with rfl | hin'
        · exact .inr (.inr (hfirst h hin))
        · exact ih h hin h' hin'
  exact hall _ (hitsFrom_apart pats s [] []) h hh h' hh'

/-- A pattern ends after the first `j` characters of another one, or would if these went on to the left. -/
def overlaps (q p : Str) (j : Nat) : Bool := (p.take j).isSuffixOf q || q.isSuffixOf (p.take j)

/-- The text up to the end of a hit ends with the pattern. -/
theorem IsHit.suffix_take {s p : Str} {h : Hit} (hh : IsHit pats s p h) : p <:+ s.take h.stop := by
  obtain ⟨-, -, hstop, t, ht⟩ := hh
  refine ⟨s.take h.start, ?_⟩
  rw [hstop, List.take_add, ← ht, List.take_left]

/-- A hit splits the text. -/
theorem IsHit.split {s p : Str} {h : Hit} (hh : IsHit pats s p h) :
    ∃ x y, s = x ++ p ++ y ∧ h.start = x.length ∧ h.stop = x.length + p.length := by
  obtain ⟨-, hne, hstop, y, hy⟩ := hh
  have hlen : h.start ≤ s.length := by
    have hdrop := congrArg List.length hy
    have hpos := List.length_pos_iff.mpr hne
    rw [List.length_append, List.length_drop] at hdrop
    omega
  have hstart : (s.take h.start).length = h.start := List.length_take_of_le hlen
  refine ⟨s.take h.start, y, ?_, hstart.symm, by rw [hstart]; exact hstop⟩
  rw [List.append_assoc, hy, List.take_append_drop]

/-- Where a pattern occurs, some hit ends within the occurrence, and its pattern overlaps the occurrence. -/
theorem exists_hit {s p : Str} (hp : p ∈ pats) (hne : p ≠ []) {i : Nat} (hocc : OccursAt p i s) :
    ∃ h ∈ hits pats s, ∃ q j, IsHit pats s q h ∧ 0 < j ∧ j ≤ p.length ∧ h.stop = i + j ∧ overlaps q p j = true := by
  have hpos := List.length_pos_iff.mpr hne
  obtain ⟨h, hh, hlt, hle⟩ := exists_hitFrom pats hp hne s [] [] (Nat.zero_le i)
    (by simp only [List.length_nil]; omega) hocc
  obtain ⟨q, hq⟩ := hit_sound pats hh
  obtain ⟨j, hj⟩ : ∃ j, h.stop = i + j := ⟨h.stop - i, by omega⟩
  refine ⟨h, hh, q, j, hq, by omega, by omega, hj, ?_⟩
  have hsuf : p.take j <:+ s.take h.stop := by
    obtain ⟨t, ht⟩ := hocc
    refine ⟨s.take i, ?_⟩
    rw [hj, List.take_add, ← ht, List.take_append_of_le_length (by omega)]
  rw [overlaps, Bool.or_eq_true, List.isSuffixOf_iff_suffix, List.isSuffixOf_iff_suffix]
  exact List.suffix_or_suffix_of_suffix hsuf hq.suffix_take

end Hits

end Ironclaw.MultiSearch
