import Ironclaw.Lib.Rewrite

/-!
# Expressions with a leading character

Each word of such an expression starts with a character that it has nowhere else. A text has a match wherever a word
starts, and a replacement of the leading characters leaves no match.

- `Led.map_drop_findIter`: the matches are at the places where a word starts;
- `Led.replaceAll_eq`: a replacement of the leading characters goes through the text once;
- `Led.starts_replaceLead_append`: nothing that is left of a text starts a word, whatever follows it.
-/

namespace Ironclaw.Regex

open Text

/-- Each word starts with the character and has it nowhere else. -/
structure Led (c : Char) (a : Ast) : Prop where
  plain : plain a = true
  word : ∀ {u : Str}, Lang a u → ∃ v, u = c :: v ∧ c ∉ v

theorem led_seq {c : Char} {cs : CharSet} {b : Ast} (hc : c.isAlpha = false) (hplain : plain (.seq (.set cs) b) = true)
    (hfirst : needs c (.set cs) = true) (hrest : avoids c b = true) : Led c (.seq (.set cs) b) where
  plain := hplain
  word := by
    rintro u ⟨x, v, rfl, hx, hv⟩
    have hmem := mem_of_needs hc hfirst hx
    obtain ⟨d, rfl, -⟩ := hx
    obtain rfl := List.mem_singleton.mp hmem
    exact ⟨v, rfl, fun hmem => not_mem_of_avoids hrest hv hmem⟩

section Matches

variable (isWord : Char → Bool) (a : Ast)

/-- A word starts the text. -/
def begins (s : Str) : Bool := !(run isWord a ⟨[], s⟩).isEmpty

/-- The ends of the text that a word starts. -/
def starts : Str → List Str
  | [] => []
  | c :: cs => if begins isWord a (c :: cs) then (c :: cs) :: starts cs else starts cs

/-- The text with other ones in place of the ranges, from a position on. -/
def replaceRanges (f : Str → Str) (s : Str) : (lastEnd : Nat) → List (Nat × Nat) → Str
  | lastEnd, [] => s.drop lastEnd
  | lastEnd, r :: rs =>
    (s.drop lastEnd).take (r.1 - lastEnd) ++ f ((s.drop r.1).take (r.2 - r.1)) ++ replaceRanges f s r.2 rs

/-- `Regex::replace_all` with a function of the text that matches. -/
def replaceAll (f : Str → Str) (s : Str) : Str := replaceRanges f s 0 (findIter isWord a s)

/-- The text with `rep` in place of the characters that start a word. -/
def replaceLead (rep : Str) : Str → Str
  | [] => []
  | c :: cs => (if begins isWord a (c :: cs) then rep else [c]) ++ replaceLead rep cs

variable {a} {c : Char}

theorem begins_iff (h : plain a = true) {s : Str} : begins isWord a s = true ↔ ∃ u, Lang a u ∧ u <+: s := by
  have hrun : run isWord a ⟨[], s⟩ ≠ [] ↔ ∃ u, Lang a u ∧ u <+: s := run_ne_nil_iff h ⟨[], s⟩
  rw [← hrun, begins, Bool.not_eq_true', List.isEmpty_eq_false_iff]

/-- A text that starts with one that a word starts. -/
theorem begins_append (h : plain a = true) {s : Str} (hs : begins noWord a s = true) (t : Str) :
    begins isWord a (s ++ t) = true := by
  obtain ⟨u, hu, hpre⟩ := (begins_iff noWord h).mp hs
  exact (begins_iff isWord h).mpr ⟨u, hu, hpre.trans (List.prefix_append s t)⟩

variable (h : Led c a)
include h

theorem Led.begins_cons_iff {d : Char} {cs : Str} :
    begins isWord a (d :: cs) = true ↔ d = c ∧ ∃ v, Lang a (c :: v) ∧ v <+: cs := by
  rw [begins_iff isWord h.plain]
  constructor
  · rintro ⟨u, hu, hpre⟩
    obtain ⟨v, rfl, -⟩ := h.word hu
    obtain ⟨rfl, hv⟩ := List.cons_prefix_cons.mp hpre
    exact ⟨rfl, v, hu, hv⟩
  · rintro ⟨rfl, v, hv, hpre⟩
    exact ⟨_, hv, List.cons_prefix_cons.mpr ⟨rfl, hpre⟩⟩

theorem Led.not_begins_of_ne {d : Char} (hd : d ≠ c) (cs : Str) : begins isWord a (d :: cs) = false :=
  Bool.eq_false_iff.mpr fun hb => hd ((h.begins_cons_iff isWord).mp hb).1

/-- Without the leading character nothing starts. -/
theorem Led.starts_append_of_not_mem (y : Str) : ∀ {x : Str}, c ∉ x → starts isWord a (x ++ y) = starts isWord a y
  | [], _ => rfl
  | d :: x, hx => by
    have hd : d ≠ c := fun heq => hx (heq ▸ List.mem_cons_self)
    rw [List.cons_append, starts, h.not_begins_of_ne isWord hd, if_neg Bool.false_ne_true]
    exact Led.starts_append_of_not_mem y fun hmem => hx (List.mem_cons_of_mem d hmem)

theorem Led.replaceLead_append_of_not_mem (rep y : Str) : ∀ {x : Str}, c ∉ x →
    replaceLead isWord a rep (x ++ y) = x ++ replaceLead isWord a rep y
  | [], _ => rfl
  | d :: x, hx => by
    have hd : d ≠ c := fun heq => hx (heq ▸ List.mem_cons_self)
    have ih := Led.replaceLead_append_of_not_mem rep y fun hmem => hx (List.mem_cons_of_mem d hmem)
    rw [List.cons_append, replaceLead, h.not_begins_of_ne isWord hd, if_neg Bool.false_ne_true, ih]
    rfl

/-! ## The matches -/

/-- A match at a position: its word, and that the next search starts behind it. -/
theorem Led.run_cons {before cs : Str} {d : Char} {q : Pos} {qs : List Pos}
    (hrun : run isWord a ⟨before, d :: cs⟩ = q :: qs) :
    c = d ∧ ∃ v rest, cs = v ++ rest ∧ c ∉ v ∧ begins isWord a (d :: cs) = true ∧
      cs.length + 1 - q.rest.length = v.length + 1 := by
  have hq : q ∈ run isWord a ⟨before, d :: cs⟩ := hrun ▸ List.mem_cons_self
  obtain ⟨u, hu, hreads, -⟩ := (mem_run_iff isWord a h.plain _ _).mp hq
  obtain ⟨v, rfl, hv⟩ := h.word hu
  obtain ⟨rfl, hcs⟩ := List.cons_eq_cons.mp hreads
  have hcs : cs = v ++ q.rest := hcs
  refine ⟨rfl, v, q.rest, hcs, hv, (begins_iff isWord h.plain).mpr ⟨d :: v, hu, q.rest, hreads.symm⟩, ?_⟩
  rw [hcs, List.length_append]
  omega

theorem Led.run_nil {before s : Str} (hrun : run isWord a ⟨before, s⟩ = []) : begins isWord a s = false := by
  refine Bool.eq_false_iff.mpr fun hb => ?_
  exact (run_ne_nil_iff h.plain ⟨before, s⟩).mpr ((begins_iff isWord h.plain).mp hb) hrun

theorem Led.run_end (before : Str) : run isWord a ⟨before, []⟩ = [] := by
  by_contra hne
  obtain ⟨u, hu, hpre⟩ := (run_ne_nil_iff h.plain _).mp hne
  obtain ⟨v, rfl, -⟩ := h.word hu
  cases List.prefix_nil.mp hpre

/-- The search from a position, the next characters of which belong to the last match. -/
theorem Led.map_drop_findIterFrom (s : Str) : ∀ (rest : Str) (skip i : Nat) (last : Option Nat) (before : Str),
    s.drop i = rest → c ∉ rest.take skip →
      (findIterFrom isWord a skip i last before rest).map (fun r => s.drop r.1) = starts isWord a rest
  | [], 0, i, last, before, _, _ => by
    rw [findIterFrom, h.run_end, if_pos (.inl rfl)]
    rfl
  | [], _ + 1, _, _, _, _, _ => rfl
  | d :: cs, skip + 1, i, last, before, hs, hskip => by
    have hnext : s.drop (i + 1) = cs := by rw [← List.drop_drop, hs, List.drop_one, List.tail_cons]
    have hd : d ≠ c := fun heq => hskip (heq ▸ List.mem_cons_self)
    rw [findIterFrom, starts, h.not_begins_of_ne isWord hd, if_neg Bool.false_ne_true]
    exact Led.map_drop_findIterFrom s cs skip (i + 1) last (d :: before) hnext
      fun hmem => hskip (List.mem_cons_of_mem d hmem)
  | d :: cs, 0, i, last, before, hs, _ => by
    have hnext : s.drop (i + 1) = cs := by rw [← List.drop_drop, hs, List.drop_one, List.tail_cons]
    rw [findIterFrom, starts]
    split
    next hrun =>
      rw [h.run_nil isWord hrun, if_neg Bool.false_ne_true]
      exact Led.map_drop_findIterFrom s cs 0 (i + 1) last (d :: before) hnext (by simp)
    next q qs hrun =>
      obtain ⟨-, v, rest, hcs, hv, hbegins, hlen⟩ := h.run_cons isWord hrun
      have hskip : c ∉ cs.take v.length := by rw [hcs, List.take_left]; exact hv
      simp only [hlen, Nat.succ_ne_zero, if_false, Nat.add_sub_cancel]
      rw [hbegins, if_pos rfl, List.map_cons, hs,
        Led.map_drop_findIterFrom s cs v.length (i + 1) _ (d :: before) hnext hskip]

/-- **The matches** are at the places where a word starts. -/
theorem Led.map_drop_findIter (s : Str) : (findIter isWord a s).map (fun r => s.drop r.1) = starts isWord a s :=
  h.map_drop_findIterFrom isWord s s 0 0 none [] rfl (by simp)

/-! ## The replacement -/

theorem Led.replaceRanges_findIterFrom (rep s : Str) : ∀ (rest : Str) (skip i lastEnd : Nat) (last : Option Nat)
    (before : Str), s.drop i = rest → c ∉ rest.take skip → lastEnd ≤ i + skip → (0 < skip → lastEnd = i + skip) →
      replaceRanges (fun m => rep ++ m.drop 1) s lastEnd (findIterFrom isWord a skip i last before rest) =
        (s.drop lastEnd).take (i + skip - lastEnd) ++ replaceLead isWord a rep (rest.drop skip)
  | [], 0, i, lastEnd, last, before, hs, _, hle, _ => by
    rw [findIterFrom, h.run_end, if_pos (.inl rfl), replaceRanges, List.drop_nil, replaceLead, List.append_nil,
      List.take_of_length_le]
    have := List.drop_eq_nil_iff.mp hs
    rw [List.length_drop]
    omega
  | [], skip + 1, i, lastEnd, last, before, hs, _, _, heq => by
    have hnil : s.drop lastEnd = [] := by
      rw [heq (Nat.succ_pos skip), ← List.drop_drop, hs, List.drop_nil]
    rw [findIterFrom, replaceRanges, hnil, List.take_nil, List.drop_nil]
    rfl
  | d :: cs, skip + 1, i, lastEnd, last, before, hs, hskip, _, heq => by
    have hnext : s.drop (i + 1) = cs := by rw [← List.drop_drop, hs, List.drop_one, List.tail_cons]
    have hend := heq (Nat.succ_pos skip)
    rw [findIterFrom, Led.replaceRanges_findIterFrom rep s cs skip (i + 1) lastEnd last (d :: before) hnext
      (fun hmem => hskip (List.mem_cons_of_mem d hmem)) (by omega) (fun _ => by omega), List.drop_succ_cons,
      Nat.add_right_comm, Nat.add_assoc]
  | d :: cs, 0, i, lastEnd, last, before, hs, _, hle, _ => by
    have hnext : s.drop (i + 1) = cs := by rw [← List.drop_drop, hs, List.drop_one, List.tail_cons]
    rw [Nat.add_zero] at hle
    rw [findIterFrom, List.drop_zero, Nat.add_zero, replaceLead]
    split
    next hrun =>
      have hhere : (s.drop lastEnd)[i - lastEnd]? = some d := by
        rw [List.getElem?_drop, Nat.add_sub_cancel' hle, ← List.head?_drop, hs]
        rfl
      have hmore : i + 1 - lastEnd = i - lastEnd + 1 := Nat.succ_sub hle
      rw [Led.replaceRanges_findIterFrom rep s cs 0 (i + 1) lastEnd last (d :: before) hnext (by simp) (by omega)
        (fun hpos => absurd hpos (lt_irrefl 0)), h.run_nil isWord hrun, if_neg Bool.false_ne_true, Nat.add_zero, hmore,
        List.take_add_one, hhere, List.drop_zero, List.append_assoc]
      rfl
    next q qs hrun =>
      obtain ⟨rfl, v, rest, hcs, hv, hbegins, hlen⟩ := h.run_cons isWord hrun
      have hskip : c ∉ cs.take v.length := by rw [hcs, List.take_left]; exact hv
      have hmatch : (s.drop i).take (v.length + 1) = c :: v := by
        rw [hs, List.take_succ_cons, hcs, List.take_left]
      simp only [hlen, Nat.succ_ne_zero, if_false, Nat.add_sub_cancel, replaceRanges, Nat.add_sub_cancel_left, hmatch]
      rw [Led.replaceRanges_findIterFrom rep s cs v.length (i + 1) (i + (v.length + 1)) _ (c :: before) hnext
        hskip (by omega)
        (fun _ => by omega), hbegins, if_pos rfl, List.drop_succ_cons, List.drop_zero, Nat.add_right_comm,
          Nat.add_assoc, Nat.sub_self,
        List.take_zero, List.nil_append, hcs, List.drop_left, h.replaceLead_append_of_not_mem isWord rep rest hv]
      simp only [List.append_assoc, Nat.add_zero]

/-- Replacing the first character of each match goes through the text once. -/
theorem Led.replaceAll_eq (rep s : Str) :
    replaceAll isWord a (fun m => rep ++ m.drop 1) s = replaceLead isWord a rep s :=
  h.replaceRanges_findIterFrom isWord rep s s 0 0 0 none [] rfl (by simp) (Nat.le_refl 0) fun _ => rfl

omit h in
/-- Where no word starts there is nothing to replace. -/
theorem replaceLead_of_starts_nil (rep : Str) : ∀ {s : Str}, starts isWord a s = [] → replaceLead isWord a rep s = s
  | [], _ => rfl
  | d :: cs, hs => by
    rw [starts] at hs
    split at hs
    · cases hs
    next hbegins => rw [replaceLead, if_neg hbegins, replaceLead_of_starts_nil rep hs, List.singleton_append]

/-! ## What is left -/

omit h in
/-- No word has an end, short of all of it, that starts the text. -/
def Breaks (a : Ast) (y : Str) : Prop := ∀ v w, v ≠ [] → w ≠ [] → w <+: y → ¬Lang a (v ++ w)

theorem Led.breaks_lead (y : Str) : Breaks a (c :: y) := by
  intro v w hv hw hpre hlang
  obtain ⟨t, ht, hc⟩ := h.word hlang
  cases v with
  | nil => exact hv rfl
  | cons e v =>
    cases w with
    | nil => exact hw rfl
    | cons d w =>
      obtain ⟨rfl, -⟩ := List.cons_prefix_cons.mp hpre
      obtain ⟨-, rfl⟩ := List.cons_eq_cons.mp ht
      exact hc (List.mem_append_right v List.mem_cons_self)

omit h in
theorem breaks_avoids {d : Char} (hd : avoids d a = true) (y : Str) : Breaks a (d :: y) := by
  intro v w _ hw hpre hlang
  cases w with
  | nil => exact hw rfl
  | cons e w =>
    obtain ⟨rfl, -⟩ := List.cons_prefix_cons.mp hpre
    exact not_mem_of_avoids hd hlang (List.mem_append_right v List.mem_cons_self)

omit h in
theorem breaks_cons {d : Char} {y : Str} (hd : lastAvoids d a = true) (hy : Breaks a y) : Breaks a (d :: y) := by
  intro v w _ hw hpre hlang
  cases w with
  | nil => exact hw rfl
  | cons e w =>
    obtain ⟨rfl, hrest⟩ := List.cons_prefix_cons.mp hpre
    cases w with
    | nil => exact last_of_lastAvoids hd hlang List.getLast?_concat
    | cons e' w =>
      refine hy (v ++ [e]) (e' :: w) (by simp) (List.cons_ne_nil e' w) hrest ?_
      rwa [List.append_assoc, List.singleton_append]

variable {rep : Str} {d : Char} (hrep : d ∈ rep.head?) (havoids : avoids d a = true)
include hrep havoids

omit h havoids in
/-- A beginning without the character that is put in is a beginning of the text before. -/
theorem prefix_of_replaceLead : ∀ {v cs : Str}, c ∉ v → d ∉ v → v <+: replaceLead isWord a rep cs → v <+: cs
  | [], _, _, _, _ => List.nil_prefix
  | e :: v, [], _, _, hpre => absurd (List.prefix_nil.mp hpre) (List.cons_ne_nil e v)
  | e :: v, e' :: cs, hc, hd, hpre => by
    rw [replaceLead] at hpre
    split at hpre
    · obtain ⟨rest, rfl⟩ : ∃ rest, rep = d :: rest := List.head?_eq_some_iff.mp hrep
      obtain ⟨rfl, -⟩ := List.cons_prefix_cons.mp hpre
      exact absurd List.mem_cons_self hd
    · obtain ⟨rfl, hrest⟩ := List.cons_prefix_cons.mp hpre
      refine List.cons_prefix_cons.mpr ⟨rfl, ?_⟩
      exact prefix_of_replaceLead (fun hmem => hc (List.mem_cons_of_mem e hmem))
        (fun hmem => hd (List.mem_cons_of_mem e hmem)) hrest

/-- **What is left** of a text starts no word, whatever follows it at which no word goes on. -/
theorem Led.starts_replaceLead_append (hc : c ∉ rep) {y : Str} (hy : Breaks a y) : ∀ s : Str,
    starts isWord a (replaceLead isWord a rep s ++ y) = starts isWord a y
  | [] => rfl
  | e :: cs => by
    have ih := Led.starts_replaceLead_append hc hy cs
    rw [replaceLead, List.append_assoc]
    split
    · rw [h.starts_append_of_not_mem isWord _ hc, ih]
    next hbegins =>
      rw [List.singleton_append, starts, if_neg, ih]
      intro hb
      obtain ⟨rfl, v, hlang, hpre⟩ := (h.begins_cons_iff isWord).mp hb
      obtain ⟨t, ht, hlead⟩ := h.word hlang
      obtain ⟨-, rfl⟩ := List.cons_eq_cons.mp ht
      have hd : d ∉ v := fun hmem => not_mem_of_avoids havoids hlang (List.mem_cons_of_mem _ hmem)
      -- the word ends in what is left of the text, or goes on in what follows
      have hinside : v <+: replaceLead isWord a rep cs := by
        obtain ⟨r, hr⟩ := hpre
        rcases List.append_eq_append_iff.mp hr with ⟨w, hw, -⟩ | ⟨w, hw, hyw⟩
        · exact ⟨w, hw.symm⟩
        · cases w with
          | nil => exact ⟨[], by rw [hw, List.append_nil, List.append_nil]⟩
          | cons e' w =>
            rw [hw, ← List.cons_append] at hlang
            exact absurd hlang (hy _ _ (List.cons_ne_nil _ _) (List.cons_ne_nil e' w) ⟨r, hyw.symm⟩)
      exact hbegins ((h.begins_cons_iff isWord).mpr
        ⟨rfl, v, hlang, prefix_of_replaceLead isWord hrep hlead hd hinside⟩)

end Matches

end Ironclaw.Regex
