import Ironclaw.Lib.Regex

/-!
# The language of an expression

The words that an expression without `\b` matches, and tests on expressions that are decided by their syntax and say
something about all their words. They are used to show that a rewriting of a text creates no match.

- `mem_run_iff`: what `run` reads are words;
- `contains_iff_findIter`: a match is found exactly when the text contains a word;
- `not_mem_of_avoids`, `last_of_lastAvoids`, `incomparable_of_dies`: characters that do not occur, or not at the end,
  and beginnings that no word has.
-/

namespace Ironclaw.Regex

/-! ## Words -/

/-- A table of word characters for expressions that do not use it. -/
def noWord (_ : Char) : Bool := false

/-- Neither `\b` nor `\w`. -/
def plain : Ast → Bool
  | .empty => true
  | .set s => !s.items.contains .word
  | .seq a b => plain a && plain b
  | .alt a b => plain a && plain b
  | .rep a _ _ => plain a
  | .wordBoundary => false

/-- The words of an expression. -/
def Lang : Ast → Str → Prop
  | .empty, u => u = []
  | .set s, u => ∃ c, u = [c] ∧ s.mem noWord c = true
  | .seq a b, u => ∃ x y, u = x ++ y ∧ Lang a x ∧ Lang b y
  | .alt a b, u => Lang a u ∨ Lang b u
  | .rep a min max, u => ∃ us : List Str, u = us.flatten ∧ (∀ x ∈ us, Lang a x) ∧ min ≤ us.length ∧
      ∀ m, max = some m → us.length - min ≤ m - min
  | .wordBoundary, _ => False

/-- The characters `u` lie between two positions. -/
def Reads (u : Str) (p q : Pos) : Prop := p.rest = u ++ q.rest ∧ q.before = u.reverse ++ p.before

theorem reads_nil {p q : Pos} : Reads [] p q ↔ q = p := by
  unfold Reads
  obtain ⟨pb, pr⟩ := p
  obtain ⟨qb, qr⟩ := q
  simp only [List.nil_append, List.reverse_nil, Pos.mk.injEq]
  exact ⟨fun h => ⟨h.2, h.1.symm⟩, fun h => ⟨h.2.symm, h.1⟩⟩

theorem reads_append {u v : Str} {p r : Pos} : Reads (u ++ v) p r ↔ ∃ q, Reads u p q ∧ Reads v q r := by
  unfold Reads
  constructor
  · rintro ⟨hrest, hbefore⟩
    refine ⟨⟨u.reverse ++ p.before, v ++ r.rest⟩, ⟨?_, rfl⟩, rfl, ?_⟩
    · rw [hrest, List.append_assoc]
    · rw [hbefore, List.reverse_append, List.append_assoc]
  · rintro ⟨q, ⟨hpr, hpb⟩, hqr, hqb⟩
    exact ⟨by rw [hpr, hqr, List.append_assoc], by rw [hqb, hpb, List.reverse_append, List.append_assoc]⟩

theorem Reads.length {u : Str} {p q : Pos} (h : Reads u p q) : p.rest.length = u.length + q.rest.length := by
  rw [h.1, List.length_append]

section Repetition

variable {f : Pos → List Pos} {F : Str → Prop} (hf : ∀ p q, q ∈ f p ↔ ∃ u, F u ∧ Reads u p q)

include hf

theorem mem_times : ∀ (n : Nat) (p q : Pos),
    q ∈ times f n p ↔ ∃ us : List Str, us.length = n ∧ (∀ x ∈ us, F x) ∧ Reads us.flatten p q
  | 0, p, q => by
    simp only [times, List.mem_singleton]
    constructor
    · rintro rfl
      exact ⟨[], rfl, (fun x hx => by cases hx), reads_nil.2 rfl⟩
    · rintro ⟨us, hlen, -, hr⟩
      rw [List.length_eq_zero_iff.mp hlen] at hr
      exact reads_nil.1 hr
  | n + 1, p, q => by
    simp only [times, List.mem_flatMap]
    constructor
    · rintro ⟨r, hr, hq⟩
      obtain ⟨u, hu, hpr⟩ := (hf p r).mp hr
      obtain ⟨us, hlen, hus, hrq⟩ := (mem_times n r q).mp hq
      refine ⟨u :: us, by rw [List.length_cons, hlen], ?_, reads_append.2 ⟨r, hpr, hrq⟩⟩
      intro x hx
      rcases List.mem_cons.mp hx with rfl | hx
      · exact hu
      · exact hus x hx
    · rintro ⟨us, hlen, hus, hr⟩
      cases us with
      | nil => cases hlen
      | cons u us =>
        obtain ⟨r, hpr, hrq⟩ := reads_append.1 hr
        refine ⟨r, (hf p r).mpr ⟨u, hus u List.mem_cons_self, hpr⟩, (mem_times n r q).mpr ⟨us, ?_, ?_, hrq⟩⟩
        · exact Nat.succ.inj hlen
        · exact fun x hx => hus x (List.mem_cons_of_mem _ hx)

theorem mem_upTo : ∀ (n : Nat) (p q : Pos),
    q ∈ upTo f n p ↔ ∃ us : List Str, us.length ≤ n ∧ (∀ x ∈ us, F x ∧ x ≠ []) ∧ Reads us.flatten p q
  | 0, p, q => by
    simp only [upTo, List.mem_singleton]
    constructor
    · rintro rfl
      exact ⟨[], Nat.le_refl _, (fun x hx => by cases hx), reads_nil.2 rfl⟩
    · rintro ⟨us, hlen, -, hr⟩
      rw [List.length_eq_zero_iff.mp (Nat.le_zero.mp hlen)] at hr
      exact reads_nil.1 hr
  | n + 1, p, q => by
    simp only [upTo, List.mem_append, List.mem_flatMap, List.mem_filter, List.mem_singleton, decide_eq_true_eq]
    constructor
    · rintro (⟨r, ⟨hr, hlt⟩, hq⟩ | rfl)
      · obtain ⟨u, hu, hpr⟩ := (hf p r).mp hr
        obtain ⟨us, hlen, hus, hrq⟩ := (mem_upTo n r q).mp hq
        refine ⟨u :: us, by rw [List.length_cons]; omega, ?_, reads_append.2 ⟨r, hpr, hrq⟩⟩
        intro x hx
        rcases List.mem_cons.mp hx with rfl | hx
        · refine ⟨hu, ?_⟩
          rintro rfl
          have := hpr.length
          rw [List.length_nil] at this
          omega
        · exact hus x hx
      · exact ⟨[], Nat.zero_le _, (fun x hx => by cases hx), reads_nil.2 rfl⟩
    · rintro ⟨us, hlen, hus, hr⟩
      cases us with
      | nil => exact .inr (reads_nil.1 hr)
      | cons u us =>
        obtain ⟨r, hpr, hrq⟩ := reads_append.1 hr
        obtain ⟨hu, hne⟩ := hus u List.mem_cons_self
        have hpos := List.length_pos_iff.mpr hne
        have hread := hpr.length
        rw [List.length_cons] at hlen
        refine .inl ⟨r, ⟨(hf p r).mpr ⟨u, hu, hpr⟩, by omega⟩, (mem_upTo n r q).mpr ⟨us, by omega, ?_, hrq⟩⟩
        exact fun x hx => hus x (List.mem_cons_of_mem _ hx)

end Repetition

theorem mem_noWord {isWord : Char → Bool} {s : CharSet} (h : s.items.contains .word = false) (c : Char) :
    s.mem isWord c = s.mem noWord c := by
  have hitem : ∀ i ∈ s.items, ∀ c, ClassItem.mem isWord c i = ClassItem.mem noWord c i := by
    intro i hi c
    cases i with
    | word =>
      rw [List.contains_eq_mem, decide_eq_false_iff_not] at h
      exact absurd hi h
    | range lo hi => rfl
    | space => rfl
  have hany : ∀ c, s.items.any (ClassItem.mem isWord c) = s.items.any (ClassItem.mem noWord c) := by
    intro c
    rw [Bool.eq_iff_iff, List.any_eq_true, List.any_eq_true]
    exact exists_congr fun i => and_congr_right fun hi => by rw [hitem i hi c]
  unfold CharSet.mem
  simp only [hany]

/-- The pieces of a repetition that are read after the first ones: the empty ones may be left out. -/
theorem flatten_filter_ne_nil : ∀ us : List Str, (us.filter fun x => !x.isEmpty).flatten = us.flatten
  | [] => rfl
  | [] :: us => by
    rw [List.filter_cons_of_neg (by simp), List.flatten_cons, List.nil_append]
    exact flatten_filter_ne_nil us
  | (c :: x) :: us => by
    rw [List.filter_cons_of_pos (by simp), List.flatten_cons, List.flatten_cons, flatten_filter_ne_nil us]

theorem length_le_flatten : ∀ us : List Str, (∀ x ∈ us, x ≠ []) → us.length ≤ us.flatten.length
  | [], _ => Nat.le_refl _
  | x :: us, h => by
    have hx := List.length_pos_iff.mpr (h x List.mem_cons_self)
    have hus := length_le_flatten us fun y hy => h y (List.mem_cons_of_mem _ hy)
    rw [List.flatten_cons, List.length_append, List.length_cons]
    omega

/-- What a plain expression reads are its words. -/
theorem mem_run_iff (isWord : Char → Bool) : ∀ (a : Ast), plain a = true → ∀ (p q : Pos),
    q ∈ run isWord a p ↔ ∃ u, Lang a u ∧ Reads u p q
  | .empty, _, p, q => by
    simp only [run, Lang, List.mem_singleton, exists_eq_left, reads_nil]
  | .set s, h, ⟨before, rest⟩, q => by
    have hs : s.items.contains .word = false := by simpa [plain] using h
    simp only [run, Lang]
    cases rest with
    | nil =>
      simp only [List.not_mem_nil, false_iff]
      rintro ⟨u, ⟨c, rfl, -⟩, hr, -⟩
      cases hr
    | cons c cs =>
      simp only [mem_noWord hs]
      constructor
      · intro hq
        split at hq
        next hc =>
          obtain rfl := List.mem_singleton.mp hq
          exact ⟨[c], ⟨c, rfl, hc⟩, rfl, rfl⟩
        · cases hq
      · rintro ⟨u, ⟨d, rfl, hd⟩, hr, hb⟩
        obtain ⟨rfl, hcs⟩ := List.cons_eq_cons.mp hr
        rw [if_pos hd, List.mem_singleton]
        obtain ⟨qb, qr⟩ := q
        rw [Pos.mk.injEq]
        exact ⟨hb, hcs.symm⟩
  | .seq a b, h, p, q => by
    obtain ⟨ha, hb⟩ := Bool.and_eq_true_iff.mp h
    simp only [run, Lang, List.mem_flatMap, mem_run_iff isWord a ha, mem_run_iff isWord b hb]
    constructor
    · rintro ⟨r, ⟨x, hx, hpr⟩, y, hy, hrq⟩
      exact ⟨x ++ y, ⟨x, y, rfl, hx, hy⟩, reads_append.2 ⟨r, hpr, hrq⟩⟩
    · rintro ⟨u, ⟨x, y, rfl, hx, hy⟩, hr⟩
      obtain ⟨r, hpr, hrq⟩ := reads_append.1 hr
      exact ⟨r, ⟨x, hx, hpr⟩, y, hy, hrq⟩
  | .alt a b, h, p, q => by
    obtain ⟨ha, hb⟩ := Bool.and_eq_true_iff.mp h
    simp only [run, Lang, List.mem_append, mem_run_iff isWord a ha, mem_run_iff isWord b hb, or_and_right, exists_or]
  | .rep a min max, h, p, q => by
    have hrun := mem_run_iff isWord a h
    simp only [run, Lang, List.mem_flatMap, mem_times hrun, mem_upTo hrun]
    constructor
    · rintro ⟨r, ⟨us, hlen, hus, hpr⟩, vs, hle, hvs, hrq⟩
      refine ⟨us.flatten ++ vs.flatten, ⟨us ++ vs, (List.flatten_append).symm, ?_, ?_, ?_⟩,
        reads_append.2 ⟨r, hpr, hrq⟩⟩
      · intro x hx
        rcases List.mem_append.mp hx with hx | hx
        · exact hus x hx
        · exact (hvs x hx).1
      · rw [List.length_append]
        omega
      · intro m hm
        subst hm
        simp only at hle
        rw [List.length_append]
        omega
    · rintro ⟨u, ⟨us, rfl, hus, hmin, hmax⟩, hr⟩
      have hsplit : us.flatten = (us.take min).flatten ++ ((us.drop min).filter fun x => !x.isEmpty).flatten := by
        rw [flatten_filter_ne_nil, ← List.flatten_append, List.take_append_drop]
      rw [hsplit] at hr
      obtain ⟨r, hpr, hrq⟩ := reads_append.1 hr
      refine ⟨r, ⟨us.take min, List.length_take_of_le hmin, fun x hx => hus x (List.mem_of_mem_take hx), hpr⟩,
        (us.drop min).filter fun x => !x.isEmpty, ?_, ?_, hrq⟩
      · cases max with
        | none =>
          have hpieces := length_le_flatten ((us.drop min).filter fun x => !x.isEmpty) fun x hx hnil => by
            rw [hnil] at hx
            cases (List.mem_filter.mp hx).2
          have hread := hrq.length
          simp only
          omega
        | some m =>
          have hfilter := List.length_filter_le (fun x : Str => !x.isEmpty) (us.drop min)
          have hbound := hmax m rfl
          rw [List.length_drop] at hfilter
          simp only
          omega
      · intro x hx
        obtain ⟨hx, hne⟩ := List.mem_filter.mp hx
        refine ⟨hus x (List.mem_of_mem_drop hx), ?_⟩
        rintro rfl
        cases hne
  | .wordBoundary, h, _, _ => by cases h

/-! ## Texts that contain a word -/

/-- Some part of the text is a word. -/
def Contains (a : Ast) (s : Str) : Prop := ∃ u, Lang a u ∧ u <:+: s

theorem Contains.mono {a : Ast} {s t : Str} (h : Contains a s) (hst : s <:+: t) : Contains a t := by
  obtain ⟨u, hu, hus⟩ := h
  exact ⟨u, hu, hus.trans hst⟩

theorem run_ne_nil_iff {isWord : Char → Bool} {a : Ast} (h : plain a = true) (p : Pos) :
    run isWord a p ≠ [] ↔ ∃ u, Lang a u ∧ u <+: p.rest := by
  constructor
  · intro hne
    obtain ⟨q, hq⟩ := List.exists_mem_of_ne_nil _ hne
    obtain ⟨u, hu, hr, -⟩ := (mem_run_iff isWord a h p q).mp hq
    exact ⟨u, hu, q.rest, hr.symm⟩
  · rintro ⟨u, hu, t, ht⟩
    exact List.ne_nil_of_mem ((mem_run_iff isWord a h p ⟨u.reverse ++ p.before, t⟩).mpr ⟨u, hu, ht.symm, rfl⟩)

/-- A match is found exactly when the text contains a word. -/
theorem contains_iff_findIter {isWord : Char → Bool} {a : Ast} (h : plain a = true) (s : Str) :
    Contains a s ↔ findIter isWord a s ≠ [] := by
  rw [ne_eq, findIter_eq_nil_iff]
  constructor
  · rintro ⟨u, hu, x, y, rfl⟩ hnone
    have hrun := hnone x (u ++ y) (List.append_assoc ..)
    exact (run_ne_nil_iff h ⟨x.reverse, u ++ y⟩).mpr ⟨u, hu, y, rfl⟩ hrun
  · intro hsome
    by_contra hnot
    refine hsome fun x y hxy => ?_
    by_contra hrun
    obtain ⟨u, hu, huy⟩ := (run_ne_nil_iff h _).mp hrun
    rw [hxy] at hnot
    exact hnot ⟨u, hu, huy.isInfix.trans (List.suffix_append x y).isInfix⟩

/-! ## Characters of words -/

/-- No word has the character. -/
def avoids (c : Char) : Ast → Bool
  | .empty => true
  | .set s => !s.mem noWord c
  | .seq a b => avoids c a && avoids c b
  | .alt a b => avoids c a && avoids c b
  | .rep a _ _ => avoids c a
  | .wordBoundary => true

theorem not_mem_of_avoids {c : Char} : ∀ {a : Ast} {u : Str}, avoids c a = true → Lang a u → c ∉ u
  | .empty, u, _, hu, hc => by
    obtain rfl : u = [] := hu
    cases hc
  | .set s, u, h, hu, hc => by
    obtain ⟨d, rfl, hd⟩ := hu
    obtain rfl := List.mem_singleton.mp hc
    rw [avoids, hd] at h
    cases h
  | .seq a b, u, h, hu, hc => by
    obtain ⟨ha, hb⟩ := Bool.and_eq_true_iff.mp h
    obtain ⟨x, y, rfl, hx, hy⟩ := hu
    rcases List.mem_append.mp hc with hc | hc
    · exact not_mem_of_avoids ha hx hc
    · exact not_mem_of_avoids hb hy hc
  | .alt a b, u, h, hu, hc => by
    obtain ⟨ha, hb⟩ := Bool.and_eq_true_iff.mp h
    rcases hu with hu | hu
    · exact not_mem_of_avoids ha hu hc
    · exact not_mem_of_avoids hb hu hc
  | .rep a min max, u, h, hu, hc => by
    obtain ⟨us, rfl, hus, -⟩ := hu
    obtain ⟨x, hx, hcx⟩ := List.mem_flatten.mp hc
    exact not_mem_of_avoids (a := a) h (hus x hx) hcx
  | .wordBoundary, _, _, hu, _ => hu

def nullable : Ast → Bool
  | .empty => true
  | .set _ => false
  | .seq a b => nullable a && nullable b
  | .alt a b => nullable a || nullable b
  | .rep a min _ => min == 0 || nullable a
  | .wordBoundary => false

theorem nullable_of_lang : ∀ {a : Ast}, Lang a [] → nullable a = true
  | .empty, _ => rfl
  | .set s, h => by
    obtain ⟨c, hc, -⟩ := h
    cases hc
  | .seq a b, h => by
    obtain ⟨x, y, hxy, hx, hy⟩ := h
    obtain ⟨rfl, rfl⟩ := List.append_eq_nil_iff.mp hxy.symm
    rw [nullable, nullable_of_lang hx, nullable_of_lang hy, Bool.and_true]
  | .alt a b, h => by
    rcases h with h | h
    · rw [nullable, nullable_of_lang h, Bool.true_or]
    · rw [nullable, nullable_of_lang h, Bool.or_true]
  | .rep a min max, h => by
    obtain ⟨us, hnil, hus, hmin, -⟩ := h
    rw [nullable]
    cases us with
    | nil =>
      rw [Nat.le_zero.mp hmin]
      rfl
    | cons x us =>
      obtain ⟨rfl, -⟩ := List.append_eq_nil_iff.mp (List.flatten_cons ▸ hnil.symm)
      rw [nullable_of_lang (hus [] List.mem_cons_self), Bool.or_true]

theorem not_contains_nil {a : Ast} (hnull : nullable a = false) : ¬Contains a [] := by
  rintro ⟨u, hu, hin⟩
  rw [List.eq_nil_of_infix_nil hin] at hu
  rw [nullable_of_lang hu] at hnull
  cases hnull

/-- No word ends with the character. -/
def lastAvoids (c : Char) : Ast → Bool
  | .empty => true
  | .set s => !s.mem noWord c
  | .seq a b => lastAvoids c b && (!nullable b || lastAvoids c a)
  | .alt a b => lastAvoids c a && lastAvoids c b
  | .rep a _ _ => lastAvoids c a
  | .wordBoundary => true

theorem last_of_lastAvoids {c : Char} : ∀ {a : Ast} {u : Str}, lastAvoids c a = true → Lang a u → u.getLast? ≠ some c
  | .empty, u, _, hu, hc => by
    obtain rfl : u = [] := hu
    cases hc
  | .set s, u, h, hu, hc => by
    obtain ⟨d, rfl, hd⟩ := hu
    obtain rfl : d = c := Option.some.inj hc
    rw [lastAvoids, hd] at h
    cases h
  | .seq a b, u, h, hu, hc => by
    obtain ⟨hb, ha⟩ := Bool.and_eq_true_iff.mp h
    obtain ⟨x, y, rfl, hx, hy⟩ := hu
    rcases eq_or_ne y [] with rfl | hne
    · rw [nullable_of_lang hy, Bool.not_true, Bool.false_or] at ha
      rw [List.append_nil] at hc
      exact last_of_lastAvoids ha hx hc
    · rw [List.getLast?_append_of_ne_nil _ hne] at hc
      exact last_of_lastAvoids hb hy hc
  | .alt a b, u, h, hu, hc => by
    obtain ⟨ha, hb⟩ := Bool.and_eq_true_iff.mp h
    rcases hu with hu | hu
    · exact last_of_lastAvoids ha hu hc
    · exact last_of_lastAvoids hb hu hc
  | .rep a min max, u, h, hu, hc => by
    obtain ⟨us, rfl, hus, -⟩ := hu
    -- the last piece that is not empty
    have hpiece : ∀ us : List Str, us.flatten.getLast? = some c → ∃ x ∈ us, x.getLast? = some c := by
      intro us
      induction us with
      | nil => exact fun h => by cases h
      | cons x us ih =>
        intro hlast
        rw [List.flatten_cons] at hlast
        rcases eq_or_ne us.flatten [] with hnil | hne
        · rw [hnil, List.append_nil] at hlast
          exact ⟨x, List.mem_cons_self, hlast⟩
        · rw [List.getLast?_append_of_ne_nil _ hne] at hlast
          obtain ⟨y, hy, hyc⟩ := ih hlast
          exact ⟨y, List.mem_cons_of_mem _ hy, hyc⟩
    obtain ⟨x, hx, hxc⟩ := hpiece us hc
    exact last_of_lastAvoids (a := a) h (hus x hx) hxc
  | .wordBoundary, _, _, hu, _ => hu

/-! ## Beginnings of words -/

/-- What may follow the character `c` in a word, as expressions. -/
def after (c : Char) : Ast → List Ast
  | .empty => []
  | .set s => if s.mem noWord c then [.empty] else []
  | .seq a b => (after c a).map (.seq · b) ++ (if nullable a then after c b else [])
  | .alt a b => after c a ++ after c b
  | .rep a min max => (after c a).map (.seq · (.rep a (min - 1) (max.map (· - 1))))
  | .wordBoundary => []

/-- A piece that is not empty can be taken first: the empty ones before it may as well come later. -/
theorem exists_first_piece {c : Char} {u : Str} : ∀ us : List Str, us.flatten = c :: u →
    ∃ (x : Str) (vs : List Str), (c :: x) ∈ us ∧ x ++ vs.flatten = u ∧ vs.length + 1 = us.length ∧ ∀ y ∈ vs, y ∈ us
  | [], h => by cases h
  | [] :: us, h => by
    obtain ⟨x, vs, hx, hflat, hlen, hvs⟩ := exists_first_piece us h
    refine ⟨x, [] :: vs, List.mem_cons_of_mem _ hx, hflat, by rw [List.length_cons, List.length_cons, hlen], ?_⟩
    intro y hy
    rcases List.mem_cons.mp hy with rfl | hy
    · exact List.mem_cons_self
    · exact List.mem_cons_of_mem _ (hvs y hy)
  | (d :: x) :: us, h => by
    obtain ⟨rfl, hflat⟩ := List.cons_eq_cons.mp h
    exact ⟨x, us, List.mem_cons_self, hflat, rfl, fun y hy => List.mem_cons_of_mem _ hy⟩

theorem lang_after {c : Char} : ∀ {a : Ast} {u : Str}, Lang a (c :: u) → ∃ b ∈ after c a, Lang b u
  | .empty, u, h => by cases h
  | .set s, u, h => by
    obtain ⟨d, hd, hmem⟩ := h
    obtain ⟨rfl, rfl⟩ := List.cons_eq_cons.mp hd
    exact ⟨.empty, by rw [after, if_pos hmem]; exact List.mem_singleton.mpr rfl, rfl⟩
  | .seq a b, u, h => by
    obtain ⟨x, y, hxy, hx, hy⟩ := h
    cases x with
    | nil =>
      rw [List.nil_append] at hxy
      rw [← hxy] at hy
      obtain ⟨b', hb', hu⟩ := lang_after hy
      refine ⟨b', ?_, hu⟩
      rw [after, nullable_of_lang hx]
      exact List.mem_append_right _ hb'
    | cons d x =>
      obtain ⟨rfl, rfl⟩ := List.cons_eq_cons.mp hxy
      obtain ⟨a', ha', hx'⟩ := lang_after hx
      exact ⟨.seq a' b, List.mem_append_left _ (List.mem_map.mpr ⟨a', ha', rfl⟩), x, y, rfl, hx', hy⟩
  | .alt a b, u, h => by
    rcases h with h | h
    · obtain ⟨a', ha', hu⟩ := lang_after h
      exact ⟨a', List.mem_append_left _ ha', hu⟩
    · obtain ⟨b', hb', hu⟩ := lang_after h
      exact ⟨b', List.mem_append_right _ hb', hu⟩
  | .rep a min max, u, h => by
    obtain ⟨us, hflat, hus, hmin, hmax⟩ := h
    obtain ⟨x, vs, hx, rfl, hlen, hvs⟩ := exists_first_piece us hflat.symm
    obtain ⟨a', ha', hx'⟩ := lang_after (hus _ hx)
    refine ⟨_, List.mem_map.mpr ⟨a', ha', rfl⟩, x, vs.flatten, rfl, hx', vs, rfl, fun y hy =>
      hus y (hvs y hy), by omega, ?_⟩
    intro m hm
    obtain ⟨m', hm', rfl⟩ := Option.map_eq_some_iff.mp hm
    have := hmax m' hm'
    omega
  | .wordBoundary, _, h => h.elim

/-- After the characters nothing is left of the expressions, and no word ended on the way. -/
def dies : List Ast → Str → Bool
  | [], _ => true
  | _ :: _, [] => false
  | a :: as, c :: t => (a :: as).all (fun a => !nullable a) && dies ((a :: as).flatMap (after c)) t

/-- No word begins with a text on which the expression dies, or is a beginning of it. -/
theorem incomparable_of_dies : ∀ {t : Str} {as : List Ast}, dies as t = true → ∀ {a : Ast}, a ∈ as → ∀ {u v : Str},
    Lang a u → ¬u <+: t ++ v
  | _, [], _, a, ha, _, _, _, _ => by cases ha
  | [], _ :: _, h, _, _, _, _, _, _ => by cases h
  | c :: t, b :: as, h, a, ha, u, v, hu, hp => by
    obtain ⟨hnull, hrec⟩ := Bool.and_eq_true_iff.mp h
    cases u with
    | nil =>
      have := List.all_eq_true.mp hnull a ha
      rw [nullable_of_lang hu] at this
      cases this
    | cons d u =>
      obtain ⟨rfl, htail⟩ := List.cons_prefix_cons.mp hp
      obtain ⟨a', ha', hua⟩ := lang_after hu
      exact incomparable_of_dies hrec (List.mem_flatMap.mpr ⟨a, ha, ha'⟩) hua htail

/-- The expression dies on every end of the text. -/
def diesWithin (a : Ast) : Str → Bool
  | [] => true
  | c :: t => dies [a] (c :: t) && diesWithin a t

/-- A word in a text does not start in a part on whose ends the expression dies. -/
theorem contains_of_diesWithin {a : Ast} : ∀ {t : Str}, diesWithin a t = true → ∀ {y : Str}, Contains a (t ++ y) →
    Contains a y
  | [], _, y, h => h
  | c :: t, hd, y, h => by
    obtain ⟨hdies, hrest⟩ := Bool.and_eq_true_iff.mp hd
    obtain ⟨u, hu, x, z, hxz⟩ := h
    cases x with
    | nil => exact absurd ⟨z, hxz⟩ (incomparable_of_dies hdies (List.mem_singleton.mpr rfl) hu)
    | cons d x =>
      rw [List.cons_append, List.cons_append, List.cons_append] at hxz
      exact contains_of_diesWithin hrest ⟨u, hu, x, z, (List.cons_eq_cons.mp hxz).2⟩

end Ironclaw.Regex
