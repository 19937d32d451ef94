import Ironclaw.Lib.Text

/-!
# Inserting a mark

A replacement that only puts a mark into each occurrence of a pattern is one pass over the text that looks at the
character before a place and the text behind it. Passes that do not see each other's marks are one pass.

- `replace_before`: a mark before each occurrence of a pattern;
- `insertAt_insertAt`: two passes in one;
- `marked_split`: what is read without a mark in it was in the text without one.
-/

namespace Ironclaw.Insertion

open Text

/-- Puts the mark before each character for which the test on the character before it and on the rest is true. -/
def insertAt (mark : Char) (P : Option Char → Str → Bool) : (prev : Option Char) → Str → Str
  | _, [] => []
  | prev, c :: cs => (if P prev (c :: cs) then [mark, c] else [c]) ++ insertAt mark P (some c) cs

section Pass

variable {mark : Char} {P Q : Option Char → Str → Bool}

theorem insertAt_cons_of_pos {prev : Option Char} {c : Char} {cs : Str} (h : P prev (c :: cs) = true) :
    insertAt mark P prev (c :: cs) = mark :: c :: insertAt mark P (some c) cs := by
  rw [insertAt, if_pos h]
  rfl

theorem insertAt_cons_of_neg {prev : Option Char} {c : Char} {cs : Str} (h : P prev (c :: cs) = false) :
    insertAt mark P prev (c :: cs) = c :: insertAt mark P (some c) cs := by
  rw [insertAt, if_neg (Bool.eq_false_iff.mp h)]
  rfl

/-- A text that no mark is put into is found behind a place where it was before. -/
theorem prefix_insertAt {p : Str} (hmark : mark ∉ p) (hP : ∀ {prev c cs}, P prev (c :: cs) = true → c ∉ p) :
    ∀ {prev : Option Char} {s : Str}, p <+: insertAt mark P prev s ↔ p <+: s := by
  induction p with
  | nil => exact iff_of_true List.nil_prefix List.nil_prefix
  | cons x p ih =>
    rw [List.mem_cons, not_or] at hmark
    intro prev s
    have ih := @ih hmark.2 fun h hc => hP h (List.mem_cons_of_mem x hc)
    cases s with
    | nil => rfl
    | cons c cs =>
      cases hc : P prev (c :: cs) with
      | true =>
        have hx : c ≠ x := fun hx => hP hc (hx ▸ List.mem_cons_self)
        rw [insertAt_cons_of_pos hc]
        refine iff_of_false (fun h => hmark.1 (List.cons_prefix_cons.mp h).1.symm) fun h => ?_
        exact hx (List.cons_prefix_cons.mp h).1.symm
      | false => rw [insertAt_cons_of_neg hc, List.cons_prefix_cons, List.cons_prefix_cons, ih]

/-- Two passes are one, when the second does not put its mark where the first did, and does not see the first one's. -/
theorem insertAt_insertAt (hmark : ∀ {prev r}, Q prev (mark :: r) = false)
    (hapart : ∀ {prev c cs}, P prev (c :: cs) = true → Q (some mark) (c :: insertAt mark P (some c) cs) = false)
    (hsame : ∀ {prev c cs}, Q prev (c :: insertAt mark P (some c) cs) = Q prev (c :: cs)) :
    ∀ (prev : Option Char) (s : Str),
      insertAt mark Q prev (insertAt mark P prev s) = insertAt mark (fun prev r => P prev r || Q prev r) prev s
  | _, [] => rfl
  | prev, c :: cs => by
    have ih := insertAt_insertAt hmark hapart hsame (some c) cs
    cases hP : P prev (c :: cs) with
    | true =>
      have hboth : (P prev (c :: cs) || Q prev (c :: cs)) = true := by rw [hP, Bool.true_or]
      rw [insertAt_cons_of_pos hP, insertAt_cons_of_neg hmark, insertAt_cons_of_neg (hapart hP), ih,
        insertAt_cons_of_pos hboth]
    | false =>
      have hboth : (P prev (c :: cs) || Q prev (c :: cs)) = Q prev (c :: cs) := by rw [hP, Bool.false_or]
      rw [insertAt_cons_of_neg hP]
      cases hQ : Q prev (c :: cs) with
      | true => rw [insertAt_cons_of_pos (hsame.trans hQ), ih, insertAt_cons_of_pos (hboth.trans hQ)]
      | false => rw [insertAt_cons_of_neg (hsame.trans hQ), ih, insertAt_cons_of_neg (hboth.trans hQ)]

/-! ## Replacements -/

/-- Where the test is false, nothing is put in. -/
theorem insertAt_append_of_not {c : Char} (hP : ∀ {prev d ds}, P prev (d :: ds) = true → d = c)
    (hprev : ∀ {prev prev' s}, P prev s = P prev' s) {prev : Option Char} {r : Str} : ∀ {q : Str} {prev' : Option Char},
      c ∉ q → insertAt mark P prev' (q ++ r) = q ++ insertAt mark P prev r
  | [], prev', _ => by
    cases r with
    | nil => rfl
    | cons d ds => rw [List.nil_append, List.nil_append, insertAt, insertAt, hprev]
  | d :: q, prev', hq => by
    rw [List.mem_cons, not_or] at hq
    have hd : P prev' (d :: (q ++ r)) = false := Bool.eq_false_iff.mpr fun h => hq.1 (hP h).symm
    rw [List.cons_append, insertAt_cons_of_neg hd, insertAt_append_of_not hP hprev hq.2]
    rfl

/-- The test for a pattern behind a place. -/
def before (pat : Str) : Option Char → Str → Bool := fun _ r => pat.isPrefixOf r

theorem before_head {c d : Char} {p ds : Str} {prev : Option Char} (h : before (c :: p) prev (d :: ds) = true) :
    d = c :=
  (List.cons_prefix_cons.mp (List.isPrefixOf_iff_prefix.mp h)).1.symm

/-- A mark before each occurrence of a pattern whose first character does not occur again in it. -/
theorem replace_before {c : Char} {p : Str} (hc : c ∉ p) : ∀ (s : Str) (prev : Option Char),
    replace (c :: p) (mark :: c :: p) s = insertAt mark (before (c :: p)) prev s
  | [], _ => rfl
  | d :: ds, prev => by
    by_cases h : c :: p <+: d :: ds
    · obtain ⟨r, hr⟩ := h
      have hshort : r.length < ds.length + 1 := by
        rw [← List.length_cons, ← hr, List.length_append, List.length_cons]
        omega
      obtain ⟨hcd, hds⟩ : c = d ∧ p ++ r = ds := List.cons_eq_cons.mp hr
      have ih := replace_before hc r none
      have hhere : before (c :: p) prev (d :: ds) = true := hr ▸ List.isPrefixOf_iff_prefix.mpr (List.prefix_append _ r)
      rw [insertAt_cons_of_pos hhere, ← hcd, ← hds, insertAt_append_of_not (P := before (c :: p)) before_head rfl hc,
        ← ih]
      exact replace_append (List.cons_ne_nil c p) r
    · have ih := replace_before hc ds (some d)
      have hhere : before (c :: p) prev (d :: ds) = false :=
        Bool.eq_false_iff.mpr fun hp => h (List.isPrefixOf_iff_prefix.mp hp)
      rw [replace_cons_of_not h, insertAt_cons_of_neg hhere, ih]
termination_by s => s.length
decreasing_by
  · exact hshort
  · exact Nat.lt_succ_self _

/-- A pass that does not put its mark into the rest of a pattern leaves the places of the pattern. -/
theorem before_insertAt {c d : Char} {p cs : Str} {prev : Option Char} (hmark : mark ∉ p)
    (hP : ∀ {prev d ds}, P prev (d :: ds) = true → d ∉ p) :
    before (c :: p) prev (d :: insertAt mark P (some d) cs) = before (c :: p) prev (d :: cs) := by
  rw [before, before, Bool.eq_iff_iff, List.isPrefixOf_iff_prefix, List.isPrefixOf_iff_prefix, List.cons_prefix_cons,
    List.cons_prefix_cons, prefix_insertAt hmark hP]

/-- The test for a pattern of two characters around a place. -/
def between (a b : Char) : Option Char → Str → Bool := fun prev r => prev == some a && r.head? == some b

/-- A mark in each occurrence of a pattern of two different characters. -/
theorem replace_between {a b : Char} (hab : a ≠ b) : ∀ (s : Str) (prev : Option Char),
    (prev = some a → s.head? ≠ some b) →
    replace [a, b] [a, mark, b] s = insertAt mark (between a b) prev s
  | [], _, _ => rfl
  | d :: ds, prev, hprev => by
    have hhere : between a b prev (d :: ds) = false := by
      rw [between, Bool.and_eq_false_iff, beq_eq_false_iff_ne, beq_eq_false_iff_ne]
      exact (em (prev = some a)).elim (fun h => .inr (hprev h)) .inl
    by_cases h : [a, b] <+: d :: ds
    · obtain ⟨r, hr⟩ := h
      obtain ⟨rfl, rfl⟩ : a = d ∧ b :: r = ds := List.cons_eq_cons.mp hr
      have ih := replace_between hab r (some b) fun h => absurd (Option.some.inj h).symm hab
      have hnext : between a b (some a) (b :: r) = true := by
        rw [between, List.head?_cons, beq_self_eq_true, beq_self_eq_true]
        rfl
      rw [← hr, replace_append (List.cons_ne_nil a [b]), hr, insertAt_cons_of_neg hhere,
        insertAt_cons_of_pos hnext, ← ih]
      rfl
    · have hnext : some d = some a → ds.head? ≠ some b := by
        rintro hd hb
        obtain rfl := Option.some.inj hd
        obtain ⟨es, rfl⟩ := List.head?_eq_some_iff.mp hb
        exact h ⟨es, rfl⟩
      have ih := replace_between hab ds (some d) hnext
      rw [replace_cons_of_not h, insertAt_cons_of_neg hhere, ih]

end Pass

/-! ## Reading a marked text

Each character of the text with the test at its place; characters may also be dropped. -/

section Marked

variable (mark : Char) (P : Option Char → Str → Bool) (dropped : Char)

/-- The characters of a text with what the test says at their places. -/
def tested : (prev : Option Char) → Str → List (Bool × Char)
  | _, [] => []
  | prev, c :: cs => (P prev (c :: cs), c) :: tested (some c) cs

/-- What a character becomes. -/
def image (m : Bool × Char) : Str := if m.2 = dropped then [] else if m.1 then [mark, m.2] else [m.2]

/-- The text without the dropped characters. -/
def strip (s : Str) : Str := s.filter fun c => c ≠ dropped

variable {mark P dropped}

theorem tested_snd : ∀ (prev : Option Char) (s : Str), (tested P prev s).map Prod.snd = s
  | _, [] => rfl
  | prev, c :: cs => by rw [tested, List.map_cons, tested_snd]

theorem tested_append : ∀ (x r : Str) (prev : Option Char), ∃ A, A.map Prod.snd = x ∧
    tested P prev (x ++ r) = A ++ tested P (x.getLast?.or prev) r
  | [], r, prev => ⟨[], rfl, rfl⟩
  | c :: x, r, prev => by
    obtain ⟨A, hA, htested⟩ := tested_append x r (some c)
    refine ⟨(P prev (c :: (x ++ r)), c) :: A, by rw [List.map_cons, hA], ?_⟩
    have hlast : x.getLast?.or (some c) = (c :: x).getLast?.or prev := by
      rw [List.getLast?_cons]
      cases x.getLast? <;> rfl
    rw [List.cons_append, tested, htested, hlast]
    rfl

/-- The test at a place of the text. -/
theorem tested_split {prev : Option Char} {s : Str} {A B : List (Bool × Char)} {b : Bool} {c : Char}
    (h : tested P prev s = A ++ (b, c) :: B) :
    s = A.map Prod.snd ++ c :: B.map Prod.snd ∧
      b = P ((A.map Prod.snd).getLast?.or prev) (c :: B.map Prod.snd) := by
  have hs : s = A.map Prod.snd ++ c :: B.map Prod.snd := by
    rw [← tested_snd (P := P) prev s, h, List.map_append, List.map_cons]
  refine ⟨hs, ?_⟩
  obtain ⟨A', hA', htested⟩ := tested_append (P := P) (A.map Prod.snd) (c :: B.map Prod.snd) prev
  rw [← hs, h, tested] at htested
  have hlen : A.length = A'.length := by
    have hmap : (A.map Prod.snd).length = A.length := List.length_map ..
    rw [← hmap, ← hA', List.length_map]
  have hrest := (List.append_inj htested hlen).2
  exact (Prod.mk.inj (List.cons_eq_cons.mp hrest).1).1

theorem strip_append (s t : Str) : strip dropped (s ++ t) = strip dropped s ++ strip dropped t := List.filter_append s t

theorem mem_strip {s : Str} {c : Char} : c ∈ strip dropped s ↔ c ∈ s ∧ c ≠ dropped := by
  rw [strip, List.mem_filter, decide_eq_true_iff]

theorem strip_cons_of_ne {c : Char} (h : c ≠ dropped) (s : Str) : strip dropped (c :: s) = c :: strip dropped s :=
  List.filter_cons_of_pos (decide_eq_true h)

theorem strip_cons_self (s : Str) : strip dropped (dropped :: s) = strip dropped s :=
  List.filter_cons_of_neg (by simp)

/-- Dropping characters from a marked text, where the test is false at a dropped one. -/
theorem strip_insertAt (hmark : mark ≠ dropped) (hP : ∀ {prev cs}, P prev (dropped :: cs) = false) :
    ∀ (prev : Option Char) (s : Str),
      strip dropped (insertAt mark P prev s) = (tested P prev s).flatMap (image mark dropped)
  | _, [] => rfl
  | prev, c :: cs => by
    have ih := strip_insertAt hmark hP (some c) cs
    rw [tested, List.flatMap_cons, ← ih]
    by_cases hc : c = dropped
    · subst hc
      rw [insertAt_cons_of_neg hP, strip_cons_self, image, if_pos rfl, List.nil_append]
    · cases hb : P prev (c :: cs) with
      | true => rw [insertAt_cons_of_pos hb, strip_cons_of_ne hmark, strip_cons_of_ne hc, image, if_neg hc]; rfl
      | false => rw [insertAt_cons_of_neg hb, strip_cons_of_ne hc, image, if_neg hc]; rfl

/-- A character of the image that is no mark comes from a place of the text. -/
theorem image_split : ∀ {A : List (Bool × Char)} {X Y : Str} {e : Char}, e ≠ mark →
    A.flatMap (image mark dropped) = X ++ e :: Y → ∃ A₁ b A₂, A = A₁ ++ (b, e) :: A₂ ∧ e ≠ dropped ∧
      A₁.flatMap (image mark dropped) ++ (if b then [mark] else []) = X ∧ A₂.flatMap (image mark dropped) = Y
  | [], X, Y, e, _, h => absurd h.symm (List.append_ne_nil_of_right_ne_nil X (List.cons_ne_nil e Y))
  | (b, c) :: A, X, Y, e, he, h => by
    rw [List.flatMap_cons, image] at h
    by_cases hc : c = dropped
    · rw [if_pos hc, List.nil_append] at h
      obtain ⟨A₁, b', A₂, hA, hne, hX, hY⟩ := image_split he h
      refine ⟨(b, c) :: A₁, b', A₂, by rw [hA]; rfl, hne, ?_, hY⟩
      rw [List.flatMap_cons, image, if_pos hc, List.nil_append, hX]
    · rw [if_neg hc] at h
      have hdone : ∀ {X' Y'}, c :: A.flatMap (image mark dropped) = X' ++ e :: Y' →
          (if b then [mark] else []) ++ X' = X → Y' = Y → ∃ A₁ b' A₂, (b, c) :: A = A₁ ++ (b', e) :: A₂ ∧ e ≠ dropped ∧
            A₁.flatMap (image mark dropped) ++ (if b' then [mark] else []) = X ∧
            A₂.flatMap (image mark dropped) = Y := by
        rintro (_ | ⟨d, X'⟩) Y' h' hX rfl
        · obtain ⟨rfl, hY⟩ := List.cons_eq_cons.mp h'
          rw [List.append_nil] at hX
          exact ⟨[], b, A, rfl, hc, hX, hY⟩
        · obtain ⟨rfl, hrest⟩ := List.cons_eq_cons.mp h'
          obtain ⟨A₁, b', A₂, hA, hne, hX', hY⟩ := image_split he hrest
          refine ⟨(b, c) :: A₁, b', A₂, by rw [hA]; rfl, hne, ?_, hY⟩
          rw [List.flatMap_cons, image, if_neg hc, List.append_assoc, hX', ← hX]
          cases b <;> rfl
      cases b with
      | false => exact hdone h rfl rfl
      | true =>
        cases X with
        | nil => exact absurd (List.cons_eq_cons.mp h).1.symm he
        | cons d X =>
          obtain ⟨rfl, hrest⟩ := List.cons_eq_cons.mp h
          exact hdone hrest rfl rfl

/-- A part of the image without a mark comes from a part of the text at whose places the test is false. -/
theorem image_prefix : ∀ {u : Str} {A : List (Bool × Char)} {Y : Str}, mark ∉ u →
    A.flatMap (image mark dropped) = u ++ Y → ∃ T B, A = T ++ B ∧ (∀ m ∈ T, m.2 ≠ dropped → m.1 = false) ∧
      strip dropped (T.map Prod.snd) = u ∧ (∀ c ∈ (T.map Prod.snd).getLast?, c ≠ dropped) ∧
      B.flatMap (image mark dropped) = Y
  | [], A, Y, _, h => ⟨[], A, rfl, (fun m hm => by cases hm), rfl, (fun c hc => by cases hc), h⟩
  | e :: u, A, Y, hu, h => by
    rw [List.mem_cons, not_or] at hu
    obtain ⟨A₁, b, A₂, rfl, hne, hX, hY⟩ := image_split (X := []) (Ne.symm hu.1) h
    obtain ⟨hA₁, hb⟩ := List.append_eq_nil_iff.mp hX
    obtain ⟨T, B, rfl, hflags, hstrip, hlast, hB⟩ := image_prefix hu.2 hY
    have hdropped : ∀ m ∈ A₁, m.2 = dropped := by
      intro m hm
      have himage := List.flatMap_eq_nil_iff.mp hA₁ m hm
      unfold image at himage
      split at himage
      next hm => exact hm
      · split at himage <;> cases himage
    have hnone : strip dropped (A₁.map Prod.snd) = [] := by
      refine List.filter_eq_nil_iff.mpr fun c hc => ?_
      obtain ⟨m, hm, rfl⟩ := List.mem_map.mp hc
      rw [hdropped m hm]
      simp
    refine ⟨A₁ ++ (b, e) :: T, B, by simp, ?_, ?_, ?_, hB⟩
    · intro m hm hkept
      rcases List.mem_append.mp hm with hm | hm
      · exact absurd (hdropped m hm) hkept
      · rcases List.mem_cons.mp hm with rfl | hm
        · cases b with
          | false => rfl
          | true => cases hb
        · exact hflags m hm hkept
    · rw [List.map_append, strip_append, hnone, List.nil_append, List.map_cons, strip_cons_of_ne hne, hstrip]
    · intro c hc
      rw [List.map_append, List.map_cons, List.getLast?_append, List.getLast?_cons, Option.some_or] at hc
      obtain rfl := Option.some.inj hc
      cases hT : (T.map Prod.snd).getLast? with
      | none => exact hne
      | some d => exact hlast d hT

/-- Where the test is false at all characters that are kept, only characters are dropped. -/
theorem image_of_false : ∀ {T : List (Bool × Char)}, (∀ m ∈ T, m.2 ≠ dropped → m.1 = false) →
    T.flatMap (image mark dropped) = strip dropped (T.map Prod.snd)
  | [], _ => rfl
  | (b, c) :: T, h => by
    have ih := image_of_false fun m hm => h m (List.mem_cons_of_mem _ hm)
    rw [List.flatMap_cons, ih, List.map_cons, image]
    by_cases hc : c = dropped
    · subst hc
      rw [if_pos rfl, strip_cons_self, List.nil_append]
    · have hb : b = false := h (b, c) List.mem_cons_self hc
      rw [if_neg hc, hb, strip_cons_of_ne hc]
      rfl

/-- The last character of the image is the last one of the text that is not dropped. -/
theorem getLast?_image (A : List (Bool × Char)) :
    (A.flatMap (image mark dropped)).getLast? = (strip dropped (A.map Prod.snd)).getLast? := by
  rcases List.eq_nil_or_concat' A with rfl | ⟨A, ⟨b, c⟩, rfl⟩
  · rfl
  · have ih := getLast?_image A
    rw [List.flatMap_append, List.flatMap_singleton, List.map_append, List.map_singleton, strip_append]
    by_cases hc : c = dropped
    · subst hc
      rw [image, if_pos rfl, List.append_nil, strip_cons_self, ih]
      exact congrArg List.getLast? (List.append_nil _).symm
    · have himage : (image mark dropped (b, c)).getLast? = some c := by
        rw [image, if_neg hc]
        cases b <;> rfl
      rw [List.getLast?_append, himage, strip_cons_of_ne hc, List.getLast?_append]
      rfl
termination_by A.length
decreasing_by
  subst_vars
  simp

end Marked

end Ironclaw.Insertion
