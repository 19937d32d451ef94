import Ironclaw.Lib.RegexLang

/-!
# Rewritings that create no match

Three ways in which an escaping step changes a text: characters are put in, the carriage returns before line breaks are
left out, and a block is put in at the start of a line. For each there is a test on expressions that keeps a match of
the new text from being one that the old text did not have.

- `contains_of_ins`, `contains_of_crlf`, `contains_of_block`: the three rules.
-/

namespace Ironclaw.Regex

open Text

theorem lang_rep_set {cs : CharSet} {min : Nat} {max : Option Nat} {u : Str} :
    Lang (.rep (.set cs) min max) u ↔
      (∀ c ∈ u, cs.mem noWord c = true) ∧ min ≤ u.length ∧ ∀ m, max = some m → u.length - min ≤ m - min := by
  constructor
  · rintro ⟨us, rfl, hus, hmin, hmax⟩
    have hlen : us.flatten.length = us.length := by
      clear hmin hmax
      induction us with
      | nil => rfl
      | cons x us ih =>
        obtain ⟨c, rfl, -⟩ := hus x List.mem_cons_self
        rw [List.flatten_cons, List.length_append, ih fun y hy => hus y (List.mem_cons_of_mem _ hy),
          List.length_singleton, Nat.add_comm]
        rfl
    refine ⟨fun c hc => ?_, by rw [hlen]; exact hmin, by rw [hlen]; exact hmax⟩
    obtain ⟨x, hx, hcx⟩ := List.mem_flatten.mp hc
    obtain ⟨d, rfl, hd⟩ := hus x hx
    rw [List.mem_singleton.mp hcx]
    exact hd
  · rintro ⟨hu, hmin, hmax⟩
    refine ⟨u.map fun c => [c], ?_, ?_, by rw [List.length_map]; exact hmin, by rw [List.length_map]; exact hmax⟩
    · clear hu hmin hmax
      induction u with
      | nil => rfl
      | cons c u ih => rw [List.map_cons, List.flatten_cons, ← ih, List.singleton_append]
    · intro x hx
      obtain ⟨c, hc, rfl⟩ := List.mem_map.mp hx
      exact ⟨c, rfl, hu c hc⟩

/-! ## Characters put in -/

/-- The second text is the first with some characters `c` put in. -/
inductive Ins (c : Char) : Str → Str → Prop
  | nil : Ins c [] []
  | keep (x : Char) {s t : Str} : Ins c s t → Ins c (x :: s) (x :: t)
  | add {s t : Str} : Ins c s t → Ins c s (c :: t)

section Insertion

variable {c : Char}

theorem Ins.refl : ∀ s : Str, Ins c s s
  | [] => .nil
  | x :: s => .keep x (refl s)

theorem Ins.append {s t s' t' : Str} (h : Ins c s t) (h' : Ins c s' t') : Ins c (s ++ s') (t ++ t') := by
  induction h with
  | nil => exact h'
  | keep x _ ih => exact .keep x ih
  | add _ ih => exact .add ih

theorem Ins.trans {r s t : Str} (h : Ins c r s) (h' : Ins c s t) : Ins c r t := by
  induction h' generalizing r with
  | nil => exact h
  | keep x hs ih =>
    cases h with
    | keep _ h => exact .keep x (ih h)
    | add h => exact .add (ih h)
  | add _ ih => exact .add (ih h)

theorem Ins.split {x y s : Str} (h : Ins c s (x ++ y)) : ∃ s₁ s₂, s = s₁ ++ s₂ ∧ Ins c s₁ x ∧ Ins c s₂ y := by
  induction x generalizing s with
  | nil => exact ⟨[], s, rfl, .nil, h⟩
  | cons d x ih =>
    cases h with
    | keep _ h =>
      obtain ⟨s₁, s₂, rfl, h₁, h₂⟩ := ih h
      exact ⟨d :: s₁, s₂, rfl, .keep d h₁, h₂⟩
    | add h =>
      obtain ⟨s₁, s₂, rfl, h₁, h₂⟩ := ih h
      exact ⟨s₁, s₂, rfl, .add h₁, h₂⟩

theorem Ins.eq_of_not_mem {s t : Str} (h : Ins c s t) (hc : c ∉ t) : s = t := by
  induction h with
  | nil => rfl
  | keep x _ ih => rw [ih fun hm => hc (List.mem_cons_of_mem _ hm)]
  | add _ _ => exact absurd List.mem_cons_self hc

theorem Ins.subset {s t : Str} (h : Ins c s t) : ∀ d ∈ s, d ∈ t := by
  induction h with
  | nil => exact fun d hd => hd
  | keep x _ ih =>
    intro d hd
    rcases List.mem_cons.mp hd with rfl | hd
    · exact List.mem_cons_self
    · exact List.mem_cons_of_mem _ (ih d hd)
  | add _ ih => exact fun d hd => List.mem_cons_of_mem _ (ih d hd)

theorem Ins.length_le {s t : Str} (h : Ins c s t) : s.length ≤ t.length := by
  induction h with
  | nil => exact Nat.le_refl _
  | keep x _ ih =>
    rw [List.length_cons, List.length_cons]
    omega
  | add _ ih =>
    rw [List.length_cons]
    omega

/-- Replacing a text by one with more characters `c` puts these in. -/
theorem ins_replaceGo {pat rep : Str} (hne : pat ≠ []) (hi : Ins c pat rep) : ∀ (s : Str) (skip : Nat),
    Ins c (s.drop skip) (replaceGo pat rep skip s)
  | [], skip => by
    rw [List.drop_nil, replaceGo]
    exact .nil
  | x :: s, skip + 1 => ins_replaceGo hne hi s skip
  | x :: s, 0 => by
    rw [replaceGo, List.drop_zero]
    split
    next hpre =>
      obtain ⟨t, ht⟩ := List.isPrefixOf_iff_prefix.mp hpre
      cases pat with
      | nil => exact absurd rfl hne
      | cons d pat =>
        obtain ⟨rfl, hs⟩ := List.cons_eq_cons.mp ht
        have hdrop : s.drop ((d :: pat).length - 1) = t := by
          rw [← hs]
          exact List.drop_left
        have hrest := ins_replaceGo hne hi s ((d :: pat).length - 1)
        rw [← ht]
        rw [hdrop] at hrest
        exact hi.append hrest
    · exact .keep x (ins_replaceGo hne hi s 0)

theorem ins_replace {pat rep : Str} (hne : pat ≠ []) (hi : Ins c pat rep) (s : Str) : Ins c s (replace pat rep s) :=
  ins_replaceGo hne hi s 0

/-- Replacing a character that does not occur changes nothing. -/
theorem replace_of_not_mem {d : Char} {rep : Str} : ∀ {s : Str}, d ∉ s → replace [d] rep s = s
  | [], _ => rfl
  | x :: s, h => by
    have hx : ¬[d].isPrefixOf (x :: s) = true := by
      intro hp
      rw [List.isPrefixOf_cons_cons, Bool.and_eq_true_iff] at hp
      rw [eq_of_beq hp.1] at h
      exact h List.mem_cons_self
    have ih : replace [d] rep s = s := replace_of_not_mem fun hm => h (List.mem_cons_of_mem x hm)
    rw [replace, replaceGo, if_neg hx]
    exact congrArg (x :: ·) ih

/-- Taking characters `c` out of a word leaves a word. -/
def delClosed (c : Char) : Ast → Bool
  | .empty => true
  | .set s => !s.mem noWord c
  | .seq a b => delClosed c a && delClosed c b
  | .alt a b => delClosed c a && delClosed c b
  | .rep (.set _) 0 _ => true
  | .rep a _ _ => avoids c a
  | .wordBoundary => true

theorem lang_of_ins : ∀ {a : Ast} {s t : Str}, delClosed c a = true → Lang a t → Ins c s t → Lang a s
  | .empty, s, t, _, ht, hi => by
    obtain rfl : t = [] := ht
    cases hi
    rfl
  | .set cs, s, t, h, ht, hi => by
    rw [hi.eq_of_not_mem (not_mem_of_avoids (a := .set cs) h ht)]
    exact ht
  | .seq a b, s, t, h, ht, hi => by
    obtain ⟨ha, hb⟩ := Bool.and_eq_true_iff.mp h
    obtain ⟨x, y, rfl, hx, hy⟩ := ht
    obtain ⟨s₁, s₂, rfl, h₁, h₂⟩ := hi.split
    exact ⟨s₁, s₂, rfl, lang_of_ins ha hx h₁, lang_of_ins hb hy h₂⟩
  | .alt a b, s, t, h, ht, hi => by
    obtain ⟨ha, hb⟩ := Bool.and_eq_true_iff.mp h
    rcases ht with ht | ht
    · exact .inl (lang_of_ins ha ht hi)
    · exact .inr (lang_of_ins hb ht hi)
  | .rep a min max, s, t, h, ht, hi => by
    unfold delClosed at h
    split at h
    next heq => cases heq
    next heq => cases heq
    next heq => cases heq
    next heq => cases heq
    next cs _ heq =>
      cases heq
      obtain ⟨hcs, -, hmax⟩ := lang_rep_set.1 ht
      refine lang_rep_set.2 ⟨fun d hd => hcs d (hi.subset d hd), Nat.zero_le _, fun m hm => ?_⟩
      have := hmax m hm
      have := hi.length_le
      omega
    next heq =>
      cases heq
      rw [hi.eq_of_not_mem (not_mem_of_avoids (a := .rep a min max) h ht)]
      exact ht
    next heq => cases heq
  | .wordBoundary, _, _, _, ht, _ => ht.elim

theorem contains_of_ins {a : Ast} (ha : delClosed c a = true) {s t : Str} (hi : Ins c s t) (h : Contains a t) :
    Contains a s := by
  obtain ⟨u, hu, x, y, rfl⟩ := h
  obtain ⟨s', s₃, rfl, hi', -⟩ := hi.split
  obtain ⟨s₁, s₂, rfl, -, h₂⟩ := hi'.split
  exact ⟨s₂, lang_of_ins ha hu h₂, s₁, s₃, rfl⟩

end Insertion

/-! ## Line breaks -/

/-- The second text is the first with some carriage returns put in before line breaks. -/
inductive CrLf : Str → Str → Prop
  | nil : CrLf [] []
  | keep (x : Char) {s t : Str} : CrLf s t → CrLf (x :: s) (x :: t)
  | crlf {s t : Str} : CrLf s t → CrLf ('\n' :: s) ('\r' :: '\n' :: t)

theorem CrLf.refl : ∀ s : Str, CrLf s s
  | [] => .nil
  | x :: s => .keep x (refl s)

theorem CrLf.append {s t s' t' : Str} (h : CrLf s t) (h' : CrLf s' t') : CrLf (s ++ s') (t ++ t') := by
  induction h with
  | nil => exact h'
  | keep x _ ih => exact .keep x ih
  | crlf _ ih => exact .crlf ih

theorem CrLf.split {x y t : Str} (h : CrLf (x ++ y) t) : ∃ t₁ t₂, t = t₁ ++ t₂ ∧ CrLf x t₁ ∧ CrLf y t₂ := by
  induction x generalizing t with
  | nil => exact ⟨[], t, rfl, .nil, h⟩
  | cons d x ih =>
    cases h with
    | keep _ h =>
      obtain ⟨t₁, t₂, rfl, h₁, h₂⟩ := ih h
      exact ⟨d :: t₁, t₂, rfl, .keep d h₁, h₂⟩
    | crlf h =>
      obtain ⟨t₁, t₂, rfl, h₁, h₂⟩ := ih h
      exact ⟨'\r' :: '\n' :: t₁, t₂, rfl, .crlf h₁, h₂⟩

theorem CrLf.pieces : ∀ {us : List Str} {t : Str}, CrLf us.flatten t →
    ∃ ts : List Str, t = ts.flatten ∧ ts.length = us.length ∧ ∀ y ∈ ts, ∃ x ∈ us, CrLf x y
  | [], t, h => by
    cases h
    exact ⟨[], rfl, rfl, fun y hy => by cases hy⟩
  | x :: us, t, h => by
    rw [List.flatten_cons] at h
    obtain ⟨t₁, t₂, rfl, h₁, h₂⟩ := h.split
    obtain ⟨ts, rfl, hlen, hts⟩ := h₂.pieces
    refine ⟨t₁ :: ts, (List.flatten_cons).symm, by rw [List.length_cons, List.length_cons, hlen], fun y hy => ?_⟩
    rcases List.mem_cons.mp hy with rfl | hy
    · exact ⟨x, List.mem_cons_self, h₁⟩
    · obtain ⟨z, hz, hzy⟩ := hts y hy
      exact ⟨z, List.mem_cons_of_mem _ hz, hzy⟩

theorem CrLf.eq_of_not_mem {s t : Str} (h : CrLf s t) (hn : '\n' ∉ s) : t = s := by
  induction h with
  | nil => rfl
  | keep x _ ih => rw [ih fun hm => hn (List.mem_cons_of_mem _ hm)]
  | crlf _ _ => exact absurd List.mem_cons_self hn

theorem CrLf.length_le {s t : Str} (h : CrLf s t) : s.length ≤ t.length := by
  induction h with
  | nil => exact Nat.le_refl _
  | keep x _ ih =>
    rw [List.length_cons, List.length_cons]
    omega
  | crlf _ ih =>
    rw [List.length_cons, List.length_cons, List.length_cons]
    omega

theorem CrLf.forall_mem {P : Char → Prop} {s t : Str} (h : CrLf s t) (hs : ∀ c ∈ s, P c) (hcr : P '\n' → P '\r') :
    ∀ c ∈ t, P c := by
  induction h with
  | nil => exact hs
  | keep x _ ih =>
    intro c hc
    rcases List.mem_cons.mp hc with rfl | hc
    · exact hs c List.mem_cons_self
    · exact ih (fun d hd => hs d (List.mem_cons_of_mem _ hd)) c hc
  | crlf _ ih =>
    have hlf : P '\n' := hs '\n' List.mem_cons_self
    intro c hc
    rcases List.mem_cons.mp hc with rfl | hc
    · exact hcr hlf
    · rcases List.mem_cons.mp hc with rfl | hc
      · exact hlf
      · exact ih (fun d hd => hs d (List.mem_cons_of_mem _ hd)) c hc

theorem isPrefix_stripCr (line : Str) : stripCr line <+: line := by
  unfold stripCr
  split
  · exact List.dropLast_prefix line
  · exact List.prefix_refl line

/-- A carriage return that was taken off a line stood before the line break. -/
theorem crlf_stripCr (line : Str) {s t : Str} (h : CrLf s t) :
    CrLf (stripCr line ++ '\n' :: s) (line ++ '\n' :: t) := by
  unfold stripCr
  split
  next hcr =>
    obtain ⟨x, rfl⟩ : ∃ x, line = x ++ ['\r'] := ⟨_, (List.dropLast_append_getLast? _ hcr).symm⟩
    rw [List.dropLast_concat, List.append_assoc]
    exact (CrLf.refl x).append (.crlf h)
  · exact (CrLf.refl line).append (.keep '\n' h)

/-- The lines, joined again, are the beginning of the text without some carriage returns. -/
theorem crlf_lines (s : Str) : ∃ t, CrLf (join ['\n'] (lines s)) t ∧ t <+: s := by
  have hpieces : ∀ pieces : List Str, pieces ≠ [] →
      ∃ t, CrLf (join ['\n'] (pieces.dropLast.map stripCr ++
        (pieces.getLast?.filter fun piece => !piece.isEmpty).toList)) t ∧ t <+: join ['\n'] pieces := by
    intro pieces hne
    induction pieces with
    | nil => exact absurd rfl hne
    | cons p pieces ih =>
      cases pieces with
      | nil =>
        rw [join_singleton]
        refine ⟨p, ?_, List.prefix_refl p⟩
        cases p with
        | nil => exact .nil
        | cons c p =>
          change CrLf (join ['\n'] [c :: p]) (c :: p)
          rw [join_singleton]
          exact CrLf.refl (c :: p)
      | cons q pieces =>
        obtain ⟨t, ht, hpre⟩ := ih (List.cons_ne_nil q pieces)
        rw [List.dropLast_cons_of_ne_nil (List.cons_ne_nil q pieces), List.map_cons, List.cons_append,
          List.getLast?_cons_cons, join_cons_cons]
        cases hrest : (q :: pieces).dropLast.map stripCr ++
            ((q :: pieces).getLast?.filter fun piece => !piece.isEmpty).toList with
        | nil =>
          -- the last line break of the text
          refine ⟨stripCr p, ?_, (isPrefix_stripCr p).trans (List.prefix_append p _)⟩
          rw [join_singleton]
          exact CrLf.refl _
        | cons r rest =>
          rw [hrest] at ht
          refine ⟨p ++ '\n' :: t, ?_, ?_⟩
          · rw [join_cons_cons]
            exact crlf_stripCr p ht
          · exact (List.prefix_append_right_inj p).mpr (List.cons_prefix_cons.mpr ⟨rfl, hpre⟩)
  obtain ⟨t, ht, hp⟩ := hpieces (s.splitOn '\n') (List.splitOn_ne_nil _ _)
  refine ⟨t, ht, ?_⟩
  rw [join, List.intercalate_splitOn] at hp
  exact hp

/-- Carriage returns before the line breaks of a word leave it a word. -/
def crlfClosed : Ast → Bool
  | .empty => true
  | .set s => !s.mem noWord '\n'
  | .seq a b => crlfClosed a && crlfClosed b
  | .alt a b => crlfClosed a && crlfClosed b
  | .rep (.set s) _ none => !s.mem noWord '\n' || s.mem noWord '\r'
  | .rep a _ _ => crlfClosed a
  | .wordBoundary => true

theorem lang_of_crlf : ∀ {a : Ast} {s t : Str}, crlfClosed a = true → Lang a s → CrLf s t → Lang a t
  | .empty, s, t, _, hs, hi => by
    obtain rfl : s = [] := hs
    cases hi
    rfl
  | .set cs, s, t, h, hs, hi => by
    rw [hi.eq_of_not_mem (not_mem_of_avoids (a := .set cs) h hs)]
    exact hs
  | .seq a b, s, t, h, hs, hi => by
    obtain ⟨ha, hb⟩ := Bool.and_eq_true_iff.mp h
    obtain ⟨x, y, rfl, hx, hy⟩ := hs
    obtain ⟨t₁, t₂, rfl, h₁, h₂⟩ := hi.split
    exact ⟨t₁, t₂, rfl, lang_of_crlf ha hx h₁, lang_of_crlf hb hy h₂⟩
  | .alt a b, s, t, h, hs, hi => by
    obtain ⟨ha, hb⟩ := Bool.and_eq_true_iff.mp h
    rcases hs with hs | hs
    · exact .inl (lang_of_crlf ha hs hi)
    · exact .inr (lang_of_crlf hb hs hi)
  | .rep a min max, s, t, h, hs, hi => by
    unfold crlfClosed at h
    split at h
    next heq => cases heq
    next heq => cases heq
    next heq => cases heq
    next heq => cases heq
    next cs _ heq =>
      cases heq
      obtain ⟨hcs, hmin, -⟩ := lang_rep_set.1 hs
      have hlen := hi.length_le
      refine lang_rep_set.2 ⟨hi.forall_mem hcs ?_, by omega, fun m hm => by cases hm⟩
      intro hlf
      rw [hlf] at h
      exact h
    next heq =>
      cases heq
      obtain ⟨us, rfl, hus, hmin, hmax⟩ := hs
      obtain ⟨ts, rfl, hlen, hts⟩ := hi.pieces
      refine ⟨ts, rfl, fun y hy => ?_, by rw [hlen]; exact hmin, by rw [hlen]; exact hmax⟩
      obtain ⟨x, hx, hxy⟩ := hts y hy
      exact lang_of_crlf h (hus x hx) hxy
    next heq => cases heq
  | .wordBoundary, _, _, _, hs, _ => hs.elim

theorem contains_of_crlf {a : Ast} (ha : crlfClosed a = true) {s t : Str} (hi : CrLf s t) (h : Contains a s) :
    Contains a t := by
  obtain ⟨u, hu, x, y, rfl⟩ := h
  obtain ⟨t', t₃, rfl, hi', -⟩ := hi.split
  obtain ⟨t₁, t₂, rfl, -, h₂⟩ := hi'.split
  exact ⟨t₂, lang_of_crlf ha hu h₂, t₁, t₃, rfl⟩

/-! ## Blocks -/

/-- Characters in a row that belong to no word split the text. -/
theorem contains_of_separator {a : Ast} {c : Char} (ha : avoids c a = true) {x y : Str} (h : Contains a (x ++ c :: y)) :
    Contains a x ∨ Contains a y := by
  obtain ⟨u, hu, p, q, hpq⟩ := h
  have hc := not_mem_of_avoids ha hu
  rcases List.append_eq_append_iff.mp hpq with ⟨r, hx, hq⟩ | ⟨r, hp, hr⟩
  · exact .inl ⟨u, hu, p, r, hx.symm⟩
  · -- the word would end behind the separator
    cases r with
    | nil =>
      rw [List.append_nil] at hp
      exact .inl ⟨u, hu, p, [], by rw [hp, List.append_nil]⟩
    | cons d r =>
      obtain ⟨rfl, hy⟩ := List.cons_eq_cons.mp hr
      rcases List.append_eq_append_iff.mp hp with ⟨z, -, hz⟩ | ⟨z, -, hz⟩
      · refine absurd ?_ hc
        rw [hz]
        exact List.mem_append_right _ List.mem_cons_self
      · cases z with
        | nil =>
          obtain rfl : c :: r = u := hz
          exact absurd List.mem_cons_self hc
        | cons e z =>
          obtain ⟨-, hr'⟩ := List.cons_eq_cons.mp hz
          have hr' : r = z ++ u := hr'
          exact .inr ⟨u, hu, z, q, by rw [hy, hr']; rfl⟩

theorem dies_of_diesWithin {a : Ast} : ∀ {t x y : Str}, diesWithin a t = true → t = x ++ y → y ≠ [] →
    dies [a] y = true
  | [], x, y, _, ht, hy => absurd (List.append_eq_nil_iff.mp ht.symm).2 hy
  | c :: t, [], y, h, ht, _ => by
    obtain rfl : c :: t = y := ht
    exact (Bool.and_eq_true_iff.mp h).1
  | c :: t, d :: x, y, h, ht, hy =>
    dies_of_diesWithin (Bool.and_eq_true_iff.mp h).2 (List.cons_eq_cons.mp ht).2 hy

def isEmpty : Ast → Bool
  | .empty => true
  | _ => false

/-- Taking the block `h :: block` out of a word leaves a word. -/
def blockDel (h : Char) (block : Str) : Ast → Bool
  | .empty => true
  | .set _ => true
  | .seq a b => blockDel h block a && blockDel h block b && (avoids h a || diesWithin b block || isEmpty b)
  | .alt a b => blockDel h block a && blockDel h block b
  | .rep (.set _) 0 _ => true
  | .rep a _ _ => avoids h a
  | .wordBoundary => true

theorem blockDel_seq {h : Char} {block : Str} {a b : Ast} (hd : blockDel h block (.seq a b) = true) :
    blockDel h block a = true ∧ blockDel h block b = true ∧
      (avoids h a = true ∨ diesWithin b block = true ∨ b = .empty) := by
  rw [blockDel, Bool.and_eq_true_iff, Bool.and_eq_true_iff, Bool.or_eq_true_iff, Bool.or_eq_true_iff] at hd
  refine ⟨hd.1.1, hd.1.2, ?_⟩
  rcases hd.2 with (hav | hdies) | hempty
  · exact .inl hav
  · exact .inr (.inl hdies)
  · cases b with
    | empty => exact .inr (.inr rfl)
    | _ => cases hempty

theorem lang_of_block {h : Char} {block : Str} (hne : block ≠ []) : ∀ {a : Ast} {v w : Str}, blockDel h block a = true →
    Lang a (v ++ (h :: block ++ w)) → Lang a (v ++ w)
  | .empty, v, w, _, hu => by
    have := (List.append_eq_nil_iff.mp hu).2
    cases this
  | .set cs, v, w, _, hu => by
    obtain ⟨c, hc, -⟩ := hu
    have hlen := congrArg List.length hc
    have hpos := List.length_pos_iff.mpr hne
    rw [List.length_append, List.length_append, List.length_cons, List.length_singleton] at hlen
    omega
  | .seq a b, v, w, hd, hu => by
    obtain ⟨ha, hb, hcross⟩ := blockDel_seq hd
    obtain ⟨x, y, hxy, hx, hy⟩ := hu
    rcases List.append_eq_append_iff.mp hxy with ⟨r, hxr, hr⟩ | ⟨r, hv, hy'⟩
    · rcases List.append_eq_append_iff.mp hr with ⟨z, hz, hw⟩ | ⟨z, hz, hyz⟩
      · -- the block lies in the first part
        subst hxr hz
        rw [hw, ← List.append_assoc]
        exact ⟨v ++ z, y, rfl, lang_of_block hne ha hx, hy⟩
      · cases r with
        | nil =>
          rw [List.append_nil] at hxr
          rw [List.nil_append] at hr
          rw [← hr] at hy
          rw [← hxr]
          exact ⟨x, w, rfl, hx, lang_of_block hne hb (v := []) hy⟩
        | cons d r =>
          obtain ⟨rfl, hblock⟩ := List.cons_eq_cons.mp hz
          rcases eq_or_ne z [] with rfl | hzne
          · have hblock : block = r := hblock.trans (List.append_nil r)
            rw [List.nil_append] at hyz
            subst hxr hblock hyz
            refine ⟨v, y, rfl, ?_, hy⟩
            have hx' : Lang a (v ++ (h :: block ++ [])) := by rw [List.append_nil]; exact hx
            rw [← List.append_nil v]
            exact lang_of_block hne ha hx'
          · -- the block would end in the second part
            rcases hcross with hav | hdies | hempty
            · refine absurd ?_ (not_mem_of_avoids hav hx)
              rw [hxr]
              exact List.mem_append_right _ List.mem_cons_self
            · have := dies_of_diesWithin hdies hblock hzne
              exact absurd ⟨[], by rw [List.append_nil, hyz]⟩
                (incomparable_of_dies this (List.mem_singleton.mpr rfl) hy (v := w))
            · rw [hempty] at hy
              have hnil : z ++ w = [] := hyz.symm.trans hy
              exact absurd (List.append_eq_nil_iff.mp hnil).1 hzne
    · -- the block lies in the second part
      subst hv
      rw [hy'] at hy
      rw [List.append_assoc]
      exact ⟨x, r ++ w, rfl, hx, lang_of_block hne hb hy⟩
  | .alt a b, v, w, hd, hu => by
    obtain ⟨ha, hb⟩ := Bool.and_eq_true_iff.mp hd
    rcases hu with hu | hu
    · exact .inl (lang_of_block hne ha hu)
    · exact .inr (lang_of_block hne hb hu)
  | .rep a min max, v, w, hd, hu => by
    unfold blockDel at hd
    split at hd
    next heq => cases heq
    next heq => cases heq
    next heq => cases heq
    next heq => cases heq
    next cs _ heq =>
      cases heq
      obtain ⟨hcs, -, hmax⟩ := lang_rep_set.1 hu
      refine lang_rep_set.2 ⟨fun d hd => hcs d ?_, Nat.zero_le _, fun m hm => ?_⟩
      · rcases List.mem_append.mp hd with hd | hd
        · exact List.mem_append_left _ hd
        · exact List.mem_append_right _ (List.mem_append_right _ hd)
      · have hle := hmax m hm
        rw [List.length_append, List.length_append] at hle
        rw [List.length_append]
        omega
    next heq =>
      cases heq
      refine absurd ?_ (not_mem_of_avoids (a := .rep a min max) hd hu)
      exact List.mem_append_right _ List.mem_cons_self
    next heq => cases heq
  | .wordBoundary, _, _, _, hu => hu.elim

/-- A block at the start of a line creates no match: no word starts in the block, and none goes on into it from the line
before, or else the block can be taken out of it. -/
def blockSafe (h : Char) (block : Str) (a : Ast) : Bool :=
  diesWithin a (h :: block) && (avoids '\n' a || avoids h a ||
    blockDel h block a && (h :: block).all fun c => lastAvoids c a)

theorem contains_of_block {h : Char} {block : Str} (hne : block ≠ []) {a : Ast} (ha : blockSafe h block a = true)
    {x y : Str} (hx : x = [] ∨ x.getLast? = some '\n') (hc : Contains a (x ++ (h :: block ++ y))) :
      Contains a (x ++ y) := by
  obtain ⟨hdies, hor⟩ := Bool.and_eq_true_iff.mp ha
  obtain ⟨u, hu, p, q, hpq⟩ := hc
  have hbehind : Contains a (h :: block ++ y) → Contains a (x ++ y) := fun hc =>
    (contains_of_diesWithin hdies hc).mono (List.suffix_append x y).isInfix
  rcases List.append_eq_append_iff.mp hpq with ⟨r, hxr, -⟩ | ⟨r, hr, hrq⟩
  · exact ⟨u, hu, p, r ++ y, by rw [hxr]; simp only [List.append_assoc]⟩
  · rcases List.append_eq_append_iff.mp hr with ⟨z, hxz, huz⟩ | ⟨z, -, hrz⟩
    · rcases eq_or_ne r [] with rfl | hrne
      · rw [List.append_nil] at huz
        exact ⟨u, hu, p, y, by rw [hxz, huz]⟩
      rcases eq_or_ne z [] with rfl | hzne
      · rw [List.nil_append] at huz
        exact hbehind ⟨u, hu, [], q, by rw [List.nil_append, huz, hrq]⟩
      -- the word starts in the line before and goes on into the block
      have hlast : z.getLast? = some '\n' := by
        rcases hx with hx | hx
        · rw [hx] at hxz
          exact absurd (List.append_eq_nil_iff.mp hxz.symm).2 hzne
        · rw [hxz, List.getLast?_append_of_ne_nil _ hzne] at hx
          exact hx
      have hlf : '\n' ∈ u := by
        rw [huz]
        exact List.mem_append_left _ (List.mem_of_getLast? hlast)
      have hh : h ∈ u := by
        rw [huz]
        refine List.mem_append_right _ ?_
        cases r with
        | nil => exact absurd rfl hrne
        | cons d r =>
          obtain ⟨rfl, -⟩ := List.cons_eq_cons.mp hrq
          exact List.mem_cons_self
      rcases Bool.or_eq_true_iff.mp hor with hav | hdel
      · rcases Bool.or_eq_true_iff.mp hav with hav | hav
        · exact absurd hlf (not_mem_of_avoids hav hu)
        · exact absurd hh (not_mem_of_avoids hav hu)
      · obtain ⟨hdel, hends⟩ := Bool.and_eq_true_iff.mp hdel
        rcases List.append_eq_append_iff.mp hrq with ⟨w, hrw, hyw⟩ | ⟨w, hbw, -⟩
        · rw [huz, hrw] at hu
          refine ⟨z ++ w, lang_of_block hne hdel hu, p, q, ?_⟩
          rw [hxz, hyw, List.append_assoc, List.append_assoc, List.append_assoc]
        · obtain ⟨c, hcr⟩ : ∃ c, r.getLast? = some c := ⟨_, List.getLast?_eq_some_getLast hrne⟩
          have hcb : c ∈ h :: block := by
            rw [hbw]
            exact List.mem_append_left _ (List.mem_of_getLast? hcr)
          refine absurd ?_ (last_of_lastAvoids (List.all_eq_true.mp hends c hcb) hu)
          rw [huz, List.getLast?_append_of_ne_nil _ hrne, hcr]
    · exact hbehind ⟨u, hu, z, q, by rw [hrq, hrz]⟩

/-! ## Characters that come before others -/

theorem isAlpha_of_toNat {d : Char} (h : 97 ≤ d.toNat ∧ d.toNat ≤ 122 ∨ 65 ≤ d.toNat ∧ d.toNat ≤ 90) :
    d.isAlpha = true := by
  have hlower : d.isLower = (decide (97 ≤ d.toNat) && decide (d.toNat ≤ 122)) := rfl
  have hupper : d.isUpper = decide (65 ≤ d.toNat ∧ d.toNat ≤ 90) := rfl
  change (d.isUpper || d.isLower) = true
  rw [hlower, hupper, ← Bool.decide_and, Bool.or_eq_true_iff, decide_eq_true_iff, decide_eq_true_iff]
  exact h.symm

theorem toNat_ofNat_of_lt {n : Nat} (h : n < 0xD800) : (Char.ofNat n).toNat = n := by
  have hv : n.isValidChar := .inl h
  unfold Char.ofNat
  rw [dif_pos hv]
  rfl

/-- A character that is no letter is only a case variant of itself. -/
theorem eq_of_mem_caseVariants {c d : Char} (hd : d.isAlpha = false) (h : d ∈ caseVariants c) : c = d := by
  have hletter : ∀ n, d = Char.ofNat n → 97 ≤ n ∧ n ≤ 122 ∨ 65 ≤ n ∧ n ≤ 90 → c = d := by
    intro n hn hrange
    have htoNat := toNat_ofNat_of_lt (n := n) (by omega)
    rw [← hn] at htoNat
    rw [isAlpha_of_toNat (by omega)] at hd
    cases hd
  simp only [caseVariants, List.mem_append, List.mem_cons, List.not_mem_nil, or_false] at h
  rcases h with ((rfl | h | h) | h) | h
  · rfl
  · unfold asciiLower at h
    split at h
    next hc =>
      have h₁ : 65 ≤ c.toNat := hc.1
      have h₂ : c.toNat ≤ 90 := hc.2
      exact hletter _ h (by omega)
    · exact h.symm
  · unfold asciiUpper at h
    split at h
    next hc =>
      have h₁ : 97 ≤ c.toNat := hc.1
      have h₂ : c.toNat ≤ 122 := hc.2
      exact hletter _ h (by omega)
    · exact h.symm
  · split at h
    · rcases List.mem_cons.mp h with rfl | h
      · cases hd
      · rw [List.mem_singleton.mp h] at hd
        cases hd
    · cases h
  · split at h
    · rcases List.mem_cons.mp h with rfl | h
      · cases hd
      · rw [List.mem_singleton.mp h] at hd
        cases hd
    · cases h

/-- Every word has the character `d`, which is no letter. -/
def needs (d : Char) : Ast → Bool
  | .empty => false
  | .set s => s.items == [.range d d] && !s.negated
  | .seq a b => needs d a || needs d b
  | .alt a b => needs d a && needs d b
  | .rep a min _ => 0 < min && needs d a
  | .wordBoundary => true

theorem mem_of_needs {d : Char} (hd : d.isAlpha = false) : ∀ {a : Ast} {u : Str}, needs d a = true → Lang a u → d ∈ u
  | .empty, _, h, _ => by cases h
  | .set s, u, h, hu => by
    obtain ⟨c, rfl, hc⟩ := hu
    obtain ⟨hitems, hneg⟩ := Bool.and_eq_true_iff.mp h
    have hitem : ∀ e, s.items.any (ClassItem.mem noWord e) = true → e = d := by
      intro e he
      rw [eq_of_beq hitems] at he
      simp only [List.any_cons, List.any_nil, Bool.or_false, ClassItem.mem, Bool.and_eq_true, decide_eq_true_eq] at he
      exact Char.le_antisymm he.2 he.1
    have hmem : (if s.fold then (caseVariants c).any fun e => s.items.any (ClassItem.mem noWord e)
        else s.items.any (ClassItem.mem noWord c)) = true := by
      rw [Bool.not_eq_true'] at hneg
      simp only [CharSet.mem, hneg, bne_iff_ne, ne_eq, Bool.not_eq_false] at hc
      exact hc
    rw [List.mem_singleton]
    split at hmem
    · obtain ⟨e, he, hin⟩ := List.any_eq_true.mp hmem
      rw [hitem e hin] at he
      exact (eq_of_mem_caseVariants hd he).symm
    · exact (hitem c hmem).symm
  | .seq a b, u, h, hu => by
    obtain ⟨x, y, rfl, hx, hy⟩ := hu
    rcases Bool.or_eq_true_iff.mp h with h | h
    · exact List.mem_append_left _ (mem_of_needs hd h hx)
    · exact List.mem_append_right _ (mem_of_needs hd h hy)
  | .alt a b, u, h, hu => by
    obtain ⟨ha, hb⟩ := Bool.and_eq_true_iff.mp h
    rcases hu with hu | hu
    · exact mem_of_needs hd ha hu
    · exact mem_of_needs hd hb hu
  | .rep a min max, u, h, hu => by
    obtain ⟨hpos, ha⟩ := Bool.and_eq_true_iff.mp h
    obtain ⟨us, rfl, hus, hmin, -⟩ := hu
    have hlen : 0 < us.length := Nat.lt_of_lt_of_le (of_decide_eq_true hpos) hmin
    obtain ⟨x, hx⟩ := List.exists_mem_of_length_pos hlen
    exact List.mem_flatten.mpr ⟨x, hx, mem_of_needs hd ha (hus x hx)⟩
  | .wordBoundary, _, _, hu => hu.elim

/-- In every word each `c` is followed later by a `d`. -/
def followed (c d : Char) : Ast → Bool
  | .empty => true
  | .set s => !s.mem noWord c
  | .seq a b => (followed c d a || needs d b) && followed c d b
  | .alt a b => followed c d a && followed c d b
  | .rep a _ _ => avoids c a
  | .wordBoundary => true

theorem mem_of_followed {c d : Char} (hd : d.isAlpha = false) : ∀ {a : Ast} {v w : Str}, followed c d a = true →
    Lang a (v ++ c :: w) → d ∈ w
  | .empty, v, w, _, hu => by
    have := (List.append_eq_nil_iff.mp hu).2
    cases this
  | .set s, v, w, h, hu => absurd (List.mem_append_right _ List.mem_cons_self) (not_mem_of_avoids (a := .set s) h hu)
  | .seq a b, v, w, h, hu => by
    obtain ⟨hab, hb⟩ := Bool.and_eq_true_iff.mp h
    obtain ⟨x, y, hxy, hx, hy⟩ := hu
    rcases List.append_eq_append_iff.mp hxy with ⟨r, hxr, hr⟩ | ⟨r, -, hyr⟩
    · cases r with
      | nil =>
        have hr : c :: w = y := hr
        rw [← hr] at hy
        exact mem_of_followed hd hb (v := []) hy
      | cons e r =>
        obtain ⟨rfl, hw⟩ := List.cons_eq_cons.mp hr
        have hw : w = r ++ y := hw
        rw [hw]
        rcases Bool.or_eq_true_iff.mp hab with ha | hn
        · rw [hxr] at hx
          exact List.mem_append_left _ (mem_of_followed hd ha hx)
        · exact List.mem_append_right _ (mem_of_needs hd hn hy)
    · rw [hyr] at hy
      exact mem_of_followed hd hb hy
  | .alt a b, v, w, h, hu => by
    obtain ⟨ha, hb⟩ := Bool.and_eq_true_iff.mp h
    rcases hu with hu | hu
    · exact mem_of_followed hd ha hu
    · exact mem_of_followed hd hb hu
  | .rep a min max, v, w, h, hu =>
    absurd (List.mem_append_right _ List.mem_cons_self) (not_mem_of_avoids (a := .rep a min max) h hu)
  | .wordBoundary, _, _, _, hu => hu.elim

end Ironclaw.Regex
