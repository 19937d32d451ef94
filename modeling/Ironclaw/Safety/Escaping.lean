import Ironclaw.Lib.Insertion
import Ironclaw.Safety.Layer
import Ironclaw.Safety.Wrapper

/-!
# The escaping of a critical text

`escape_content` puts backslashes into the special tokens, then drops the null bytes, then marks the lines with a role.
A token that null bytes hold apart, or that is spelled in other letters, is not seen by the first step and stands in the
result without a backslash.

- `escapeTokens_eq`: the four replacements are one pass;
- `unescaped_stripped_iff`: when a token is left without a backslash;
- `escapeContent_neutral_iff`: when the escaped text is neutral.
-/

namespace Ironclaw.Safety

open Text Insertion

/-- The special tokens in lower case. -/
def TOKENS : List Str := tokenEscapes.map fun p => p.1.map asciiLower

/-- The special tokens as they are replaced. -/
def SPELLED : List Str := tokenEscapes.map Prod.fst

/-- The text has a special token, in lower or upper case, with no backslash before it. -/
def Unescaped (s : Str) : Prop :=
  ∃ x u y, s = x ++ u ++ y ∧ u.map asciiLower ∈ TOKENS ∧ x.getLast? ≠ some '\\'

/-- What the escaping is for: no null byte, no token without a backslash, no line with a role that is not marked. -/
structure Neutral (cm : CaseMap) (out : Str) : Prop where
  noNul : NUL ∉ out
  tokens : ¬Unescaped out
  roles : ∀ line ∈ out.splitOn '\n', line ≠ [] → hasRoleMarker cm line = true → ESCAPED <+: line

/-- Each token of the text without its null bytes has no null byte in it and is spelled as it is replaced, or has a
backslash before it. -/
def TokensPlain (content : Str) : Prop :=
  ∀ x t y, content = x ++ t ++ y → (∀ c ∈ t.head?, c ≠ NUL) → (∀ c ∈ t.getLast?, c ≠ NUL) →
    (strip NUL t).map asciiLower ∈ TOKENS → t ∈ SPELLED ∨ (strip NUL x).getLast? = some '\\'

/-! ## One pass -/

def INST : Str := ['I', 'N', 'S', 'T', ']']

def END_INST : Str := ['/', 'I', 'N', 'S', 'T', ']']

theorem tokenEscapes_eq : tokenEscapes =
    [(['<', '|'], ['\\', '<', '|']), (['|', '>'], ['|', '\\', '>']), ('[' :: INST, '\\' :: '[' :: INST),
      ('[' :: END_INST, '\\' :: '[' :: END_INST)] := by
  decide

theorem tokens_eq :
    TOKENS = [['<', '|'], ['|', '>'], ['[', 'i', 'n', 's', 't', ']'], ['[', '/', 'i', 'n', 's', 't', ']']] := by
  rw [TOKENS, tokenEscapes_eq]
  decide

theorem spelled_eq : SPELLED = [['<', '|'], ['|', '>'], '[' :: INST, '[' :: END_INST] := by
  rw [SPELLED, tokenEscapes_eq]
  rfl

/-- A backslash is put before this place. -/
def breaks (prev : Option Char) (r : Str) : Bool :=
  before ['<', '|'] prev r || between '|' '>' prev r || before ('[' :: INST) prev r || before ('[' :: END_INST) prev r

theorem between_head {a b d : Char} {ds : Str} {prev : Option Char} (h : between a b prev (d :: ds) = true) :
    d = b := by
  rw [between, Bool.and_eq_true_iff] at h
  exact Option.some.inj (eq_of_beq h.2)

theorem escapeTokens_eq (s : Str) : escapeTokens s = insertAt '\\' breaks none s := by
  have htokens : escapeTokens s = replace ('[' :: END_INST) ('\\' :: '[' :: END_INST) (replace ('[' :: INST)
      ('\\' :: '[' :: INST) (replace ['|', '>'] ['|', '\\', '>'] (replace ['<', '|'] ['\\', '<', '|'] s))) := by
    rw [escapeTokens, tokenEscapes_eq]
    rfl
  have hnone : (none : Option Char) = some '|' → (insertAt '\\' (before ['<', '|']) none s).head? ≠ some '>' :=
    fun h => by cases h
  have htwo := @insertAt_insertAt '\\' (before ['<', '|']) (between '|' '>') (Bool.and_false _) (by
    intro prev c cs hP
    rw [before_head hP]
    rfl) rfl none s
  have hheads : ∀ {prev d ds}, (before ['<', '|'] prev (d :: ds) || between '|' '>' prev (d :: ds)) = true →
      d = '<' ∨ d = '>' := by
    intro prev d ds hP
    rcases Bool.or_eq_true_iff.mp hP with hP | hP
    · exact .inl (before_head hP)
    · exact .inr (between_head hP)
  have hinst := @insertAt_insertAt '\\' (fun prev r => before ['<', '|'] prev r || between '|' '>' prev r)
    (before ('[' :: INST)) rfl (by
    intro prev c cs hP
    rcases hheads hP with rfl | rfl <;> rfl) (before_insertAt (by decide) (by
    intro prev d ds hP
    rcases hheads hP with rfl | rfl <;> decide)) none s
  have hend := @insertAt_insertAt '\\'
    (fun prev r => before ['<', '|'] prev r || between '|' '>' prev r || before ('[' :: INST) prev r)
    (before ('[' :: END_INST)) rfl (by
    intro prev c cs hP
    rcases Bool.or_eq_true_iff.mp hP with hP | hP
    · rcases hheads hP with rfl | rfl <;> rfl
    · -- after the bracket one pattern has a letter, the other a slash
      obtain ⟨r, hr⟩ := List.isPrefixOf_iff_prefix.mp hP
      obtain ⟨rfl, rfl⟩ : '[' = c ∧ INST ++ r = cs := List.cons_eq_cons.mp hr
      rfl) (before_insertAt (by decide) (by
    intro prev d ds hP
    rcases Bool.or_eq_true_iff.mp hP with hP | hP
    · rcases hheads hP with rfl | rfl <;> decide
    · rw [before_head hP]
      decide)) none s
  rw [htokens, replace_before (by decide) s none, replace_between (by decide) _ none hnone,
    replace_before (by decide) _ none, replace_before (by decide) _ none, htwo, hinst, hend]
  rfl

/-- The text after the second step. -/
def stripped (content : Str) : Str := strip NUL (escapeTokens content)

theorem replace_nul : ∀ s : Str, replace [NUL] [] s = strip NUL s
  | [] => rfl
  | c :: cs => by
    have ih := replace_nul cs
    by_cases hc : c = NUL
    · subst hc
      rw [strip_cons_self, ← ih]
      exact replace_append (List.cons_ne_nil NUL []) cs
    · rw [strip_cons_of_ne hc, ← ih]
      exact replace_cons_of_not fun hp => hc (List.cons_prefix_cons.mp hp).1.symm

theorem breaks_head {prev : Option Char} {c : Char} {cs : Str} (h : breaks prev (c :: cs) = true) :
    c ∈ ['<', '>', '['] := by
  rcases Bool.or_eq_true_iff.mp h with h | h
  · rcases Bool.or_eq_true_iff.mp h with h | h
    · rcases Bool.or_eq_true_iff.mp h with h | h
      · rw [before_head h]
        decide
      · rw [between_head h]
        decide
    · rw [before_head h]
      decide
  · rw [before_head h]
    decide

theorem stripped_eq (content : Str) : stripped content = (tested breaks none content).flatMap (image '\\' NUL) := by
  have hnul : ∀ {prev cs}, breaks prev (NUL :: cs) = false := by
    intro prev cs
    refine Bool.eq_false_iff.mpr fun h => ?_
    exact absurd (breaks_head h) (by decide)
  rw [stripped, escapeTokens_eq, strip_insertAt (by decide) hnul]

/-! ## Tokens -/

theorem token_ne_nil {u : Str} (h : u.map asciiLower ∈ TOKENS) : u ≠ [] := by
  rintro rfl
  rw [tokens_eq] at h
  exact absurd h (by decide)

/-- A character outside all tokens. -/
theorem not_mem_token {c : Char} (hc : ∀ tok ∈ TOKENS, asciiLower c ∉ tok) {u : Str} (h : u.map asciiLower ∈ TOKENS) :
    c ∉ u := fun hmem => hc _ h (List.mem_map_of_mem hmem)

theorem backslash_not_mem {u : Str} (h : u.map asciiLower ∈ TOKENS) : '\\' ∉ u := by
  refine not_mem_token ?_ h
  rw [tokens_eq]
  decide

/-- The test is true at the first character of a token that is spelled as it is replaced, or behind it. -/
theorem breaks_spelled : ∀ t ∈ SPELLED, (∀ prev r, breaks prev (t ++ r) = true) ∨ t = ['|', '>'] := by
  rw [spelled_eq]
  intro t ht
  have hbefore : ∀ {p r : Str}, p.isPrefixOf (p ++ r) = true := fun {p r} =>
    List.isPrefixOf_iff_prefix.mpr (List.prefix_append p r)
  simp only [List.mem_cons, List.not_mem_nil, or_false] at ht
  rcases ht with rfl | rfl | rfl | rfl
  · left
    intro prev r
    simp only [breaks, before, hbefore, Bool.true_or]
  · exact .inr rfl
  · left
    intro prev r
    simp only [breaks, before, hbefore, Bool.true_or, Bool.or_true]
  · left
    intro prev r
    simp only [breaks, before, hbefore, Bool.or_true]

/-- A token without a backslash in the result comes from one that was not seen. -/
theorem not_plain_of_unescaped {content : Str} (h : Unescaped (stripped content)) : ¬TokensPlain content := by
  obtain ⟨x, u, y, hout, htok, hx⟩ := h
  obtain ⟨e, u, rfl⟩ := List.exists_cons_of_ne_nil (token_ne_nil htok)
  have hslash := backslash_not_mem htok
  rw [List.mem_cons, not_or] at hslash
  rw [stripped_eq, List.append_assoc] at hout
  obtain ⟨A, b, rest, htested, hne, hX, hrest⟩ := image_split (Ne.symm hslash.1) hout
  obtain ⟨T, B, rfl, hflags, hstrip, hlast, -⟩ := image_prefix hslash.2 hrest
  obtain ⟨hcontent, hb⟩ := tested_split htested
  obtain rfl : b = false := by
    cases b with
    | false => rfl
    | true =>
      rw [← hX] at hx
      exact absurd List.getLast?_concat hx
  have hx' : x = A.flatMap (image '\\' NUL) := by
    rw [← hX]
    exact List.append_nil _
  intro hplain
  rw [List.map_append] at hcontent
  have hstrip' : strip NUL (e :: T.map Prod.snd) = e :: u := by rw [strip_cons_of_ne hne, hstrip]
  rcases hplain (A.map Prod.snd) (e :: T.map Prod.snd) (B.map Prod.snd) (by rw [hcontent]; simp) (by
      intro c hc
      obtain rfl : e = c := Option.some.inj hc
      exact hne) (by
      intro c hc
      rw [List.getLast?_cons] at hc
      obtain rfl := Option.some.inj hc
      cases hT : (T.map Prod.snd).getLast? with
      | none => exact hne
      | some d => exact hlast d hT) (by rw [hstrip']; exact htok) with hspelled | hback
  · rcases breaks_spelled _ hspelled with hbreaks | hbar
    · rw [List.map_append] at hb
      have htrue := hbreaks ((A.map Prod.snd).getLast?.or none) (B.map Prod.snd)
      rw [List.cons_append, ← hb] at htrue
      cases htrue
    · -- the mark is put between the two characters
      obtain ⟨rfl, hT⟩ := List.cons_eq_cons.mp hbar
      obtain ⟨⟨f, g⟩, rfl, hg⟩ := List.map_eq_singleton_iff.mp hT
      obtain rfl : g = '>' := hg
      have hf : f = false := hflags (f, '>') List.mem_cons_self (show '>' ≠ NUL by decide)
      have htested' : tested breaks none content = (A ++ [(false, '|')]) ++ (f, '>') :: B := by
        rw [htested]
        simp
      obtain ⟨-, htrue⟩ := tested_split htested'
      rw [hf, List.map_append, List.map_singleton, List.getLast?_concat] at htrue
      have hbetween : breaks ((some '|').or none) ('>' :: B.map Prod.snd) = true := rfl
      rw [hbetween] at htrue
      cases htrue
  · rw [hx', getLast?_image] at hx
    exact hx hback

/-- Dropped characters only, or a last one that is kept. -/
theorem eq_nil_of_strip {s : Str} (h : strip NUL s = []) (hlast : ∀ c ∈ s.getLast?, c ≠ NUL) : s = [] := by
  cases hs : s.getLast? with
  | none => exact List.getLast?_eq_none_iff.mp hs
  | some c =>
    have hmem : c ∈ strip NUL s := mem_strip.mpr ⟨List.mem_of_getLast? hs, hlast c hs⟩
    rw [h] at hmem
    cases hmem

/-- A pattern that starts a token is all of it. -/
theorem eq_of_spelled {L t y : Str} (hL : L ∈ SPELLED) (hpre : L <+: t ++ y)
    (htok : (strip NUL t).map asciiLower ∈ TOKENS)
    (hlast : ∀ c ∈ t.getLast?, c ≠ NUL) : t = L := by
  have hplain : ∀ L ∈ SPELLED, strip NUL L = L := by
    rw [spelled_eq]
    decide
  have hapart : ∀ L ∈ SPELLED, ∀ tok ∈ TOKENS, L.map asciiLower <+: tok ∨ tok <+: L.map asciiLower →
      tok.length = L.length := by
    rw [spelled_eq, tokens_eq]
    decide
  have hboth : L.map asciiLower <+: (strip NUL t).map asciiLower ∨
      (strip NUL t).map asciiLower <+: L.map asciiLower := by
    obtain ⟨r, hr⟩ := hpre
    have hstrip : L ++ strip NUL r = strip NUL t ++ strip NUL y := by
      rw [← strip_append, ← hr, strip_append, hplain L hL]
    have hL' : L.map asciiLower <+: (strip NUL t ++ strip NUL y).map asciiLower :=
      (hstrip ▸ List.prefix_append L _).map asciiLower
    have ht' : (strip NUL t).map asciiLower <+: (strip NUL t ++ strip NUL y).map asciiLower :=
      (List.prefix_append _ _).map asciiLower
    exact List.prefix_or_prefix_of_prefix hL' ht'
  have hlen := hapart L hL _ htok hboth
  rw [List.length_map] at hlen
  rcases List.prefix_or_prefix_of_prefix hpre (List.prefix_append t y) with ⟨t', rfl⟩ | ht
  · rw [strip_append, hplain L hL, List.length_append, Nat.add_eq_left, List.length_eq_zero_iff] at hlen
    have ht' : t' = [] := by
      refine eq_nil_of_strip hlen fun c hc => hlast c ?_
      rw [List.getLast?_append, Option.mem_def.mp hc]
      rfl
    rw [ht', List.append_nil]
  · have hshort : (strip NUL t).length ≤ t.length := List.length_filter_le _ _
    exact ht.eq_of_length_le (hlen ▸ hshort)

/-- Inside a token that is not spelled as it is replaced there is no place for a backslash. -/
theorem not_breaks_of_token {T₁ T₂ y : Str} {c : Char} {p : Option Char}
    (htok : (strip NUL (T₁ ++ c :: T₂)).map asciiLower ∈ TOKENS) (hhead : ∀ d ∈ (T₁ ++ c :: T₂).head?, d ≠ NUL)
    (hlast : ∀ d ∈ (T₁ ++ c :: T₂).getLast?, d ≠ NUL) (hspelled : T₁ ++ c :: T₂ ∉ SPELLED) :
    breaks (T₁.getLast?.or p) (c :: (T₂ ++ y)) = false := by
  refine Bool.eq_false_iff.mpr fun hbreaks => hspelled ?_
  have hc := breaks_head hbreaks
  have hkept : c ≠ NUL := by
    rintro rfl
    exact absurd hc (by decide)
  cases T₁ with
  | nil =>
    have hpre : ∀ {L : Str}, L ∈ SPELLED → L.isPrefixOf (c :: (T₂ ++ y)) = true → c :: T₂ ∈ SPELLED := by
      intro L hL hp
      rw [List.nil_append] at htok hlast
      rw [eq_of_spelled (t := c :: T₂) (y := y) hL (List.isPrefixOf_iff_prefix.mp hp) htok hlast]
      exact hL
    have hmem : ['<', '|'] ∈ SPELLED ∧ '[' :: INST ∈ SPELLED ∧ '[' :: END_INST ∈ SPELLED := by
      rw [spelled_eq]
      decide
    rcases Bool.or_eq_true_iff.mp hbreaks with h | h
    · rcases Bool.or_eq_true_iff.mp h with h | h
      · rcases Bool.or_eq_true_iff.mp h with h | h
        · exact hpre hmem.1 h
        · -- no token starts with the second character
          obtain rfl := between_head h
          rw [List.nil_append, strip_cons_of_ne hkept, List.map_cons, tokens_eq] at htok
          have hfirst :
            ∀ tok ∈ [['<', '|'], ['|', '>'], ['[', 'i', 'n', 's', 't', ']'], ['[', '/', 'i', 'n', 's', 't', ']']],
              tok.head? ≠ some '>' := by decide
          exact absurd rfl (hfirst _ htok)
      · exact hpre hmem.2.1 h
    · exact hpre hmem.2.2 h
  | cons e T₁ =>
    have he : e ≠ NUL := hhead e rfl
    have hlower : asciiLower c = c := by
      have hall : (['<', '>', '['].all fun c => decide (asciiLower c = c)) = true := by decide
      exact of_decide_eq_true (List.all_eq_true.mp hall c hc)
    have hsecond : ∀ tok ∈ TOKENS, c ∈ tok.tail → tok = ['|', '>'] ∧ c = '>' := by
      have hall : (TOKENS.all fun tok => ['<', '>', '['].all fun c =>
          decide (c ∈ tok.tail → tok = ['|', '>'] ∧ c = '>')) = true := by
        rw [tokens_eq]
        decide
      exact fun tok htok => of_decide_eq_true (List.all_eq_true.mp (List.all_eq_true.mp hall tok htok) c hc)
    have hstrip : strip NUL (e :: T₁ ++ c :: T₂) = e :: (strip NUL T₁ ++ c :: strip NUL T₂) := by
      rw [strip_append, strip_cons_of_ne he, strip_cons_of_ne hkept]
      rfl
    rw [hstrip] at htok
    have htail : c ∈ ((e :: (strip NUL T₁ ++ c :: strip NUL T₂)).map asciiLower).tail := by
      rw [List.map_cons, List.tail_cons, List.map_append, List.map_cons, hlower]
      exact List.mem_append_right _ List.mem_cons_self
    obtain ⟨htwo, rfl⟩ := hsecond _ htok htail
    have hlen := congrArg List.length htwo
    rw [List.length_map, List.length_cons, List.length_append, List.length_cons] at hlen
    have hT₁ : strip NUL T₁ = [] := List.length_eq_zero_iff.mp (by
      have : ['|', '>'].length = 2 := rfl
      omega)
    have hT₂ : strip NUL T₂ = [] := List.length_eq_zero_iff.mp (by
      have : ['|', '>'].length = 2 := rfl
      omega)
    obtain rfl : e = '|' := by
      rw [List.map_cons] at htwo
      exact asciiLower_eq (by decide) (List.cons_eq_cons.mp htwo).1
    have hbar : ((('|' :: T₁).getLast?).or p) = some '|' := by
      have hbetween : between '|' '>' ((('|' :: T₁).getLast?).or p) ('>' :: (T₂ ++ y)) = true := by
        have hnot : ∀ q : Str, before ('<' :: q) ((('|' :: T₁).getLast?).or p) ('>' :: (T₂ ++ y)) = false ∧
            before ('[' :: q) ((('|' :: T₁).getLast?).or p) ('>' :: (T₂ ++ y)) = false := fun q => ⟨rfl, rfl⟩
        rw [breaks, (hnot ['|']).1, (hnot INST).2, (hnot END_INST).2, Bool.or_false, Bool.or_false,
          Bool.false_or] at hbreaks
        exact hbreaks
      exact eq_of_beq (Bool.and_eq_true_iff.mp hbetween).1
    have hnil₁ : T₁ = [] := by
      refine eq_nil_of_strip hT₁ fun d hd => ?_
      rw [List.getLast?_cons, Option.mem_def.mp hd] at hbar
      obtain rfl : d = '|' := Option.some.inj hbar
      decide
    have hnil₂ : T₂ = [] := by
      refine eq_nil_of_strip hT₂ fun d hd => hlast d ?_
      rw [List.getLast?_append, List.getLast?_cons, Option.mem_def.mp hd]
      rfl
    rw [hnil₁, hnil₂, spelled_eq]
    decide

/-- A token that was not seen is left without a backslash. -/
theorem unescaped_of_token {x t y : Str} (hhead : ∀ c ∈ t.head?, c ≠ NUL) (hlast : ∀ c ∈ t.getLast?, c ≠ NUL)
    (htok : (strip NUL t).map asciiLower ∈ TOKENS) (hspelled : t ∉ SPELLED)
    (hback : (strip NUL x).getLast? ≠ some '\\') :
    Unescaped (stripped (x ++ t ++ y)) := by
  obtain ⟨A, hA, htested⟩ := tested_append (P := breaks) x (t ++ y) none
  obtain ⟨T, hT, htested'⟩ := tested_append (P := breaks) t y (x.getLast?.or none)
  have hflags : ∀ m ∈ T, m.2 ≠ NUL → m.1 = false := by
    intro m hm _
    obtain ⟨T₁, T₂, rfl⟩ := List.append_of_mem hm
    rw [List.map_append, List.map_cons] at hT
    rw [List.append_assoc, List.cons_append] at htested'
    obtain ⟨-, hflag⟩ := tested_split htested'
    rw [List.map_append, tested_snd] at hflag
    rw [hflag]
    subst hT
    exact not_breaks_of_token (c := m.2) htok hhead hlast hspelled
  refine ⟨A.flatMap (image '\\' NUL), strip NUL t,
    (tested breaks (t.getLast?.or (x.getLast?.or none)) y).flatMap (image '\\' NUL), ?_, htok, ?_⟩
  · rw [stripped_eq, List.append_assoc, htested, htested', List.flatMap_append, List.flatMap_append,
      image_of_false hflags, hT, List.append_assoc]
  · rw [getLast?_image, hA]
    exact hback

theorem unescaped_stripped_iff (content : Str) : Unescaped (stripped content) ↔ ¬TokensPlain content := by
  refine ⟨not_plain_of_unescaped, fun h => ?_⟩
  unfold TokensPlain at h
  push Not at h
  obtain ⟨x, t, y, rfl, hhead, hlast, htok, hspelled, hback⟩ := h
  exact unescaped_of_token hhead hlast htok hspelled hback

/-! ## Lines -/

theorem unescaped_nil : ¬Unescaped [] := by
  rintro ⟨x, u, y, h, htok, -⟩
  obtain ⟨hxu, -⟩ := List.append_eq_nil_iff.mp h.symm
  exact token_ne_nil htok (List.append_eq_nil_iff.mp hxu).2

/-- A character outside all tokens separates them. -/
theorem unescaped_append_cons {c : Char} (hc : ∀ tok ∈ TOKENS, asciiLower c ∉ tok) (hback : c ≠ '\\') (a b : Str) :
    Unescaped (a ++ c :: b) ↔ Unescaped a ∨ Unescaped b := by
  constructor
  · rintro ⟨x, u, y, h, htok, hx⟩
    have hcu : c ∉ u := not_mem_token hc htok
    rw [List.append_assoc] at h
    rcases List.append_eq_append_iff.mp h with ⟨v, rfl, hv⟩ | ⟨v, rfl, hv⟩
    · cases v with
      | nil =>
        -- the token would start with the separator
        obtain ⟨e, u, rfl⟩ := List.exists_cons_of_ne_nil (token_ne_nil htok)
        obtain ⟨rfl, -⟩ := List.cons_eq_cons.mp hv
        exact absurd List.mem_cons_self hcu
      | cons d v =>
        obtain ⟨rfl, rfl⟩ := List.cons_eq_cons.mp hv
        refine .inr ⟨v, u, y, (List.append_assoc v u y).symm, htok, fun hlast => hx ?_⟩
        rw [List.getLast?_append, List.getLast?_cons, hlast]
        rfl
    · rcases List.append_eq_append_iff.mp hv with ⟨w, rfl, hw⟩ | ⟨w, rfl, hw⟩
      · exact .inl ⟨x, u, w, (List.append_assoc x u w).symm, htok, hx⟩
      · cases w with
        | nil => exact .inl ⟨x, v, [], by simp, by simpa using htok, hx⟩
        | cons d w =>
          obtain ⟨rfl, -⟩ := List.cons_eq_cons.mp hw
          exact absurd (List.mem_append_right v List.mem_cons_self) hcu
  · rintro (⟨x, u, y, rfl, htok, hx⟩ | ⟨x, u, y, rfl, htok, hx⟩)
    · exact ⟨x, u, y ++ c :: b, by simp, htok, hx⟩
    · refine ⟨a ++ c :: x, u, y, by simp, htok, ?_⟩
      rw [List.getLast?_append, List.getLast?_cons, Option.some_or]
      intro hlast
      cases hxl : x.getLast? with
      | none =>
        rw [hxl] at hlast
        exact hback (Option.some.inj hlast)
      | some d =>
        rw [hxl] at hlast hx
        exact hx hlast

theorem separators : (∀ tok ∈ TOKENS, asciiLower '\n' ∉ tok) ∧ (∀ tok ∈ TOKENS, asciiLower '\r' ∉ tok) ∧
    ∀ tok ∈ TOKENS, asciiLower ' ' ∉ tok := by
  rw [tokens_eq]
  decide

theorem unescaped_join : ∀ parts : List Str, Unescaped (join ['\n'] parts) ↔ ∃ line ∈ parts, Unescaped line
  | [] => iff_of_false unescaped_nil fun ⟨_, h, _⟩ => by cases h
  | [part] => by
    rw [join_singleton]
    simp only [List.mem_singleton, exists_eq_left]
  | part :: part' :: parts => by
    have ih := unescaped_join (part' :: parts)
    rw [join_cons_cons, unescaped_append_cons separators.1 (by decide), ih]
    exact (List.exists_mem_cons_iff ..).symm

theorem unescaped_stripCr (line : Str) : Unescaped (stripCr line) ↔ Unescaped line := by
  unfold stripCr
  split
  next hcr =>
    obtain ⟨x, rfl⟩ := List.getLast?_eq_some_iff.mp hcr
    rw [List.dropLast_concat, unescaped_append_cons separators.2.1 (by decide), or_iff_left unescaped_nil]
  · rfl

theorem unescaped_lines (s : Str) : (∃ line ∈ lines s, Unescaped line) ↔ Unescaped s := by
  obtain ⟨front, last, hpieces⟩ : ∃ front last, s.splitOn '\n' = front ++ [last] :=
    (List.eq_nil_or_concat' _).resolve_left (List.splitOn_ne_nil '\n' s)
  have hjoin : Unescaped s ↔ ∃ line ∈ front ++ [last], Unescaped line := by
    rw [← unescaped_join, ← hpieces, join, List.intercalate_splitOn]
  have hlines : lines s = front.map stripCr ++ ((some last).filter fun piece => !piece.isEmpty).toList := by
    rw [lines, hpieces, List.dropLast_concat, List.getLast?_concat]
  rw [hjoin, hlines]
  simp only [List.mem_append, List.mem_map, or_and_right, exists_or, exists_exists_and_eq_and, unescaped_stripCr,
    List.mem_singleton, exists_eq_left]
  refine or_congr_right ?_
  cases last with
  | nil =>
    refine iff_of_false ?_ unescaped_nil
    rintro ⟨line, hline, -⟩
    cases hline
  | cons c last =>
    constructor
    · rintro ⟨line, hline, h⟩
      obtain rfl := List.mem_singleton.mp hline
      exact h
    · exact fun h => ⟨c :: last, List.mem_singleton_self _, h⟩

theorem unescaped_escapeLine (cm : CaseMap) (line : Str) : Unescaped (escapeLine cm line) ↔ Unescaped line := by
  have hmark : ESCAPED = "[ESCAPED]".toList ++ [' '] := by decide
  have hnone : ¬Unescaped "[ESCAPED]".toList := by
    rintro ⟨x, u, y, h, htok, -⟩
    have hinfix : u.map asciiLower <:+: "[ESCAPED]".toList.map asciiLower := ⟨x.map asciiLower, y.map asciiLower, by
      rw [h, List.map_append, List.map_append]⟩
    have hall : ∀ tok ∈ TOKENS, ¬tok <:+: "[ESCAPED]".toList.map asciiLower := by
      rw [tokens_eq]
      decide
    exact hall _ htok hinfix
  unfold escapeLine
  split
  · rw [hmark, ← List.append_cons, unescaped_append_cons separators.2.2 (by decide), or_iff_right hnone]
  · rfl

theorem not_mem_of_mem_splitOn {sep : Char} : ∀ {s piece : Str}, piece ∈ s.splitOn sep → sep ∉ piece
  | [], piece, h => by
    obtain rfl : piece = [] := List.mem_singleton.mp h
    exact List.not_mem_nil
  | c :: cs, piece, h => by
    rw [List.splitOn_cons_eq_if_modifyHead] at h
    split at h
    · rcases List.mem_cons.mp h with rfl | h
      · exact List.not_mem_nil
      · exact not_mem_of_mem_splitOn h
    next hc =>
      obtain ⟨first, rest, hsplit⟩ := List.exists_cons_of_ne_nil (List.splitOn_ne_nil sep cs)
      rw [hsplit, List.modifyHead_cons] at h
      have hfirst : sep ∉ first := not_mem_of_mem_splitOn (hsplit ▸ List.mem_cons_self)
      rcases List.mem_cons.mp h with rfl | h
      · rw [List.mem_cons, not_or]
        exact ⟨fun heq => hc (heq ▸ beq_self_eq_true _), hfirst⟩
      · exact not_mem_of_mem_splitOn (hsplit ▸ List.mem_cons_of_mem _ h)

/-- A line is a part of the text without line breaks. -/
theorem line_of_lines {s line : Str} (h : line ∈ lines s) : '\n' ∉ line ∧ line ⊆ s := by
  have hpiece : ∃ piece ∈ s.splitOn '\n', line <+: piece := by
    rcases List.mem_append.mp h with h | h
    · obtain ⟨piece, hpiece, rfl⟩ := List.mem_map.mp h
      refine ⟨piece, List.mem_of_mem_dropLast hpiece, ?_⟩
      unfold stripCr
      split
      · exact List.dropLast_prefix piece
      · exact List.prefix_refl piece
    · obtain ⟨hlast, -⟩ := Option.filter_eq_some_iff.mp (Option.mem_toList.mp h)
      exact ⟨line, List.mem_of_getLast? hlast, List.prefix_refl line⟩
  obtain ⟨piece, hpiece, hpre⟩ := hpiece
  refine ⟨fun hbreak => not_mem_of_mem_splitOn hpiece (hpre.subset hbreak), fun c hc => ?_⟩
  have hjoin : join ['\n'] (s.splitOn '\n') = s := List.intercalate_splitOn '\n'
  rw [← hjoin]
  exact subset_join _ hpiece (hpre.subset hc)

/-! ## The escaped text -/

section Escaped

variable (cm : CaseMap) (content : Str)

theorem escapeContent_eq : escapeContent cm content = join ['\n'] ((lines (stripped content)).map (escapeLine cm)) := by
  rw [escapeContent, replace_nul]
  rfl

theorem nul_not_mem : NUL ∉ escapeContent cm content := by
  rw [escapeContent_eq]
  intro hmem
  rcases mem_join hmem with hmem | ⟨part, hpart, hmem⟩
  · exact absurd hmem (by decide)
  · obtain ⟨line, hline, rfl⟩ := List.mem_map.mp hpart
    have hline' : NUL ∉ line := fun h => (mem_strip.mp ((line_of_lines hline).2 h)).2 rfl
    unfold escapeLine at hmem
    split at hmem
    · rcases List.mem_append.mp hmem with hmem | hmem
      · exact absurd hmem (by decide)
      · exact hline' hmem
    · exact hline' hmem

theorem unescaped_escapeContent : Unescaped (escapeContent cm content) ↔ Unescaped (stripped content) := by
  rw [escapeContent_eq, unescaped_join, ← unescaped_lines (stripped content)]
  simp only [List.mem_map, exists_exists_and_eq_and, unescaped_escapeLine]

theorem roles_escapeContent : ∀ line ∈ (escapeContent cm content).splitOn '\n', line ≠ [] →
    hasRoleMarker cm line = true →
    ESCAPED <+: line := by
  rw [escapeContent_eq]
  intro line hline hne hrole
  rcases eq_or_ne ((lines (stripped content)).map (escapeLine cm)) [] with hnil | hsome
  · rw [hnil] at hline
    exact absurd (List.mem_singleton.mp hline) hne
  · have hbreaks : ∀ part ∈ (lines (stripped content)).map (escapeLine cm), '\n' ∉ part := by
      intro part hpart
      obtain ⟨line, hline, rfl⟩ := List.mem_map.mp hpart
      have hline' := (line_of_lines hline).1
      unfold escapeLine
      split
      · rw [List.mem_append, not_or]
        exact ⟨by decide, hline'⟩
      · exact hline'
    rw [join, List.splitOn_intercalate '\n' hbreaks hsome] at hline
    obtain ⟨l, -, rfl⟩ := List.mem_map.mp hline
    unfold escapeLine at hrole ⊢
    split
    · exact List.prefix_append _ _
    next hnot =>
      rw [if_neg hnot] at hrole
      exact absurd hrole hnot

/-- **When the escaped text is neutral.** It has no null byte, no special token without a backslash before it and no
line with a role that is not marked if and only if each token of the text without its null bytes was held together and
spelled as it is replaced, or has a backslash before it. -/
theorem escapeContent_neutral_iff : Neutral cm (escapeContent cm content) ↔ TokensPlain content := by
  have htokens : ¬Unescaped (escapeContent cm content) ↔ TokensPlain content := by
    rw [unescaped_escapeContent, unescaped_stripped_iff, not_not]
  exact ⟨fun h => htokens.mp h.tokens,
    fun h => ⟨nul_not_mem cm content, htokens.mpr h, roles_escapeContent cm content⟩⟩

end Escaped

/-- The null byte holds the token apart until the tokens are escaped. -/
theorem token_restored : escapeContent asciiCase ['<', NUL, '|'] = ['<', '|'] ∧
    ¬Neutral asciiCase (escapeContent asciiCase ['<', NUL, '|']) := by
  have hout : escapeContent asciiCase ['<', NUL, '|'] = ['<', '|'] := by decide
  refine ⟨hout, fun h => h.tokens ?_⟩
  rw [hout]
  exact ⟨[], ['<', '|'], [], rfl, by decide, by decide⟩

end Ironclaw.Safety
