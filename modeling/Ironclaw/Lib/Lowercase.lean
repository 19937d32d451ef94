import Ironclaw.Lib.Text

/-!
# Lower-case texts

`str::to_lowercase` over the tables of the characters: an ASCII character has its ASCII lower case, no ASCII capital is
the lower case of anything, and the capital sigma has the one or the other by what stands around it.

- `toLowercase_append`: texts with ASCII characters between them;
- `infix_toLowercase`: an ASCII text that occurs up to the case of its letters.
-/

namespace Ironclaw.Text

def isAscii (c : Char) : Bool := decide (c.toNat < 128)

def isAsciiUppercase (c : Char) : Bool := decide ('A' ≤ c) && decide (c ≤ 'Z')

theorem asciiLower_of_not {c : Char} (h : isAsciiUppercase c = false) : asciiLower c = c :=
  if_neg fun hc => by simp [isAsciiUppercase, hc.1, hc.2] at h

theorem toNat_of_uppercase {c : Char} (h : isAsciiUppercase c = true) : 65 ≤ c.toNat ∧ c.toNat ≤ 90 := by
  rw [isAsciiUppercase, Bool.and_eq_true, decide_eq_true_iff, decide_eq_true_iff] at h
  exact ⟨UInt32.le_iff_toNat_le.mp h.1, UInt32.le_iff_toNat_le.mp h.2⟩

theorem toNat_asciiLower {c : Char} (h : isAsciiUppercase c = true) : (asciiLower c).toNat = c.toNat + 32 := by
  have hrange := toNat_of_uppercase h
  have hvalid : (c.toNat + 32).isValidChar := .inl (by omega)
  rw [isAsciiUppercase, Bool.and_eq_true, decide_eq_true_iff, decide_eq_true_iff] at h
  rw [asciiLower, if_pos h, Char.ofNat, dif_pos hvalid]
  rfl

theorem isAscii_asciiLower (c : Char) : isAscii (asciiLower c) = isAscii c := by
  cases h : isAsciiUppercase c with
  | false => rw [asciiLower_of_not h]
  | true =>
    have hrange := toNat_of_uppercase h
    rw [isAscii, isAscii, toNat_asciiLower h]
    exact decide_eq_decide.mpr (by omega)

theorem isAsciiUppercase_asciiLower (c : Char) : isAsciiUppercase (asciiLower c) = false := by
  cases h : isAsciiUppercase c with
  | false => rw [asciiLower_of_not h, h]
  | true =>
    have hrange := toNat_of_uppercase h
    by_contra hupper
    have hrange' := toNat_of_uppercase (eq_true_of_ne_false hupper)
    rw [toNat_asciiLower h] at hrange'
    omega

/-- The tables. -/
structure LowerTables where
  char : Char → Str
  ascii : ∀ c, isAscii c = true → char c = [asciiLower c]
  noCapital : ∀ c, ∀ d ∈ char c, isAsciiUppercase d = false
  finalSigma : (before after : Str) → Bool

namespace LowerTables

variable (tables : LowerTables)

/-- The lower case of a character between others; what stands before it is in reverse order. -/
def lowerAt (before : Str) (c : Char) (after : Str) : Str :=
  if c = 'Σ' then [if tables.finalSigma before after then 'ς' else 'σ'] else tables.char c

def toLowercaseGo (before : Str) : Str → Str
  | [] => []
  | c :: after => tables.lowerAt before c after ++ toLowercaseGo (c :: before) after

def toLowercase (s : Str) : Str := tables.toLowercaseGo [] s

theorem lowerAt_ascii {c : Char} (h : isAscii c = true) (before after : Str) :
    tables.lowerAt before c after = [asciiLower c] := by
  rw [lowerAt, if_neg, tables.ascii c h]
  rintro rfl
  exact absurd h (by decide)

theorem noCapital_lowerAt (before after : Str) (c : Char) : ∀ d ∈ tables.lowerAt before c after,
    isAsciiUppercase d = false := by
  intro d hd
  rw [lowerAt] at hd
  split at hd
  · obtain rfl := List.mem_singleton.mp hd
    split <;> decide
  · exact tables.noCapital c d hd

theorem toLowercaseGo_noCapital : ∀ (s before : Str), ∀ d ∈ tables.toLowercaseGo before s, isAsciiUppercase d = false
  | c :: after, before, d, hd => by
    rcases List.mem_append.mp hd with hd | hd
    · exact tables.noCapital_lowerAt before after c d hd
    · exact toLowercaseGo_noCapital after (c :: before) d hd

/-- What comes of a text is followed by what comes of the rest. -/
theorem toLowercaseGo_append (b : Str) : ∀ a before : Str,
    ∃ front, tables.toLowercaseGo before (a ++ b) = front ++ tables.toLowercaseGo (a.reverse ++ before) b
  | [], _ => ⟨[], rfl⟩
  | c :: a, before => by
    obtain ⟨front, ih⟩ := toLowercaseGo_append b a (c :: before)
    refine ⟨tables.lowerAt before c (a ++ b) ++ front, ?_⟩
    rw [List.cons_append, toLowercaseGo, ih, List.reverse_cons, List.append_assoc, List.append_assoc,
      List.singleton_append]

theorem toLowercaseGo_ascii (b : Str) : ∀ (a before : Str), (∀ c ∈ a, isAscii c = true) →
    tables.toLowercaseGo before (a ++ b) = a.map asciiLower ++ tables.toLowercaseGo (a.reverse ++ before) b
  | [], _, _ => rfl
  | c :: a, before, h => by
    have ih := toLowercaseGo_ascii b a (c :: before) fun d hd => h d (List.mem_cons_of_mem _ hd)
    rw [List.cons_append, toLowercaseGo, ih, tables.lowerAt_ascii (h c List.mem_cons_self), List.reverse_cons,
      List.append_assoc, List.map_cons, List.singleton_append, List.singleton_append, List.cons_append]

theorem toLowercase_noCapital (s : Str) : ∀ d ∈ tables.toLowercase s, isAsciiUppercase d = false :=
  tables.toLowercaseGo_noCapital s []

theorem infix_toLowercase {a s : Str} (hascii : ∀ c ∈ a, isAscii c = true)
    (h : a.map asciiLower <:+: s.map asciiLower) :
    a.map asciiLower <:+: tables.toLowercase s := by
  obtain ⟨found, hfound, heq⟩ := List.infix_map_iff.mp h
  have hfoundAscii : ∀ c ∈ found, isAscii c = true := by
    intro c hc
    have hmem : asciiLower c ∈ a.map asciiLower := heq ▸ List.mem_map_of_mem hc
    obtain ⟨d, hd, hlower⟩ := List.mem_map.mp hmem
    rw [← isAscii_asciiLower, ← hlower, isAscii_asciiLower, hascii d hd]
  obtain ⟨left, right, rfl⟩ := hfound
  obtain ⟨front, hfront⟩ := tables.toLowercaseGo_append (found ++ right) left []
  refine ⟨front, tables.toLowercaseGo (found.reverse ++ (left.reverse ++ [])) right, ?_⟩
  rw [toLowercase, List.append_assoc left, hfront, tables.toLowercaseGo_ascii right found _ hfoundAscii, heq,
    List.append_assoc]

/-- The tables of a text without letters beyond ASCII. -/
def asciiOnly : LowerTables where
  char c := [asciiLower c]
  ascii _ _ := rfl
  noCapital c d hd := by
    obtain rfl := List.mem_singleton.mp hd
    exact isAsciiUppercase_asciiLower c
  finalSigma _ _ := false

end LowerTables

end Ironclaw.Text
