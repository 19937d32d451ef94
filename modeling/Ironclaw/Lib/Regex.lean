import Ironclaw.Lib.Text

/-!
# Regular expressions

The part of the syntax and the semantics of Rust's `regex` crate that the program uses: literals, classes, groups,
alternation, greedy repetition, `.`, `\s`, `\w`, `\b`, `\x00` and a leading `(?i)`. A match is the leftmost one, and at
its start the first in the order of preference; `findIter` takes matches from left to right without overlap. Positions
count characters. The Unicode property behind `\w` and `\b` is a parameter.

- `findIter_eq_nil_iff`: no match is found exactly when there is none at any position;
- `covered_of_run`: a position with a match lies in a range that is found;
- `literal_of_run`: a match starts with the literal prefix of the expression.
-/

namespace Ironclaw.Regex

open Text

/-! ## Syntax -/

inductive ClassItem
  | range (lo hi : Char)
  | space
  | word
  deriving DecidableEq

/-- A set of characters: the items of a class, perhaps closed under case, perhaps complemented. -/
structure CharSet where
  fold : Bool
  negated : Bool
  items : List ClassItem
  deriving DecidableEq

inductive Ast
  | empty
  | set (s : CharSet)
  | seq (a b : Ast)
  | alt (a b : Ast)
  | rep (a : Ast) (min : Nat) (max : Option Nat)
  | wordBoundary
  deriving DecidableEq

def digits (s : Str) : Str × Str := s.span Char.isDigit

def number (ds : Str) : Option Nat :=
  if ds.isEmpty then none else some (ds.foldl (fun n d => 10 * n + (d.toNat - '0'.toNat)) 0)

/-- The quantifier after an atom, if there is one. -/
def parseQuantifier (a : Ast) : Str → Option (Ast × Str)
  | '?' :: s => some (.rep a 0 (some 1), s)
  | '*' :: s => some (.rep a 0 none, s)
  | '+' :: s => some (.rep a 1 none, s)
  | '{' :: s => do
    let (ds, s) := digits s
    let min ← number ds
    match s with
    | '}' :: s => some (.rep a min (some min), s)
    | ',' :: '}' :: s => some (.rep a min none, s)
    | ',' :: s =>
      let (ds, s) := digits s
      let max ← number ds
      match s with
      | '}' :: s => some (.rep a min (some max), s)
      | _ => none
    | _ => none
  | s => some (a, s)

/-- The items of a class up to the closing bracket. -/
def parseItems : Str → Option (List ClassItem × Str)
  | ']' :: s => some ([], s)
  | '\\' :: 's' :: s => (parseItems s).map fun r => (.space :: r.1, r.2)
  | '\\' :: 'w' :: s => (parseItems s).map fun r => (.word :: r.1, r.2)
  | '\\' :: 'x' :: '0' :: '0' :: s => (parseItems s).map fun r => (.range (Char.ofNat 0) (Char.ofNat 0) :: r.1, r.2)
  | '\\' :: _ => none
  | a :: '-' :: ']' :: s => some ([.range a a, .range '-' '-'], s)
  | a :: '-' :: b :: s => (parseItems s).map fun r => (.range a b :: r.1, r.2)
  | a :: s => (parseItems s).map fun r => (.range a a :: r.1, r.2)
  | [] => none

def parseClass (fold : Bool) : Str → Option (Ast × Str)
  | '^' :: s => (parseItems s).map fun r => (.set ⟨fold, true, r.1⟩, r.2)
  | s => (parseItems s).map fun r => (.set ⟨fold, false, r.1⟩, r.2)

def literal (fold : Bool) (c : Char) : Ast := .set ⟨fold, false, [.range c c]⟩

def parseEscape (fold : Bool) : Str → Option (Ast × Str)
  | 's' :: s => some (.set ⟨fold, false, [.space]⟩, s)
  | 'w' :: s => some (.set ⟨fold, false, [.word]⟩, s)
  | 'b' :: s => some (.wordBoundary, s)
  | 'x' :: '0' :: '0' :: s => some (literal fold (Char.ofNat 0), s)
  | c :: s => if c.isAlphanum then none else some (literal fold c, s)
  | [] => none

mutual

/-- An alternation; the first argument bounds the depth of the parse. -/
def parseAlt (fold : Bool) : Nat → Str → Option (Ast × Str)
  | 0, _ => none
  | n + 1, s => do
    let (a, s) ← parseSeq fold n s
    match s with
    | '|' :: s =>
      let (b, s) ← parseAlt fold n s
      some (.alt a b, s)
    | s => some (a, s)

def parseSeq (fold : Bool) : Nat → Str → Option (Ast × Str)
  | 0, _ => none
  | _ + 1, [] => some (.empty, [])
  | n + 1, c :: s =>
    if c = '|' ∨ c = ')' then some (.empty, c :: s)
    else do
      let (a, s) ← parseAtom fold n (c :: s)
      let (a, s) ← parseQuantifier a s
      let (b, s) ← parseSeq fold n s
      some (.seq a b, s)

def parseAtom (fold : Bool) : Nat → Str → Option (Ast × Str)
  | 0, _ => none
  | n + 1, '(' :: s => do
    let (a, s) ← parseAlt fold n ((stripStart "?:".toList s).getD s)
    match s with
    | ')' :: s => some (a, s)
    | _ => none
  | _ + 1, '[' :: s => parseClass fold s
  | _ + 1, '\\' :: s => parseEscape fold s
  | _ + 1, '.' :: s => some (.set ⟨false, true, [.range '\n' '\n']⟩, s)
  | _ + 1, c :: s => some (literal fold c, s)
  | _ + 1, [] => none

end

/-- The expression of a pattern text. -/
def parse (src : Str) : Option Ast := do
  let (fold, s) := match stripStart "(?i)".toList src with
    | some s => (true, s)
    | none => (false, src)
  let (a, s) ← parseAlt fold (3 * s.length + 3) s
  if s.isEmpty then some a else none

/-- A compiled expression: its text and what the text means. -/
structure Compiled where
  asStr : Str
  ast : Ast
  parsed : parse asStr = some ast

/-- `Regex::new` for a text that is a valid pattern. -/
def new (src : Str) (h : (parse src).isSome = true) : Compiled := ⟨src, (parse src).get h, (Option.some_get h).symm⟩

/-- The text of a pattern is read off the literal, so that an evaluation does not decode it. -/
theorem new_ofList {l : List Char} (h : (parse (String.ofList l).toList).isSome = true) :
    new (String.ofList l).toList h = new l (by rwa [String.toList_ofList] at h) := by
  congr 1
  exact String.toList_ofList

/-! ## Matching -/

/-- The characters that differ from a character of an ASCII class only by case. -/
def caseVariants (c : Char) : List Char :=
  let n := c.toNat
  [c, asciiLower c, asciiUpper c] ++ (if n = 0x17F then ['s', 'S'] else []) ++ (if n = 0x212A then ['k', 'K'] else [])

/-- The word characters of ASCII. -/
def asciiWord (c : Char) : Bool := c.isAlphanum || c == '_'

def ClassItem.mem (isWord : Char → Bool) (c : Char) : ClassItem → Bool
  | .range lo hi => lo ≤ c && c ≤ hi
  | .space => isWhitespace c
  | .word => isWord c

def CharSet.mem (isWord : Char → Bool) (s : CharSet) (c : Char) : Bool :=
  let inItems := fun c => s.items.any (ClassItem.mem isWord c)
  (if s.fold then (caseVariants c).any inItems else inItems c) != s.negated

/-- A position in a text: the characters before it, the nearest first, and the rest. -/
structure Pos where
  before : Str
  rest : Str
  deriving DecidableEq

/-- Exactly `n` matches in a row. -/
def times (f : Pos → List Pos) : Nat → Pos → List Pos
  | 0, p => [p]
  | n + 1, p => (f p).flatMap (times f n)

/-- At most `n` further matches, each of some length; more are preferred. -/
def upTo (f : Pos → List Pos) : Nat → Pos → List Pos
  | 0, p => [p]
  | n + 1, p => ((f p).filter fun q => q.rest.length < p.rest.length).flatMap (upTo f n) ++ [p]

section Match

variable (isWord : Char → Bool)

/-- A position between a word character and another, or a word character and an end of the text. -/
def atWordBoundary (p : Pos) : Bool :=
  (p.before.head?.any isWord) != (p.rest.head?.any isWord)

/-- The ends of the matches that start at a position, in the order of preference. -/
def run : Ast → Pos → List Pos
  | .empty, p => [p]
  | .set s, p =>
    match p.rest with
    | [] => []
    | c :: cs => if s.mem isWord c then [⟨c :: p.before, cs⟩] else []
  | .seq a b, p => (run a p).flatMap (run b)
  | .alt a b, p => run a p ++ run b p
  | .rep a min max, p => (times (run a) min p).flatMap fun q =>
      upTo (run a) (match max with
        | none => q.rest.length
        | some m => m - min) q
  | .wordBoundary, p => if atWordBoundary isWord p then [p] else []

/-- The matches from a position on: `skip` characters belong to the last match, `i` is the position, `last` the end of
the last match. A match of length zero is dropped when the last match ends there. -/
def findIterFrom (a : Ast) : (skip i : Nat) → (last : Option Nat) → (before rest : Str) → List (Nat × Nat)
  | skip + 1, i, last, before, c :: cs => findIterFrom a skip (i + 1) last (c :: before) cs
  | _ + 1, _, _, _, [] => []
  | 0, i, last, before, [] =>
    if (run isWord a ⟨before, []⟩).isEmpty ∨ last = some i then [] else [(i, i)]
  | 0, i, last, before, c :: cs =>
    match run isWord a ⟨before, c :: cs⟩ with
    | [] => findIterFrom a 0 (i + 1) last (c :: before) cs
    | q :: _ =>
      let len := cs.length + 1 - q.rest.length
      if len = 0 then
        if last = some i then findIterFrom a 0 (i + 1) last (c :: before) cs
        else (i, i) :: findIterFrom a 0 (i + 1) (some i) (c :: before) cs
      else (i, i + len) :: findIterFrom a (len - 1) (i + 1) (some (i + len)) (c :: before) cs

/-- `Regex::find_iter`. -/
def findIter (a : Ast) (s : Str) : List (Nat × Nat) := findIterFrom isWord a 0 0 none [] s

/-- `Regex::is_match`. -/
def isMatch (a : Ast) (s : Str) : Bool := !(findIter isWord a s).isEmpty

/-! ## Where matches are -/

theorem findIterFrom_within (a : Ast) :
    ∀ (rest : Str) (skip i : Nat) (last : Option Nat) (before : Str) (r : Nat × Nat),
    r ∈ findIterFrom isWord a skip i last before rest → r.1 ≤ r.2 ∧ r.2 ≤ i + rest.length
  | c :: cs, skip + 1, i, last, before, r, h => by
    have ih := findIterFrom_within a cs skip (i + 1) last (c :: before) r h
    rw [List.length_cons]
    omega
  | [], skip + 1, i, last, before, r, h => by cases h
  | [], 0, i, last, before, r, h => by
    rw [findIterFrom] at h
    split at h
    · cases h
    · obtain rfl := List.mem_singleton.mp h
      exact ⟨Nat.le_refl _, Nat.le_refl _⟩
  | c :: cs, 0, i, last, before, r, h => by
    have ih := fun skip last => findIterFrom_within a cs skip (i + 1) last (c :: before) r
    rw [List.length_cons]
    rw [findIterFrom] at h
    split at h
    · have := ih _ _ h
      omega
    next q qs hq =>
      simp only at h
      split at h
      · split at h
        · have := ih _ _ h
          omega
        · rcases List.mem_cons.mp h with rfl | h
          · exact ⟨Nat.le_refl _, Nat.le_add_right _ _⟩
          · have := ih _ _ h
            omega
      · rcases List.mem_cons.mp h with rfl | h
        · exact ⟨Nat.le_add_right _ _, Nat.add_le_add_left (Nat.sub_le _ _) i⟩
        · have := ih _ _ h
          omega

/-- A match is a range of the text. -/
theorem findIter_within {a : Ast} {s : Str} {r : Nat × Nat} (h : r ∈ findIter isWord a s) :
    r.1 ≤ r.2 ∧ r.2 ≤ s.length := by
  have h := findIterFrom_within isWord a s 0 0 none [] r h
  rwa [Nat.zero_add] at h

/-- No match is found exactly when no position has one. -/
theorem findIterFrom_eq_nil_iff (a : Ast) : ∀ (i : Nat) (before rest : Str),
    findIterFrom isWord a 0 i none before rest = [] ↔
      ∀ x y, rest = x ++ y → run isWord a ⟨x.reverse ++ before, y⟩ = []
  | i, before, [] => by
    simp only [findIterFrom]
    constructor
    · intro h x y hxy
      obtain ⟨rfl, rfl⟩ := List.append_eq_nil_iff.mp hxy.symm
      by_contra hne
      rw [if_neg] at h
      · cases h
      · rintro (hnil | hlast)
        · exact hne (List.isEmpty_iff.mp hnil)
        · cases hlast
    · intro h
      rw [if_pos (.inl (List.isEmpty_iff.mpr (h [] [] rfl)))]
  | i, before, c :: cs => by
    have htail : (∀ x y, c :: cs = x ++ y → run isWord a ⟨x.reverse ++ before, y⟩ = []) ↔
        run isWord a ⟨before, c :: cs⟩ = [] ∧
          ∀ x y, cs = x ++ y → run isWord a ⟨x.reverse ++ c :: before, y⟩ = [] := by
      constructor
      · intro h
        refine ⟨h [] (c :: cs) rfl, fun x y hxy => ?_⟩
        have := h (c :: x) y (by rw [hxy, List.cons_append])
        rwa [List.reverse_cons, List.append_assoc, List.singleton_append] at this
      · rintro ⟨hhere, hlater⟩ x y hxy
        cases x with
        | nil =>
          obtain rfl : c :: cs = y := hxy
          exact hhere
        | cons d x =>
          obtain ⟨rfl, hcs⟩ := List.cons_eq_cons.mp hxy
          rw [List.reverse_cons, List.append_assoc, List.singleton_append]
          exact hlater x y hcs
    rw [htail]
    simp only [findIterFrom]
    cases hrun : run isWord a ⟨before, c :: cs⟩ with
    | nil =>
      simp only [true_and]
      exact findIterFrom_eq_nil_iff a (i + 1) (c :: before) cs
    | cons q qs =>
      simp only [reduceCtorEq, false_and, iff_false]
      split
      · exact List.cons_ne_nil _ _
      · exact List.cons_ne_nil _ _

theorem findIter_eq_nil_iff (a : Ast) (s : Str) :
    findIter isWord a s = [] ↔ ∀ x y, s = x ++ y → run isWord a ⟨x.reverse, y⟩ = [] := by
  unfold findIter
  rw [findIterFrom_eq_nil_iff]
  simp only [List.append_nil]

/-- Each position with a match lies in a range that is found, if no match has length zero. -/
theorem covered_of_runFrom {a : Ast} (hpos : ∀ p q, q ∈ run isWord a p → q.rest.length < p.rest.length) :
    ∀ (rest : Str) (skip i : Nat) (last : Option Nat) (before x y : Str), rest = x ++ y → skip ≤ x.length →
      run isWord a ⟨x.reverse ++ before, y⟩ ≠ [] →
      ∃ r ∈ findIterFrom isWord a skip i last before rest, r.1 ≤ i + x.length ∧ i + x.length < r.2
  | [], skip, i, last, before, x, y, hxy, _, hrun => by
    obtain ⟨rfl, rfl⟩ := List.append_eq_nil_iff.mp hxy.symm
    obtain ⟨q, hq⟩ := List.exists_mem_of_ne_nil _ hrun
    exact absurd (hpos _ q hq) (Nat.not_lt_zero _)
  | c :: cs, skip + 1, i, last, before, x, y, hxy, hskip, hrun => by
    cases x with
    | nil => exact absurd hskip (Nat.not_succ_le_zero _)
    | cons d x =>
      obtain ⟨rfl, hcs⟩ := List.cons_eq_cons.mp hxy
      rw [List.reverse_cons, List.append_assoc, List.singleton_append] at hrun
      obtain ⟨r, hr, h₁, h₂⟩ := covered_of_runFrom hpos cs skip (i + 1) last (c :: before) x y hcs
        (Nat.le_of_succ_le_succ hskip) hrun
      exact ⟨r, hr, by rw [List.length_cons]; omega, by rw [List.length_cons]; omega⟩
  | c :: cs, 0, i, last, before, x, y, hxy, _, hrun => by
    cases x with
    | nil =>
      obtain rfl : c :: cs = y := hxy
      simp only [findIterFrom]
      cases hq : run isWord a ⟨before, c :: cs⟩ with
      | nil => exact absurd hq hrun
      | cons q qs =>
        have hlt := hpos ⟨before, c :: cs⟩ q (by rw [hq]; exact List.mem_cons_self)
        have hlen : ¬cs.length + 1 - q.rest.length = 0 := by
          have : q.rest.length < cs.length + 1 := hlt
          omega
        simp only [if_neg hlen]
        exact ⟨_, List.mem_cons_self, Nat.le_refl _, by simp only [List.length_nil]; omega⟩
    | cons d x =>
      obtain ⟨rfl, hcs⟩ := List.cons_eq_cons.mp hxy
      rw [List.reverse_cons, List.append_assoc, List.singleton_append] at hrun
      simp only [findIterFrom]
      cases hq : run isWord a ⟨before, c :: cs⟩ with
      | nil =>
        obtain ⟨r, hr, h₁, h₂⟩ := covered_of_runFrom hpos cs 0 (i + 1) last (c :: before) x y hcs (Nat.zero_le _) hrun
        exact ⟨r, hr, by rw [List.length_cons]; omega, by rw [List.length_cons]; omega⟩
      | cons q qs =>
        have hlt := hpos ⟨before, c :: cs⟩ q (by rw [hq]; exact List.mem_cons_self)
        have hlen : ¬cs.length + 1 - q.rest.length = 0 := by
          have : q.rest.length < cs.length + 1 := hlt
          omega
        simp only [if_neg hlen]
        by_cases hin : x.length + 1 < cs.length + 1 - q.rest.length
        · refine ⟨_, List.mem_cons_self, Nat.le_add_right .., ?_⟩
          simp only [List.length_cons]
          omega
        · obtain ⟨r, hr, h₁, h₂⟩ := covered_of_runFrom hpos cs (cs.length + 1 - q.rest.length - 1) (i + 1)
            (some (i + (cs.length + 1 - q.rest.length))) (c :: before) x y hcs (by omega) hrun
          exact ⟨r, List.mem_cons_of_mem _ hr, by rw [List.length_cons]; omega, by rw [List.length_cons]; omega⟩

theorem covered_of_run {a : Ast} (hpos : ∀ p q, q ∈ run isWord a p → q.rest.length < p.rest.length) {x y : Str}
    (hrun : run isWord a ⟨x.reverse, y⟩ ≠ []) :
    ∃ r ∈ findIter isWord a (x ++ y), r.1 ≤ x.length ∧ x.length < r.2 := by
  obtain ⟨r, hr, h₁, h₂⟩ := covered_of_runFrom isWord hpos (x ++ y) 0 0 none [] x y rfl (Nat.zero_le _)
    (by rw [List.append_nil]; exact hrun)
  exact ⟨r, hr, by omega, by omega⟩

/-! ## Literal prefixes -/

/-- The literal an expression starts with. -/
def literalPrefix : Ast → Str
  | .seq (.set ⟨false, false, [.range lo hi]⟩) b => if lo = hi then lo :: literalPrefix b else []
  | _ => []

/-- A match starts with the literal prefix. -/
theorem literal_of_run : ∀ (a : Ast) (p : Pos), run isWord a p ≠ [] → literalPrefix a <+: p.rest
  | a, p, h => by
    unfold literalPrefix
    split
    next lo hi b =>
      split
      next heq =>
        subst heq
        obtain ⟨before, rest⟩ := p
        cases rest with
        | nil => exact absurd rfl h
        | cons c cs =>
          simp only [run] at h
          split at h
          next hc =>
            have hlo : lo = c := by
              simp only [CharSet.mem, ClassItem.mem, List.any_cons, List.any_nil, Bool.or_false, Bool.false_eq_true,
                if_false, bne_iff_ne, ne_eq, Bool.not_eq_false, Bool.and_eq_true, decide_eq_true_eq] at hc
              exact Char.le_antisymm hc.1 hc.2
            rw [List.flatMap_singleton] at h
            subst hlo
            exact List.cons_prefix_cons.mpr ⟨rfl, literal_of_run b _ h⟩
          · exact absurd rfl h
      · exact List.nil_prefix
    · exact List.nil_prefix

/-- A text in which a match is found contains the literal prefix. -/
theorem literal_of_findIter {a : Ast} {s : Str} (h : findIter isWord a s ≠ []) : literalPrefix a <:+: s := by
  by_contra hno
  refine h ((findIter_eq_nil_iff isWord a s).mpr fun x y hxy => ?_)
  by_contra hrun
  have hpre : literalPrefix a <+: y := literal_of_run isWord a _ hrun
  rw [hxy] at hno
  exact hno (hpre.isInfix.trans (List.suffix_append x y).isInfix)

end Match

end Ironclaw.Regex
