import Mathlib.Data.List.DropRight
import Mathlib.Tactic

/-!
# Text

A string is the list of its characters. `trim`, `replace` and `eqIgnoreAsciiCase` follow the string operations of
Rust's standard library; full Unicode case conversion is a table of its own and stays a parameter (`CaseMap`).
-/

namespace Ironclaw

/-- A string. -/
abbrev Str := List Char

instance : LawfulBEq Str := inferInstance

namespace Text

/-- The characters with the Unicode property `White_Space`. -/
def isWhitespace (c : Char) : Bool :=
  let n := c.toNat
  (9 ≤ n && n ≤ 13) || n == 0x20 || n == 0x85 || n == 0xA0 || n == 0x1680 || (0x2000 ≤ n && n ≤ 0x200A) ||
    n == 0x2028 || n == 0x2029 || n == 0x202F || n == 0x205F || n == 0x3000

def trimStart (s : Str) : Str := s.dropWhile isWhitespace

def trimEnd (s : Str) : Str := s.rdropWhile isWhitespace

def trim (s : Str) : Str := trimEnd (trimStart s)

/-- Trimming the end of a string that starts with no white space leaves it so. -/
theorem trimStart_trimEnd {s : Str} (h : trimStart s = s) : trimStart (trimEnd s) = trimEnd s := by
  have hp : trimEnd s <+: s := List.rdropWhile_prefix isWhitespace s
  cases hs : trimEnd s with
  | nil => rfl
  | cons c cs =>
    rw [hs] at hp
    obtain ⟨t, rfl⟩ := hp
    by_cases hc : isWhitespace c = true
    · have hlen := congrArg List.length h
      have hle := (List.dropWhile_suffix (l := cs ++ t) isWhitespace).length_le
      simp only [trimStart, List.cons_append, List.dropWhile_cons, hc, if_true, List.length_cons] at hlen
      omega
    · simp [trimStart, hc]

@[simp] theorem trim_trim (s : Str) : trim (trim s) = trim s := by
  have h : trimStart (trimStart s) = trimStart s := List.dropWhile_idempotent isWhitespace s
  have h' : trimEnd (trimEnd (trimStart s)) = trimEnd (trimStart s) := List.rdropWhile_idempotent isWhitespace _
  rw [trim, trim, trimStart_trimEnd h, h']

theorem trim_eq_nil_iff {s : Str} : trim s = [] ↔ ∀ c ∈ s, isWhitespace c = true := by
  constructor
  · intro h
    have hall : ∀ c ∈ trimStart s, isWhitespace c = true := List.rdropWhile_eq_nil_iff.mp h
    have hstart : trimStart s = [] := by
      cases hs : trimStart s with
      | nil => rfl
      | cons c cs =>
        have hhead := List.head?_dropWhile_not isWhitespace s
        rw [show s.dropWhile isWhitespace = c :: cs from hs] at hhead
        exact absurd (hall c (hs ▸ List.mem_cons_self)) (by simpa using hhead)
    exact List.dropWhile_eq_nil_iff.mp hstart
  · intro h
    rw [trim, show trimStart s = [] from List.dropWhile_eq_nil_iff.mpr h]
    rfl

/-- `char::to_ascii_lowercase`. -/
def asciiLower (c : Char) : Char := if 'A' ≤ c ∧ c ≤ 'Z' then Char.ofNat (c.toNat + 32) else c

/-- `char::to_ascii_uppercase`. -/
def asciiUpper (c : Char) : Char := if 'a' ≤ c ∧ c ≤ 'z' then Char.ofNat (c.toNat - 32) else c

/-- `str::eq_ignore_ascii_case`. -/
def eqIgnoreAsciiCase (s t : Str) : Bool := s.map asciiLower == t.map asciiLower

/-- Full case conversion, `str::to_lowercase` and `str::to_uppercase`. -/
structure CaseMap where
  lower : Str → Str
  upper : Str → Str

/-- Case conversion of ASCII text. -/
def asciiCase : CaseMap := ⟨List.map asciiLower, List.map asciiUpper⟩

/-- The loop of `replace`: `skip` characters of the last occurrence are still to be passed over. -/
def replaceGo (pat rep : Str) : Nat → Str → Str
  | _, [] => []
  | skip + 1, _ :: cs => replaceGo pat rep skip cs
  | 0, c :: cs =>
    if pat.isPrefixOf (c :: cs) then rep ++ replaceGo pat rep (pat.length - 1) cs else c :: replaceGo pat rep 0 cs

/-- `str::replace` for a non-empty pattern: occurrences are taken from the left and do not overlap. -/
def replace (pat rep s : Str) : Str := replaceGo pat rep 0 s

/-- A pattern that begins a text does so without what follows, when that starts with a character it does not have. -/
theorem prefix_left {α : Type*} {p l r : List α} (h : p <+: l ++ r) (hr : ∀ c ∈ r.head?, c ∉ p) : p <+: l := by
  rcases List.prefix_or_prefix_of_prefix h (List.prefix_append l r) with hp | ⟨q, rfl⟩
  · exact hp
  · rw [List.prefix_append_right_inj] at h
    cases q with
    | nil => rw [List.append_nil]
    | cons c q =>
      obtain ⟨t, rfl⟩ := h
      exact absurd (List.mem_append_right l List.mem_cons_self) (hr c rfl)

/-- A pattern without a symbol stands on one side of it. -/
theorem infix_append_cons {α : Type*} {pat r : List α} {x : α} (hx : x ∉ pat) : ∀ {l : List α},
    pat <:+: l ++ x :: r → pat <:+: l ∨ pat <:+: r
  | [], h => by
    rcases List.infix_cons_iff.mp h with h | h
    · cases pat with
      | nil => exact .inl (List.infix_refl [])
      | cons y pat => exact absurd ((List.cons_prefix_cons.mp h).1 ▸ List.mem_cons_self) hx
    · exact .inr h
  | y :: l, h => by
    rcases List.infix_cons_iff.mp h with h | h
    · have hleft : pat <+: y :: l := prefix_left (l := y :: l) h fun c hc => Option.some.inj hc ▸ hx
      exact .inl hleft.isInfix
    · exact (infix_append_cons hx h).imp_left fun h => h.trans (List.suffix_cons y l).isInfix

section Replace

variable {pat rep : Str}

theorem replaceGo_drop : ∀ (skip : Nat) (s : Str), replaceGo pat rep skip s = replaceGo pat rep 0 (s.drop skip)
  | 0, _ => rfl
  | _ + 1, [] => rfl
  | skip + 1, _ :: cs => replaceGo_drop skip cs

theorem replace_cons_of_not {c : Char} {cs : Str} (h : ¬pat <+: c :: cs) :
    replace pat rep (c :: cs) = c :: replace pat rep cs := by
  rw [replace, replaceGo, if_neg fun hp => h (List.isPrefixOf_iff_prefix.mp hp)]
  rfl

/-- An occurrence at the start is replaced. -/
theorem replace_append (hne : pat ≠ []) (r : Str) : replace pat rep (pat ++ r) = rep ++ replace pat rep r := by
  obtain ⟨c, cs, rfl⟩ := List.exists_cons_of_ne_nil hne
  have hdrop : (cs ++ r).drop ((c :: cs).length - 1) = r := List.drop_left
  have hstart : (c :: cs).isPrefixOf (c :: (cs ++ r)) = true :=
    List.isPrefixOf_iff_prefix.mpr (List.prefix_append (c :: cs) r)
  rw [List.cons_append, replace, replaceGo, if_pos hstart, replaceGo_drop, hdrop]
  rfl

/-- A replacement of one character. -/
theorem replace_char (c : Char) : ∀ s : Str, replace [c] rep s = s.flatMap fun d => if d = c then rep else [d]
  | [] => rfl
  | d :: s => by
    have ih := replace_char c s
    rw [List.flatMap_cons, ← ih]
    split
    next hd =>
      subst hd
      exact replace_append (List.cons_ne_nil d []) s
    next hd => exact replace_cons_of_not fun hp => hd (List.cons_prefix_cons.mp hp).1.symm

/-- What is in the text after it. -/
theorem mem_replace_char {c d : Char} {s : Str} (h : d ∈ replace [c] rep s) : d ∈ rep ∨ d ∈ s ∧ d ≠ c := by
  rw [replace_char] at h
  obtain ⟨e, he, hd⟩ := List.mem_flatMap.mp h
  split at hd
  · exact .inl hd
  next hne =>
    obtain rfl := List.mem_singleton.mp hd
    exact .inr ⟨he, hne⟩

theorem replace_of_not_infix : ∀ {s : Str}, ¬pat <:+: s → replace pat rep s = s
  | [], _ => rfl
  | c :: cs, h => by
    have ih : replace pat rep cs = cs := replace_of_not_infix fun hcs => h (hcs.trans (List.suffix_cons c cs).isInfix)
    rw [replace_cons_of_not fun hp => h hp.isInfix, ih]

end Replace

/-- `str::find` for a string: the position of the first occurrence. -/
def find (pat : Str) : Str → Option Nat
  | [] => if pat.isEmpty then some 0 else none
  | c :: cs => if pat.isPrefixOf (c :: cs) then some 0 else (find pat cs).map (· + 1)

/-- `str::rfind` for a character: the position of the last occurrence. -/
def rfindChar (c : Char) (s : Str) : Option Nat := (s.reverse.findIdx? (· == c)).map fun i => s.length - 1 - i

/-- `str::strip_prefix`. -/
def stripStart (pat s : Str) : Option Str := if pat.isPrefixOf s then some (s.drop pat.length) else none

theorem stripStart_eq_some_iff {pat s t : Str} : stripStart pat s = some t ↔ s = pat ++ t := by
  unfold stripStart
  split
  next hprefix =>
    obtain ⟨r, rfl⟩ := List.isPrefixOf_iff_prefix.mp hprefix
    rw [List.drop_left, Option.some.injEq, List.append_cancel_left_eq]
  next hprefix =>
    refine ⟨nofun, fun h => absurd (List.isPrefixOf_iff_prefix.mpr ?_) hprefix⟩
    exact h ▸ List.prefix_append pat t

/-- The length in bytes, `str::len`. -/
def utf8Len (s : Str) : Nat := (s.map Char.utf8Size).sum

/-- The longest prefix of at most `n` bytes: a slice up to `floor_char_boundary`. -/
def takeBytes : Nat → Str → Str
  | _, [] => []
  | n, c :: cs => if c.utf8Size ≤ n then c :: takeBytes (n - c.utf8Size) cs else []

@[simp] theorem utf8Len_nil : utf8Len [] = 0 := rfl

@[simp] theorem utf8Len_cons (c : Char) (s : Str) : utf8Len (c :: s) = c.utf8Size + utf8Len s := by
  simp [utf8Len]

theorem utf8Len_append (s t : Str) : utf8Len (s ++ t) = utf8Len s + utf8Len t := by
  simp [utf8Len]

theorem takeBytes_isPrefix : ∀ (n : Nat) (s : Str), takeBytes n s <+: s
  | _, [] => List.prefix_refl []
  | n, c :: cs => by
    rw [takeBytes]
    split
    · exact List.cons_prefix_cons.mpr ⟨rfl, takeBytes_isPrefix _ cs⟩
    · exact List.nil_prefix

theorem utf8Len_takeBytes_le : ∀ (n : Nat) (s : Str), utf8Len (takeBytes n s) ≤ n
  | _, [] => Nat.zero_le _
  | n, c :: cs => by
    have ih := utf8Len_takeBytes_le (n - c.utf8Size) cs
    rw [takeBytes]
    split
    · rw [utf8Len_cons]
      omega
    · exact Nat.zero_le n

theorem takeBytes_zero : ∀ s : Str, takeBytes 0 s = []
  | [] => rfl
  | c :: _ => if_neg (Nat.not_le.mpr c.utf8Size_pos)

/-- A text that fits is kept, and what is left of the bytes goes to the rest. -/
theorem takeBytes_append : ∀ {n : Nat} {s : Str}, utf8Len s ≤ n → ∀ t : Str,
    takeBytes n (s ++ t) = s ++ takeBytes (n - utf8Len s) t
  | _, [], _, _ => rfl
  | n, c :: cs, h, t => by
    rw [utf8Len_cons] at h
    rw [List.cons_append, takeBytes, if_pos (by omega), takeBytes_append (by omega) t, utf8Len_cons, Nat.sub_sub]
    rfl

/-- A cut sees no more than a prefix that fills it. -/
theorem takeBytes_within : ∀ {n : Nat} {p s : Str}, p <+: s → n ≤ utf8Len p → takeBytes n s = takeBytes n p
  | n, [], s, _, hn => by
    obtain rfl : n = 0 := Nat.le_zero.mp hn
    rw [takeBytes_zero, takeBytes_zero]
  | n, c :: p, s, ⟨t, hs⟩, hn => by
    subst hs
    rw [utf8Len_cons] at hn
    rw [List.cons_append, takeBytes, takeBytes]
    split
    · rw [takeBytes_within (List.prefix_append p t) (by omega)]
    · rfl

/-- A cut loses less than one character of at most four bytes. -/
theorem lt_utf8Len_takeBytes : ∀ {n : Nat} {s : Str}, n < utf8Len s → n < utf8Len (takeBytes n s) + 4
  | n, c :: cs, h => by
    rw [utf8Len_cons] at h
    have hsize := c.utf8Size_le_four
    rw [takeBytes]
    split
    · have ih : n - c.utf8Size < utf8Len (takeBytes (n - c.utf8Size) cs) + 4 := lt_utf8Len_takeBytes (by omega)
      rw [utf8Len_cons]
      omega
    · rw [utf8Len_nil]
      omega

/-- The longest prefix of at most `n` bytes. -/
structure IsLongestPrefix (n : Nat) (s p : Str) : Prop where
  isPrefix : p <+: s
  fits : utf8Len p ≤ n
  longest : ∀ q, q <+: s → utf8Len q ≤ n → q <+: p

theorem takeBytes_longest (n : Nat) (s : Str) : IsLongestPrefix n s (takeBytes n s) := by
  refine ⟨takeBytes_isPrefix n s, utf8Len_takeBytes_le n s, ?_⟩
  rintro q ⟨t, rfl⟩ hfits
  rw [takeBytes_append hfits]
  exact List.prefix_append _ _

/-- `&s[..n]`, which panics when `n` is not the end of a character. -/
def sliceTo (n : Nat) (s : Str) : Option Str := if utf8Len (takeBytes n s) = n then some (takeBytes n s) else none

theorem sliceTo_longest {n : Nat} {s p : Str} (h : sliceTo n s = some p) : IsLongestPrefix n s p := by
  unfold sliceTo at h
  split at h
  · cases h
    exact takeBytes_longest n s
  · cases h

/-- A slice succeeds when some prefix has that many bytes. -/
theorem sliceTo_isSome_iff (n : Nat) (s : Str) : (sliceTo n s).isSome ↔ ∃ p, p <+: s ∧ utf8Len p = n := by
  have hcut : utf8Len (takeBytes n s) = n ↔ ∃ p, p <+: s ∧ utf8Len p = n := by
    refine ⟨fun h => ⟨_, takeBytes_isPrefix n s, h⟩, ?_⟩
    rintro ⟨p, hp, rfl⟩
    rw [takeBytes_within hp (Nat.le_refl _)]
    have hwhole := takeBytes_append (Nat.le_refl (utf8Len p)) []
    rw [List.append_nil, takeBytes, List.append_nil] at hwhole
    rw [hwhole]
  rw [← hcut, sliceTo]
  split <;> simp_all

/-- `str::parse` for an unsigned integer of this many bits. -/
def parseUnsigned (bits : Nat) (s : Str) : Option Nat :=
  let digits := (stripStart "+".toList s).getD s
  if digits.isEmpty || digits.any (fun c => !c.isDigit) then none
  else
    let n := digits.foldl (fun n c => 10 * n + (c.toNat - '0'.toNat)) 0
    if n < 2 ^ bits then some n else none

theorem toDigits_isDigit (k : Nat) : (Nat.toDigits 10 k).any (fun c => !c.isDigit) = false := by
  rw [List.any_eq_false]
  intro c hc
  rw [Nat.isDigit_of_mem_toDigits (by decide) (by decide) hc]
  exact Bool.false_ne_true

/-- The text of a natural number has no sign. -/
theorem head_toDigits (k : Nat) : ∃ c cs, Nat.toDigits 10 k = c :: cs ∧ c.isDigit = true := by
  cases h : Nat.toDigits 10 k with
  | nil => exact absurd h Nat.toDigits_ne_nil
  | cons c cs =>
    exact ⟨c, cs, rfl, Nat.isDigit_of_mem_toDigits (b := 10) (n := k) (by decide) (by decide) (h ▸ List.mem_cons_self)⟩

/-- The text of a number is read when the number fits. -/
theorem parseUnsigned_toDigits (bits k : Nat) :
    parseUnsigned bits (Nat.toDigits 10 k) = if k < 2 ^ bits then some k else none := by
  obtain ⟨c, cs, hcs, hc⟩ := head_toDigits k
  have hplus : stripStart "+".toList (Nat.toDigits 10 k) = none := by
    have hne : '+' ≠ c := by
      rintro rfl
      cases hc
    rw [hcs, stripStart]
    exact if_neg (by simp [hne])
  have hfold : (Nat.toDigits 10 k).foldl (fun n c => 10 * n + (c.toNat - '0'.toNat)) 0 = k :=
    Nat.ofDigitChars_ten_toDigits
  rw [parseUnsigned, hplus, Option.getD_none, toDigits_isDigit, Bool.or_false, if_neg (by simp [Nat.toDigits_ne_nil]),
    hfold]

/-- A text with a character that is no digit and no sign is no number. -/
theorem parseUnsigned_of_mem {bits : Nat} {s : Str} {c : Char} (h : c ∈ s) (hdigit : c.isDigit = false)
    (hplus : c ≠ '+') :
    parseUnsigned bits s = none := by
  have hmem : c ∈ (stripStart "+".toList s).getD s := by
    unfold stripStart
    split
    next hprefix =>
      obtain ⟨t, rfl⟩ := List.isPrefixOf_iff_prefix.mp hprefix
      rcases List.mem_cons.mp h with hc | ht
      · exact absurd hc hplus
      · exact ht
    · exact h
  have hany : ((stripStart "+".toList s).getD s).any (fun c => !c.isDigit) = true :=
    List.any_eq_true.mpr ⟨c, hmem, by rw [hdigit]; rfl⟩
  rw [parseUnsigned, hany, Bool.or_true, if_pos rfl]

/-- `str::split_once` for one character. -/
def splitOnce (c : Char) : Str → Option (Str × Str)
  | [] => none
  | d :: s => if d = c then some ([], s) else (splitOnce c s).map fun (front, back) => (d :: front, back)

theorem splitOnce_append {c : Char} (back : Str) : ∀ {front : Str}, c ∉ front →
    splitOnce c (front ++ c :: back) = some (front, back)
  | [], _ => if_pos rfl
  | d :: front, h => by
    rw [List.mem_cons, not_or] at h
    rw [List.cons_append, splitOnce, if_neg (Ne.symm h.1), splitOnce_append back h.2]
    rfl

theorem splitOnce_of_notMem {c : Char} : ∀ {s : Str}, c ∉ s → splitOnce c s = none
  | [], _ => rfl
  | d :: s, h => by
    rw [List.mem_cons, not_or] at h
    rw [splitOnce, if_neg (Ne.symm h.1), splitOnce_of_notMem h.2]
    rfl

/-- `str::trim_end_matches` for one character. -/
def trimEndChar (c : Char) (s : Str) : Str := s.rdropWhile (· == c)

/-- What stands before a character that is not trimmed stays. -/
theorem mem_trimEndChar {c d e : Char} {front : Str} (h : e ∈ front) (hd : d ≠ c) (back : Str) :
    e ∈ trimEndChar c (front ++ d :: back) := by
  have hd' : (d == c) = false := beq_false_of_ne hd
  rw [trimEndChar, List.rdropWhile, List.mem_reverse, List.reverse_append, List.reverse_cons, List.append_assoc,
    List.dropWhile_append]
  split
  · rw [List.singleton_append, List.dropWhile_cons, hd']
    exact List.mem_cons_of_mem _ (List.mem_reverse.mpr h)
  · exact List.mem_append_right _ (List.mem_cons_of_mem _ (List.mem_reverse.mpr h))

/-- `str::trim_matches` for one character. -/
def trimChar (c : Char) (s : Str) : Str := (s.dropWhile (· == c)).rdropWhile (· == c)

/-- A line without the carriage return at its end. -/
def stripCr (line : Str) : Str := if line.getLast? = some '\r' then line.dropLast else line

/-- `str::lines`: a final line break ends the last line, and a carriage return before a line break belongs to it. -/
def lines (s : Str) : List Str :=
  let pieces := s.splitOn '\n'
  pieces.dropLast.map stripCr ++ (pieces.getLast?.filter fun piece => !piece.isEmpty).toList

/-- `[str]::join`. -/
def join (sep : Str) (parts : List Str) : Str := List.intercalate sep parts

theorem join_singleton (sep part : Str) : join sep [part] = part := List.intercalate_singleton

theorem join_cons_cons (c : Char) (part part' : Str) (parts : List Str) :
    join [c] (part :: part' :: parts) = part ++ c :: join [c] (part' :: parts) := by
  rw [join, List.intercalate_cons_cons, List.append_assoc, List.singleton_append, join]

theorem join_cons {parts : List Str} (sep part : Str) (h : parts ≠ []) :
    join sep (part :: parts) = part ++ sep ++ join sep parts := List.intercalate_cons_of_ne_nil h

theorem join_append (sep : Str) {parts : List Str} (h : parts ≠ []) : ∀ first : List Str, first ≠ [] →
    join sep (first ++ parts) = join sep first ++ sep ++ join sep parts
  | [part], _ => by rw [List.singleton_append, join_cons sep part h, join_singleton]
  | part :: part' :: first, _ => by
    have ih := join_append sep h (part' :: first) (List.cons_ne_nil _ _)
    rw [List.cons_append, join_cons sep part (List.append_ne_nil_of_right_ne_nil _ h), ih,
      join_cons sep part (List.cons_ne_nil _ _)]
    simp only [List.append_assoc]

theorem mem_join {sep : Str} {c : Char} : ∀ {parts : List Str}, c ∈ join sep parts → c ∈ sep ∨ ∃ part ∈ parts, c ∈ part
  | [], h => by cases h
  | [part], h => by
    rw [join_singleton] at h
    exact .inr ⟨part, List.mem_singleton_self part, h⟩
  | part :: part' :: parts, h => by
    rw [join_cons sep part (List.cons_ne_nil part' parts), List.mem_append, List.mem_append] at h
    rcases h with (h | h) | h
    · exact .inr ⟨part, List.mem_cons_self, h⟩
    · exact .inl h
    · rcases mem_join h with h | ⟨part, hpart, h⟩
      · exact .inl h
      · exact .inr ⟨part, List.mem_cons_of_mem _ hpart, h⟩

theorem subset_join (sep : Str) : ∀ {parts : List Str} {part : Str}, part ∈ parts → part ⊆ join sep parts
  | [p], part, h => by
    rw [List.mem_singleton.mp h, join_singleton]
    exact List.Subset.refl p
  | p :: p' :: parts, part, h => by
    rw [join_cons sep p (List.cons_ne_nil p' parts)]
    rcases List.mem_cons.mp h with rfl | h
    · exact fun c hc => List.mem_append_left _ (List.mem_append_left sep hc)
    · exact fun c hc => List.mem_append_right _ (subset_join sep h hc)

/-- Joining the joined parts of nonempty lists joins all parts. -/
theorem join_flatten (sep : Str) : ∀ (lists : List (List Str)), (∀ l ∈ lists, l ≠ []) →
    join sep (lists.map (join sep)) = join sep lists.flatten
  | [], _ => rfl
  | [l], _ => by rw [List.map_singleton, join_singleton, List.flatten_singleton]
  | l :: l' :: lists, h => by
    have ih := join_flatten sep (l' :: lists) fun k hk => h k (List.mem_cons_of_mem _ hk)
    have hl : l ≠ [] := h l List.mem_cons_self
    have hl' : l' ≠ [] := h l' (List.mem_cons_of_mem _ List.mem_cons_self)
    have hrest : (l' :: lists).flatten ≠ [] := List.append_ne_nil_of_left_ne_nil hl' _
    have hmap : (l' :: lists).map (join sep) ≠ [] := List.cons_ne_nil _ _
    rw [List.map_cons, join_cons sep _ hmap, ih]
    exact (join_append sep hrest l hl).symm

end Text

end Ironclaw
