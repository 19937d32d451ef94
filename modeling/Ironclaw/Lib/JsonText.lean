import Mathlib
import Ironclaw.Lib.Code
import Ironclaw.Lib.Json

/-!
# JSON texts

The compact text of a value: what a writer without white space prints. The text of an array or an object ends with its
bracket, that of a number with the symbol that follows it.

- `readable_escapeChar`, `readable_quote`: escaped characters and strings;
- `toText_inj`: a text with what follows determines the value and the rest;
- `ofFields_inj`: an object determines its fields, those that are left out included;
- `get_ofFields`: what a key of such an object gives;
- `roundTrips_compact`: the compact texts can be read.
-/

namespace Ironclaw

open Code

/-- A hexadecimal digit. -/
def hexDigit (n : Nat) : Char := if n < 10 then Char.ofNat (48 + n) else Char.ofNat (87 + n)

/-- A character inside a string. -/
def escapeChar (c : Char) : Str :=
  if c = '"' then ['\\', '"']
  else if c = '\\' then ['\\', '\\']
  else if c = '\n' then ['\\', 'n']
  else if c = '\r' then ['\\', 'r']
  else if c = '\t' then ['\\', 't']
  else if c.toNat = 8 then ['\\', 'b']
  else if c.toNat = 12 then ['\\', 'f']
  else if c.toNat < 32 then ['\\', 'u', '0', '0', hexDigit (c.toNat / 16), hexDigit (c.toNat % 16)]
  else [c]

/-- A string in quotes. -/
def quote (s : Str) : Str := '"' :: s.flatMap escapeChar ++ ['"']

/-- The characters of numbers. -/
def isNumeric (c : Char) : Bool := c.isDigit || c == '-' || c == '+' || c == '.' || c == 'e'

/-- The text of a float has a point or an exponent. -/
def Number.Printable : Number → Prop
  | .int _ => True
  | .float text => (∀ c ∈ text, isNumeric c = true) ∧ ('.' ∈ text ∨ 'e' ∈ text)

namespace Json

mutual

/-- Every float in the value has the text of a float. -/
def Printable : Json → Prop
  | .num n => n.Printable
  | .arr xs => PrintableAll xs
  | .obj kvs => PrintableEntries kvs
  | _ => True

def PrintableAll : List Json → Prop
  | [] => True
  | x :: xs => x.Printable ∧ PrintableAll xs

def PrintableEntries : List (Str × Json) → Prop
  | [] => True
  | (_, v) :: kvs => v.Printable ∧ PrintableEntries kvs

end

/-- The comma before every element but the first. -/
def comma (first : Bool) : Str := if first then [] else [',']

mutual

/-- `serde_json::to_string`. -/
def toText : Json → Str
  | .null => "null".toList
  | .bool b => if b then "true".toList else "false".toList
  | .num n => n.toText
  | .str s => quote s
  | .arr xs => '[' :: elements true xs
  | .obj kvs => '\x7b' :: entries true kvs

/-- The elements of an array and the bracket at its end. -/
def elements : Bool → List Json → Str
  | _, [] => [']']
  | first, x :: xs => comma first ++ (x.toText ++ elements false xs)

/-- The entries of an object and the brace at its end. -/
def entries : Bool → List (Str × Json) → Str
  | _, [] => ['\x7d']
  | first, (k, v) :: kvs => comma first ++ (quote k ++ ':' :: (v.toText ++ entries false kvs))

end

end Json

/-! ## Strings -/

/-- Reads a character of a string. -/
def readChar : Str → Option (Char × Str)
  | '\\' :: 'n' :: r => some ('\n', r)
  | '\\' :: 'r' :: r => some ('\r', r)
  | '\\' :: 't' :: r => some ('\t', r)
  | '\\' :: 'b' :: r => some (Char.ofNat 8, r)
  | '\\' :: 'f' :: r => some (Char.ofNat 12, r)
  | '\\' :: 'u' :: '0' :: '0' :: a :: b :: r =>
    some (Char.ofNat (16 * (a.toNat - 48) + if b.isDigit then b.toNat - 48 else b.toNat - 87), r)
  | '\\' :: c :: r => some (c, r)
  | c :: r => some (c, r)
  | [] => none

theorem readChar_escapeChar (c : Char) (r : Str) : readChar (escapeChar c ++ r) = some (c, r) := by
  by_cases hcontrol : c.toNat < 32
  · have hall : ∀ n < 32, readChar (escapeChar (Char.ofNat n) ++ r) = some (Char.ofNat n, r) := by
      intro n hn
      interval_cases n <;> rfl
    have hc := hall c.toNat hcontrol
    rw [Char.ofNat_toNat] at hc
    exact hc
  by_cases hquote : c = '"'
  · subst hquote
    rfl
  by_cases hslash : c = '\\'
  · subst hslash
    rfl
  have hplain : escapeChar c = [c] := by
    have hne : ∀ d : Char, d.toNat < 32 → c ≠ d := by
      rintro d hd rfl
      exact hcontrol hd
    rw [escapeChar, if_neg hquote, if_neg hslash, if_neg (hne _ (by decide)), if_neg (hne _ (by decide)),
      if_neg (hne _ (by decide)), if_neg (by omega), if_neg (by omega), if_neg hcontrol]
  rw [hplain, List.singleton_append]
  unfold readChar
  split <;> simp_all

theorem readable_escapeChar : Readable escapeChar := Readable.of_reader readChar_escapeChar

/-- No character inside a string begins with a quote. -/
theorem head_escapeChar (c : Char) (r s : Str) : escapeChar c ++ r ≠ '"' :: s := by
  intro h
  have hread : some (c, r) = some ('"', s) := by
    rw [← readChar_escapeChar c r, h]
    rfl
  cases hread
  cases h

theorem readable_quote : Readable quote := by
  intro a b r s h
  rw [quote, quote, List.cons_append, List.cons_append, List.append_assoc, List.append_assoc] at h
  obtain ⟨t, rfl, ht⟩ | ⟨t, rfl, ht⟩ := readable_escapeChar.flatMap (List.cons.inj h).2
  · cases t with
    | nil =>
      rw [List.append_nil]
      exact ⟨rfl, (List.cons.inj ht).2⟩
    | cons c t =>
      rw [List.flatMap_cons, List.append_assoc] at ht
      exact absurd ht.symm (head_escapeChar c _ _)
  · cases t with
    | nil =>
      rw [List.append_nil]
      exact ⟨rfl, (List.cons.inj ht).2.symm⟩
    | cons c t =>
      rw [List.flatMap_cons, List.append_assoc] at ht
      exact absurd ht.symm (head_escapeChar c _ _)

/-! ## Numbers -/

theorem digits_toText (n : Int) : ∀ c ∈ (Number.int n).toText, c.isDigit = true ∨ c = '-' := by
  have hnat : ∀ (k : Nat), ∀ c ∈ (Nat.repr k).toList, c.isDigit = true := by
    intro k c hc
    rw [Nat.toList_repr] at hc
    exact Nat.isDigit_of_mem_toDigits (by decide) (by decide) hc
  intro c hc
  cases n with
  | ofNat k => exact .inl (hnat k c hc)
  | negSucc k =>
    have hc : c ∈ ("-" ++ Nat.repr (k + 1)).toList := hc
    rw [String.toList_append, List.mem_append] at hc
    obtain hminus | hdigit := hc
    · exact .inr (List.mem_singleton.mp hminus)
    · exact .inl (hnat _ c hdigit)

theorem isNumeric_toText {n : Number} (h : n.Printable) : ∀ c ∈ n.toText, isNumeric c = true := by
  cases n with
  | int n =>
    intro c hc
    obtain hdigit | rfl := digits_toText n c hc
    · simp [isNumeric, hdigit]
    · rfl
  | float text => exact h.1

theorem toText_ne_nil {n : Number} (h : n.Printable) : n.toText ≠ [] := by
  cases n with
  | int n =>
    cases n with
    | ofNat k =>
      show (Nat.repr k).toList ≠ []
      rw [Nat.toList_repr]
      exact Nat.toDigits_ne_nil
    | negSucc k =>
      show ("-" ++ Nat.repr (k + 1)).toList ≠ []
      rw [String.toList_append]
      exact List.append_ne_nil_of_left_ne_nil (List.cons_ne_nil _ _) _
  | float text =>
    show text ≠ []
    rintro rfl
    obtain hmem | hmem := h.2 <;> cases hmem

theorem number_inj {m n : Number} (hm : m.Printable) (hn : n.Printable) (h : m.toText = n.toText) : m = n := by
  have hfloat : ∀ (k : Int) (text : Str), (Number.float text).Printable → (Number.int k).toText ≠ text := by
    rintro k text ⟨-, hmem⟩ rfl
    obtain hmem | hmem := hmem <;> obtain hdigit | heq := digits_toText k _ hmem
    · cases hdigit
    · cases heq
    · cases hdigit
    · cases heq
  cases m with
  | int m =>
    cases n with
    | int n => rw [Int.repr_injective (String.toList_injective h)]
    | float text => exact absurd h (hfloat m text hn)
  | float text =>
    cases n with
    | int n => exact absurd h.symm (hfloat n text hm)
    | float text' => exact congrArg _ h

/-! ## Values -/

namespace Json

/-- What follows the text of a value in an array or an object. -/
def Ends (r : Str) : Prop := ∃ c r', r = c :: r' ∧ isNumeric c = false

theorem ends_cons {c : Char} (r : Str) (hc : isNumeric c = false) : Ends (c :: r) := ⟨c, r, rfl, hc⟩

/-- The kinds of values: a text tells them by its first character. -/
inductive Kind
  | null
  | true
  | false
  | num
  | str
  | arr
  | obj
  deriving DecidableEq

def kind : Json → Kind
  | .null => .null
  | .bool b => if b then .true else .false
  | .num _ => .num
  | .str _ => .str
  | .arr _ => .arr
  | .obj _ => .obj

/-- The kind of the value that begins with a character; none begins with a comma or a closing bracket. -/
def kindOf (c : Char) : Option Kind :=
  if isNumeric c then some .num
  else if c = 'n' then some .null
  else if c = 't' then some .true
  else if c = 'f' then some .false
  else if c = '"' then some .str
  else if c = '[' then some .arr
  else if c = '\x7b' then some .obj
  else none

theorem exists_head {a : Json} (h : a.Printable) : ∃ c t, a.toText = c :: t ∧ kindOf c = some a.kind := by
  cases a with
  | null => exact ⟨_, _, rfl, rfl⟩
  | bool b => cases b <;> exact ⟨_, _, rfl, rfl⟩
  | num n =>
    rw [Printable] at h
    obtain ⟨c, t, hct⟩ := List.exists_cons_of_ne_nil (toText_ne_nil h)
    refine ⟨c, t, hct, if_pos (isNumeric_toText h c ?_)⟩
    rw [hct]
    exact List.mem_cons_self
  | str s => exact ⟨_, _, rfl, rfl⟩
  | arr xs => exact ⟨_, _, rfl, rfl⟩
  | obj kvs => exact ⟨_, _, rfl, rfl⟩

/-- Texts that begin in the same way are of values of one kind. -/
theorem kind_eq {a b : Json} (ha : a.Printable) (hb : b.Printable) {r s : Str} (h : a.toText ++ r = b.toText ++ s) :
    a.kind = b.kind := by
  obtain ⟨c, t, hct, hc⟩ := exists_head ha
  obtain ⟨d, u, hdu, hd⟩ := exists_head hb
  rw [hct, hdu] at h
  obtain rfl : c = d := (List.cons.inj h).1
  exact Option.some.inj (hc.symm.trans hd)

theorem head_toText {a : Json} (ha : a.Printable) {c : Char} (hc : kindOf c = none) (r s : Str) :
    a.toText ++ r ≠ c :: s := by
  intro h
  obtain ⟨d, t, hdt, hd⟩ := exists_head ha
  rw [hdt] at h
  obtain rfl : d = c := (List.cons.inj h).1
  rw [hc] at hd
  cases hd

/-- What follows a value is a comma or a closing bracket. -/
theorem ends_elements (xs : List Json) (r : Str) : Ends (elements false xs ++ r) := by
  cases xs with
  | nil => exact ends_cons _ rfl
  | cons x xs => exact ends_cons _ rfl

theorem ends_entries (kvs : List (Str × Json)) (r : Str) : Ends (entries false kvs ++ r) := by
  cases kvs with
  | nil => exact ends_cons _ rfl
  | cons kv kvs => exact ends_cons _ rfl

/-- An element does not begin like the closing bracket. -/
theorem elements_ne {x : Json} (hx : x.Printable) (first : Bool) (xs : List Json) (r s : Str) :
    elements first (x :: xs) ++ r ≠ ']' :: s := by
  cases first with
  | true =>
    rw [elements, comma, if_pos rfl, List.nil_append, List.append_assoc]
    exact head_toText hx rfl _ s
  | false => nofun

theorem entries_ne (first : Bool) (kv : Str × Json) (kvs : List (Str × Json)) (r s : Str) :
    entries first (kv :: kvs) ++ r ≠ '\x7d' :: s := by
  cases first <;> nofun

mutual

/-- A text, with something after it that ends a number, determines the value and what follows. -/
theorem toText_inj : ∀ {a b : Json} {r s : Str}, a.Printable → b.Printable → Ends r → Ends s →
    a.toText ++ r = b.toText ++ s → a = b ∧ r = s
  | .num m, b, _, _, ha, hb, hr, hs, h => by
    have hkind := kind_eq ha hb h
    cases b with
    | num n =>
      obtain ⟨c, r, rfl, hc⟩ := hr
      obtain ⟨d, s, rfl, hd⟩ := hs
      rw [Printable] at ha hb
      obtain ⟨htext, hrest⟩ := append_span (isNumeric_toText ha) (isNumeric_toText hb)
        (Bool.not_eq_true _ ▸ hc) (Bool.not_eq_true _ ▸ hd) h
      exact ⟨congrArg _ (number_inj ha hb htext), hrest⟩
    | bool y => cases y <;> cases hkind
    | _ => cases hkind
  | .null, b, _, _, ha, hb, _, _, h => by
    have hkind := kind_eq ha hb h
    cases b with
    | null => exact ⟨rfl, List.append_cancel_left h⟩
    | bool y => cases y <;> cases hkind
    | _ => cases hkind
  | .bool x, b, _, _, ha, hb, _, _, h => by
    have hkind := kind_eq ha hb h
    cases b with
    | bool y =>
      obtain rfl : x = y := by
        cases x <;> cases y <;> first | rfl | cases hkind
      exact ⟨rfl, List.append_cancel_left h⟩
    | _ => cases x <;> cases hkind
  | .str x, b, _, _, ha, hb, _, _, h => by
    have hkind := kind_eq ha hb h
    cases b with
    | str y =>
      obtain ⟨rfl, hrest⟩ := readable_quote x y _ _ h
      exact ⟨rfl, hrest⟩
    | bool y => cases y <;> cases hkind
    | _ => cases hkind
  | .arr xs, b, _, _, ha, hb, _, _, h => by
    have hkind := kind_eq ha hb h
    cases b with
    | arr ys =>
      rw [Printable] at ha hb
      obtain ⟨rfl, hrest⟩ := elements_inj ha hb (List.cons.inj h).2
      exact ⟨rfl, hrest⟩
    | bool y => cases y <;> cases hkind
    | _ => cases hkind
  | .obj kvs, b, _, _, ha, hb, _, _, h => by
    have hkind := kind_eq ha hb h
    cases b with
    | obj lvs =>
      rw [Printable] at ha hb
      obtain ⟨rfl, hrest⟩ := entries_inj ha hb (List.cons.inj h).2
      exact ⟨rfl, hrest⟩
    | bool y => cases y <;> cases hkind
    | _ => cases hkind

theorem elements_inj : ∀ {xs ys : List Json} {first : Bool} {r s : Str}, PrintableAll xs → PrintableAll ys →
    elements first xs ++ r = elements first ys ++ s → xs = ys ∧ r = s
  | [], [], _, _, _, _, _, h => ⟨rfl, (List.cons.inj h).2⟩
  | [], y :: ys, first, r, s, _, hy, h => by
    rw [PrintableAll] at hy
    exact absurd h.symm (elements_ne hy.1 first ys s r)
  | x :: xs, [], first, r, s, hx, _, h => by
    rw [PrintableAll] at hx
    exact absurd h (elements_ne hx.1 first xs r s)
  | x :: xs, y :: ys, first, r, s, hx, hy, h => by
    rw [PrintableAll] at hx hy
    rw [elements, elements] at h
    simp only [List.append_assoc, List.append_cancel_left_eq] at h
    obtain ⟨rfl, hrest⟩ := toText_inj hx.1 hy.1 (ends_elements xs r) (ends_elements ys s) h
    obtain ⟨rfl, htail⟩ := elements_inj hx.2 hy.2 hrest
    exact ⟨rfl, htail⟩

theorem entries_inj : ∀ {xs ys : List (Str × Json)} {first : Bool} {r s : Str}, PrintableEntries xs →
    PrintableEntries ys →
    entries first xs ++ r = entries first ys ++ s → xs = ys ∧ r = s
  | [], [], _, _, _, _, _, h => ⟨rfl, (List.cons.inj h).2⟩
  | [], y :: ys, first, r, s, _, _, h => absurd h.symm (entries_ne first y ys s r)
  | x :: xs, [], first, r, s, _, _, h => absurd h (entries_ne first x xs r s)
  | (k, x) :: xs, (l, y) :: ys, first, r, s, hx, hy, h => by
    rw [PrintableEntries] at hx hy
    rw [entries, entries] at h
    simp only [List.append_assoc, List.append_cancel_left_eq] at h
    obtain ⟨rfl, hvalue⟩ := readable_quote k l _ _ h
    simp only [List.cons_append, List.append_assoc] at hvalue
    obtain ⟨rfl, hrest⟩ := toText_inj hx.1 hy.1 (ends_entries xs r) (ends_entries ys s) (List.cons.inj hvalue).2
    obtain ⟨rfl, htail⟩ := entries_inj hx.2 hy.2 hrest
    exact ⟨rfl, htail⟩

end

theorem printableAll_iff : ∀ xs : List Json, PrintableAll xs ↔ ∀ x ∈ xs, x.Printable
  | [] => iff_of_true trivial nofun
  | x :: xs => by rw [PrintableAll, printableAll_iff xs, List.forall_mem_cons]

theorem printableEntries_iff : ∀ kvs : List (Str × Json), PrintableEntries kvs ↔ ∀ kv ∈ kvs, kv.2.Printable
  | [] => iff_of_true trivial nofun
  | (k, v) :: kvs => by rw [PrintableEntries, printableEntries_iff kvs, List.forall_mem_cons]

/-! ## Fields -/

/-- The entries of the fields that are there. -/
def entriesOf (fields : List (Str × Option Json)) : List (Str × Json) :=
  fields.filterMap fun f => f.2.map fun v => (f.1, v)

/-- An object with fields, some of which may be left out. -/
def ofFields (fields : List (Str × Option Json)) : Json := .obj (entriesOf fields)

theorem key_of_mem_entriesOf {fields : List (Str × Option Json)} {kv : Str × Json} (h : kv ∈ entriesOf fields) :
    kv.1 ∈ fields.map Prod.fst := by
  obtain ⟨f, hf, heq⟩ := List.mem_filterMap.mp h
  obtain ⟨v, -, rfl⟩ := Option.map_eq_some_iff.mp heq
  exact List.mem_map_of_mem hf

/-- Fields with the same distinct keys are told apart by their entries. -/
theorem entriesOf_inj : ∀ {fs gs : List (Str × Option Json)}, fs.map Prod.fst = gs.map Prod.fst →
    (fs.map Prod.fst).Nodup → entriesOf fs = entriesOf gs → fs = gs
  | [], [], _, _, _ => rfl
  | (k, v) :: fs, (l, w) :: gs, hkeys, hnodup, h => by
    obtain ⟨hkey, htail⟩ : k = l ∧ fs.map Prod.fst = gs.map Prod.fst := List.cons.inj hkeys
    subst hkey
    obtain ⟨hk, htailNodup⟩ := List.nodup_cons.mp hnodup
    have hk' : k ∉ gs.map Prod.fst := htail ▸ hk
    cases v with
    | none =>
      cases w with
      | none => rw [entriesOf_inj htail htailNodup h]
      | some w =>
        -- the entry of the key is missing on the left
        have hmem : (k, w) ∈ entriesOf fs := by
          rw [show entriesOf fs = (k, w) :: entriesOf gs from h]
          exact List.mem_cons_self
        exact absurd (key_of_mem_entriesOf hmem) hk
    | some v =>
      cases w with
      | none =>
        have hmem : (k, v) ∈ entriesOf gs := by
          rw [← show (k, v) :: entriesOf fs = entriesOf gs from h]
          exact List.mem_cons_self
        exact absurd (key_of_mem_entriesOf hmem) hk'
      | some w =>
        have heq : (k, v) :: entriesOf fs = (k, w) :: entriesOf gs := h
        obtain ⟨hv, hrest⟩ := List.cons.inj heq
        cases hv
        rw [entriesOf_inj htail htailNodup hrest]

theorem ofFields_inj (keys : List Str) (hnodup : keys.Nodup) {fs gs : List (Str × Option Json)}
    (hfs : fs.map Prod.fst = keys) (hgs : gs.map Prod.fst = keys) (h : ofFields fs = ofFields gs) : fs = gs := by
  subst hfs
  exact entriesOf_inj hgs.symm hnodup (Json.obj.inj h)

/-- A field is found under its key, or left out. -/
theorem lookup_entriesOf : ∀ {fields : List (Str × Option Json)}, (fields.map Prod.fst).Nodup → ∀ {key : Str}
    {v : Option Json}, (key, v) ∈ fields → (entriesOf fields).lookup key = v
  | (k, w) :: fields, hnodup, key, v, h => by
    obtain ⟨hk, htailNodup⟩ := List.nodup_cons.mp hnodup
    obtain heq | htail := List.mem_cons.mp h
    · obtain ⟨rfl, rfl⟩ := Prod.mk.inj heq
      cases v with
      | none =>
        rw [show entriesOf ((key, none) :: fields) = entriesOf fields from rfl, List.lookup_eq_none_iff]
        intro kv hkv
        rw [bne_iff_ne]
        rintro rfl
        exact hk (key_of_mem_entriesOf hkv)
      | some v => exact List.lookup_cons_self
    · have hne : (key == k) = false := by
        rw [beq_eq_false_iff_ne]
        rintro rfl
        exact hk (List.mem_map.mpr ⟨_, htail, rfl⟩)
      have ih := lookup_entriesOf htailNodup htail
      cases w with
      | none => exact ih
      | some w =>
        rw [show entriesOf ((k, some w) :: fields) = (k, w) :: entriesOf fields from rfl, List.lookup_cons, hne]
        exact ih

theorem get_ofFields {fields : List (Str × Option Json)} (hnodup : (fields.map Prod.fst).Nodup) {key : Str}
    {v : Option Json} (h : (key, v) ∈ fields) : (ofFields fields).get key = v := lookup_entriesOf hnodup h

theorem get_ofFields_eq_none {fields : List (Str × Option Json)} {key : Str} (h : key ∉ fields.map Prod.fst) :
    (ofFields fields).get key = none := by
  rw [ofFields, get, List.lookup_eq_none_iff]
  intro kv hkv
  rw [bne_iff_ne]
  rintro rfl
  exact h (key_of_mem_entriesOf hkv)

theorem printable_ofFields {fields : List (Str × Option Json)} (h : ∀ f ∈ fields, ∀ v ∈ f.2, v.Printable) :
    (ofFields fields).Printable := by
  rw [ofFields, Printable, printableEntries_iff]
  intro kv hkv
  obtain ⟨f, hf, heq⟩ := List.mem_filterMap.mp hkv
  obtain ⟨v, hv, rfl⟩ := Option.map_eq_some_iff.mp heq
  exact h f hf v hv

/-! ## Reading -/

/-- A value of strings, arrays and objects, with the keys of its objects in order. -/
inductive Textual : Json → Prop
  | str (s : Str) : Textual (.str s)
  | arr {xs : List Json} (hxs : ∀ x ∈ xs, Textual x) : Textual (.arr xs)
  | obj {kvs : List (Str × Json)} (hkeys : (kvs.map Prod.fst).Pairwise (· < ·)) (hkvs : ∀ kv ∈ kvs, Textual kv.2) :
    Textual (.obj kvs)

theorem Textual.printable {v : Json} (h : v.Textual) : v.Printable := by
  induction h with
  | str s => trivial
  | arr _ ih =>
    rw [Printable, printableAll_iff]
    exact ih
  | obj _ _ ih =>
    rw [Printable, printableEntries_iff]
    exact ih

/-- A value without floats, whose integers have 64 bits, with the keys of its objects in order. -/
inductive Exact : Json → Prop
  | null : Exact .null
  | bool (b : Bool) : Exact (.bool b)
  | int {n : Int} (hn : -2 ^ 63 ≤ n ∧ n < 2 ^ 64) : Exact (.num (.int n))
  | str (s : Str) : Exact (.str s)
  | arr {xs : List Json} (hxs : ∀ x ∈ xs, Exact x) : Exact (.arr xs)
  | obj {kvs : List (Str × Json)} (hkeys : kvs.Pairwise fun a b => a.1 < b.1) (hkvs : ∀ kv ∈ kvs, Exact kv.2) :
    Exact (.obj kvs)

theorem Exact.printable {v : Json} (h : v.Exact) : v.Printable := by
  induction h with
  | null => trivial
  | bool b => trivial
  | int hn => trivial
  | str s => trivial
  | arr _ ih =>
    rw [Printable, printableAll_iff]
    exact ih
  | obj _ _ ih =>
    rw [Printable, printableEntries_iff]
    exact ih

/-- Arrays and objects are nested at most this deep. -/
inductive Within : Nat → Json → Prop
  | null (n : Nat) : Within n .null
  | bool (n : Nat) (b : Bool) : Within n (.bool b)
  | num (n : Nat) (m : Number) : Within n (.num m)
  | str (n : Nat) (s : Str) : Within n (.str s)
  | arr {n : Nat} {xs : List Json} (hxs : ∀ x ∈ xs, Within n x) : Within (n + 1) (.arr xs)
  | obj {n : Nat} {kvs : List (Str × Json)} (hkvs : ∀ kv ∈ kvs, Within n kv.2) : Within (n + 1) (.obj kvs)

theorem Within.mono {n m : Nat} {v : Json} (h : Within n v) (hle : n ≤ m) : Within m v := by
  induction h generalizing m with
  | null => exact .null m
  | bool _ b => exact .bool m b
  | num _ k => exact .num m k
  | str _ s => exact .str m s
  | arr _ ih =>
    obtain ⟨m, rfl⟩ := Nat.exists_eq_add_one_of_ne_zero (Nat.ne_zero_of_lt hle)
    exact .arr fun x hx => ih x hx (Nat.le_of_succ_le_succ hle)
  | obj _ ih =>
    obtain ⟨m, rfl⟩ := Nat.exists_eq_add_one_of_ne_zero (Nat.ne_zero_of_lt hle)
    exact .obj fun kv hkv => ih kv hkv (Nat.le_of_succ_le_succ hle)

theorem keys_entriesOf (fields : List (Str × Option Json)) :
    ((entriesOf fields).map Prod.fst).Sublist (fields.map Prod.fst) := by
  induction fields with
  | nil => exact .slnil
  | cons f fields ih =>
    obtain ⟨k, v⟩ := f
    cases v with
    | none => exact ih.cons k
    | some v => exact ih.cons_cons k

theorem textual_ofFields {fields : List (Str × Option Json)} (hkeys : (fields.map Prod.fst).Pairwise (· < ·))
    (h : ∀ f ∈ fields, ∀ v ∈ f.2, v.Textual) : (ofFields fields).Textual := by
  refine .obj (hkeys.sublist (keys_entriesOf fields)) fun kv hkv => ?_
  obtain ⟨f, hf, heq⟩ := List.mem_filterMap.mp hkv
  obtain ⟨v, hv, rfl⟩ := Option.map_eq_some_iff.mp heq
  exact h f hf v hv

theorem within_ofFields {n : Nat} {fields : List (Str × Option Json)} (h : ∀ f ∈ fields, ∀ v ∈ f.2, v.Within n) :
    (ofFields fields).Within (n + 1) := by
  refine .obj fun kv hkv => ?_
  obtain ⟨f, hf, heq⟩ := List.mem_filterMap.mp hkv
  obtain ⟨v, hv, rfl⟩ := Option.map_eq_some_iff.mp heq
  exact h f hf v hv

open Classical in
/-- The value that has this text. -/
noncomputable def ofText (text : Str) : Option Json :=
  if h : ∃ v : Json, v.Printable ∧ v.toText = text then some h.choose else none

theorem ofText_toText {v : Json} (h : v.Printable) : ofText v.toText = some v := by
  have hex : ∃ w : Json, w.Printable ∧ w.toText = v.toText := ⟨v, h, rfl⟩
  have hend : Ends [','] := ends_cons [] rfl
  obtain ⟨hprintable, htext⟩ := hex.choose_spec
  rw [ofText, dif_pos hex, (toText_inj hprintable h hend hend (congrArg (· ++ [',']) htext)).1]

end Json

namespace JsonText

/-- How deep the arrays and objects of a text may be nested: the reader refuses the 128th. -/
def MAX_NESTING : Nat := 127

/-- What is printed without numbers is read back, unless it is nested too deep. -/
def RoundTrips (json : JsonText) : Prop :=
  ∀ v : Json, v.Textual → v.Within MAX_NESTING → json.parse (json.print v) = .ok v

/-- What is printed without floats is read back, unless it is nested too deep, and the text of null is read. -/
structure ReadsBack (json : JsonText) : Prop where
  exact : ∀ v : Json, v.Exact → v.Within MAX_NESTING → json.parse (json.print v) = .ok v
  null : json.parse "null".toList = .ok .null

/-- The compact texts. -/
noncomputable def compact : JsonText where
  parse text := (Json.ofText text).elim (.error "expected value".toList) .ok
  print := Json.toText

theorem parse_compact {v : Json} (h : v.Printable) : compact.parse v.toText = .ok v := by
  show (Json.ofText v.toText).elim _ _ = _
  rw [Json.ofText_toText h]
  rfl

theorem roundTrips_compact : compact.RoundTrips := fun _ hv _ => parse_compact hv.printable

theorem readsBack_compact : compact.ReadsBack where
  exact _ hv _ := parse_compact hv.printable
  null := parse_compact (v := .null) trivial

end JsonText

end Ironclaw
