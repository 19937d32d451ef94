import Ironclaw.Lib.Text

/-!
# Codes

A code writes a value as a list of symbols. It is readable when the symbols at the beginning of a list determine the
value and the rest.

- `Readable.flatMap`: two texts in a readable code, each with a rest, are the same text, or one goes on in the other's
  rest;
- `append_span`: a word in some symbols ends where another symbol follows;
- `readable_utf8`: the bytes of a character.
-/

namespace Ironclaw.Code

variable {α β : Type*}

/-- What a list begins with determines the value and the rest. -/
def Readable (enc : α → List β) : Prop := ∀ a b r s, enc a ++ r = enc b ++ s → a = b ∧ r = s

/-- A reader for the code. -/
theorem Readable.of_reader {enc : α → List β} {read : List β → Option (α × List β)}
    (hread : ∀ a r, read (enc a ++ r) = some (a, r)) : Readable enc := by
  intro a b r s h
  have heq : some (a, r) = some (b, s) := by rw [← hread a r, ← hread b s, h]
  cases heq
  exact ⟨rfl, rfl⟩

/-- Two texts with their rests: one of the texts goes on in the rest of the other. -/
theorem Readable.flatMap {enc : α → List β} (henc : Readable enc) : ∀ {xs ys : List α} {r s : List β},
    xs.flatMap enc ++ r = ys.flatMap enc ++ s →
      (∃ t, ys = xs ++ t ∧ r = t.flatMap enc ++ s) ∨ ∃ t, xs = ys ++ t ∧ s = t.flatMap enc ++ r
  | [], ys, _, _, h => .inl ⟨ys, rfl, h⟩
  | xs, [], _, _, h => .inr ⟨xs, rfl, h.symm⟩
  | x :: xs, y :: ys, r, s, h => by
    rw [List.flatMap_cons, List.flatMap_cons, List.append_assoc, List.append_assoc] at h
    obtain ⟨rfl, hrest⟩ := henc x y _ _ h
    obtain ⟨t, rfl, ht⟩ | ⟨t, rfl, ht⟩ := henc.flatMap hrest
    · exact .inl ⟨t, rfl, ht⟩
    · exact .inr ⟨t, rfl, ht⟩

/-- A word of symbols with `p` ends where a symbol without `p` follows. -/
theorem append_span {p : β → Prop} : ∀ {xs ys r s : List β} {b c : β}, (∀ x ∈ xs, p x) → (∀ y ∈ ys, p y) → ¬p b → ¬p c →
    xs ++ b :: r = ys ++ c :: s → xs = ys ∧ b :: r = c :: s
  | [], [], _, _, _, _, _, _, _, _, h => ⟨rfl, h⟩
  | x :: xs, [], _, _, b, c, hxs, _, _, hc, h => by
    obtain rfl : x = c := (List.cons.inj h).1
    exact absurd (hxs x List.mem_cons_self) hc
  | [], y :: ys, _, _, b, c, _, hys, hb, _, h => by
    obtain rfl : b = y := (List.cons.inj h).1
    exact absurd (hys b List.mem_cons_self) hb
  | x :: xs, y :: ys, _, _, b, c, hxs, hys, hb, hc, h => by
    obtain ⟨rfl, hrest⟩ := List.cons.inj h
    obtain ⟨rfl, heq⟩ := append_span (fun z hz => hxs z (List.mem_cons_of_mem _ hz))
      (fun z hz => hys z (List.mem_cons_of_mem _ hz)) hb hc hrest
    exact ⟨rfl, heq⟩

/-! ## Bytes -/

theorem readable_utf8 : Readable String.utf8EncodeChar := by
  intro c d r s h
  have hread : ∀ (e : Char) (t : List UInt8),
      ByteArray.utf8DecodeChar? (String.utf8EncodeChar e ++ t).toByteArray 0 = some e := by
    intro e t
    rw [List.toByteArray_append]
    exact ByteArray.utf8DecodeChar?_utf8EncodeChar_append
  have hdecode : some c = some d := by
    rw [← hread c r, ← hread d s, h]
  obtain rfl := Option.some.inj hdecode
  exact ⟨rfl, List.append_cancel_left h⟩

/-- `str::as_bytes`. -/
def utf8 (s : Str) : List UInt8 := s.flatMap String.utf8EncodeChar

end Ironclaw.Code
