import Ironclaw.Lib.JsonMerge
import Ironclaw.Settings.Access

/-!
# Settings put over others

`merge_from` puts the settings of one layer over those of another where they differ from the defaults.

- `merge_takes_changed`: what is at each leaf after one `merge_from`;
- `merge_laws`: the defaults change nothing, a layer put on twice changes nothing more, and layers may be put together
  first.
-/

namespace Ironclaw.Settings

open Json Serde Text

/-- `Settings::merge_from` -/
def mergeFrom (s other : Settings) : Settings :=
  (fromValue (mergeNonDefault s.toValue other.toValue default.toValue)).getD s

/-! ## What is merged is read -/

theorem covers_default (s : Settings) : Covers default.toValue s.toValue :=
  covers_of_bare wf_ty default.admitted bare_default s.admitted

theorem exact (s : Settings) : s.toValue.Exact := exact_toValue wf_ty s.admitted

theorem readHex_toValue {shown : Json} (h : admits ty shown = true) :
    readHex (Serde.toValue ty shown) = some .null := by
  have hchild : ty.child "secrets_master_key_hex".toList = none := by decide_cbv
  rw [readHex]
  cases hx : (Serde.toValue ty shown).get "secrets_master_key_hex".toList with
  | none => rfl
  | some x =>
    obtain ⟨c, e, hc, -⟩ := exists_of_get wf_ty h hx
    rw [hchild] at hc
    cases hc

/-- What is written for settings is read as these, without the field that is not written. -/
theorem fromValue_toValue {shown : Json} (h : admits ty shown = true) :
    fromValue (Serde.toValue ty shown) = some ⟨shown, none, h⟩ := by
  have hread : Serde.fromValue ty (Serde.toValue ty shown) = some shown := Serde.fromValue_toValue wf_ty h
  unfold fromValue
  split
  next hnone =>
    rw [hread] at hnone
    cases hnone
  next shown' hshown =>
    obtain rfl := Option.some.inj (hread.symm.trans hshown)
    rw [readHex_toValue h]
    rfl

/-- Settings are told by what is written for them and the field that is not. -/
theorem eq_of_toValue {s s' : Settings} (h : s.toValue = s'.toValue)
    (hhex : s.secretsMasterKeyHex = s'.secretsMasterKeyHex) : s = s' := by
  obtain ⟨shown, hex, hs⟩ := s
  obtain ⟨shown', hex', hs'⟩ := s'
  have hread := fromValue_toValue hs
  rw [show Serde.toValue ty shown = Serde.toValue ty shown' from h, fromValue_toValue hs'] at hread
  obtain rfl : shown' = shown := congrArg Settings.shown (Option.some.inj hread)
  obtain rfl : hex = hex' := hhex
  rfl

/-- The merged tree is read; the field that is not written is lost. -/
theorem toValue_mergeFrom (s other : Settings) :
    (s.mergeFrom other).toValue = mergeNonDefault s.toValue other.toValue default.toValue ∧
      (s.mergeFrom other).secretsMasterKeyHex = none := by
  obtain ⟨shown, hshown, hmerge⟩ := exists_merge wf_ty s.admitted other.admitted default.admitted bare_default
  have hmerge : Serde.toValue ty shown = mergeNonDefault s.toValue other.toValue default.toValue := hmerge
  rw [mergeFrom, ← hmerge, fromValue_toValue hshown]
  exact ⟨rfl, rfl⟩

theorem valueAt_mergeFrom (s other : Settings) {p : List Str} {v : Json} (h : default.toValue.leafAt p = some v) :
    (s.mergeFrom other).toValue.valueAt p =
      if other.toValue.valueAt p = none ∨ other.toValue.valueAt p = some v then s.toValue.valueAt p
      else other.toValue.valueAt p := by
  rw [(toValue_mergeFrom s other).1]
  exact valueAt_merge default.exact other.exact s.covers_default other.covers_default h

/-! ## The laws -/

/-- **One layer over another**: at each leaf of the defaults the merged settings have what the upper layer has, if that
is not the default, and what the lower layer has otherwise; the field that is not written is lost. -/
theorem merge_takes_changed (s other : Settings) :
    (∀ p v, default.toValue.leafAt p = some v → (s.mergeFrom other).toValue.valueAt p =
      if other.toValue.valueAt p = none ∨ other.toValue.valueAt p = some v then s.toValue.valueAt p
      else other.toValue.valueAt p) ∧
    (s.mergeFrom other).secretsMasterKeyHex = none :=
  ⟨fun _ _ h => valueAt_mergeFrom s other h, (toValue_mergeFrom s other).2⟩

/-- **Layers.** The defaults over settings leave all that is written of them; a layer that is put on again changes
nothing; and two layers may be put on one after the other or together. -/
theorem merge_laws (a b c : Settings) :
    (a.mergeFrom default).toValue = a.toValue ∧ (a.mergeFrom b).mergeFrom b = a.mergeFrom b ∧
      (a.mergeFrom b).mergeFrom c = a.mergeFrom (b.mergeFrom c) := by
  refine ⟨?_, eq_of_toValue ?_ ?_, eq_of_toValue ?_ ?_⟩
  · rw [(toValue_mergeFrom a default).1]
    exact merge_default default.exact a.exact a.covers_default
  · rw [(toValue_mergeFrom (a.mergeFrom b) b).1, (toValue_mergeFrom a b).1]
    exact merge_again default.exact a.exact b.exact a.covers_default b.covers_default
  · rw [(toValue_mergeFrom (a.mergeFrom b) b).2, (toValue_mergeFrom a b).2]
  · rw [(toValue_mergeFrom (a.mergeFrom b) c).1, (toValue_mergeFrom a b).1, (toValue_mergeFrom a (b.mergeFrom c)).1,
      (toValue_mergeFrom b c).1]
    exact merge_assoc default.exact a.exact b.exact c.exact a.covers_default b.covers_default c.covers_default
  · rw [(toValue_mergeFrom (a.mergeFrom b) c).2, (toValue_mergeFrom a (b.mergeFrom c)).2]

end Ironclaw.Settings
