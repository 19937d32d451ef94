import Ironclaw.Lib.SerdePath
import Ironclaw.Settings.Schema
import Ironclaw.Tools.Coercion

/-!
# Settings by path

`get`, `set` and `reset` of a setting by its dotted path. `set` takes the type of the new value from the JSON value that
is there, and reads the whole tree again; unknown keys are passed over then.

- `get_set_of_apart`, `get_set_of_unknown`: what a `set` that succeeds leaves at the other paths, and at a path that the
  settings do not have;
- `reset_iff`: when a `reset` reaches the default;
- `set_get_reset`: the laws of the three together, and exactly when they hold.
-/

namespace Ironclaw.Settings

open Serde Text

/-- The keys of a dotted path. -/
def parts (path : Str) : List Str := path.splitOn '.'

/-- `str::parse::<bool>` -/
def parseBool (s : Str) : Option Bool :=
  if s = "true".toList then some true else if s = "false".toList then some false else none

section Access

/-! `round` reads a decimal spelling as a float, `refusal` is what `from_value` says of a tree that it refuses. -/

variable (json : JsonText) (round : Str → Option Str) (refusal : Json → Str)

/-- How `get` shows a value. -/
def render : Json → Str
  | .str s => s
  | .num n => n.toText
  | .bool b => if b then "true".toList else "false".toList
  | .null => "null".toList
  | .arr xs => json.print (.arr xs)
  | .obj kvs => json.print (.obj kvs)

def get (s : Settings) (path : Str) : Option Str := (s.toValue.valueAt (parts path)).map (render json)

/-- The new value, of the kind of the existing one. -/
def newValue (path value : Str) : Option Json → Except Str Json
  | some (.bool _) =>
    match parseBool value with
    | some b => .ok (.bool b)
    | none => .error ("Expected boolean for ".toList ++ path ++ ", got '".toList ++ value ++ "'".toList)
  | some (.num (.int n)) =>
    match if 0 ≤ n then (parseUnsigned 64 value).map Int.ofNat else Tools.parseI64 value with
    | some n => .ok (.num (.int n))
    | none => .error ("Expected integer for ".toList ++ path ++ ", got '".toList ++ value ++ "'".toList)
  | some (.num (.float _)) =>
    match Tools.parseF64 round value with
    | some (some text) => .ok (.num (.float text))
    | some none => .ok (.str value)
    | none => .error ("Expected number for ".toList ++ path ++ ", got '".toList ++ value ++ "'".toList)
  | some (.arr _) =>
    match json.parse value with
    | .ok v => .ok v
    | .error e => .error ("Invalid JSON array for ".toList ++ path ++ ": ".toList ++ e)
  | some (.obj _) =>
    match json.parse value with
    | .ok v => .ok v
    | .error e => .error ("Invalid JSON object for ".toList ++ path ++ ": ".toList ++ e)
  | some (.str _) => .ok (.str value)
  -- an option, or no value yet: JSON if it is some, a string otherwise
  | some .null | none =>
    match json.parse value with
    | .ok v => .ok v
    | .error _ => .ok (.str value)

def set (s : Settings) (path value : Str) : Except Str Unit × Settings :=
  let tree := s.toValue
  match tree.valueAt (parts path).dropLast with
  | none => (.error ("Path not found: ".toList ++ path), s)
  | some (.obj obj) =>
    match newValue json round path value (obj.lookup ((parts path).getLastD [])) with
    | .error e => (.error e, s)
    | .ok v =>
      let tree := (Json.setAt v (parts path) tree).getD tree
      match fromValue tree with
      | some s' => (.ok (), s')
      | none => (.error ("Failed to apply setting: ".toList ++ refusal tree), s)
  | some _ => (.error ("Parent is not an object: ".toList ++ path), s)

def reset (s : Settings) (path : Str) : Except Str Unit × Settings :=
  match get json default path with
  | none => (.error ("Unknown setting: ".toList ++ path), s)
  | some defaultValue => s.set json round refusal path defaultValue

/-! ## The laws -/

/-- In place of an existing value, the text stands for this value of the type. -/
def Denotes (path value : Str) (existing : Option Json) (t : Ty) (d : Json) : Prop :=
  ∃ v, newValue json round path value existing = .ok v ∧ Serde.fromValue t v = some d

/-- What a `set` that succeeded should leave: the value that the text stands for, which `get` shows so that it can be
read back, and every other path as it was. -/
structure SetLaw (s s' : Settings) (path value : Str) : Prop where
  value : ∃ t d shown, ty.typeAt (parts path) = some t ∧
    Denotes json round path value (s.toValue.valueAt (parts path)) t d ∧
    s'.toValue.valueAt (parts path) = some (Serde.toValue t d) ∧ get json s' path = some shown ∧
    Denotes json round path shown (s'.toValue.valueAt (parts path)) t d
  others : ∀ q, ¬parts q <+: parts path → ¬parts path <+: parts q → get json s' q = get json s q

/-- A `reset` makes the value the default. -/
def ResetLaw (s : Settings) (path : Str) : Prop :=
  (s.reset json round refusal path).1 = .ok () ∧
    (s.reset json round refusal path).2.toValue.valueAt (parts path) = default.toValue.valueAt (parts path)

/-- The settings have the path; and where they have no value yet, the new one is not null. -/
def Settable (s : Settings) (path value : Str) : Prop :=
  (ty.typeAt (parts path)).isSome = true ∧ (s.toValue.valueAt (parts path) = none → json.parse value ≠ .ok .null)

/-- A text, a number or a truth value. -/
def isScalar : Json → Bool
  | .str _ | .num _ | .bool _ => true
  | _ => false

/-- Where the default is absent, there is no text, number or truth value. -/
def Resettable (s : Settings) (path : Str) : Prop :=
  default.toValue.valueAt (parts path) = some .null → ∀ x, s.toValue.valueAt (parts path) = some x → isScalar x = false

variable {json round refusal}

theorem parts_ne_nil (path : Str) : parts path ≠ [] := List.splitOn_ne_nil '.' path

/-! ### What is shown is read again -/

theorem toText_natCast (k : Nat) : (Number.int (k : Int)).toText = Nat.toDigits 10 k := by
  show (Nat.repr k).toList = _
  rw [Nat.toList_repr]

theorem natOfDigits_toDigits (k : Nat) : Tools.natOfDigits (Nat.toDigits 10 k) = some k := by
  rw [Tools.natOfDigits, toDigits_isDigit, Bool.or_false, if_neg (by simp [Nat.toDigits_ne_nil])]
  exact congrArg some Nat.ofDigitChars_ten_toDigits

theorem parseUnsigned_toText {n : Int} (h : 0 ≤ n ∧ n < 2 ^ 64) :
    (parseUnsigned 64 (Number.int n).toText).map Int.ofNat = some n := by
  obtain ⟨k, rfl⟩ := Int.eq_ofNat_of_zero_le h.1
  have hlt : k < 2 ^ 64 := by exact_mod_cast h.2
  rw [toText_natCast, parseUnsigned_toDigits, if_pos hlt]
  rfl

theorem parseI64_toText {n : Int} (h : -2 ^ 63 ≤ n ∧ n < 0) : Tools.parseI64 (Number.int n).toText = some n := by
  obtain ⟨k, rfl⟩ := Int.eq_negSucc_of_lt_zero h.2
  have htext : (Number.int (Int.negSucc k)).toText = '-' :: Nat.toDigits 10 (k + 1) := by
    show ("-" ++ Nat.repr (k + 1)).toList = _
    rw [String.toList_append, Nat.toList_repr]
    rfl
  have hle : k + 1 ≤ 2 ^ 63 := by omega
  rw [htext, Tools.parseI64, natOfDigits_toDigits, Option.bind_some, if_pos hle]
  rfl

/-- A value is shown so that it is read again in its own place. -/
theorem newValue_render (hjson : json.ReadsBack) (path : Str) {j : Json} (h : j.Exact)
    (hwithin : j.Within JsonText.MAX_NESTING) : newValue json round path (render json j) (some j) = .ok j := by
  have hread : json.parse (json.print j) = .ok j := hjson.exact j h hwithin
  cases h with
  | null => rw [newValue, render, hjson.null]
  | bool b => cases b <;> rfl
  | @int n hn =>
    rw [newValue, render]
    by_cases hpos : 0 ≤ n
    · rw [if_pos hpos, parseUnsigned_toText ⟨hpos, hn.2⟩]
    · rw [if_neg hpos, parseI64_toText ⟨hn.1, not_le.mp hpos⟩]
  | str s => rfl
  | arr hxs => rw [newValue, render, hread]
  | obj hkeys hkvs => rw [newValue, render, hread]

/-! ### One `set` -/

variable (json round refusal) in
/-- What a `set` does. -/
theorem set_cases (s : Settings) (path value : Str) :
    (∃ e, s.set json round refusal path value = (.error e, s)) ∨
    ∃ v tree s', newValue json round path value (s.toValue.valueAt (parts path)) = .ok v ∧
      Json.setAt v (parts path) s.toValue = some tree ∧ fromValue tree = some s' ∧
      s.set json round refusal path value = (.ok (), s') := by
  unfold set
  simp only
  split
  · exact .inl ⟨_, rfl⟩
  next obj hobj =>
    rw [← valueAt_of_dropLast (parts_ne_nil path) hobj]
    cases hnew : newValue json round path value (s.toValue.valueAt (parts path)) with
    | error e => exact .inl ⟨e, rfl⟩
    | ok v =>
      obtain ⟨tree, htree⟩ := exists_setAt v (parts_ne_nil path) hobj
      dsimp only
      rw [htree, Option.getD_some]
      cases hfrom : fromValue tree with
      | none => exact .inl ⟨_, rfl⟩
      | some s' => exact .inr ⟨v, tree, s', rfl, htree, hfrom, rfl⟩
  · exact .inl ⟨_, rfl⟩

theorem set_ok {s s' : Settings} {path value : Str} (h : s.set json round refusal path value = (.ok (), s')) :
    ∃ v tree, newValue json round path value (s.toValue.valueAt (parts path)) = .ok v ∧
      Json.setAt v (parts path) s.toValue = some tree ∧ Serde.fromValue ty tree = some s'.shown := by
  rcases set_cases json round refusal s path value with
    ⟨e, he⟩ | ⟨v, tree, s'', hv, htree, hs, hset⟩
  · rw [he] at h
    cases (Prod.mk.inj h).1
  · rw [hset] at h
    obtain rfl := (Prod.mk.inj h).2
    exact ⟨v, tree, hv, htree, shown_of_fromValue hs⟩

/-- The other paths are as they were. -/
theorem get_set_of_apart {s s' : Settings} {path value : Str} (h : s.set json round refusal path value = (.ok (), s'))
    {q : Str} (hq : ¬parts q <+: parts path) (hp : ¬parts path <+: parts q) : get json s' q = get json s q := by
  obtain ⟨v, tree, -, htree, hread⟩ := set_ok h
  obtain ⟨hothers, -⟩ := setAt_spec wf_ty s.admitted (parts_ne_nil path) htree hread
  exact congrArg (Option.map (render json)) (hothers (parts q) hq hp)

/-- A path that the settings do not have is not there afterwards either. -/
theorem get_set_of_unknown {s s' : Settings} {path value : Str} (h : s.set json round refusal path value = (.ok (), s'))
    (hpath : ty.typeAt (parts path) = none) : get json s' path = none := by
  obtain ⟨v, tree, -, htree, hread⟩ := set_ok h
  obtain ⟨-, hnone, -⟩ := setAt_spec wf_ty s.admitted (parts_ne_nil path) htree hread
  exact congrArg (Option.map (render json)) (hnone hpath)

/-- `None` is left out only where there was nothing and the text is null. -/
theorem newValue_ne_null {s : Settings} {path value : Str} {v : Json} (homits : ty.omitsAt (parts path) = true)
    (hvalue : s.toValue.valueAt (parts path) = none → json.parse value ≠ .ok .null)
    (hv : newValue json round path value (s.toValue.valueAt (parts path)) = .ok v) : v ≠ .null := by
  rintro rfl
  cases hx : s.toValue.valueAt (parts path) with
  | none =>
    rw [hx, newValue] at hv
    split at hv
    next v hparse =>
      obtain rfl := Except.ok.inj hv
      exact hvalue hx hparse
    · cases hv
  | some x =>
    obtain ⟨text, rfl⟩ := valueAt_of_omitsAt wf_ty s.admitted homits hx
    rw [hx] at hv
    cases hv

theorem setLaw_of_settable (hjson : json.ReadsBack) {s s' : Settings} {path value : Str}
    (h : s.set json round refusal path value = (.ok (), s')) (hsettable : Settable json s path value) :
    SetLaw json round s s' path value := by
  obtain ⟨htype, hvalue⟩ := hsettable
  obtain ⟨t, ht⟩ := Option.isSome_iff_exists.mp htype
  obtain ⟨v, tree, hv, htree, hread⟩ := set_ok h
  obtain ⟨-, -, hsome⟩ := setAt_spec wf_ty s.admitted (parts_ne_nil path) htree hread
  obtain ⟨e, he, hplace⟩ := hsome t ht
  have hnull : ¬(ty.omitsAt (parts path) = true ∧ e = .null) := by
    rintro ⟨homits, rfl⟩
    have htwf : wf t = true := wf_typeAt wf_ty ht
    exact newValue_ne_null homits hvalue hv (fromValue_eq_null htwf he).2
  rw [if_neg hnull] at hplace
  have hadmits : admits t e = true := admits_fromValue (wf_typeAt wf_ty ht) he
  refine ⟨⟨t, e, render json (Serde.toValue t e), ht, ⟨v, hv, he⟩, hplace, ?_, ?_⟩, fun q hq hp =>
    get_set_of_apart h hq hp⟩
  · rw [get, toValue, hplace, Option.map_some]
  · rw [toValue, hplace]
    exact ⟨_, newValue_render hjson path (exact_toValue (wf_typeAt wf_ty ht) hadmits)
        ((within_toValue hadmits).mono ((depth_typeAt ht).trans depth_ty)),
      fromValue_toValue (wf_typeAt wf_ty ht) hadmits⟩

theorem settable_of_setLaw {s s' : Settings} {path value : Str} (h : s.set json round refusal path value = (.ok (), s'))
    (hlaw : SetLaw json round s s' path value) : Settable json s path value := by
  obtain ⟨t, d, shown, ht, -, hplace, -, -⟩ := hlaw.value
  refine ⟨Option.isSome_iff_exists.mpr ⟨t, ht⟩, fun hnone hparse => ?_⟩
  obtain ⟨v, tree, hv, htree, hread⟩ := set_ok h
  obtain ⟨-, -, hsome⟩ := setAt_spec wf_ty s.admitted (parts_ne_nil path) htree hread
  obtain ⟨e, he, hplace'⟩ := hsome t ht
  rw [hnone, newValue, hparse] at hv
  obtain rfl := Except.ok.inj hv
  -- null is read by an option only, and an option that was not there is left out
  obtain ⟨hoption, hnull⟩ := fromValue_null he
  have homits : ty.omitsAt (parts path) = true :=
    omitsAt_of_valueAt wf_ty s.admitted (parts_ne_nil path) htree ht hoption hnone
  rw [if_pos ⟨homits, hnull⟩, ← toValue, hplace] at hplace'
  cases hplace'

/-! ### One `reset` -/

theorem bare_default : bare ty shownDefault = true := by decide +kernel

/-- The new value is made like any value of the type. -/
theorem newValue_congr (path value : Str) {t : Ty} {d e : Json} (ht : t.isOption = false) (hd : admits t d = true)
    (he : admits t e = true) (hbare : bare t e = true) :
    newValue json round path value (some (Serde.toValue t d)) =
      newValue json round path value (some (Serde.toValue t e)) := by
  cases t with
  | option u => cases ht
  | i64 => cases hbare
  | bool => match d, hd, e, he with | .bool _, _, .bool _, _ => rfl
  | string => match d, hd, e, he with | .str _, _, .str _, _ => rfl
  | variants names => match d, hd, e, he with | .str _, _, .str _, _ => rfl
  | vec u => match d, hd, e, he with | .arr _, _, .arr _, _ => rfl
  | map u => match d, hd, e, he with | .obj _, _, .obj _, _ => rfl
  | struct fields => match d, hd, e, he with | .obj _, _, .obj _, _ => rfl
  | uint bits =>
    match d, hd, e, he with
    | .num (.int m), hd, .num (.int n), he =>
      have hm : 0 ≤ m := (of_decide_eq_true hd : 0 ≤ m ∧ m < 2 ^ bits).1
      have hn : 0 ≤ n := (of_decide_eq_true he : 0 ≤ n ∧ n < 2 ^ bits).1
      show newValue json round path value (some (.num (.int m))) = newValue json round path value (some (.num (.int n)))
      rw [newValue, newValue, if_pos hm, if_pos hn]

theorem readHex_setAt {s : Settings} {path : Str} {t : Ty} {v tree : Json} (ht : ty.typeAt (parts path) = some t)
    (h : Json.setAt v (parts path) s.toValue = some tree) : readHex tree = some .null := by
  have hchild : ty.child "secrets_master_key_hex".toList = none := by decide +kernel
  have hshown : s.toValue.get "secrets_master_key_hex".toList = none := by
    cases hx : s.toValue.get "secrets_master_key_hex".toList with
    | none => rfl
    | some x =>
      obtain ⟨c, e, hc, -⟩ := exists_of_get wf_ty s.admitted hx
      rw [hchild] at hc
      cases hc
  have hget : tree.get "secrets_master_key_hex".toList = none := by
    cases hp : parts path with
    | nil => exact absurd hp (parts_ne_nil path)
    | cons k p =>
      rw [hp] at h ht
      have hne : "secrets_master_key_hex".toList ≠ k := by
        rintro rfl
        rw [Ty.typeAt, hchild] at ht
        cases ht
      rw [get_setAt h hne, hshown]
  rw [readHex, hget]
  rfl

variable (refusal) in
/-- A value that the type of a place reads is set. -/
theorem set_of_typeAt {s : Settings} {path value : Str} {t : Ty} {x v e : Json} (ht : ty.typeAt (parts path) = some t)
    (hx : s.toValue.valueAt (parts path) = some x) (hv : newValue json round path value (some x) = .ok v)
    (he : Serde.fromValue t v = some e) (homits : ty.omitsAt (parts path) = false) :
    ∃ s', s.set json round refusal path value = (.ok (), s') ∧
      s'.toValue.valueAt (parts path) = some (Serde.toValue t e) := by
  obtain ⟨obj, hobj⟩ := exists_dropLast (parts_ne_nil path) hx
  obtain ⟨tree, htree⟩ := exists_setAt v (parts_ne_nil path) hobj
  obtain ⟨d, hd⟩ := setAt_of_typeAt wf_ty s.admitted (parts_ne_nil path) htree ht he
  obtain ⟨s', hs'⟩ := exists_of_shown hd (readHex_setAt ht htree)
  have hset : s.set json round refusal path value = (.ok (), s') := by
    rw [set, hobj]
    dsimp only
    rw [← valueAt_of_dropLast (parts_ne_nil path) hobj, hx, hv]
    dsimp only
    rw [htree, Option.getD_some, hs']
  refine ⟨s', hset, ?_⟩
  obtain ⟨-, -, hsome⟩ := setAt_spec wf_ty s.admitted (parts_ne_nil path) htree (shown_of_fromValue hs')
  obtain ⟨e', he', hplace⟩ := hsome t ht
  obtain rfl := Option.some.inj (he.symm.trans he')
  rw [toValue, hplace, if_neg fun h => Bool.false_ne_true (homits.symm.trans h.1)]

/-- The text of null in place of a scalar is no null. -/
theorem newValue_null_of_scalar {path : Str} {x v : Json} (hx : x.Exact) (hscalar : isScalar x = true)
    (hv : newValue json round path "null".toList (some x) = .ok v) : v ≠ .null := by
  cases hx with
  | null => cases hscalar
  | bool b => cases hv
  | @int n hn =>
    rw [newValue] at hv
    split at hv
    next m hm =>
      obtain rfl := Except.ok.inj hv
      exact nofun
    · cases hv
  | str s =>
    obtain rfl := Except.ok.inj hv
    exact nofun
  | arr hxs => cases hscalar
  | obj hkeys hkvs => cases hscalar

theorem newValue_null {path : Str} {x : Json} (hx : isScalar x = false) (hjson : json.ReadsBack) :
    newValue json round path "null".toList (some x) = .ok .null := by
  cases x with
  | null => rw [newValue, hjson.null]
  | arr xs => rw [newValue, hjson.null]
  | obj kvs => rw [newValue, hjson.null]
  | bool b => cases hx
  | num n => cases hx
  | str s => cases hx

theorem reset_iff (hjson : json.ReadsBack) {s : Settings} {path : Str}
    (hknown : (get json default path).isSome = true) :
    ResetLaw json round refusal s path ↔ Resettable s path := by
  obtain ⟨shown, hshown⟩ := Option.isSome_iff_exists.mp hknown
  obtain ⟨x, hx, rfl⟩ := Option.map_eq_some_iff.mp hshown
  obtain ⟨hfixed, t, d, ht, hd, hbare, rfl⟩ := fixed_of_bare wf_ty default.admitted bare_default hx
  obtain ⟨t', e, ht', he, hplace⟩ := valueAt_of_fixed wf_ty s.admitted hfixed
  obtain rfl := Option.some.inj (ht.symm.trans ht')
  have homits := omitsAt_of_fixed hfixed
  have hreset : s.reset json round refusal path = s.set json round refusal path (render json (Serde.toValue t d)) := by
    rw [reset, hshown]
  rw [ResetLaw, hreset, hx]
  cases hoption : t.isOption with
  | false =>
    -- a value like the default, which is read as it was shown
    have hnull : Serde.toValue t d ≠ .null := toValue_ne_null hoption hd
    have hv : newValue json round path (render json (Serde.toValue t d)) (some (Serde.toValue t e)) =
        .ok (Serde.toValue t d) :=
      (newValue_congr path _ hoption he hd hbare).trans (newValue_render hjson path
        (exact_toValue (wf_typeAt wf_ty ht) hd) ((within_toValue hd).mono ((depth_typeAt ht).trans depth_ty)))
    obtain ⟨s', hset, hplace'⟩ :=
      set_of_typeAt refusal ht hplace hv (fromValue_toValue (wf_typeAt wf_ty ht) hd) homits
    refine iff_of_true ⟨?_, ?_⟩ fun hdefault => ?_
    · rw [hset]
    · rw [hset, hplace']
    · rw [hx] at hdefault
      exact absurd (Option.some.inj hdefault) hnull
  | true =>
    match t, hoption with
    | .option u, _ =>
      obtain rfl : d = .null := of_decide_eq_true hbare
      refine ⟨fun hlaw _ y hy => ?_, fun hresettable => ?_⟩
      · obtain rfl := Option.some.inj (hplace.symm.trans hy)
        by_contra hscalar
        obtain ⟨hok, hnull⟩ := hlaw
        rcases set_cases json round refusal s path "null".toList with
          ⟨err, herr⟩ | ⟨v, tree, s', hv, htree, hs', hset⟩
        · rw [show render json (Serde.toValue (.option u) .null) = "null".toList from rfl, herr] at hok
          cases hok
        · rw [hy] at hv
          have hvnull : v ≠ .null :=
            newValue_null_of_scalar (exact_toValue (wf_typeAt wf_ty ht) he) (Bool.not_eq_false _ ▸ hscalar) hv
          obtain ⟨-, -, hsome⟩ :=
            setAt_spec wf_ty s.admitted (parts_ne_nil path) htree (shown_of_fromValue hs')
          obtain ⟨e', he', hplace'⟩ := hsome _ ht
          have hset' : (s.set json round refusal path "null".toList).2 = s' := congrArg Prod.snd hset
          have hwritten : Serde.toValue (.option u) e' = .null := by
            have hnull : s'.toValue.valueAt (parts path) = some .null := hset' ▸ hnull
            rw [if_neg fun hs => Bool.false_ne_true (homits.symm.trans hs.1)] at hplace'
            exact Option.some.inj (hplace'.symm.trans hnull)
          have htwf := wf_typeAt wf_ty ht
          obtain rfl := eq_null_of_toValue htwf (admits_fromValue htwf he') hwritten
          exact hvnull (fromValue_eq_null htwf he').2
      · have hv : newValue json round path "null".toList (some (Serde.toValue (.option u) e)) = .ok .null :=
          newValue_null (hresettable hx _ hplace) hjson
        obtain ⟨s', hset, hplace'⟩ := set_of_typeAt refusal ht hplace hv rfl homits
        refine ⟨?_, ?_⟩
        · exact congrArg Prod.fst hset
        · exact (congrArg (fun r => r.2.toValue.valueAt (parts path)) hset).trans hplace'

variable (json round refusal)

/-- **`set`, `get` and `reset`.** A `set` that fails changes nothing. One that succeeds does what it should exactly when
the settings have the path and, where no value is there yet, the new one is not null. A `reset` of a path that the
defaults have reaches the default exactly when it does not meet a text, a number or a truth value in place of an absent
default. -/
theorem set_get_reset (hjson : json.ReadsBack) (s : Settings) (path value : Str) :
    ((∃ e, (s.set json round refusal path value).1 = .error e) → (s.set json round refusal path value).2 = s) ∧
    ((s.set json round refusal path value).1 = .ok () →
      (SetLaw json round s (s.set json round refusal path value).2 path value ↔ Settable json s path value)) ∧
    ((get json default path).isSome = true → (ResetLaw json round refusal s path ↔ Resettable s path)) := by
  refine ⟨?_, fun hok => ?_, fun hknown => reset_iff hjson hknown⟩
  · rintro ⟨e, he⟩
    rcases set_cases json round refusal s path value with
      ⟨e', h⟩ | ⟨_, _, s', _, _, _, h⟩
    · rw [h]
    · rw [h] at he
      cases he
  · have hset : s.set json round refusal path value = (.ok (), (s.set json round refusal path value).2) := by
      rw [← hok]
    exact ⟨settable_of_setLaw hset, setLaw_of_settable hjson hset⟩

end Access

/-- The default settings with a selected model. -/
def withModel : Settings where
  shown :=
    match shownDefault with
    | .obj kvs => .obj (Json.insertEntry "selected_model".toList (text "gpt") kvs)
    | j => j
  secretsMasterKeyHex := none
  admitted :=
    have hfield : fieldNamed fields "selected_model".toList = some (optional "selected_model" .string) := rfl
    admitsFields_insertEntry rfl admits_shownDefault hfield

theorem model_default : default.toValue.valueAt (parts "selected_model".toList) = some .null := by decide +kernel

theorem model_withModel : withModel.toValue.valueAt (parts "selected_model".toList) = some (text "gpt") := by
  decide +kernel

theorem model_known : (get .compact default "selected_model".toList).isSome = true := by
  rw [get, model_default]
  rfl

theorem set_get_reset_withModel :
    (get .compact default "selected_model".toList).isSome = true ∧
    Settable .compact withModel "selected_model".toList [] ∧
      (ResetLaw .compact some (fun _ => []) withModel "selected_model".toList ↔
        Resettable withModel "selected_model".toList) := by
  refine ⟨model_known, ⟨by decide, fun hnone => ?_⟩, ?_⟩
  · rw [model_withModel] at hnone
    cases hnone
  · exact (set_get_reset .compact some (fun _ => []) JsonText.readsBack_compact withModel
      "selected_model".toList []).2.2 model_known

/-- A `reset` of an optional text leaves the text `null`. -/
theorem reset_leaves_null_text :
    (get .compact default "selected_model".toList).isSome = true ∧
      ¬ResetLaw .compact some (fun _ => []) withModel "selected_model".toList := by
  refine ⟨model_known, fun hlaw => ?_⟩
  have hscalar := (reset_iff JsonText.readsBack_compact model_known).mp hlaw model_default _ model_withModel
  cases hscalar

end Ironclaw.Settings
