import Ironclaw.Settings.Stored

/-!
# Layers of the configuration

The settings that the configuration is built from are the defaults, with the TOML file put over them and the settings of
the database over both. A file that was asked for must be there; the default one may be missing, and a database that
cannot be read is passed over. What is built from the settings, and whether that fails, is a parameter.

- `valueAt_applyTomlOverlay`: what is seen through the layer of the file;
- `database_over_toml`: where each setting that the configuration is built from comes from.
-/

namespace Ironclaw.Settings

open Json Serde Text

inductive ConfigError
  | missingEnvVar (name : Str)
  | missingRequired (key hint : Str)
  | invalidValue (key message : Str)
  | parseError (message : Str)
  | io (text : Str)

section Layers

/-! `loadToml` is what `Settings::load_toml` gives for a path, nothing when there is no such file; `build` is
`Config::build`, in which the environment may go before the settings. -/

variable {Config : Type*} (build : Settings → Except ConfigError Config)
variable (json : JsonText) (round : Str → Option Str) (refusal : Json → Str)
    (loadToml : Str → Except Str (Option Settings))
  (defaultTomlPath : Str)

/-- `Config::apply_toml_overlay` -/
def applyTomlOverlay (s : Settings) (explicitPath : Option Str) : Except ConfigError Settings :=
  let path := explicitPath.getD defaultTomlPath
  match loadToml path, explicitPath with
  | .ok (some tomlSettings), _ => .ok (s.mergeFrom tomlSettings)
  | .ok none, some _ => .error (.parseError ("Config file not found: ".toList ++ path))
  | .error e, some _ => .error (.parseError ("Failed to load config file ".toList ++ path ++ ": ".toList ++ e))
  | _, none => .ok s

/-- `Config::from_db_with_toml`; without rows the database could not be read. -/
def fromDbWithToml (rows : Option (List (Str × Json))) (tomlPath : Option Str) : Except ConfigError Config :=
  match applyTomlOverlay loadToml defaultTomlPath default tomlPath with
  | .error e => .error e
  | .ok settings =>
    match rows with
    | some rows => build (settings.mergeFrom (fromDbMap json round refusal rows))
    | none => build settings

/-! ## Through the layers -/

/-- What is seen at a place where the default is `v`: the value of the layer if it differs from it. -/
def upper (v : Json) (layer below : Option Json) : Option Json := if layer = none ∨ layer = some v then below else layer

/-- The layer of the TOML file; without a file it is the defaults. -/
def tomlLayer (tomlPath : Option Str) : Settings :=
  match loadToml (tomlPath.getD defaultTomlPath) with
  | .ok (some tomlSettings) => tomlSettings
  | _ => default

/-- The layer of the database. -/
def dbLayer (rows : Option (List (Str × Json))) : Settings := rows.elim default (fromDbMap json round refusal)

variable {json round refusal loadToml defaultTomlPath}

theorem valueAt_leafAt {d : Json} : ∀ {p : List Str} {v : Json}, d.leafAt p = some v → d.valueAt p = none ∨
    d.valueAt p = some v
  | [], v, h => by
    cases d with
    | obj kvs => cases h
    | _ => exact .inr h
  | k :: p, v, h => by
    cases d with
    | obj kvs =>
      rw [Json.valueAt, Json.get]
      have h : leafAt ((kvs.lookup k).getD .null) p = some v := h
      cases hk : kvs.lookup k with
      | none => exact .inl rfl
      | some x =>
        rw [hk] at h
        exact valueAt_leafAt h
    | _ => cases h

theorem upper_default {p : List Str} {v : Json} (h : default.toValue.leafAt p = some v) (below : Option Json) :
    upper v (default.toValue.valueAt p) below = below := if_pos (valueAt_leafAt h)

theorem valueAt_applyTomlOverlay {tomlPath : Option Str} {s : Settings}
    (h : applyTomlOverlay loadToml defaultTomlPath default tomlPath = .ok s) {p : List Str} {v : Json}
    (hp : default.toValue.leafAt p = some v) :
    s.toValue.valueAt p =
      upper v ((tomlLayer loadToml defaultTomlPath tomlPath).toValue.valueAt p) (default.toValue.valueAt p) := by
  unfold applyTomlOverlay at h
  rw [tomlLayer]
  dsimp only at h
  cases hload : loadToml (tomlPath.getD defaultTomlPath) with
  | error e =>
    rw [hload] at h
    cases tomlPath with
    | some path => cases h
    | none =>
      obtain rfl := Except.ok.inj h
      exact (upper_default hp _).symm
  | ok toml =>
    rw [hload] at h
    cases toml with
    | some tomlSettings =>
      obtain rfl := Except.ok.inj h
      exact valueAt_mergeFrom default tomlSettings hp
    | none =>
      cases tomlPath with
      | some path => cases h
      | none =>
        obtain rfl := Except.ok.inj h
        exact (upper_default hp _).symm

/-- The file was asked for, and it does not load. -/
def Unloadable (loadToml : Str → Except Str (Option Settings)) (tomlPath : Option Str) : Prop :=
  ∃ path, tomlPath = some path ∧ ∀ tomlSettings, loadToml path ≠ .ok (some tomlSettings)

variable (loadToml defaultTomlPath)

theorem applyTomlOverlay_error (s : Settings) (tomlPath : Option Str) :
    (∃ message, applyTomlOverlay loadToml defaultTomlPath s tomlPath = .error (.parseError message)) ↔
      Unloadable loadToml tomlPath := by
  unfold applyTomlOverlay Unloadable
  dsimp only
  cases tomlPath with
  | none =>
    refine iff_of_false ?_ (by simp)
    rintro ⟨e, he⟩
    rw [Option.getD_none] at he
    cases hload : loadToml defaultTomlPath with
    | error e' =>
      rw [hload] at he
      cases he
    | ok toml =>
      rw [hload] at he
      cases toml <;> cases he
  | some path =>
    rw [Option.getD_some]
    cases hload : loadToml path with
    | error e => exact iff_of_true ⟨_, rfl⟩ ⟨path, rfl, by rw [hload]; nofun⟩
    | ok toml =>
      cases toml with
      | none => exact iff_of_true ⟨_, rfl⟩ ⟨path, rfl, by rw [hload]; nofun⟩
      | some tomlSettings =>
        refine iff_of_false nofun ?_
        rintro ⟨path', hpath, hnone⟩
        obtain rfl := Option.some.inj hpath
        exact hnone tomlSettings hload

/-- There is no other error. -/
theorem applyTomlOverlay_ok {s : Settings} {tomlPath : Option Str} (h : ¬Unloadable loadToml tomlPath) :
    ∃ s', applyTomlOverlay loadToml defaultTomlPath s tomlPath = .ok s' := by
  have hno := mt (applyTomlOverlay_error loadToml defaultTomlPath s tomlPath).mp h
  unfold applyTomlOverlay at hno ⊢
  dsimp only at hno ⊢
  split at hno
  · exact ⟨_, rfl⟩
  · exact absurd ⟨_, rfl⟩ hno
  · exact absurd ⟨_, rfl⟩ hno
  · exact ⟨_, rfl⟩

variable (json round refusal)

/-- **Precedence.** A file that was asked for and does not load is an error, before anything is built. Otherwise the
configuration is what is built from settings that have, at each leaf of the defaults, what the database has if that is
not the default, else what the file has if that is not the default, else the default. -/
theorem database_over_toml (rows : Option (List (Str × Json))) (tomlPath : Option Str) :
    (Unloadable loadToml tomlPath → ∃ message,
      fromDbWithToml build json round refusal loadToml defaultTomlPath rows tomlPath = .error (.parseError message)) ∧
    (¬Unloadable loadToml tomlPath → ∃ settings : Settings,
      fromDbWithToml build json round refusal loadToml defaultTomlPath rows tomlPath = build settings ∧
      ∀ p v, default.toValue.leafAt p = some v → settings.toValue.valueAt p =
        upper v ((dbLayer json round refusal rows).toValue.valueAt p)
          (upper v ((tomlLayer loadToml defaultTomlPath tomlPath).toValue.valueAt p) (default.toValue.valueAt p))) := by
  constructor
  · intro hunloadable
    obtain ⟨message, herror⟩ := (applyTomlOverlay_error loadToml defaultTomlPath default tomlPath).mpr hunloadable
    refine ⟨message, ?_⟩
    unfold fromDbWithToml
    rw [herror]
  · intro hloadable
    obtain ⟨s, happly⟩ := applyTomlOverlay_ok loadToml defaultTomlPath (s := default) hloadable
    unfold fromDbWithToml
    rw [happly]
    cases rows with
    | none =>
      refine ⟨s, rfl, fun p v hp => ?_⟩
      rw [valueAt_applyTomlOverlay happly hp]
      exact (upper_default hp _).symm
    | some rows =>
      refine ⟨s.mergeFrom (fromDbMap json round refusal rows), rfl, fun p v hp => ?_⟩
      rw [← valueAt_applyTomlOverlay happly hp]
      exact valueAt_mergeFrom s _ hp

end Layers

end Ironclaw.Settings
