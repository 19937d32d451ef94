import Ironclaw.Lib.Code
import Ironclaw.Lib.Word
import Ironclaw.Tools.Coercion

/-!
# Signatures of webhooks

`verify_discord_signature` and `verify_slack_signature`: a request is refused when its time stamp is too far from now,
and else checked against the signature over the stamp and the body. The distance is a wrapping 64-bit difference with a
wrapping absolute value. Hexadecimal text, keys, signatures and the MAC come from libraries and are parameters.

- `isStale_eq_false_iff`: which time stamps are let through;
- `discord_iff`, `slack_iff`: when a request is accepted;
- `fresh_iff`: for which time stamps the check is what it should be.
-/

namespace Ironclaw.Channels

open Word

abbrev Bytes := List UInt8

/-- `(now_secs - ts).abs() > window`. -/
def isStale (window nowSecs ts : Int64) : Bool := window < (nowSecs - ts).abs

/-- The libraries for Ed25519 and for hexadecimal text. -/
structure Ed25519 where
  Signature : Type
  VerifyingKey : Type
  hexDecode : Str → Option Bytes
  fromSlice : Bytes → Option Signature
  tryFrom : Bytes → Option VerifyingKey
  verifyStrict : VerifyingKey → Bytes → Signature → Bool

/-- The libraries for HMAC-SHA256 and for hexadecimal text. -/
structure HmacSha256 where
  Mac : Type
  newFromSlice : Bytes → Option Mac
  finalize : Mac → Bytes → Bytes
  hexEncode : Bytes → Str

/-- `verify_discord_signature`. -/
def verifyDiscordSignature (lib : Ed25519) (publicKeyHex signatureHex timestamp : Str) (body : Bytes)
    (nowSecs : Int64) :
    Bool :=
  match Tools.parseI64 timestamp with
  | none => false
  | some ts =>
    if isStale 5 nowSecs (Int64.ofInt ts) then false
    else
      match lib.hexDecode signatureHex, lib.hexDecode publicKeyHex with
      | some sigBytes, some keyBytes =>
        match lib.fromSlice sigBytes, lib.tryFrom keyBytes with
        | some signature, some verifyingKey => lib.verifyStrict verifyingKey (Code.utf8 timestamp ++ body) signature
        | _, _ => false
      | _, _ => false

/-- `verify_slack_signature`. -/
def verifySlackSignature (lib : HmacSha256) (signingSecret timestamp : Str) (body : Bytes) (signatureHeader : Str)
    (nowSecs : Int64) : Bool :=
  match Tools.parseI64 timestamp with
  | none => false
  | some ts =>
    if isStale 300 nowSecs (Int64.ofInt ts) then false
    else
      let basestring := Code.utf8 "v0:".toList ++ Code.utf8 timestamp ++ Code.utf8 [':'] ++ body
      match lib.newFromSlice (Code.utf8 signingSecret) with
      | none => false
      | some mac => Code.utf8 ("v0=".toList ++ lib.hexEncode (lib.finalize mac basestring)) == Code.utf8 signatureHeader

/-! ## What is asked of the checks -/

/-- The signature verifies over the time stamp and the body. -/
def DiscordSigned (lib : Ed25519) (publicKeyHex signatureHex timestamp : Str) (body : Bytes) : Prop :=
  ∃ sigBytes keyBytes signature verifyingKey, lib.hexDecode signatureHex = some sigBytes ∧
    lib.hexDecode publicKeyHex = some keyBytes ∧ lib.fromSlice sigBytes = some signature ∧
    lib.tryFrom keyBytes = some verifyingKey ∧
    lib.verifyStrict verifyingKey (Code.utf8 timestamp ++ body) signature = true

/-- The header is the MAC of the time stamp and the body. -/
def SlackSigned (lib : HmacSha256) (signingSecret timestamp : Str) (body : Bytes) (signatureHeader : Str) : Prop :=
  ∃ mac, lib.newFromSlice (Code.utf8 signingSecret) = some mac ∧
    Code.utf8 signatureHeader = Code.utf8 ("v0=".toList ++ lib.hexEncode
      (lib.finalize mac (Code.utf8 "v0:".toList ++ Code.utf8 timestamp ++ Code.utf8 [':'] ++ body)))

/-- The distance of a time stamp from now. -/
def distance (nowSecs : Int64) (ts : Int) : Int := |nowSecs.toInt - ts|

/-- A request is accepted only with a time stamp within the window and when it is signed, and neither the difference nor
its absolute value overflows. -/
structure Fresh (window : Int) (nowSecs : Int64) (timestamp : Str) (accepted : Bool) (signed : Prop) : Prop where
  within : accepted = true → ∃ ts, Tools.parseI64 timestamp = some ts ∧ distance nowSecs ts ≤ window ∧ signed
  exact : ∀ ts, Tools.parseI64 timestamp = some ts →
    (nowSecs - Int64.ofInt ts).toInt = nowSecs.toInt - ts ∧ (nowSecs - Int64.ofInt ts).abs.toInt = distance nowSecs ts

/-- A time stamp, if there is one, is less than half of the 64-bit range away from now. -/
def Near (nowSecs : Int64) (timestamp : Str) : Prop :=
  ∀ ts, Tools.parseI64 timestamp = some ts → distance nowSecs ts < 2 ^ 63

/-! ## Time stamps -/

theorem parseI64_bounds {s : Str} {n : Int} (h : Tools.parseI64 s = some n) : -2 ^ 63 ≤ n ∧ n < 2 ^ 63 := by
  unfold Tools.parseI64 at h
  split at h
  all_goals
    obtain ⟨k, -, hk⟩ := Option.bind_eq_some_iff.mp h
    split at hk
    · cases hk
      omega
    · cases hk

theorem toInt_ofInt_of_parse {s : Str} {n : Int} (h : Tools.parseI64 s = some n) : (Int64.ofInt n).toInt = n := by
  obtain ⟨hlow, hhigh⟩ := parseI64_bounds h
  exact Int64.toInt_ofInt_of_le hlow hhigh

section Stale

variable (window nowSecs : Int64) {timestamp : Str} {ts : Int}

/-- The absolute difference as it is computed: it is the distance below half of the range, and from there on it
wraps. -/
theorem toInt_abs_of_parse (h : Tools.parseI64 timestamp = some ts) : (nowSecs - Int64.ofInt ts).abs.toInt =
    if distance nowSecs ts < 2 ^ 63 then distance nowSecs ts
    else if distance nowSecs ts = 2 ^ 63 then -2 ^ 63
    else 2 ^ 64 - distance nowSecs ts := by
  rw [toInt_abs_sub, toInt_ofInt_of_parse h, distance]

/-- A time stamp is let through when it is within the window, half of the range away, or a whole range less a window. -/
theorem isStale_eq_false_iff (hwindow : 0 ≤ window.toInt) (h : Tools.parseI64 timestamp = some ts) :
    isStale window nowSecs (Int64.ofInt ts) = false ↔ distance nowSecs ts ≤ window.toInt ∨
      distance nowSecs ts = 2 ^ 63 ∨ 2 ^ 64 - window.toInt ≤ distance nowSecs ts := by
  have hlt := window.toInt_lt
  rw [isStale, decide_eq_false_iff_not, Int64.lt_iff_toInt_lt, toInt_abs_of_parse nowSecs h]
  split_ifs <;> omega

/-- The difference and its absolute value are exact below half of the range. -/
theorem exact_iff (h : Tools.parseI64 timestamp = some ts) :
    ((nowSecs - Int64.ofInt ts).toInt = nowSecs.toInt - ts ∧
      (nowSecs - Int64.ofInt ts).abs.toInt = distance nowSecs ts) ↔ distance nowSecs ts < 2 ^ 63 := by
  have hsub := toInt_sub_eq_iff nowSecs (Int64.ofInt ts)
  rw [toInt_ofInt_of_parse h] at hsub
  rw [hsub, toInt_abs_of_parse nowSecs h]
  unfold distance
  constructor
  · rintro ⟨hsub, habs⟩
    split_ifs at habs with hnear hhalf
    · exact hnear
    · rw [hhalf] at habs
      omega
    · rw [Int.abs_eq_natAbs] at *
      omega
  · intro hnear
    obtain ⟨hlow, hhigh⟩ := abs_lt.mp hnear
    exact ⟨⟨by omega, hhigh⟩, if_pos hnear⟩

end Stale

/-! ## Requests -/

section Requests

variable (nowSecs : Int64) (timestamp : Str) (body : Bytes)

/-- The time stamp is let through. -/
def LetThrough (window : Int) : Prop :=
  ∃ ts, Tools.parseI64 timestamp = some ts ∧
    (distance nowSecs ts ≤ window ∨ distance nowSecs ts = 2 ^ 63 ∨ 2 ^ 64 - window ≤ distance nowSecs ts)

theorem letThrough_of_parse (window : Int64) (hwindow : 0 ≤ window.toInt) {ts : Int}
    (h : Tools.parseI64 timestamp = some ts) :
    LetThrough nowSecs timestamp window.toInt ↔ isStale window nowSecs (Int64.ofInt ts) = false := by
  rw [isStale_eq_false_iff window nowSecs hwindow h]
  constructor
  · rintro ⟨ts', hts', hlet⟩
    cases h.symm.trans hts'
    exact hlet
  · exact fun hlet => ⟨ts, h, hlet⟩

theorem not_letThrough_of_parse {window : Int} (h : Tools.parseI64 timestamp = none) :
    ¬LetThrough nowSecs timestamp window := by
  rintro ⟨ts, hts, -⟩
  cases h.symm.trans hts

/-- A request is accepted when its time stamp is let through and the signature verifies. -/
theorem discord_iff (lib : Ed25519) (publicKeyHex signatureHex : Str) :
    verifyDiscordSignature lib publicKeyHex signatureHex timestamp body nowSecs = true ↔
      LetThrough nowSecs timestamp 5 ∧ DiscordSigned lib publicKeyHex signatureHex timestamp body := by
  unfold verifyDiscordSignature
  cases hparse : Tools.parseI64 timestamp with
  | none => exact ⟨nofun, fun h => absurd h.1 (not_letThrough_of_parse nowSecs timestamp hparse)⟩
  | some ts =>
    have hlet : LetThrough nowSecs timestamp 5 ↔ isStale 5 nowSecs (Int64.ofInt ts) = false :=
      letThrough_of_parse nowSecs timestamp 5 (by decide) hparse
    rw [hlet]
    dsimp only
    cases isStale 5 nowSecs (Int64.ofInt ts) with
    | true => simp
    | false =>
      unfold DiscordSigned
      cases lib.hexDecode signatureHex <;> cases lib.hexDecode publicKeyHex <;> simp
      next sigBytes keyBytes => cases lib.fromSlice sigBytes <;> cases lib.tryFrom keyBytes <;> simp

theorem slack_iff (lib : HmacSha256) (signingSecret signatureHeader : Str) :
    verifySlackSignature lib signingSecret timestamp body signatureHeader nowSecs = true ↔
      LetThrough nowSecs timestamp 300 ∧ SlackSigned lib signingSecret timestamp body signatureHeader := by
  unfold verifySlackSignature
  cases hparse : Tools.parseI64 timestamp with
  | none => exact ⟨nofun, fun h => absurd h.1 (not_letThrough_of_parse nowSecs timestamp hparse)⟩
  | some ts =>
    have hlet : LetThrough nowSecs timestamp 300 ↔ isStale 300 nowSecs (Int64.ofInt ts) = false :=
      letThrough_of_parse nowSecs timestamp 300 (by decide) hparse
    rw [hlet]
    dsimp only
    cases isStale 300 nowSecs (Int64.ofInt ts) with
    | true => simp
    | false =>
      unfold SlackSigned
      cases lib.newFromSlice (Code.utf8 signingSecret) with
      | none => simp
      | some mac =>
        refine ⟨fun h => ⟨rfl, mac, rfl, (beq_iff_eq.mp h).symm⟩, ?_⟩
        rintro ⟨-, mac', hmac, hheader⟩
        cases hmac
        exact beq_iff_eq.mpr hheader.symm

variable {nowSecs timestamp} {window : Int} {accepted : Bool} {signed : Prop}

/-- A check that lets such time stamps through is what it should be for those that are near. -/
theorem fresh_iff_near (h : accepted = true ↔ LetThrough nowSecs timestamp window ∧ signed)
    (hwindow : window < 2 ^ 63) :
    Fresh window nowSecs timestamp accepted signed ↔ Near nowSecs timestamp := by
  constructor
  · exact fun hfresh ts hts => (exact_iff nowSecs hts).mp (hfresh.exact ts hts)
  · refine fun hnear => ⟨fun haccepted => ?_, fun ts hts => (exact_iff nowSecs hts).mpr (hnear ts hts)⟩
    obtain ⟨⟨ts, hts, hlet⟩, hsigned⟩ := h.mp haccepted
    have hdistance := hnear ts hts
    exact ⟨ts, hts, by omega, hsigned⟩

end Requests

/-- **Fresh requests.** Both checks accept signed requests within their windows only, and compute the distance without
an overflow, if and only if the time stamp, if there is one, is less than half of the 64-bit range away from now. -/
theorem fresh_iff (ed25519 : Ed25519) (hmacSha256 : HmacSha256)
    (publicKeyHex signatureHex signingSecret signatureHeader : Str)
    (timestamp : Str) (body : Bytes) (nowSecs : Int64) :
    (Fresh 5 nowSecs timestamp (verifyDiscordSignature ed25519 publicKeyHex signatureHex timestamp body nowSecs)
        (DiscordSigned ed25519 publicKeyHex signatureHex timestamp body) ↔ Near nowSecs timestamp) ∧
      (Fresh 300 nowSecs timestamp
        (verifySlackSignature hmacSha256 signingSecret timestamp body signatureHeader nowSecs)
        (SlackSigned hmacSha256 signingSecret timestamp body signatureHeader) ↔ Near nowSecs timestamp) :=
  ⟨fresh_iff_near (discord_iff nowSecs timestamp body ed25519 publicKeyHex signatureHex) (by norm_num),
    fresh_iff_near (slack_iff nowSecs timestamp body hmacSha256 signingSecret signatureHeader) (by norm_num)⟩

/-- Half of the range before 1700000000. -/
def farTimestamp : Str := "-9223372035154775808".toList

theorem parse_farTimestamp : Tools.parseI64 farTimestamp = some (-9223372035154775808) := by decide_cbv

/-- The distance of this time stamp overflows, and a request with it is accepted when it is signed. -/
theorem far_timestamp_accepted :
    distance 1700000000 (-9223372035154775808) = 2 ^ 63 ∧
      (∀ (lib : Ed25519) (publicKeyHex signatureHex : Str) (body : Bytes),
        ¬Fresh 5 1700000000 farTimestamp
            (verifyDiscordSignature lib publicKeyHex signatureHex farTimestamp body 1700000000)
            (DiscordSigned lib publicKeyHex signatureHex farTimestamp body) ∧
          (DiscordSigned lib publicKeyHex signatureHex farTimestamp body →
            verifyDiscordSignature lib publicKeyHex signatureHex farTimestamp body 1700000000 = true)) ∧
      ∀ (lib : HmacSha256) (signingSecret : Str) (body : Bytes) (signatureHeader : Str),
        ¬Fresh 300 1700000000 farTimestamp
            (verifySlackSignature lib signingSecret farTimestamp body signatureHeader 1700000000)
            (SlackSigned lib signingSecret farTimestamp body signatureHeader) ∧
          (SlackSigned lib signingSecret farTimestamp body signatureHeader →
            verifySlackSignature lib signingSecret farTimestamp body signatureHeader 1700000000 = true) := by
  have hdistance : distance 1700000000 (-9223372035154775808) = 2 ^ 63 := by decide +kernel
  have hlet : ∀ window : Int, LetThrough 1700000000 farTimestamp window :=
    fun window => ⟨_, parse_farTimestamp, .inr (.inl hdistance)⟩
  have hfar : ∀ (window : Int) (accepted : Bool) (signed : Prop),
      ¬Fresh window 1700000000 farTimestamp accepted signed := by
    intro window accepted signed hfresh
    have hnear := (exact_iff 1700000000 parse_farTimestamp).mp (hfresh.exact _ parse_farTimestamp)
    rw [hdistance] at hnear
    exact absurd hnear (lt_irrefl _)
  refine ⟨hdistance, fun lib key signature body => ⟨hfar _ _ _, fun hsigned => ?_⟩,
    fun lib secret body header => ⟨hfar _ _ _, fun hsigned => ?_⟩⟩
  · exact (discord_iff _ _ body lib key signature).mpr ⟨hlet 5, hsigned⟩
  · exact (slack_iff _ _ body lib secret header).mpr ⟨hlet 300, hsigned⟩

end Ironclaw.Channels
