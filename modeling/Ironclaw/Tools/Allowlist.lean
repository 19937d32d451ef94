import Ironclaw.Lib.Code
import Ironclaw.Lib.DotSegments
import Ironclaw.Sandbox.Proxy

/-!
# The endpoint allowlist

The HTTP requests of a WASM tool go to the endpoints of its allowlist only: `validate` parses the URL, normalizes its
path and looks for a pattern that matches host, path and method. Parsing the URL and percent-decoding a segment are done
by libraries and stay parameters.

- `normalizePath_ok`: the segments of a normalized path;
- `validate_allowed`: what is allowed matches a pattern;
- `under_of_prefix`: a path that begins with the text of a directory lies in that directory;
- `allowlist_law`: an allowed URL lies in the directory of the pattern that it matches.
-/

namespace Ironclaw.Tools.Allowlist

open Text Net Code DotSegments

/-! ## Percent-encoding -/

def PERCENT : UInt8 := 37

/-- The value of `is_ascii_hexdigit`. -/
def hexDigit (b : UInt8) : Option UInt8 :=
  if 48 ≤ b ∧ b ≤ 57 then some (b - 48)
  else if 65 ≤ b ∧ b ≤ 70 then some (b - 55)
  else if 97 ≤ b ∧ b ≤ 102 then some (b - 87)
  else none

/-- `has_valid_percent_encoding`. -/
def hasValidPercentEncoding : List UInt8 → Bool
  | [] => true
  | b :: rest =>
    if b = PERCENT then
      match rest with
      | h :: l :: rest => (hexDigit h).isSome && (hexDigit l).isSome && hasValidPercentEncoding rest
      | _ => false
    else hasValidPercentEncoding rest

/-- Each percent sign with two digits is one byte. -/
def percentDecode : List UInt8 → List UInt8
  | [] => []
  | b :: rest =>
    if b = PERCENT then
      match rest with
      | h :: l :: rest => ((hexDigit h).getD 0 * 16 + (hexDigit l).getD 0) :: percentDecode rest
      | rest => b :: rest
    else b :: percentDecode rest

/-- `urlencoding::decode` of a well-formed text: its bytes are decoded once, and they are UTF-8. -/
def Decodes (urlDecode : Str → Option Str) : Prop :=
  ∀ raw segment, hasValidPercentEncoding (utf8 raw) = true → urlDecode raw = some segment →
    utf8 segment = percentDecode (utf8 raw)

/-! ## The path -/

section Path

variable (urlDecode : Str → Option Str)

def INVALID_ENCODING : Str := "Invalid percent-encoding in path segment: ".toList

def ENCODED_SEPARATOR : Str := "Path segment contains encoded path separator".toList

/-- A raw segment, decoded. -/
def decodeSegment (raw : Str) : Except Str Str :=
  if !hasValidPercentEncoding (utf8 raw) then .error (INVALID_ENCODING ++ raw)
  else
    match urlDecode raw with
    | none => .error (INVALID_ENCODING ++ raw)
    | some segment => if segment.contains '/' || segment.contains '\\' then .error ENCODED_SEPARATOR else .ok segment

/-- What a decoded segment does to the stack. -/
def push (segments : List Str) (segment : Str) : List Str :=
  if segment = [] ∨ segment = DOT then segments
  else if segment = DOT_DOT then segments.dropLast
  else segments ++ [segment]

/-- The loop over the raw segments. -/
def pushAll (segments : List Str) : List Str → Except Str (List Str)
  | [] => .ok segments
  | raw :: rest =>
    match decodeSegment urlDecode raw with
    | .error err => .error err
    | .ok segment => pushAll (push segments segment) rest

/-- `normalize_path`. -/
def normalizePath (path : Str) : Except Str Str :=
  match pushAll urlDecode [] (path.splitOn '/') with
  | .error err => .error err
  | .ok segments =>
    let result := '/' :: join ['/'] segments
    .ok (if 1 < utf8Len path ∧ path.getLast? = some '/' ∧ result.getLast? ≠ some '/' then result ++ ['/'] else result)

end Path

/-! ## Patterns -/

structure EndpointPattern where
  host : Str
  pathPrefix : Option Str
  methods : List Str

namespace EndpointPattern

variable (cm : CaseMap) (pattern : EndpointPattern)

/-- A wildcard matches the subdomains. -/
def hostMatches (urlHost : Str) : Bool :=
  if pattern.host = urlHost then true
  else
    match stripStart "*.".toList pattern.host with
    | none => false
    | some suffix =>
      if suffix.isSuffixOf urlHost && utf8Len suffix < utf8Len urlHost then
        let front := urlHost.take (urlHost.length - suffix.length)
        front.getLast? == some '.' || front.isEmpty
      else false

def pathMatches (urlPath : Str) : Bool := pattern.pathPrefix.all fun pre => pre.isPrefixOf urlPath

def methodMatches (method : Str) : Bool :=
  pattern.methods.isEmpty || pattern.methods.any fun m => cm.upper m == cm.upper method

/-- `EndpointPattern::matches`. -/
def isMatch (urlHost urlPath method : Str) : Bool :=
  pattern.hostMatches urlHost && pattern.pathMatches urlPath && pattern.methodMatches cm method

end EndpointPattern

/-! ## The validator -/

inductive DenyReason
  | invalidUrl (error : Str)
  | hostNotAllowed (host : Str)
  | pathNotAllowed (host path : Str)
  | methodNotAllowed (method host : Str)
  | emptyAllowlist
  | insecureScheme (scheme : Str)
  deriving DecidableEq

inductive AllowlistResult
  | allowed
  | denied (reason : DenyReason)
  deriving DecidableEq

structure ParsedUrl where
  scheme : Str
  host : Str
  path : Str

structure AllowlistValidator where
  patterns : List EndpointPattern
  requireHttps : Bool

section Validate

variable (cm : CaseMap) (urls : UrlParser) (urlDecode : Str → Option Str)

/-- The checks on a URL that the library has parsed. -/
def checkUrl (parsed : Url) : Except Str ParsedUrl :=
  let scheme := cm.lower parsed.scheme
  if scheme ≠ "http".toList ∧ scheme ≠ "https".toList then .error ("Unsupported scheme: ".toList ++ scheme)
  else if !parsed.userinfo.isEmpty then .error "URL contains userinfo (@) which is not allowed".toList
  else
    match parsed.hostStr with
    | none => .error "Empty host".toList
    | some host =>
      match normalizePath urlDecode parsed.path with
      | .error err => .error err
      | .ok path => .ok ⟨scheme, cm.lower (Sandbox.stripBrackets host), path⟩

/-- `parse_url`. -/
def parseUrl (url : Str) : Except Str ParsedUrl :=
  match urls.parse url with
  | .error err => .error ("URL parse failed: ".toList ++ err)
  | .ok parsed => checkUrl cm urlDecode parsed

/-- Why no pattern matches. -/
def denyReason (patterns : List EndpointPattern) (parsed : ParsedUrl) (method : Str) : DenyReason :=
  let hostMatches := patterns.filter fun p => p.hostMatches parsed.host
  if hostMatches.isEmpty then .hostNotAllowed parsed.host
  else if (hostMatches.filter fun p => p.pathMatches parsed.path).isEmpty then .pathNotAllowed parsed.host parsed.path
  else .methodNotAllowed method parsed.host

/-- `AllowlistValidator::validate`. -/
def AllowlistValidator.validate (validator : AllowlistValidator) (url method : Str) : AllowlistResult :=
  if validator.patterns.isEmpty then .denied .emptyAllowlist
  else
    match parseUrl cm urls urlDecode url with
    | .error err => .denied (.invalidUrl err)
    | .ok parsed =>
      if validator.requireHttps && parsed.scheme != "https".toList then .denied (.insecureScheme parsed.scheme)
      else if validator.patterns.any fun p => p.isMatch cm parsed.host parsed.path method then .allowed
      else .denied (denyReason validator.patterns parsed method)

end Validate

/-! ## Normalized paths -/

theorem push_eq_walk (segments : List Str) (segment : Str) :
    push segments segment = walk segments (ofText segment) := by
  unfold push ofText
  split
  · rfl
  · split <;> rfl

/-- The names are what is left of the segments of the path, each decoded once, when the dot segments are removed. -/
structure Normalizes (path : Str) (names : List Str) : Prop where
  removed : ∃ segments : List Str,
    List.Forall₂ (fun raw segment => utf8 segment = percentDecode (utf8 raw)) (path.splitOn '/') segments ∧
      (∀ segment ∈ segments, '/' ∉ segment ∧ '\\' ∉ segment) ∧
        Relation.ReflTransGen Removes (segments.map ofText) (names.map .name)
  plain : ∀ name ∈ names, name ≠ [] ∧ name ≠ DOT ∧ name ≠ DOT_DOT ∧ '/' ∉ name

section Normalize

variable {urlDecode : Str → Option Str} (hdecodes : Decodes urlDecode)
include hdecodes

theorem decodeSegment_ok {raw segment : Str} (h : decodeSegment urlDecode raw = .ok segment) :
    utf8 segment = percentDecode (utf8 raw) ∧ '/' ∉ segment ∧ '\\' ∉ segment := by
  unfold decodeSegment at h
  split at h
  · cases h
  next hvalid =>
    rw [Bool.not_eq_true, Bool.not_eq_false'] at hvalid
    split at h
    · cases h
    next segment' hdecode =>
      split at h
      · cases h
      next hplain =>
        cases h
        rw [Bool.or_eq_true, not_or, List.contains_iff_mem, List.contains_iff_mem] at hplain
        exact ⟨hdecodes _ _ hvalid hdecode, hplain⟩

theorem pushAll_ok : ∀ {raws segments names : List Str}, pushAll urlDecode segments raws = .ok names →
    ∃ decoded : List Str,
      List.Forall₂ (fun raw segment => utf8 segment = percentDecode (utf8 raw)) raws decoded ∧
        (∀ segment ∈ decoded, '/' ∉ segment ∧ '\\' ∉ segment) ∧
          (decoded.map ofText).foldl walk segments = names
  | [], _, _, h => ⟨[], .nil, fun _ h => absurd h List.not_mem_nil, Except.ok.inj h⟩
  | raw :: raws, segments, names, h => by
    unfold pushAll at h
    split at h
    · cases h
    next segment hsegment =>
      obtain ⟨hdecode, hplain⟩ := decodeSegment_ok hdecodes hsegment
      obtain ⟨decoded, hdecoded, hall, hnames⟩ := pushAll_ok h
      refine ⟨segment :: decoded, .cons hdecode hdecoded, ?_, ?_⟩
      · intro s hs
        rcases List.mem_cons.mp hs with rfl | hs
        · exact hplain
        · exact hall s hs
      · rw [List.map_cons, List.foldl_cons, ← push_eq_walk]
        exact hnames

theorem normalizes_of_pushAll {path : Str} {names : List Str}
    (h : pushAll urlDecode [] (path.splitOn '/') = .ok names) :
    Normalizes path names := by
  obtain ⟨decoded, hdecoded, hall, hnames⟩ := pushAll_ok hdecodes h
  refine ⟨⟨decoded, hdecoded, hall, removed_iff.mpr hnames⟩, fun name hname => ?_⟩
  rw [← hnames] at hname
  obtain ⟨segment, hsegment, hclass⟩ := List.mem_map.mp (mem_resolve hname)
  obtain ⟨rfl, hne, hdot, hup⟩ := ofText_eq_name hclass
  exact ⟨hne, hdot, hup, (hall name hsegment).1⟩

/-- The segments of a normalized path are its names, with an empty one at the end for a trailing slash. -/
theorem normalizePath_ok {path result : Str} (h : normalizePath urlDecode path = .ok result) : ∃ names,
    Normalizes path names ∧ (∃ rest, result = '/' :: rest) ∧
      (result.splitOn '/' = [] :: names ∨ result.splitOn '/' = [] :: names ++ [[]]) := by
  unfold normalizePath at h
  split at h
  · cases h
  next names hpush =>
    have hnormal := normalizes_of_pushAll hdecodes hpush
    obtain rfl := Except.ok.inj h
    refine ⟨names, hnormal, ?_, ?_⟩
    · split
      · exact ⟨_, rfl⟩
      · exact ⟨_, rfl⟩
    have hroot : ∀ rest : Str, ('/' :: rest).splitOn '/' = [] :: rest.splitOn '/' :=
      fun rest => List.splitOn_append_cons_self_of_not_mem List.not_mem_nil rest
    by_cases hnil : names = []
    · subst hnil
      right
      have hroot' : (if 1 < utf8Len path ∧ path.getLast? = some '/' ∧ ('/' :: join ['/'] []).getLast? ≠ some '/' then
          '/' :: join ['/'] [] ++ ['/'] else '/' :: join ['/'] []) = ['/'] :=
        if_neg fun hcond => hcond.2.2 rfl
      rw [hroot', hroot]
      rfl
    · have hjoin : (join ['/'] names).splitOn '/' = names :=
        List.splitOn_intercalate '/' (fun name hname => (hnormal.plain name hname).2.2.2) hnil
      split
      · right
        rw [List.cons_append, hroot, List.splitOn_append_cons_self, hjoin]
        rfl
      · left
        rw [hroot, hjoin]

end Normalize

/-! ## What is allowed -/

/-- The segments of a directory are the first ones of a path whose text begins with the directory and a slash. -/
theorem under_of_prefix {dir path : Str} {names : List Str} (hdir : dir ++ ['/'] <+: path)
    (hpath : path.splitOn '/' = [] :: names ∨ path.splitOn '/' = [] :: names ++ [[]]) :
    dir.splitOn '/' <+: [] :: names := by
  obtain ⟨rest, rfl⟩ := hdir
  rw [List.append_assoc, List.singleton_append, List.splitOn_append_cons_self] at hpath
  rcases hpath with hpath | hpath
  · exact ⟨_, hpath⟩
  · -- what follows the directory is not empty, so the segment at the end is part of it
    have hne := List.splitOn_ne_nil '/' rest
    have hdrop := congrArg List.dropLast hpath
    rw [List.dropLast_concat, List.dropLast_append_of_ne_nil hne] at hdrop
    exact ⟨_, hdrop⟩

section Allowed

variable {cm : CaseMap} {urls : UrlParser} {urlDecode : Str → Option Str}

theorem parseUrl_ok {url : Str} {parsed : ParsedUrl} (h : parseUrl cm urls urlDecode url = .ok parsed) :
    ∃ u, urls.parse url = .ok u ∧ normalizePath urlDecode u.path = .ok parsed.path := by
  unfold parseUrl at h
  split at h
  · cases h
  next u hparse =>
    refine ⟨u, hparse, ?_⟩
    unfold checkUrl at h
    simp only at h
    split at h
    · cases h
    split at h
    · cases h
    split at h
    · cases h
    split at h
    · cases h
    next path hpath =>
      cases h
      exact hpath

/-- A request is allowed when its URL is well-formed and a pattern matches. -/
theorem validate_allowed {validator : AllowlistValidator} {url method : Str} :
    validator.validate cm urls urlDecode url method = .allowed ↔ ∃ parsed,
      parseUrl cm urls urlDecode url = .ok parsed ∧ (validator.requireHttps = true → parsed.scheme = "https".toList) ∧
        ∃ pattern ∈ validator.patterns, pattern.isMatch cm parsed.host parsed.path method = true := by
  unfold AllowlistValidator.validate
  constructor
  · intro h
    split at h
    · cases h
    split at h
    · cases h
    next parsed hparsed =>
      split at h
      · cases h
      next hscheme =>
        split at h
        next hmatch =>
          refine ⟨parsed, hparsed, fun hhttps => ?_, List.any_eq_true.mp hmatch⟩
          by_contra hne
          exact hscheme (Bool.and_eq_true_iff.mpr ⟨hhttps, bne_iff_ne.mpr hne⟩)
        · cases h
  · rintro ⟨parsed, hparsed, hscheme, pattern, hmem, hmatch⟩
    have hne : validator.patterns.isEmpty = false := List.isEmpty_eq_false_iff.mpr (List.ne_nil_of_mem hmem)
    have hsecure : (validator.requireHttps && parsed.scheme != "https".toList) = false := by
      cases hhttps : validator.requireHttps with
      | false => rfl
      | true => exact bne_eq_false_iff_eq.mpr (hscheme hhttps)
    have hany : (validator.patterns.any fun p => p.isMatch cm parsed.host parsed.path method) = true :=
      List.any_eq_true.mpr ⟨pattern, hmem, hmatch⟩
    rw [hne, if_neg Bool.false_ne_true, hparsed]
    simp only [hsecure, Bool.false_eq_true, if_false, hany, if_true]

/-- **The allowlist.** The segments of a normalized path are what is left of the segments of the path, each decoded once
and without a separator, when the dot segments are removed; and a URL that is allowed matches a pattern, and lies in the
directory of every pattern that it matches. -/
theorem allowlist_law (hdecodes : Decodes urlDecode) :
    (∀ path result, normalizePath urlDecode path = .ok result → ∃ names, Normalizes path names ∧
      (∃ rest, result = '/' :: rest) ∧
        (result.splitOn '/' = [] :: names ∨ result.splitOn '/' = [] :: names ++ [[]])) ∧
      ∀ (validator : AllowlistValidator) (url method : Str),
        validator.validate cm urls urlDecode url method = .allowed → ∃ u parsed names,
          urls.parse url = .ok u ∧ parseUrl cm urls urlDecode url = .ok parsed ∧ Normalizes u.path names ∧
            (∃ pattern ∈ validator.patterns, pattern.isMatch cm parsed.host parsed.path method = true) ∧
              ∀ pattern ∈ validator.patterns, pattern.isMatch cm parsed.host parsed.path method = true →
                ∀ dir, pattern.pathPrefix = some (dir ++ ['/']) → dir.splitOn '/' <+: [] :: names := by
  refine ⟨fun path result h => normalizePath_ok hdecodes h, fun validator url method h => ?_⟩
  obtain ⟨parsed, hparsed, -, hpattern⟩ := validate_allowed.mp h
  obtain ⟨u, hu, hpath⟩ := parseUrl_ok hparsed
  obtain ⟨names, hnames, -, hsegments⟩ := normalizePath_ok hdecodes hpath
  refine ⟨u, parsed, names, hu, hparsed, hnames, hpattern, fun pattern _ hmatch dir hdir => ?_⟩
  have hstarts : pattern.pathMatches parsed.path = true :=
    (Bool.and_eq_true_iff.mp (Bool.and_eq_true_iff.mp hmatch).1).2
  rw [EndpointPattern.pathMatches, hdir] at hstarts
  exact under_of_prefix (List.isPrefixOf_iff_prefix.mp hstarts) hsegments

end Allowed

/-! ## One request -/

/-- The bytes are decoded, and a text is read from them. -/
def decodeUtf8 (raw : Str) : Option Str := ((percentDecode (utf8 raw)).toByteArray.utf8Decode?).map Array.toList

theorem decodes_decodeUtf8 : Decodes decodeUtf8 := by
  intro raw segment _ h
  obtain ⟨chars, hchars, rfl⟩ := Option.map_eq_some_iff.mp h
  have hsome : (percentDecode (utf8 raw)).toByteArray.utf8Decode?.isSome := by rw [hchars]; rfl
  have hget : (percentDecode (utf8 raw)).toByteArray.utf8Decode?.get hsome = chars := by
    simp only [hchars, Option.get_some]
  have hbytes : chars.toList.utf8Encode = (percentDecode (utf8 raw)).toByteArray := by
    rw [← hget]
    exact ByteArray.utf8Encode_get_utf8Decode?
  exact List.toByteArray_inj.mp hbytes

def chatUrl : Url :=
  ⟨"https".toList, [], some (.domain "api.openai.com".toList), none, "/v1/a%2eb//c".toList, none, none⟩

/-- The library, at one URL. -/
def chatUrls : UrlParser where
  parse text := if text = chatUrl.asStr then .ok chatUrl else .error "relative URL without a base".toList
  join base _ := .ok base
  appendPair query _ _ := query.getD []

def chatValidator : AllowlistValidator := ⟨[⟨"api.openai.com".toList, some "/v1/".toList, []⟩], true⟩

theorem allowlist_law_chat : ∃ names, Normalizes chatUrl.path names ∧ "/v1".toList.splitOn '/' <+: [] :: names := by
  have hallowed : chatValidator.validate asciiCase chatUrls decodeUtf8 chatUrl.asStr "GET".toList = .allowed := by
    decide +kernel
  obtain ⟨u, parsed, names, hu, -, hnames, ⟨pattern, hmem, hmatch⟩, hunder⟩ :=
    (allowlist_law decodes_decodeUtf8).2 chatValidator chatUrl.asStr "GET".toList hallowed
  have hparse : chatUrls.parse chatUrl.asStr = .ok chatUrl := by simp only [chatUrls, if_true]
  rw [hparse] at hu
  obtain rfl := Except.ok.inj hu
  obtain rfl := List.mem_singleton.mp hmem
  exact ⟨names, hnames, hunder _ hmem hmatch "/v1".toList (by decide)⟩

end Ironclaw.Tools.Allowlist
