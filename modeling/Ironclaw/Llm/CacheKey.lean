import Ironclaw.Lib.JsonText
import Ironclaw.Llm.Message

/-!
# The key of the response cache

The key of a completion request is the digest of the bytes of the model name, of the messages as JSON, of `max_tokens`
and `temperature` where they are given, and of the stop sequences, with bars between them. The messages are written so
that they can be read back, but neither the model name nor the numbers are.

- `messagesText_inj`: the messages, read from the beginning of a list of bytes;
- `tail_eq_iff`: when the bytes after the messages are the same;
- `separates_iff`: two requests have different bytes exactly when they are no clash.
-/

namespace Ironclaw.Llm

open Code

structure ImageUrl where
  url : Str
  detail : Option Str
  deriving DecidableEq

inductive ContentPart
  | text (text : Str)
  | imageUrl (imageUrl : ImageUrl)
  deriving DecidableEq

/-- A message with its parts other than text. -/
structure CompletionMessage extends ChatMessage where
  contentParts : List ContentPart
  deriving DecidableEq

/-- A completion request; the temperature is given by its bits. The arguments of tool calls are JSON values. -/
structure CompletionRequest where
  messages : List CompletionMessage
  model : Option Str
  maxTokens : Option UInt32
  temperature : Option UInt32
  stopSequences : Option (List Str)
  printable : ∀ msg ∈ messages, ∀ toolCalls ∈ msg.toolCalls, ∀ tc ∈ toolCalls, tc.arguments.Printable

/-! ## Serialization -/

def Role.toText : Role → Str
  | .system => "system".toList
  | .user => "user".toList
  | .assistant => "assistant".toList
  | .tool => "tool".toList

def ImageUrl.toJson (imageUrl : ImageUrl) : Json :=
  .ofFields [("url".toList, some (.str imageUrl.url)), ("detail".toList, imageUrl.detail.map .str)]

def ContentPart.toJson : ContentPart → Json
  | .text s => .ofFields [("type".toList, some (.str "text".toList)), ("text".toList, some (.str s))]
  | .imageUrl image =>
    .ofFields [("type".toList, some (.str "image_url".toList)), ("image_url".toList, some image.toJson)]

def ToolCall.toJson (tc : ToolCall) : Json :=
  .ofFields [("id".toList, some (.str tc.id)), ("name".toList, some (.str tc.name)),
    ("arguments".toList, some tc.arguments), ("reasoning".toList, tc.reasoning.map .str)]

def CompletionMessage.toJson (msg : CompletionMessage) : Json :=
  .ofFields [("role".toList, some (.str msg.role.toText)), ("content".toList, some (.str msg.content)),
    ("content_parts".toList,
      if msg.contentParts.isEmpty then none else some (.arr (msg.contentParts.map ContentPart.toJson))),
    ("tool_call_id".toList, msg.toolCallId.map .str), ("name".toList, msg.name.map .str),
    ("tool_calls".toList, msg.toolCalls.map fun tcs => .arr (tcs.map ToolCall.toJson))]

/-- `serde_json::to_string` of the messages. -/
def messagesText (messages : List CompletionMessage) : Str := (Json.arr (messages.map CompletionMessage.toJson)).toText

/-! ## The key -/

/-- `to_le_bytes`. -/
def toLeBytes (n : UInt32) : List UInt8 :=
  [n.toUInt8, (n >>> 8).toUInt8, (n >>> 16).toUInt8, (n >>> 24).toUInt8]

/-- The byte of `|`. -/
def BAR : UInt8 := 0x7c

/-- The bytes of a number, if there is one. -/
def numberBytes (n : Option UInt32) : List UInt8 := n.elim [] toLeBytes

/-- Every stop sequence ends with a zero byte. -/
def stopBytes (stops : Option (List Str)) : List UInt8 := (stops.getD []).flatMap fun s => utf8 s ++ [0]

/-- What is hashed after the messages and a bar. -/
def tailBytes (request : CompletionRequest) : List UInt8 :=
  numberBytes request.maxTokens ++ BAR :: (numberBytes request.temperature ++ BAR :: stopBytes request.stopSequences)

/-- What is hashed after the model name and a bar. -/
def requestBytes (request : CompletionRequest) : List UInt8 :=
  utf8 (messagesText request.messages) ++ BAR :: tailBytes request

/-- What `cache_key` hashes. -/
def keyBytes (model : Str) (request : CompletionRequest) : List UInt8 := utf8 model ++ BAR :: requestBytes request

/-- `cache_key`, with the digest in hexadecimal. -/
def cacheKey (sha256 : List UInt8 → Str) (model : Str) (request : CompletionRequest) : Str :=
  sha256 (keyBytes model request)

/-! ## Reading the messages back -/

theorem Role.toText_inj : ∀ {a b : Role}, a.toText = b.toText → a = b := by
  intro a b h
  cases a <;> cases b <;> first | rfl | cases h

theorem map_str_inj {a b : Option Str} (h : a.map Json.str = b.map Json.str) : a = b :=
  Option.map_injective (fun _ _ => Json.str.inj) h

theorem ImageUrl.toJson_inj {a b : ImageUrl} (h : a.toJson = b.toJson) : a = b := by
  have hfields := Json.ofFields_inj ["url".toList, "detail".toList] (by decide) rfl rfl h
  obtain ⟨url, detail⟩ := a
  obtain ⟨url', detail'⟩ := b
  simp only [List.cons.injEq, Prod.mk.injEq, Option.some.injEq, Json.str.injEq, true_and, and_true] at hfields
  obtain ⟨rfl, hdetail⟩ := hfields
  rw [map_str_inj hdetail]

theorem ContentPart.toJson_inj : ∀ {a b : ContentPart}, a.toJson = b.toJson → a = b
  | .text s, .text s', h => by
    have hfields := Json.ofFields_inj ["type".toList, "text".toList] (by decide) rfl rfl h
    simp only [List.cons.injEq, Prod.mk.injEq, Option.some.injEq, Json.str.injEq, true_and, and_true] at hfields
    rw [hfields]
  | .imageUrl image, .imageUrl image', h => by
    have hfields := Json.ofFields_inj ["type".toList, "image_url".toList] (by decide) rfl rfl h
    simp only [List.cons.injEq, Prod.mk.injEq, Option.some.injEq, true_and, and_true] at hfields
    rw [ImageUrl.toJson_inj hfields]
  | .text s, .imageUrl image, h => by
    have hentries := Json.obj.inj h
    cases (List.cons.inj hentries).1
  | .imageUrl image, .text s, h => by
    have hentries := Json.obj.inj h
    cases (List.cons.inj hentries).1

theorem ToolCall.toJson_inj {a b : ToolCall} (h : a.toJson = b.toJson) : a = b := by
  have hfields := Json.ofFields_inj ["id".toList, "name".toList, "arguments".toList, "reasoning".toList] (by decide)
    rfl rfl h
  obtain ⟨id, name, arguments, reasoning⟩ := a
  obtain ⟨id', name', arguments', reasoning'⟩ := b
  simp only [List.cons.injEq, Prod.mk.injEq, Option.some.injEq, Json.str.injEq, true_and, and_true] at hfields
  obtain ⟨rfl, rfl, rfl, hreasoning⟩ := hfields
  rw [map_str_inj hreasoning]

theorem contentParts_inj {a b : List ContentPart}
    (h : (if a.isEmpty then none else some (Json.arr (a.map ContentPart.toJson))) =
      if b.isEmpty then none else some (Json.arr (b.map ContentPart.toJson))) : a = b := by
  cases a with
  | nil =>
    cases b with
    | nil => rfl
    | cons y b => cases h
  | cons x a =>
    cases b with
    | nil => cases h
    | cons y b =>
      exact List.map_injective_iff.mpr (fun _ _ => ContentPart.toJson_inj) (Json.arr.inj (Option.some.inj h))

theorem toolCalls_inj {a b : Option (List ToolCall)}
    (h : (a.map fun tcs => Json.arr (tcs.map ToolCall.toJson)) = b.map fun tcs => Json.arr (tcs.map ToolCall.toJson)) :
    a = b := by
  refine Option.map_injective (fun tcs tcs' hcalls => ?_) h
  exact List.map_injective_iff.mpr (fun _ _ => ToolCall.toJson_inj) (Json.arr.inj hcalls)

theorem CompletionMessage.toJson_inj {a b : CompletionMessage} (h : a.toJson = b.toJson) : a = b := by
  have hfields := Json.ofFields_inj ["role".toList, "content".toList, "content_parts".toList, "tool_call_id".toList,
    "name".toList, "tool_calls".toList] (by decide) rfl rfl h
  obtain ⟨⟨role, content, toolCallId, name, toolCalls⟩, contentParts⟩ := a
  obtain ⟨⟨role', content', toolCallId', name', toolCalls'⟩, contentParts'⟩ := b
  simp only [List.cons.injEq, Prod.mk.injEq, Option.some.injEq, Json.str.injEq, true_and, and_true] at hfields
  obtain ⟨hrole, rfl, hparts, hid, hname, hcalls⟩ := hfields
  rw [Role.toText_inj hrole, contentParts_inj hparts, map_str_inj hid, map_str_inj hname, toolCalls_inj hcalls]

theorem ImageUrl.printable_toJson (image : ImageUrl) : image.toJson.Printable := by
  refine Json.printable_ofFields ?_
  simp [Json.Printable]

theorem ContentPart.printable_toJson : ∀ part : ContentPart, part.toJson.Printable
  | .text s => by
    refine Json.printable_ofFields ?_
    simp [Json.Printable]
  | .imageUrl image => by
    refine Json.printable_ofFields ?_
    simp [Json.Printable, image.printable_toJson]

theorem ToolCall.printable_toJson {tc : ToolCall} (h : tc.arguments.Printable) : tc.toJson.Printable := by
  refine Json.printable_ofFields ?_
  simp [Json.Printable, h]

theorem CompletionMessage.printable_toJson {msg : CompletionMessage}
    (h : ∀ toolCalls ∈ msg.toolCalls, ∀ tc ∈ toolCalls, tc.arguments.Printable) : msg.toJson.Printable := by
  have hparts : Json.PrintableAll (msg.contentParts.map ContentPart.toJson) := by
    rw [Json.printableAll_iff, List.forall_mem_map]
    exact fun part _ => part.printable_toJson
  have hcalls : ∀ tcs ∈ msg.toolCalls, Json.PrintableAll (tcs.map ToolCall.toJson) := by
    intro tcs htcs
    rw [Json.printableAll_iff, List.forall_mem_map]
    exact fun tc htc => ToolCall.printable_toJson (h tcs htcs tc htc)
  refine Json.printable_ofFields ?_
  simp_all [Json.Printable]

/-- The text of the messages, with anything after it, determines the messages. -/
theorem messagesText_inj {a b : CompletionRequest} {r s : Str}
    (h : messagesText a.messages ++ r = messagesText b.messages ++ s) : a.messages = b.messages ∧ r = s := by
  have hprintable : ∀ c : CompletionRequest, Json.PrintableAll (c.messages.map CompletionMessage.toJson) := by
    intro c
    rw [Json.printableAll_iff, List.forall_mem_map]
    exact fun msg hmsg => CompletionMessage.printable_toJson (c.printable msg hmsg)
  obtain ⟨hmap, hrest⟩ := Json.elements_inj (hprintable a) (hprintable b) (List.cons.inj h).2
  exact ⟨List.map_injective_iff.mpr (fun _ _ => CompletionMessage.toJson_inj) hmap, hrest⟩

/-- The same for the bytes of the text. -/
theorem messagesBytes_inj {a b : CompletionRequest} {r s : List UInt8}
    (h : utf8 (messagesText a.messages) ++ r = utf8 (messagesText b.messages) ++ s) :
    a.messages = b.messages ∧ r = s := by
  obtain ⟨t, ht, hr⟩ | ⟨t, ht, hs⟩ := readable_utf8.flatMap h
  · have happend : messagesText a.messages ++ t = messagesText b.messages ++ [] := by
      rw [ht, List.append_nil]
    obtain ⟨hmessages, rfl⟩ := messagesText_inj happend
    exact ⟨hmessages, hr⟩
  · have happend : messagesText a.messages ++ [] = messagesText b.messages ++ t := by
      rw [← ht, List.append_nil]
    obtain ⟨hmessages, rfl⟩ := messagesText_inj happend
    exact ⟨hmessages, hs.symm⟩

/-! ## The bytes after the messages -/

theorem toLeBytes_inj {m n : UInt32} (h : toLeBytes m = toLeBytes n) : m = n := by
  simp only [toLeBytes, List.cons.injEq, and_true] at h
  obtain ⟨h₀, h₁, h₂, h₃⟩ := h
  have hm := m.toNat_lt
  have hn := n.toNat_lt
  replace h₀ := congrArg UInt8.toNat h₀
  replace h₁ := congrArg UInt8.toNat h₁
  replace h₂ := congrArg UInt8.toNat h₂
  replace h₃ := congrArg UInt8.toNat h₃
  simp only [UInt32.toNat_toUInt8, UInt32.toNat_shiftRight, Nat.shiftRight_eq_div_pow] at h₀ h₁ h₂ h₃
  simp only [UInt32.reduceToNat, Nat.reduceMod, Nat.reducePow] at h₀ h₁ h₂ h₃ hm hn
  apply UInt32.toNat_inj.mp
  omega

/-- A bar and what follows it have the bytes of a number and what follows: the first byte of the number is the bar. -/
theorem bar_cons_eq {r s : List UInt8} {n : UInt32} :
    BAR :: r = toLeBytes n ++ s ↔ ∃ g, toLeBytes n = BAR :: g ∧ r = g ++ s := by
  constructor
  · intro h
    rw [toLeBytes, List.cons_append] at h
    obtain ⟨hbar, hrest⟩ := List.cons.inj h
    exact ⟨_, by rw [toLeBytes, ← hbar], hrest⟩
  · rintro ⟨g, hg, rfl⟩
    rw [hg, List.cons_append]

theorem numberBytes_append_inj {m n : UInt32} {r s : List UInt8} :
    toLeBytes m ++ r = toLeBytes n ++ s ↔ m = n ∧ r = s := by
  constructor
  · intro h
    obtain ⟨hnumber, hrest⟩ := List.append_inj h rfl
    exact ⟨toLeBytes_inj hnumber, hrest⟩
  · rintro ⟨rfl, rfl⟩
    rfl

/-- The first request has the bytes of the second although it gives no temperature, or no `max_tokens`: the first byte
of the number that it leaves out is a bar, and the other bytes of the number are bytes of what follows. -/
def LeavesOut (a b : CompletionRequest) : Prop :=
  (a.maxTokens = b.maxTokens ∧ a.temperature = none ∧ ∃ f g, b.temperature = some f ∧ toLeBytes f = BAR :: g ∧
    stopBytes a.stopSequences = g ++ BAR :: stopBytes b.stopSequences) ∨
  (a.maxTokens = none ∧ ∃ n g, b.maxTokens = some n ∧ toLeBytes n = BAR :: g ∧
    (a.temperature = none ∧ (∃ g', g = BAR :: g' ∧
        stopBytes a.stopSequences =
          g' ++ BAR :: (numberBytes b.temperature ++ BAR :: stopBytes b.stopSequences)) ∨
      ∃ f, a.temperature = some f ∧ toLeBytes f = g ++ [BAR] ∧
        (b.temperature = none ∧ stopBytes a.stopSequences = stopBytes b.stopSequences ∨
          ∃ f' g', b.temperature = some f' ∧ toLeBytes f' = BAR :: g' ∧
            stopBytes a.stopSequences = g' ++ BAR :: stopBytes b.stopSequences)))

/-- What follows the bytes of `max_tokens`. -/
theorem temperature_eq_iff (a b : CompletionRequest) :
    numberBytes a.temperature ++ BAR :: stopBytes a.stopSequences =
        numberBytes b.temperature ++ BAR :: stopBytes b.stopSequences ↔
      a.temperature = b.temperature ∧ stopBytes a.stopSequences = stopBytes b.stopSequences ∨
      (a.temperature = none ∧ ∃ f g, b.temperature = some f ∧ toLeBytes f = BAR :: g ∧
        stopBytes a.stopSequences = g ++ BAR :: stopBytes b.stopSequences) ∨
      b.temperature = none ∧ ∃ f g, a.temperature = some f ∧ toLeBytes f = BAR :: g ∧
        stopBytes b.stopSequences = g ++ BAR :: stopBytes a.stopSequences := by
  cases a.temperature with
  | none =>
    cases b.temperature with
    | none => simp [numberBytes]
    | some f =>
      show BAR :: _ = toLeBytes f ++ _ ↔ _
      rw [bar_cons_eq]
      simp
  | some f =>
    cases b.temperature with
    | none =>
      show toLeBytes f ++ _ = BAR :: _ ↔ _
      rw [eq_comm, bar_cons_eq]
      simp
    | some f' =>
      show toLeBytes f ++ _ = toLeBytes f' ++ _ ↔ _
      rw [numberBytes_append_inj]
      simp

/-- A bar and the stop sequences are what follows the bytes of `max_tokens`. -/
theorem stops_eq_iff (stops : List UInt8) (b : CompletionRequest) :
    BAR :: stops = numberBytes b.temperature ++ BAR :: stopBytes b.stopSequences ↔
      b.temperature = none ∧ stops = stopBytes b.stopSequences ∨
        ∃ f g, b.temperature = some f ∧ toLeBytes f = BAR :: g ∧ stops = g ++ BAR :: stopBytes b.stopSequences := by
  cases b.temperature with
  | none => simp [numberBytes]
  | some f =>
    show BAR :: _ = toLeBytes f ++ _ ↔ _
    rw [bar_cons_eq]
    simp

/-- What follows the bar in place of the first byte of `max_tokens`; `g` is what is left of that number. -/
theorem skipped_eq_iff (a : CompletionRequest) {g : List UInt8} (hg : g.length = 3) (rest : List UInt8) :
    numberBytes a.temperature ++ BAR :: stopBytes a.stopSequences = g ++ BAR :: rest ↔
      a.temperature = none ∧ (∃ g', g = BAR :: g' ∧ stopBytes a.stopSequences = g' ++ BAR :: rest) ∨
        ∃ f, a.temperature = some f ∧ toLeBytes f = g ++ [BAR] ∧ BAR :: stopBytes a.stopSequences = rest := by
  obtain ⟨x, g', rfl⟩ := List.exists_cons_of_length_eq_add_one hg
  cases a.temperature with
  | none =>
    simp only [numberBytes, Option.elim_none, List.nil_append, List.cons_append, List.cons.injEq,
      true_and, reduceCtorEq, false_and, exists_false, or_false]
    constructor
    · rintro ⟨rfl, hstops⟩
      exact ⟨g', ⟨rfl, rfl⟩, hstops⟩
    · rintro ⟨_, ⟨rfl, rfl⟩, hstops⟩
      exact ⟨rfl, hstops⟩
  | some f =>
    have hsplit : toLeBytes f ++ BAR :: stopBytes a.stopSequences = (x :: g') ++ BAR :: rest ↔
        toLeBytes f = (x :: g') ++ [BAR] ∧ BAR :: stopBytes a.stopSequences = rest := by
      constructor
      · intro h
        have hlen : (toLeBytes f).length = ((x :: g') ++ [BAR]).length := by
          rw [List.length_append, hg]
          rfl
        refine List.append_inj ?_ hlen
        rw [h, List.append_assoc]
        rfl
      · rintro ⟨hf, rfl⟩
        rw [hf, List.append_assoc]
        rfl
    simp only [reduceCtorEq, false_and, Option.some.injEq, exists_eq_left', false_or]
    exact hsplit

theorem leavesOut_of_same {a b : CompletionRequest} (h : a.maxTokens = b.maxTokens) :
    LeavesOut a b ↔ a.temperature = none ∧ ∃ f g, b.temperature = some f ∧ toLeBytes f = BAR :: g ∧
      stopBytes a.stopSequences = g ++ BAR :: stopBytes b.stopSequences := by
  rw [LeavesOut, and_iff_right h, or_iff_left]
  rintro ⟨hnone, n, -, hsome, -⟩
  rw [h, hsome] at hnone
  cases hnone

theorem leavesOut_of_missing {a b : CompletionRequest} {n : UInt32} (ha : a.maxTokens = none)
    (hb : b.maxTokens = some n) : LeavesOut a b ↔
      BAR :: (numberBytes a.temperature ++ BAR :: stopBytes a.stopSequences) =
        toLeBytes n ++ BAR :: (numberBytes b.temperature ++ BAR :: stopBytes b.stopSequences) := by
  have hne : ¬a.maxTokens = b.maxTokens := by
    rw [ha, hb]
    nofun
  have hlen : ∀ g, toLeBytes n = BAR :: g → g.length = 3 := by
    intro g hg
    exact (Nat.succ.inj (congrArg List.length hg)).symm
  rw [bar_cons_eq, LeavesOut, or_iff_right fun h => hne h.1, and_iff_right ha, hb]
  constructor
  · rintro ⟨n, g, hn, hg, hrest⟩
    cases hn
    refine ⟨g, hg, (skipped_eq_iff a (hlen g hg) _).mpr ?_⟩
    rw [stops_eq_iff]
    exact hrest
  · rintro ⟨g, hg, hrest⟩
    rw [skipped_eq_iff a (hlen g hg), stops_eq_iff] at hrest
    exact ⟨n, g, rfl, hg, hrest⟩

theorem not_leavesOut_of_given {a b : CompletionRequest} {n : UInt32} (ha : a.maxTokens = some n)
    (hb : b.maxTokens ≠ some n) : ¬LeavesOut a b := by
  rintro (⟨hsame, -⟩ | ⟨hnone, -⟩)
  · exact hb (hsame.symm.trans ha)
  · rw [ha] at hnone
    cases hnone

/-- The bytes after the messages are the same when the numbers and the bytes of the stop sequences are, or when one
request leaves out a number that begins with a bar. -/
theorem tail_eq_iff (a b : CompletionRequest) :
    tailBytes a = tailBytes b ↔
      (a.maxTokens = b.maxTokens ∧ a.temperature = b.temperature ∧
        stopBytes a.stopSequences = stopBytes b.stopSequences) ∨ LeavesOut a b ∨ LeavesOut b a := by
  by_cases hsame : a.maxTokens = b.maxTokens
  · rw [leavesOut_of_same hsame, leavesOut_of_same hsame.symm, and_iff_right hsame, ← temperature_eq_iff, tailBytes,
      tailBytes, hsame, List.append_cancel_left_eq, List.cons.injEq, and_iff_right rfl]
  rw [or_iff_right fun h => hsame h.1]
  unfold tailBytes
  cases ha : a.maxTokens with
  | none =>
    cases hb : b.maxTokens with
    | none => exact absurd (ha.trans hb.symm) hsame
    | some n =>
      have hne : a.maxTokens ≠ some n := by
        rw [ha]
        nofun
      rw [or_iff_left (not_leavesOut_of_given hb hne), leavesOut_of_missing ha hb]
      exact Iff.rfl
  | some m =>
    have hb' : b.maxTokens ≠ some m := fun hb => hsame (ha.trans hb.symm)
    rw [or_iff_right (not_leavesOut_of_given ha hb')]
    cases hb : b.maxTokens with
    | none =>
      rw [leavesOut_of_missing hb ha]
      exact eq_comm
    | some n =>
      have hne : m ≠ n := by
        rintro rfl
        exact hb' hb
      have ha' : a.maxTokens ≠ some n := by
        rw [ha]
        exact fun h => hne (Option.some.inj h)
      refine iff_of_false ?_ (not_leavesOut_of_given hb ha')
      intro h
      exact hne (numberBytes_append_inj.1 h).1

/-! ## Requests with the same bytes -/

/-- The bytes of the bar stand for the bar alone. -/
theorem bar_of_byte {c : Char} {r s : List UInt8} (h : String.utf8EncodeChar c ++ r = BAR :: s) : c = '|' ∧ r = s :=
  readable_utf8 c '|' r s h

/-- The bytes of two texts, each up to a bar: the texts are the same, or one of them goes on with a bar. -/
theorem utf8_bar_eq {m m' : Str} {x y : List UInt8} :
    utf8 m ++ BAR :: x = utf8 m' ++ BAR :: y ↔
      m = m' ∧ x = y ∨ (∃ r, m' = m ++ '|' :: r ∧ x = utf8 r ++ BAR :: y) ∨
        ∃ r, m = m' ++ '|' :: r ∧ y = utf8 r ++ BAR :: x := by
  have hbar : ∀ p r : Str, utf8 (p ++ '|' :: r) = utf8 p ++ BAR :: utf8 r := by
    intro p r
    rw [utf8, List.flatMap_append, List.flatMap_cons]
    rfl
  constructor
  · intro h
    obtain ⟨t, rfl, ht⟩ | ⟨t, rfl, ht⟩ := readable_utf8.flatMap h
    · cases t with
      | nil =>
        rw [List.append_nil]
        exact .inl ⟨rfl, (List.cons.inj ht).2⟩
      | cons c t =>
        rw [List.flatMap_cons, List.append_assoc] at ht
        obtain ⟨rfl, hrest⟩ := bar_of_byte ht.symm
        exact .inr (.inl ⟨t, rfl, hrest.symm⟩)
    · cases t with
      | nil =>
        rw [List.append_nil]
        exact .inl ⟨rfl, (List.cons.inj ht).2.symm⟩
      | cons c t =>
        rw [List.flatMap_cons, List.append_assoc] at ht
        obtain ⟨rfl, hrest⟩ := bar_of_byte ht.symm
        exact .inr (.inr ⟨t, rfl, hrest.symm⟩)
  · rintro (⟨rfl, rfl⟩ | ⟨r, rfl, rfl⟩ | ⟨r, rfl, rfl⟩)
    · rfl
    · rw [hbar, List.append_assoc, List.cons_append]
    · rw [hbar, List.append_assoc, List.cons_append]

/-- What is hashed after the model name: the messages can be read back from it. -/
theorem requestBytes_eq_iff (a b : CompletionRequest) :
    requestBytes a = requestBytes b ↔ a.messages = b.messages ∧ tailBytes a = tailBytes b := by
  constructor
  · intro h
    obtain ⟨hmessages, htail⟩ := messagesBytes_inj h
    exact ⟨hmessages, (List.cons.inj htail).2⟩
  · rintro ⟨hmessages, htail⟩
    rw [requestBytes, requestBytes, hmessages, htail]

/-- The effective model and the fields of the request that may change the response. -/
def SameRequest (model : Str) (a : CompletionRequest) (model' : Str) (b : CompletionRequest) : Prop :=
  model = model' ∧ a.messages = b.messages ∧ a.maxTokens = b.maxTokens ∧ a.temperature = b.temperature ∧
    a.stopSequences = b.stopSequences

/-- The second model name is the first with a bar and a text behind it, and the bytes after the first name begin with
the text and a bar, and go on like those after the second name. -/
def Overlaps (model : Str) (a : CompletionRequest) (model' : Str) (b : CompletionRequest) : Prop :=
  ∃ r, model' = model ++ '|' :: r ∧ requestBytes a = utf8 r ++ BAR :: requestBytes b

/-- The stop sequences differ, but not their bytes, each followed by a zero byte. -/
def StopsClash (a b : CompletionRequest) : Prop :=
  a.maxTokens = b.maxTokens ∧ a.temperature = b.temperature ∧ a.stopSequences ≠ b.stopSequences ∧
    stopBytes a.stopSequences = stopBytes b.stopSequences

/-- Two requests that have the same bytes although they differ. -/
def Clash (model : Str) (a : CompletionRequest) (model' : Str) (b : CompletionRequest) : Prop :=
  model = model' ∧ a.messages = b.messages ∧ (StopsClash a b ∨ LeavesOut a b ∨ LeavesOut b a) ∨
    Overlaps model a model' b ∨ Overlaps model' b model a

theorem LeavesOut.differ {a b : CompletionRequest} (h : LeavesOut a b) :
    ¬(a.maxTokens = b.maxTokens ∧ a.temperature = b.temperature) := by
  rintro ⟨hmt, ht⟩
  obtain ⟨-, hnone, f, -, hsome, -⟩ | ⟨hnone, n, -, hsome, -⟩ := h
  · rw [ht, hsome] at hnone
    cases hnone
  · rw [hmt, hsome] at hnone
    cases hnone

theorem Overlaps.ne {model model' : Str} {a b : CompletionRequest} (h : Overlaps model a model' b) :
    model ≠ model' := by
  obtain ⟨r, rfl, -⟩ := h
  exact fun hsame => List.cons_ne_nil _ _ (List.self_eq_append_right.mp hsame)

/-- Clashing requests are those that differ and have the same bytes. -/
theorem clash_iff (model : Str) (a : CompletionRequest) (model' : Str) (b : CompletionRequest) :
    Clash model a model' b ↔ ¬SameRequest model a model' b ∧ keyBytes model a = keyBytes model' b := by
  rw [keyBytes, keyBytes, utf8_bar_eq, requestBytes_eq_iff, tail_eq_iff]
  constructor
  · rintro (⟨hmodel, hmessages, hstops | hleft | hleft⟩ | hoverlap | hoverlap)
    · obtain ⟨hmt, ht, hne, hbytes⟩ := hstops
      exact ⟨fun hsame => hne hsame.2.2.2.2, .inl ⟨hmodel, hmessages, .inl ⟨hmt, ht, hbytes⟩⟩⟩
    · exact ⟨fun hsame => hleft.differ ⟨hsame.2.2.1, hsame.2.2.2.1⟩, .inl ⟨hmodel, hmessages, .inr (.inl hleft)⟩⟩
    · refine ⟨fun hsame => hleft.differ ⟨hsame.2.2.1.symm, hsame.2.2.2.1.symm⟩, .inl ⟨hmodel, hmessages, ?_⟩⟩
      exact .inr (.inr hleft)
    · exact ⟨fun hsame => hoverlap.ne hsame.1, .inr (.inl hoverlap)⟩
    · exact ⟨fun hsame => hoverlap.ne hsame.1.symm, .inr (.inr hoverlap)⟩
  · rintro ⟨hdiffer, ⟨hmodel, hmessages, ⟨hmt, ht, hbytes⟩ | hleft⟩ | hoverlap⟩
    · have hne : a.stopSequences ≠ b.stopSequences := fun hs => hdiffer ⟨hmodel, hmessages, hmt, ht, hs⟩
      exact .inl ⟨hmodel, hmessages, .inl ⟨hmt, ht, hne, hbytes⟩⟩
    · exact .inl ⟨hmodel, hmessages, .inr hleft⟩
    · exact .inr hoverlap

/-- **The cache key** separates requests that differ exactly when they do not clash. -/
theorem separates_iff (model : Str) (a : CompletionRequest) (model' : Str) (b : CompletionRequest) :
    (¬SameRequest model a model' b → keyBytes model a ≠ keyBytes model' b) ↔ ¬Clash model a model' b := by
  rw [clash_iff, not_and]

/-- A request with an empty list of stop sequences has the key of the request without such a list. -/
theorem empty_stops_clash :
    ¬∀ (model : Str) (a : CompletionRequest) (model' : Str) (b : CompletionRequest),
      ¬SameRequest model a model' b → keyBytes model a ≠ keyBytes model' b := by
  intro h
  let a : CompletionRequest := ⟨[], none, none, none, none, nofun⟩
  refine h "gpt-4o".toList a "gpt-4o".toList { a with stopSequences := some [] } ?_ rfl
  rintro ⟨-, -, -, -, hstops⟩
  cases hstops

end Ironclaw.Llm
