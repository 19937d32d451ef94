import Ironclaw.Session.Thread

/-!
# The ids of the tool calls of a turn

`generate_tool_call_id` mixes two numbers into 64 bits and writes the last nine base-62 digits of the mix. The second
number is added, so that two calls of one turn get the same id only when their places differ by a multiple of `62 ^ 9`
or, where the addition wraps around, by what `2 ^ 64` leaves modulo `62 ^ 9`.

- `generateToolCallId_inj`: places below `MIX_WINDOW` give distinct ids, whatever the turn;
- `toolCallIds_distinct`: the form of the ids, and the ids of a turn.
-/

namespace Ironclaw.Session

open Llm

/-- A character of base 62: a digit or a letter. -/
def isBase62 (c : Char) : Bool := c.isDigit || c.isLower || c.isUpper

/-- What is left of `2 ^ 64` modulo `62 ^ 9`, more than `9 * 10 ^ 15`. -/
def MIX_WINDOW : Nat := 2 ^ 64 % 62 ^ 9

/-! ## Digits -/

/-- The base-62 digit of a value below 62. -/
def base62Digit (d : Nat) : Char :=
  if d < 10 then Char.ofNat (48 + d) else if d < 36 then Char.ofNat (97 + (d - 10)) else Char.ofNat (65 + (d - 36))

theorem base62Digit_spec {d : Nat} (h : d < 62) : isBase62 (base62Digit d) = true := by
  have hall : ∀ i : Fin 62, isBase62 (base62Digit i) = true := by decide
  exact hall ⟨d, h⟩

theorem base62Digit_inj {d e : Nat} (hd : d < 62) (he : e < 62) (h : base62Digit d = base62Digit e) : d = e := by
  have hall : ∀ i j : Fin 62, base62Digit i = base62Digit j → i = j := by decide +kernel
  exact congrArg Fin.val (hall ⟨d, hd⟩ ⟨e, he⟩ h)

/-- Numbers with the same last digits are the same modulo the power of the base. -/
theorem mod_pow_eq_of_digits (b : Nat) {x y : Nat} : ∀ {n : Nat}, (∀ i < n, x / b ^ i % b = y / b ^ i % b) →
    x % b ^ n = y % b ^ n
  | 0, _ => by rw [pow_zero, Nat.mod_one, Nat.mod_one]
  | n + 1, h => by
    have ih : x % b ^ n = y % b ^ n := mod_pow_eq_of_digits b fun i hi => h i (Nat.lt_succ_of_lt hi)
    rw [Nat.mod_pow_succ, Nat.mod_pow_succ, ih, h n (Nat.lt_succ_self n)]

/-! ## The mix -/

/-- Within the window a wrap of the addition does not bring two places together. -/
theorem add_wrap_inj {x b c : Nat} (hb : b < MIX_WINDOW) (hc : c < MIX_WINDOW)
    (h : (x + b) % 2 ^ 64 % 62 ^ 9 = (x + c) % 2 ^ 64 % 62 ^ 9) : b = c := by
  have hwindow : MIX_WINDOW = 9232197698593792 := by decide +kernel
  rw [hwindow] at hb hc
  wlog hle : b ≤ c generalizing b c with hwlog
  · exact (hwlog hc hb h.symm (Nat.le_of_not_le hle)).symm
  have hmix : (x + c) % 2 ^ 64 = (x + b) % 2 ^ 64 + (c - b) ∨
      (x + c) % 2 ^ 64 + 2 ^ 64 = (x + b) % 2 ^ 64 + (c - b) := by omega
  generalize (x + b) % 2 ^ 64 = u at h hmix
  generalize (x + c) % 2 ^ 64 = v at h hmix
  rcases hmix with hsame | hwrap
  · omega
  · -- the larger place wraps alone, and the difference would be the window itself
    omega

theorem generateToolCallId_eq (a b : Nat) : generateToolCallId a b =
    (List.range 9).reverse.map fun i => base62Digit ((a * 6364136223846793005 + b) % 2 ^ 64 / 62 ^ i % 62) := rfl

/-- Places below the window give distinct ids. -/
theorem generateToolCallId_inj {a b c : Nat} (hb : b < MIX_WINDOW) (hc : c < MIX_WINDOW)
    (h : generateToolCallId a b = generateToolCallId a c) : b = c := by
  rw [generateToolCallId_eq, generateToolCallId_eq] at h
  have hdigits : ∀ i < 9, (a * 6364136223846793005 + b) % 2 ^ 64 / 62 ^ i % 62 =
      (a * 6364136223846793005 + c) % 2 ^ 64 / 62 ^ i % 62 := by
    intro i hi
    have hchar := List.map_inj_left.mp h i (List.mem_reverse.mpr (List.mem_range.mpr hi))
    exact base62Digit_inj (Nat.mod_lt _ (by decide)) (Nat.mod_lt _ (by decide)) hchar
  have hmod := mod_pow_eq_of_digits 62 hdigits
  have hsplit : ∀ d, (a * 6364136223846793005 + d) % 2 ^ 64 = (a * 6364136223846793005 % 2 ^ 64 + d) % 2 ^ 64 :=
    fun d => by rw [Nat.mod_add_mod]
  rw [hsplit b, hsplit c] at hmod
  exact add_wrap_inj hb hc hmod

theorem generateToolCallId_form (a b : Nat) :
    (generateToolCallId a b).length = 9 ∧ ∀ c ∈ generateToolCallId a b, isBase62 c = true := by
  rw [generateToolCallId_eq]
  refine ⟨by rw [List.length_map, List.length_reverse, List.length_range], fun c hc => ?_⟩
  obtain ⟨i, -, rfl⟩ := List.mem_map.mp hc
  exact base62Digit_spec (Nat.mod_lt _ (by decide))

/-! ## The ids of a turn -/

/-- The ids of the calls that messages declare. -/
def declaredIds (messages : List ChatMessage) : List Str :=
  messages.flatMap fun message => (message.toolCalls.getD []).map ToolCall.id

/-- The ids of the calls that messages bring results of. -/
def resultIds (messages : List ChatMessage) : List Str := messages.filterMap ChatMessage.toolCallId

section Turn

variable (json : JsonText) (turnIdx : Nat) (turn : Turn)

/-- The ids that are generated for the calls of a turn. -/
def turnIds : List Str := turn.toolCalls.mapIdx fun i _ => generateToolCallId turnIdx i

theorem turnIds_eq_map : turnIds turnIdx turn =
    (turn.toolCalls.mapIdx fun i tc => (generateToolCallId turnIdx i, tc)).map Prod.fst := by
  rw [turnIds, List.mapIdx_eq_zipIdx_map, List.mapIdx_eq_zipIdx_map, List.map_map]
  rfl

theorem declaredIds_messages : declaredIds (turn.messages json turnIdx) = turnIds turnIdx turn := by
  have hresults : ∀ calls : List (Str × Agent.TurnToolCall),
      declaredIds (calls.map fun c => ChatMessage.toolResult c.1 c.2.name (resultContent json c.2)) = [] := fun calls =>
    List.flatMap_eq_nil_iff.mpr fun m hm => by
      obtain ⟨c, -, rfl⟩ := List.mem_map.mp hm
      rfl
  have hresponse : declaredIds (turn.response.map ChatMessage.assistant).toList = [] := by
    cases turn.response <;> rfl
  rw [turnIds_eq_map, Turn.messages]
  generalize hcalls : (turn.toolCalls.mapIdx fun i tc => (generateToolCallId turnIdx i, tc)) = calls
  have hempty : turn.toolCalls.isEmpty = calls.isEmpty := by
    rw [← hcalls]
    cases turn.toolCalls <;> simp [List.mapIdx_cons]
  unfold declaredIds at hresults hresponse ⊢
  rw [List.cons_append, List.flatMap_cons, List.flatMap_append, hresponse, hempty]
  cases calls with
  | nil => rfl
  | cons c calls =>
    simp only [List.isEmpty_cons, Bool.false_eq_true, if_false, List.flatMap_cons, hresults]
    simp [ChatMessage.user, ChatMessage.assistantWithToolCalls, Function.comp_def]

theorem resultIds_messages : resultIds (turn.messages json turnIdx) = turnIds turnIdx turn := by
  have hresponse : resultIds (turn.response.map ChatMessage.assistant).toList = [] := by
    cases turn.response <;> rfl
  rw [turnIds_eq_map, Turn.messages]
  generalize hcalls : (turn.toolCalls.mapIdx fun i tc => (generateToolCallId turnIdx i, tc)) = calls
  have hempty : turn.toolCalls.isEmpty = calls.isEmpty := by
    rw [← hcalls]
    cases turn.toolCalls <;> simp [List.mapIdx_cons]
  unfold resultIds at hresponse ⊢
  rw [List.cons_append, List.filterMap_cons, List.filterMap_append, hresponse, hempty]
  cases calls with
  | nil => rfl
  | cons c calls =>
    simp [ChatMessage.user, ChatMessage.assistantWithToolCalls, ChatMessage.toolResult]

theorem turnIds_nodup (h : turn.toolCalls.length ≤ MIX_WINDOW) : (turnIds turnIdx turn).Nodup := by
  rw [turnIds, List.nodup_iff_injective_get]
  intro i j hij
  have hi := i.isLt
  have hj := j.isLt
  simp only [List.length_mapIdx] at hi hj
  simp only [List.get_eq_getElem, List.getElem_mapIdx] at hij
  exact Fin.ext (generateToolCallId_inj (by omega) (by omega) hij)

end Turn

/-- The messages of a turn stand together in those of its thread. -/
theorem messages_split (json : JsonText) {thread : Thread} {turnIdx : Nat} {turn : Turn}
    (h : thread.turns[turnIdx]? = some turn) :
    ∃ before after, thread.messages json = before ++ turn.messages json turnIdx ++ after := by
  have hblock : (thread.turns.mapIdx (Turn.messages json))[turnIdx]? = some (turn.messages json turnIdx) := by
    rw [List.getElem?_mapIdx, h]
    rfl
  obtain ⟨before, after, hsplit⟩ := List.append_of_mem (List.mem_of_getElem? hblock)
  refine ⟨before.flatten, after.flatten, ?_⟩
  rw [Thread.messages, hsplit, List.flatten_append, List.flatten_cons, List.append_assoc]

/-- **The ids of tool calls.** An id is nine characters of base 62; second seeds below `2 ^ 32` give distinct ids; and
the ids that the messages of a thread have for a turn of it are those generated for its calls, with the declarations as
with the results, and are distinct where the calls are not more than the window. -/
theorem toolCallIds_distinct (json : JsonText) :
    (∀ a b, (generateToolCallId a b).length = 9 ∧ ∀ c ∈ generateToolCallId a b, isBase62 c = true) ∧
      (∀ a b c, b < 2 ^ 32 → c < 2 ^ 32 → b ≠ c → generateToolCallId a b ≠ generateToolCallId a c) ∧
      ∀ (thread : Thread) (turnIdx : Nat) (turn : Turn), thread.turns[turnIdx]? = some turn →
        ∃ before own after, thread.messages json = before ++ own ++ after ∧ declaredIds own = turnIds turnIdx turn ∧
          resultIds own = turnIds turnIdx turn ∧
          (turn.toolCalls.length ≤ MIX_WINDOW → (turnIds turnIdx turn).Nodup) := by
  have hwindow : 2 ^ 32 < MIX_WINDOW := by decide +kernel
  refine ⟨generateToolCallId_form, fun a b c hb hc hne heq => ?_, fun thread turnIdx turn hturn => ?_⟩
  · exact hne (generateToolCallId_inj (hb.trans hwindow) (hc.trans hwindow) heq)
  · obtain ⟨before, after, hsplit⟩ := messages_split json hturn
    exact ⟨before, _, after, hsplit, declaredIds_messages json turnIdx turn, resultIds_messages json turnIdx turn,
      turnIds_nodup turnIdx turn⟩

end Ironclaw.Session
