import Ironclaw.Lib.Json
import Mathlib.Tactic

/-!
# Prices

What a call of a language model costs: the table of the known prices for a token, the price of the models that are not
in it, and the cost of a call from its tokens. Amounts of money are rational numbers.
-/

namespace Ironclaw.Llm

open Text

/-- A decimal number: its digits, and how many of them stand after the point. -/
def dec (digits scale : Nat) : ℚ := digits / 10 ^ scale

/-- The models with a known price: for a token that goes in, and for one that comes out. -/
def PRICES : List (List String × ℚ × ℚ) :=
  [(["gpt-5.3-codex", "gpt-5.3-codex-spark"], dec 2 6, dec 8 6),
   (["gpt-5.2-codex", "gpt-5.2-pro", "gpt-5.2"], dec 2 6, dec 8 6),
   (["gpt-5.1-codex", "gpt-5.1-codex-max", "gpt-5.1"], dec 2 6, dec 8 6),
   (["gpt-5.1-codex-mini"], dec 3 7, dec 12 7),
   (["gpt-5-codex", "gpt-5-pro", "gpt-5"], dec 2 6, dec 8 6),
   (["gpt-5-mini", "gpt-5-nano"], dec 3 7, dec 12 7),
   (["gpt-4.1"], dec 2 6, dec 8 6),
   (["gpt-4.1-mini"], dec 4 7, dec 16 7),
   (["gpt-4.1-nano"], dec 1 7, dec 4 7),
   (["gpt-4o", "gpt-4o-2024-11-20", "gpt-4o-2024-08-06"], dec 25 7, dec 1 5),
   (["gpt-4o-mini", "gpt-4o-mini-2024-07-18"], dec 15 8, dec 6 7),
   (["gpt-4-turbo", "gpt-4-turbo-2024-04-09"], dec 1 5, dec 3 5),
   (["gpt-4", "gpt-4-0613"], dec 3 5, dec 6 5),
   (["gpt-3.5-turbo", "gpt-3.5-turbo-0125"], dec 5 7, dec 15 7),
   (["o3"], dec 2 6, dec 8 6),
   (["o3-mini", "o3-mini-2025-01-31"], dec 11 7, dec 44 7),
   (["o4-mini"], dec 11 7, dec 44 7),
   (["o1", "o1-2024-12-17"], dec 15 6, dec 6 5),
   (["o1-mini", "o1-mini-2024-09-12"], dec 3 6, dec 12 6),
   (["claude-opus-4-6", "claude-opus-4-5", "claude-opus-4-5-20251101", "claude-opus-4-1", "claude-opus-4-1-20250805",
       "claude-opus-4-0", "claude-opus-4-20250514", "claude-3-opus-20240229", "claude-3-opus-latest"],
       dec 15 6, dec 75 6),
   (["claude-sonnet-4-6", "claude-sonnet-4-5", "claude-sonnet-4-5-20250929", "claude-sonnet-4-0",
       "claude-sonnet-4-20250514", "claude-3-7-sonnet-20250219", "claude-3-7-sonnet-latest",
       "claude-3-5-sonnet-20241022", "claude-3-5-sonnet-latest"], dec 3 6, dec 15 6),
   (["claude-haiku-4-5", "claude-haiku-4-5-20251001", "claude-3-5-haiku-20241022", "claude-3-5-haiku-latest"],
       dec 8 7, dec 4 6),
   (["claude-3-haiku-20240307"], dec 25 8, dec 125 8)]

def LOCAL_MODELS : List String :=
  ["llama", "mistral", "mixtral", "phi", "gemma", "qwen", "codellama", "deepseek", "starcoder", "vicuna", "yi"]

section Prices

variable (cm : CaseMap)

/-- `is_local_model`. -/
def isLocalModel (modelId : Str) : Bool :=
  let lower := cm.lower modelId
  (LOCAL_MODELS.any fun name => name.toList.isPrefixOf lower) ||
    (find ":latest".toList lower).isSome || (find ":instruct".toList lower).isSome

/-- `model_cost`. -/
def modelCost (modelId : Str) : Option (ℚ × ℚ) :=
  if ":free".toList.isSuffixOf modelId || modelId == "openrouter/free".toList || modelId == "free".toList then
    some (0, 0)
  else
    let id := (rfindChar '/' modelId).elim modelId fun i => modelId.drop (i + 1)
    match PRICES.find? fun row => row.1.any fun name => name.toList == id with
    | some row => some row.2
    | none => if isLocalModel cm id then some (0, 0) else none

def defaultCost : ℚ × ℚ := (dec 25 7, dec 1 5)

end Prices

/-! ## The cost of a call -/

/-- What a call used, with the prices of its provider when it tells them. The numbers of tokens have 32 bits. -/
structure LlmUsage where
  model : Str
  inputTokens : Nat
  outputTokens : Nat
  cacheReadInputTokens : Nat
  cacheCreationInputTokens : Nat
  cacheReadDiscount : ℚ
  cacheWriteMultiplier : ℚ
  costPerToken : Option (ℚ × ℚ)

section Cost

variable (cm : CaseMap) (usage : LlmUsage)

/-- The prices of a call: those of the provider, or the known ones, or the default. -/
def LlmUsage.rates : ℚ × ℚ := usage.costPerToken.getD ((modelCost cm usage.model).getD defaultCost)

/-- The cost in `record_llm_call`. -/
def callCost : ℚ :=
  let inputRate := (usage.rates cm).1
  let outputRate := (usage.rates cm).2
  let cachedTotal := min (usage.cacheReadInputTokens + usage.cacheCreationInputTokens) (2 ^ 32 - 1)
  let uncachedInput := usage.inputTokens - cachedTotal
  let effectiveDiscount := if usage.cacheReadDiscount = 0 then 1 else usage.cacheReadDiscount
  let cacheReadCost := inputRate * usage.cacheReadInputTokens / effectiveDiscount
  let cacheWriteCost := inputRate * usage.cacheCreationInputTokens * usage.cacheWriteMultiplier
  inputRate * uncachedInput + cacheReadCost + cacheWriteCost + outputRate * usage.outputTokens

end Cost

end Ironclaw.Llm
