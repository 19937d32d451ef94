import Mathlib.Data.List.FinRange
import Ironclaw.Agent.Submission
import Ironclaw.Lib.Greedy
import Ironclaw.Lib.Ranking
import Ironclaw.Skills.Trust

/-!
# The selection of skills

Skills are scored by what they have in common with a message; the ones with the best scores are taken while their costs
fit in the token budget.

- `scoreSkill_le`, `not_excluded_of_scored`: what a score says;
- `prefilterSkills_eq`: the selection is a greedy choice from a ranking of the places in the list of the skills;
- `prefilter_selects`: how many are selected, in which order, at which cost, and why the others are not.

The regex library is a parameter (`compile`): what a pattern that compiles matches.
-/

namespace Ironclaw.Skills

open Text Greedy Ranking
open Agent (splitWhitespace)

def MAX_KEYWORD_SCORE : Nat := 30
def MAX_TAG_SCORE : Nat := 15
def MAX_REGEX_SCORE : Nat := 40

/-- `n as f64`, below `2 ^ 1023`: the nearest number with 53 binary digits, of two the even one. -/
def asF64 (n : Nat) : Nat :=
  let unit := 2 ^ (n.log2 - 52)
  let below := n / unit
  let rest := n % unit
  if 2 * rest < unit ∨ 2 * rest = unit ∧ below % 2 = 0 then below * unit else (below + 1) * unit

/-- The estimate of a prompt: a quarter of its bytes, rounded down. -/
def approxTokens (skill : LoadedSkill) : Nat := asF64 (utf8Len skill.promptContent) / 4

def LoadedSkill.declaredTokens (skill : LoadedSkill) : Nat := skill.manifest.activation.maxContextTokens

/-- What a skill is charged; `usize` products wrap. -/
def tokenCost (skill : LoadedSkill) : Nat :=
  max 1 (if skill.declaredTokens * 2 % 2 ^ 64 < approxTokens skill then approxTokens skill else skill.declaredTokens)

section Selection

variable (cm : CaseMap) (isAlphanumeric : Char → Bool) (compile : Str → Option (Str → Bool))

/-- `trim_matches`. -/
def trimMatches (p : Char → Bool) (s : Str) : Str := (s.dropWhile p).rdropWhile p

/-- A sum of `u32` that wraps. -/
def sumU32 (points : List Nat) : Nat := points.sum % 2 ^ 32

def compiledPatterns (skill : LoadedSkill) : List (Str → Bool) := skill.manifest.activation.patterns.filterMap compile

/-- An exclude keyword of the skill occurs in the message. -/
def Excluded (skill : LoadedSkill) (messageLower : Str) : Prop :=
  ∃ excl ∈ skill.lowercasedExcludeKeywords, excl <:+: messageLower

instance (skill : LoadedSkill) (messageLower : Str) : Decidable (Excluded skill messageLower) :=
  inferInstanceAs (Decidable (∃ excl ∈ skill.lowercasedExcludeKeywords, excl <:+: messageLower))

def keywordPoints (messageLower kwLower : Str) : Nat :=
  if (splitWhitespace messageLower).any fun word => trimMatches (fun c => !isAlphanumeric c) word = kwLower then 10
  else if kwLower <:+: messageLower then 5
  else 0

def scoreSkill (skill : LoadedSkill) (messageLower messageOriginal : Str) : Nat :=
  if Excluded skill messageLower then 0
  else
    let keywordScore := sumU32 (skill.lowercasedKeywords.map (keywordPoints isAlphanumeric messageLower))
    let tagScore := sumU32 (skill.lowercasedTags.map fun tag => if tag <:+: messageLower then 3 else 0)
    let regexScore := sumU32 ((compiledPatterns compile skill).map fun re => if re messageOriginal then 20 else 0)
    min keywordScore MAX_KEYWORD_SCORE + min tagScore MAX_TAG_SCORE + min regexScore MAX_REGEX_SCORE

/-- `ScoredSkill`. -/
structure ScoredSkill where
  skill : LoadedSkill
  score : Nat

/-- The loop over the scored skills. -/
def selectWithin (maxCandidates : Nat) : List ScoredSkill → (result : List LoadedSkill) → (budgetRemaining : Nat) →
    List LoadedSkill
  | [], result, _ => result
  | entry :: scored, result, budgetRemaining =>
    if maxCandidates ≤ result.length then result
    else if tokenCost entry.skill ≤ budgetRemaining then
      selectWithin maxCandidates scored (result ++ [entry.skill]) (budgetRemaining - tokenCost entry.skill)
    else selectWithin maxCandidates scored result budgetRemaining

def prefilterSkills (message : Str) (availableSkills : List LoadedSkill) (maxCandidates maxContextTokens : Nat) :
    List LoadedSkill :=
  if availableSkills.isEmpty || message.isEmpty then []
  else
    let messageLower := cm.lower message
    let scored := availableSkills.filterMap fun skill =>
      let score := scoreSkill isAlphanumeric compile skill messageLower message
      if 0 < score then some (ScoredSkill.mk skill score) else none
    selectWithin maxCandidates (ranked ScoredSkill.score scored) [] maxContextTokens

/-! ## Scores and costs -/

theorem scoreSkill_le (skill : LoadedSkill) (messageLower message : Str) :
    scoreSkill isAlphanumeric compile skill messageLower message ≤ 85 := by
  rw [scoreSkill]
  split
  · exact Nat.zero_le _
  · exact Nat.add_le_add (Nat.add_le_add (Nat.min_le_right _ _) (Nat.min_le_right _ _)) (Nat.min_le_right _ _)

theorem not_excluded_of_scored {skill : LoadedSkill} {messageLower message : Str}
    (h : 0 < scoreSkill isAlphanumeric compile skill messageLower message) : ¬Excluded skill messageLower := by
  intro hexcl
  rw [scoreSkill, if_pos hexcl] at h
  exact absurd h (lt_irrefl 0)

/-- A prompt is estimated at no more than twice what is charged, while the declared number does not wrap. -/
theorem approxTokens_le {skill : LoadedSkill} (h : skill.declaredTokens < 2 ^ 62) :
    approxTokens skill ≤ 2 * tokenCost skill := by
  have hwrap : skill.declaredTokens * 2 % 2 ^ 64 = skill.declaredTokens * 2 := Nat.mod_eq_of_lt (by omega)
  rw [tokenCost, hwrap]
  split
  next => exact (Nat.le_max_right 1 _).trans (Nat.le_mul_of_pos_left _ Nat.two_pos)
  next hle =>
    calc approxTokens skill ≤ 2 * skill.declaredTokens := by omega
      _ ≤ 2 * max 1 skill.declaredTokens := Nat.mul_le_mul_left 2 (Nat.le_max_right _ _)

theorem sum_approxTokens_le : ∀ {skills : List LoadedSkill}, (∀ skill ∈ skills, skill.declaredTokens < 2 ^ 62) →
    (skills.map approxTokens).sum ≤ 2 * (skills.map tokenCost).sum
  | [], _ => Nat.le_refl 0
  | skill :: skills, h => by
    have hfirst := approxTokens_le (h skill List.mem_cons_self)
    have hrest := sum_approxTokens_le fun other hother => h other (List.mem_cons_of_mem skill hother)
    rw [List.map_cons, List.map_cons, List.sum_cons, List.sum_cons, Nat.mul_add]
    exact Nat.add_le_add hfirst hrest

/-! ## The selection as a choice of places -/

/-- The loop is the greedy choice. -/
theorem selectWithin_eq (maxCandidates : Nat) :
    ∀ (scored : List ScoredSkill) (result : List LoadedSkill) (budget : Nat),
    selectWithin maxCandidates scored result budget =
      result ++ (greedy (fun entry => tokenCost entry.skill) maxCandidates scored result.length budget).map
        ScoredSkill.skill
  | [], result, _ => (List.append_nil result).symm
  | entry :: scored, result, budget => by
    rw [selectWithin, greedy]
    split
    · exact (List.append_nil result).symm
    · split
      · rw [selectWithin_eq maxCandidates scored, List.length_append, List.length_singleton, List.map_cons,
          List.append_assoc, List.singleton_append]
      · exact selectWithin_eq maxCandidates scored result budget

variable (message : Str) (skills : List LoadedSkill)

/-- The score of the skill at a place. -/
def scoreAt (i : Fin skills.length) : Nat :=
  scoreSkill isAlphanumeric compile (skills.get i) (cm.lower message) message

/-- The cost of the skill at a place. -/
def costAt (i : Fin skills.length) : Nat := tokenCost (skills.get i)

/-- The places with a score. -/
def scoredPlaces : List (Fin skills.length) :=
  (List.finRange skills.length).filter fun i => 0 < scoreAt cm isAlphanumeric compile message skills i

/-- They, in the order in which their skills are considered. -/
def considered : List (Fin skills.length) :=
  ranked (scoreAt cm isAlphanumeric compile message skills) (scoredPlaces cm isAlphanumeric compile message skills)

theorem filterMap_scored :
    (skills.filterMap fun skill =>
      let score := scoreSkill isAlphanumeric compile skill (cm.lower message) message
      if 0 < score then some (ScoredSkill.mk skill score) else none) =
    (scoredPlaces cm isAlphanumeric compile message skills).map
      fun i => ⟨skills.get i, scoreAt cm isAlphanumeric compile message skills i⟩ := by
  conv_lhs => rw [← List.map_get_finRange skills, List.filterMap_map]
  rw [scoredPlaces, ← List.filterMap_eq_map, List.filterMap_filter]
  refine List.filterMap_congr fun i _ => ?_
  rw [Function.comp_apply, Function.comp_apply, scoreAt]
  split
  next h => exact if_pos (of_decide_eq_true h)
  next h => exact if_neg fun hscore => h (decide_eq_true hscore)

theorem prefilterSkills_eq (hmessage : message ≠ []) (maxCandidates maxContextTokens : Nat) :
    prefilterSkills cm isAlphanumeric compile message skills maxCandidates maxContextTokens =
      (greedy (costAt skills) maxCandidates (considered cm isAlphanumeric compile message skills) 0
        maxContextTokens).map skills.get := by
  have hranked : ranked ScoredSkill.score ((scoredPlaces cm isAlphanumeric compile message skills).map
      fun i => ⟨skills.get i, scoreAt cm isAlphanumeric compile message skills i⟩) =
      (considered cm isAlphanumeric compile message skills).map
        fun i => ⟨skills.get i, scoreAt cm isAlphanumeric compile message skills i⟩ :=
    (map_ranked ScoredSkill.score _ _).symm
  rw [prefilterSkills]
  split
  next hempty =>
    obtain rfl : skills = [] := by simpa [hmessage] using hempty
    rfl
  next =>
    dsimp only
    rw [filterMap_scored, hranked, selectWithin_eq, List.nil_append, greedy_map, List.map_map]
    rfl

/-! ## What is selected -/

/-- The skill at one place is considered before that at another. -/
def Precedes (i j : Fin skills.length) : Prop :=
  scoreAt cm isAlphanumeric compile message skills j < scoreAt cm isAlphanumeric compile message skills i ∨
    scoreAt cm isAlphanumeric compile message skills i = scoreAt cm isAlphanumeric compile message skills j ∧ i < j

instance (i j : Fin skills.length) : Decidable (Precedes cm isAlphanumeric compile message skills i j) :=
  inferInstanceAs (Decidable (_ ∨ _ ∧ _))

theorem Precedes.asymm {i j : Fin skills.length} (h : Precedes cm isAlphanumeric compile message skills i j) :
    ¬Precedes cm isAlphanumeric compile message skills j i := by
  rintro (h' | ⟨heq', hlt'⟩) <;> rcases h with h | ⟨heq, hlt⟩
  · exact lt_asymm h h'
  · exact h'.ne heq
  · exact h.ne heq'
  · exact lt_asymm hlt hlt'

/-- The places are selected in the order in which they are considered, within the budget. -/
structure Selects (maxCandidates maxContextTokens : Nat) (chosen : List (Fin skills.length)) : Prop where
  atMost : chosen.length ≤ maxCandidates
  inOrder : chosen.Pairwise (Precedes cm isAlphanumeric compile message skills)
  notExcluded : ∀ i ∈ chosen, ¬Excluded (skills.get i) (cm.lower message)
  scored : ∀ i ∈ chosen, 0 < scoreAt cm isAlphanumeric compile message skills i ∧
    scoreAt cm isAlphanumeric compile message skills i ≤ 85
  charged : (chosen.map (costAt skills)).sum ≤ maxContextTokens
  estimated : (∀ skill ∈ skills, skill.declaredTokens < 2 ^ 62) →
    (chosen.map fun i => approxTokens (skills.get i)).sum ≤ 2 * maxContextTokens

/-- At its turn the skill at a place exceeds what is left of the budget, or enough are chosen. -/
def PassedOver (maxCandidates maxContextTokens : Nat) (chosen : List (Fin skills.length)) (i : Fin skills.length) :
    Prop :=
  let before := chosen.filter fun j => Precedes cm isAlphanumeric compile message skills j i
  maxCandidates ≤ before.length ∨ maxContextTokens < costAt skills i + (before.map (costAt skills)).sum

theorem pairwise_considered :
    (considered cm isAlphanumeric compile message skills).Pairwise
      (Precedes cm isAlphanumeric compile message skills) := by
  have hplaces : (scoredPlaces cm isAlphanumeric compile message skills).Pairwise (· < ·) :=
    (List.pairwise_lt_finRange skills.length).filter _
  exact pairwise_ranked_ties _ hplaces

theorem mem_considered {i : Fin skills.length} : i ∈ considered cm isAlphanumeric compile message skills ↔
    0 < scoreAt cm isAlphanumeric compile message skills i := by
  rw [considered, (ranked_perm _ _).mem_iff, scoredPlaces, List.mem_filter, decide_eq_true_iff]
  exact and_iff_right (List.mem_finRange i)

/-- Any part of what is considered, in its order and within the limits, is a selection. -/
theorem selects_of_sublist {maxCandidates maxContextTokens : Nat} {chosen : List (Fin skills.length)}
    (hsub : chosen.Sublist (considered cm isAlphanumeric compile message skills))
    (hlength : chosen.length ≤ maxCandidates) (hcharged : (chosen.map (costAt skills)).sum ≤ maxContextTokens) :
    Selects cm isAlphanumeric compile message skills maxCandidates maxContextTokens chosen where
  atMost := hlength
  inOrder := (pairwise_considered cm isAlphanumeric compile message skills).sublist hsub
  notExcluded i hi :=
    not_excluded_of_scored isAlphanumeric compile ((mem_considered cm isAlphanumeric compile message skills).mp
      (hsub.subset hi))
  scored i hi :=
    ⟨(mem_considered cm isAlphanumeric compile message skills).mp (hsub.subset hi), scoreSkill_le _ _ _ _ _⟩
  charged := hcharged
  estimated hdeclared := by
    have hchosen : ∀ skill ∈ chosen.map skills.get, skill.declaredTokens < 2 ^ 62 := by
      intro skill hskill
      obtain ⟨i, -, rfl⟩ := List.mem_map.mp hskill
      exact hdeclared _ (List.get_mem skills i)
    have hsum := sum_approxTokens_le hchosen
    rw [List.map_map, List.map_map] at hsum
    exact hsum.trans (Nat.mul_le_mul_left 2 hcharged)

theorem passedOver_of_not_mem {maxCandidates maxContextTokens : Nat} {i : Fin skills.length}
    (hscore : 0 < scoreAt cm isAlphanumeric compile message skills i)
    (hout : i ∉ greedy (costAt skills) maxCandidates (considered cm isAlphanumeric compile message skills) 0
      maxContextTokens) :
    PassedOver cm isAlphanumeric compile message skills maxCandidates maxContextTokens
      (greedy (costAt skills) maxCandidates (considered cm isAlphanumeric compile message skills) 0 maxContextTokens)
          i := by
  obtain ⟨l, r, hsplit⟩ := List.append_of_mem ((mem_considered cm isAlphanumeric compile message skills).mpr hscore)
  have horder := pairwise_considered cm isAlphanumeric compile message skills
  rw [hsplit] at hout horder
  obtain ⟨-, hright, hleft⟩ := List.pairwise_append.mp horder
  -- what is chosen before the place is what is chosen of the part before it
  have hbefore : (greedy (costAt skills) maxCandidates (l ++ i :: r) 0 maxContextTokens).filter
      (fun j => decide (Precedes cm isAlphanumeric compile message skills j i)) =
      greedy (costAt skills) maxCandidates l 0 maxContextTokens := by
    have hfirst := List.filter_eq_self.mpr fun j (hj : j ∈ greedy (costAt skills) maxCandidates l 0 maxContextTokens) =>
      decide_eq_true (hleft j ((greedy_sublist _ _ l _ _).subset hj) i List.mem_cons_self)
    rw [greedy_append, List.filter_append, hfirst, List.filter_eq_nil_iff.mpr, List.append_nil]
    intro j hj
    rw [decide_eq_true_iff]
    rcases List.mem_cons.mp ((greedy_sublist _ _ _ _ _).subset hj) with rfl | hj'
    · exact fun hself => hself.asymm _ _ _ _ _ hself
    · exact ((List.pairwise_cons.mp hright).1 j hj').asymm _ _ _ _ _
  rw [PassedOver, hsplit, hbefore]
  exact greedy_split _ _ hout

/-- **The selection**: no more than the limit, ranked, each with a score, within the budget; what has a score and is not
selected did not fit at its turn. For the empty message nothing is scored. -/
theorem prefilter_selects (maxCandidates maxContextTokens : Nat) : ∃ chosen : List (Fin skills.length),
    prefilterSkills cm isAlphanumeric compile message skills maxCandidates maxContextTokens = chosen.map skills.get ∧
      Selects cm isAlphanumeric compile message skills maxCandidates maxContextTokens chosen ∧
      (message ≠ [] → ∀ i, 0 < scoreAt cm isAlphanumeric compile message skills i → i ∉ chosen →
        PassedOver cm isAlphanumeric compile message skills maxCandidates maxContextTokens chosen i) := by
  by_cases hmessage : message = []
  · refine ⟨[], ?_, selects_of_sublist _ _ _ _ _ (List.nil_sublist _) (Nat.zero_le _) (Nat.zero_le _),
      fun h => absurd hmessage h⟩
    rw [prefilterSkills, hmessage, List.isEmpty_nil, Bool.or_true, if_pos rfl]
    rfl
  · refine ⟨_, prefilterSkills_eq _ _ _ _ _ hmessage _ _, ?_, fun _ i => passedOver_of_not_mem _ _ _ _ _⟩
    exact selects_of_sublist _ _ _ _ _ (greedy_sublist _ _ _ _ _) (length_greedy_le _ _ _ _ _) (sum_greedy_le _ _ _ _ _)

end Selection

/-- A skill for every message, by a pattern that matches the empty text as well. -/
def generalSkill : LoadedSkill :=
  { manifest := { plainManifest with activation := { plainManifest.activation with patterns := [".*".toList] } }
    promptContent := "Be brief.".toList
    trust := .trusted
    source := .user []
    contentHash := []
    lowercasedKeywords := []
    lowercasedExcludeKeywords := []
    lowercasedTags := []
    installed := false }

/-- The empty message matches its pattern, and selects nothing. -/
theorem empty_message_selects_nothing :
    ¬∃ chosen : List (Fin [generalSkill].length),
      prefilterSkills asciiCase Char.isAlphanum (fun _ => some fun _ => true) [] [generalSkill] 3 4000 =
        chosen.map [generalSkill].get ∧
      Selects asciiCase Char.isAlphanum (fun _ => some fun _ => true) [] [generalSkill] 3 4000 chosen ∧
      ∀ i, 0 < scoreAt asciiCase Char.isAlphanum (fun _ => some fun _ => true) [] [generalSkill] i → i ∉ chosen →
        PassedOver asciiCase Char.isAlphanum (fun _ => some fun _ => true) [] [generalSkill] 3 4000 chosen i := by
  rintro ⟨chosen, heq, -, hpassed⟩
  have hnil : chosen = [] := List.map_eq_nil_iff.mp heq.symm
  subst hnil
  rcases hpassed 0 (by decide) List.not_mem_nil with h | h
  · exact absurd h (by decide)
  · exact absurd h (by decide)

end Ironclaw.Skills
