import Ironclaw.Lib.Ranking
import Ironclaw.Lib.Table
import Ironclaw.Lib.Text

/-!
# Fusing search results

`fuse_results`: the results of the full-text and of the vector search add up in a hash map, and its entries are
normalized, filtered, sorted and cut. Scores are exact rationals.

- `scored_fold`: what the hash map holds is the sum over all results of a chunk;
- `fuse_fused`: what the list says for one order of iteration;
- `fuse_results_spec`: for every two orders the scores agree place by place, and without ties the lists are the same.
-/

namespace Ironclaw.Workspace

open Text Ranking

inductive FusionStrategy
  | rrf
  | weightedScore
  deriving DecidableEq

/-- `SearchConfig`, as far as the fusion reads it. -/
structure SearchConfig where
  limit : Nat
  rrfK : Nat
  minScore : ℚ
  fusionStrategy : FusionStrategy
  ftsWeight : ℚ
  vectorWeight : ℚ

/-- A result of one method; ranks count from 1. -/
structure RankedResult where
  chunkId : Nat
  documentId : Nat
  documentPath : Str
  content : Str
  rank : Nat
  one_le_rank : 1 ≤ rank

structure ChunkInfo where
  documentId : Nat
  documentPath : Str
  content : Str
  score : ℚ
  ftsRank : Option Nat
  vectorRank : Option Nat

structure SearchResult where
  documentId : Nat
  documentPath : Str
  chunkId : Nat
  content : Str
  score : ℚ
  ftsRank : Option Nat
  vectorRank : Option Nat
  deriving DecidableEq

abbrev ChunkScores := Table Nat ChunkInfo

abbrev ChunkOrder := Table.Iteration Nat ChunkInfo

/-- One result of a method is added; `mark` notes its rank. -/
def addResult (score : Nat → ℚ) (mark : Nat → ChunkInfo → ChunkInfo) (chunkScores : ChunkScores)
    (result : RankedResult) :
    ChunkScores :=
  match chunkScores.lookup result.chunkId with
  | some _ =>
    Table.modify result.chunkId (fun info => mark result.rank { info with score := info.score + score result.rank })
      chunkScores
  | none =>
    chunkScores.insert result.chunkId
      (mark result.rank ⟨result.documentId, result.documentPath, result.content, score result.rank, none, none⟩)

def markFts (rank : Nat) (info : ChunkInfo) : ChunkInfo := { info with ftsRank := some rank }

def markVector (rank : Nat) (info : ChunkInfo) : ChunkInfo := { info with vectorRank := some rank }

theorem markFts_score (rank : Nat) (info : ChunkInfo) : (markFts rank info).score = info.score := rfl

theorem markVector_score (rank : Nat) (info : ChunkInfo) : (markVector rank info).score = info.score := rfl

def toSearchResult (entry : Sigma fun _ : Nat => ChunkInfo) : SearchResult :=
  ⟨entry.2.documentId, entry.2.documentPath, entry.1, entry.2.content, entry.2.score, entry.2.ftsRank,
    entry.2.vectorRank⟩

/-- A score in the range up to 1: divided by the greatest one, if that is positive. -/
def normalizeBy (maxScore : Option ℚ) (score : ℚ) : ℚ :=
  match maxScore with
  | some max => if 0 < max then score / max else score
  | none => score

/-- The scores are normalized. -/
def normalize (results : List SearchResult) : List SearchResult :=
  results.map fun r => { r with score := normalizeBy (results.map fun r => r.score).max? r.score }

/-- What both strategies do, with their scores for a rank. -/
def fuse (config : SearchConfig) (order : ChunkOrder) (ftsScore vectorScore : Nat → ℚ)
    (ftsResults vectorResults : List RankedResult) : List SearchResult :=
  let chunkScores := ftsResults.foldl (addResult ftsScore markFts) ∅
  let chunkScores := vectorResults.foldl (addResult vectorScore markVector) chunkScores
  let results := normalize ((order.entries chunkScores).map toSearchResult)
  let results := if 0 < config.minScore then results.filter fun r => config.minScore ≤ r.score else results
  (ranked (fun r => r.score) results).take config.limit

/-- `reciprocal_rank_fusion`. -/
def reciprocalRankFusion (config : SearchConfig) (order : ChunkOrder) (ftsResults vectorResults : List RankedResult) :
    List SearchResult :=
  fuse config order (fun rank => 1 / (config.rrfK + rank)) (fun rank => 1 / (config.rrfK + rank))
    ftsResults vectorResults

/-- `weighted_score_fusion`. -/
def weightedScoreFusion (config : SearchConfig) (order : ChunkOrder) (ftsResults vectorResults : List RankedResult) :
    List SearchResult :=
  fuse config order (fun rank => config.ftsWeight * (1 / rank)) (fun rank => config.vectorWeight * (1 / rank))
    ftsResults
    vectorResults

/-- `fuse_results`, with the order in which the hash map is iterated. -/
def fuseResults (config : SearchConfig) (order : ChunkOrder) (ftsResults vectorResults : List RankedResult) :
    List SearchResult :=
  match config.fusionStrategy with
  | .rrf => reciprocalRankFusion config order ftsResults vectorResults
  | .weightedScore => weightedScoreFusion config order ftsResults vectorResults

/-! ## The hash map -/

/-- What the results of a chunk add up to; each result is given by its chunk and its score. -/
def total (scores : List (Nat × ℚ)) (id : Nat) : ℚ := ((scores.filter fun s => s.1 = id).map Prod.snd).sum

/-- The map holds every chunk of the results, with its total. -/
def Scored (scores : List (Nat × ℚ)) (chunkScores : ChunkScores) : Prop :=
  ∀ id, (chunkScores.lookup id).map (fun info => info.score) =
    if id ∈ scores.map Prod.fst then some (total scores id) else none

section Scores

variable {score : Nat → ℚ} {mark : Nat → ChunkInfo → ChunkInfo} {scores : List (Nat × ℚ)} {chunkScores : ChunkScores}

theorem total_append (id : Nat) (more : List (Nat × ℚ)) :
    total (scores ++ more) id = total scores id + total more id := by
  unfold total
  rw [List.filter_append, List.map_append, List.sum_append]

theorem total_singleton (id : Nat) (s : Nat × ℚ) : total [s] id = if s.1 = id then s.2 else 0 := by
  unfold total
  by_cases h : s.1 = id
  · simp [h]
  · simp [h]

theorem total_of_not_mem {id : Nat} (h : id ∉ scores.map Prod.fst) : total scores id = 0 := by
  unfold total
  have hnone : scores.filter (fun s => s.1 = id) = [] := by
    refine List.filter_eq_nil_iff.mpr fun s hs heq => h ?_
    rw [← of_decide_eq_true heq]
    exact List.mem_map_of_mem hs
  rw [hnone]
  rfl

/-- One more result. -/
theorem scored_addResult (hmark : ∀ rank info, (mark rank info).score = info.score) (h : Scored scores chunkScores)
    (result : RankedResult) :
    Scored (scores ++ [(result.chunkId, score result.rank)]) (addResult score mark chunkScores result) := by
  intro id
  have hid := h id
  unfold addResult
  simp only [List.map_append, List.map_cons, List.map_nil, List.mem_append, List.mem_singleton, total_append,
    total_singleton]
  cases hlookup : chunkScores.lookup result.chunkId with
  | some old =>
    dsimp only
    rw [Table.lookup_modify]
    by_cases heq : result.chunkId = id
    · subst heq
      rw [hlookup, Option.map_some] at hid
      split at hid
      next hmem =>
        obtain hold : old.score = total scores result.chunkId := Option.some.inj hid
        rw [if_pos rfl, hlookup, if_pos (.inl hmem), if_pos rfl]
        simp only [Option.map_some, hmark, hold]
      · cases hid
    · have hne : id ≠ result.chunkId := fun h => heq h.symm
      rw [if_neg hne, hid, if_neg heq, add_zero]
      exact if_congr (or_iff_left hne).symm rfl rfl
  | none =>
    dsimp only
    rw [Table.lookup_insert]
    by_cases heq : result.chunkId = id
    · subst heq
      rw [hlookup, Option.map_none] at hid
      split at hid
      · cases hid
      next hnew =>
        rw [if_pos rfl, total_of_not_mem hnew]
        simp [hmark]
    · have hne : id ≠ result.chunkId := fun h => heq h.symm
      rw [if_neg hne, hid, if_neg heq, add_zero]
      exact if_congr (or_iff_left hne).symm rfl rfl

/-- **The hash map after a list of results.** -/
theorem scored_fold (hmark : ∀ rank info, (mark rank info).score = info.score) : ∀ (results : List RankedResult)
    {scores : List (Nat × ℚ)} {chunkScores : ChunkScores}, Scored scores chunkScores →
      Scored (scores ++ results.map fun r => (r.chunkId, score r.rank))
        (results.foldl (addResult score mark) chunkScores)
  | [], scores, chunkScores, h => by
    rw [List.map_nil, List.append_nil]
    exact h
  | result :: results, scores, chunkScores, h => by
    rw [List.map_cons, List.append_cons, List.foldl_cons]
    exact scored_fold hmark results (scored_addResult hmark h result)

end Scores

/-! ## The score of a chunk -/

section Fused

variable (config : SearchConfig) (order : ChunkOrder) (ftsResults vectorResults : List RankedResult)

/-- The ranks of a chunk. -/
def ranksOf (id : Nat) (results : List RankedResult) : List ℚ :=
  (results.filter fun r => r.chunkId = id).map fun r => (r.rank : ℚ)

/-- The score of a chunk by the definition of the strategy: over all results of the chunk, the sum of `1 / (k + rank)`,
or the weighted sum of `1 / rank`. -/
def chunkScore (id : Nat) : ℚ :=
  match config.fusionStrategy with
  | .rrf => ((ranksOf id (ftsResults ++ vectorResults)).map fun rank : ℚ => 1 / (config.rrfK + rank)).sum
  | .weightedScore =>
    config.ftsWeight * ((ranksOf id ftsResults).map fun rank => 1 / rank).sum +
      config.vectorWeight * ((ranksOf id vectorResults).map fun rank => 1 / rank).sum

/-- The score of a chunk, divided by the greatest one where that is positive. -/
def normalizedScore (id : Nat) : ℚ :=
  normalizeBy ((ftsResults ++ vectorResults).map fun r => chunkScore config ftsResults vectorResults r.chunkId).max?
    (chunkScore config ftsResults vectorResults id)

/-- The chunk of a result is within the minimum score, if there is one. -/
def Admitted (id : Nat) : Prop :=
  0 < config.minScore → config.minScore ≤ normalizedScore config ftsResults vectorResults id

/-- What a fused list says: at most `limit` chunks of the results, each once, with their normalized scores, in their
order, and no better chunk is left out. -/
structure Fused (results : List SearchResult) : Prop where
  limited : results.length ≤ config.limit
  distinct : (results.map fun r => r.chunkId).Nodup
  ordered : results.Pairwise fun a b => b.score ≤ a.score
  found : ∀ r ∈ results, r.chunkId ∈ (ftsResults ++ vectorResults).map fun r => r.chunkId
  scores : ∀ r ∈ results, r.score = normalizedScore config ftsResults vectorResults r.chunkId
  admitted : ∀ r ∈ results, Admitted config ftsResults vectorResults r.chunkId
  best : ∀ id ∈ (ftsResults ++ vectorResults).map fun r => r.chunkId, Admitted config ftsResults vectorResults id →
    (∀ r ∈ results, r.chunkId ≠ id) →
      results.length = config.limit ∧ ∀ r ∈ results, normalizedScore config ftsResults vectorResults id ≤ r.score

/-- The score that the strategy gives for a rank of the full-text search. -/
def ftsScore (rank : Nat) : ℚ :=
  match config.fusionStrategy with
  | .rrf => 1 / (config.rrfK + rank)
  | .weightedScore => config.ftsWeight * (1 / rank)

/-- The score that the strategy gives for a rank of the vector search. -/
def vectorScore (rank : Nat) : ℚ :=
  match config.fusionStrategy with
  | .rrf => 1 / (config.rrfK + rank)
  | .weightedScore => config.vectorWeight * (1 / rank)

theorem fuseResults_eq : fuseResults config order ftsResults vectorResults =
    fuse config order (ftsScore config) (vectorScore config) ftsResults vectorResults := by
  unfold fuseResults reciprocalRankFusion weightedScoreFusion ftsScore vectorScore
  cases config.fusionStrategy <;> rfl

/-- The scores that all results contribute. -/
def contributions : List (Nat × ℚ) :=
  (ftsResults.map fun r => (r.chunkId, ftsScore config r.rank)) ++
    vectorResults.map fun r => (r.chunkId, vectorScore config r.rank)

variable {ftsResults vectorResults}

theorem total_map (score : Nat → ℚ) (results : List RankedResult) (id : Nat) :
    total (results.map fun r => (r.chunkId, score r.rank)) id =
      ((results.filter fun r => r.chunkId = id).map fun r => score r.rank).sum := by
  unfold total
  rw [List.filter_map, List.map_map]
  rfl

/-- The contributions add up to the score of the definition. -/
theorem total_contributions (id : Nat) :
    total (contributions config ftsResults vectorResults) id = chunkScore config ftsResults vectorResults id := by
  unfold contributions chunkScore
  rw [total_append, total_map, total_map]
  unfold ftsScore vectorScore
  cases config.fusionStrategy with
  | rrf => simp [ranksOf, Function.comp_def]
  | weightedScore => simp [ranksOf, Function.comp_def, List.sum_map_mul_left]

theorem mem_contributions {id : Nat} :
    id ∈ (contributions config ftsResults vectorResults).map Prod.fst ↔
      id ∈ (ftsResults ++ vectorResults).map fun r => r.chunkId := by
  simp [contributions]

variable (ftsResults vectorResults)

/-- The hash map after both lists. -/
def chunkScores : ChunkScores :=
  vectorResults.foldl (addResult (vectorScore config) markVector)
    (ftsResults.foldl (addResult (ftsScore config) markFts) ∅)

theorem scored_chunkScores :
    Scored (contributions config ftsResults vectorResults) (chunkScores config ftsResults vectorResults) := by
  have hempty : Scored [] ∅ := fun id => by rw [AList.lookup_empty]; rfl
  have hfts : Scored (ftsResults.map fun r => (r.chunkId, ftsScore config r.rank))
      (ftsResults.foldl (addResult (ftsScore config) markFts) ∅) :=
    scored_fold markFts_score ftsResults hempty
  exact scored_fold markVector_score vectorResults hfts

/-- The entries of the hash map as results. -/
def collected : List SearchResult :=
  (order.entries (chunkScores config ftsResults vectorResults)).map toSearchResult

/-- The results after normalization that are within the minimum score. -/
def candidates : List SearchResult :=
  if 0 < config.minScore then
    (normalize (collected config order ftsResults vectorResults)).filter fun r => config.minScore ≤ r.score
  else normalize (collected config order ftsResults vectorResults)

theorem fuseResults_eq_take : fuseResults config order ftsResults vectorResults =
    (ranked (fun r => r.score) (candidates config order ftsResults vectorResults)).take config.limit := by
  rw [fuseResults_eq]
  rfl

variable {config order ftsResults vectorResults}

/-- The results from the hash map are the chunks with their scores. -/
theorem mem_collected {r : SearchResult} (h : r ∈ collected config order ftsResults vectorResults) :
    r.chunkId ∈ (ftsResults ++ vectorResults).map (fun r => r.chunkId) ∧
      r.score = chunkScore config ftsResults vectorResults r.chunkId := by
  obtain ⟨⟨id, info⟩, hentry, rfl⟩ := List.mem_map.mp h
  have hlookup : (chunkScores config ftsResults vectorResults).lookup id = some info :=
    Table.mem_entries_iff.mp ((order.perm _).mem_iff.mp hentry)
  have hscored := scored_chunkScores config ftsResults vectorResults id
  rw [hlookup, Option.map_some, total_contributions] at hscored
  split at hscored
  next hmem => exact ⟨mem_contributions config |>.mp hmem, Option.some.inj hscored⟩
  · cases hscored

variable (config order) in
theorem exists_collected {id : Nat} (h : id ∈ (ftsResults ++ vectorResults).map fun r => r.chunkId) :
    ∃ r ∈ collected config order ftsResults vectorResults, r.chunkId = id := by
  have hscored := scored_chunkScores config ftsResults vectorResults id
  rw [if_pos ((mem_contributions config).mpr h)] at hscored
  obtain ⟨info, hlookup, -⟩ := Option.map_eq_some_iff.mp hscored
  refine ⟨toSearchResult ⟨id, info⟩, List.mem_map_of_mem ((order.perm _).mem_iff.mpr ?_), rfl⟩
  exact Table.mem_entries_iff.mpr hlookup

theorem nodup_collected : ((collected config order ftsResults vectorResults).map fun r => r.chunkId).Nodup := by
  have hkeys : ((order.entries (chunkScores config ftsResults vectorResults)).map Sigma.fst).Perm
      (chunkScores config ftsResults vectorResults).keys := (order.perm _).map Sigma.fst
  rw [collected, List.map_map]
  exact hkeys.nodup_iff.mpr (AList.keys_nodup _)

/-- Every result gets the normalized score of its chunk. -/
theorem normalize_collected : normalize (collected config order ftsResults vectorResults) =
    (collected config order ftsResults vectorResults).map fun r =>
      { r with score := normalizedScore config ftsResults vectorResults r.chunkId } := by
  have hmax : ((collected config order ftsResults vectorResults).map fun r => r.score).max? =
      ((ftsResults ++ vectorResults).map fun r => chunkScore config ftsResults vectorResults r.chunkId).max? := by
    refine max?_congr fun score => ?_
    rw [List.mem_map, List.mem_map]
    constructor
    · rintro ⟨r, hr, rfl⟩
      obtain ⟨hid, hscore⟩ := mem_collected hr
      obtain ⟨result, hresult, hresultId⟩ := List.mem_map.mp hid
      exact ⟨result, hresult, by rw [hresultId, hscore]⟩
    · rintro ⟨result, hresult, rfl⟩
      obtain ⟨r, hr, hid⟩ := exists_collected config order
        (List.mem_map_of_mem (f := fun r : RankedResult => r.chunkId) hresult)
      exact ⟨r, hr, by rw [(mem_collected hr).2, hid]⟩
  unfold normalize
  refine List.map_congr_left fun r hr => ?_
  rw [hmax, (mem_collected hr).2]
  rfl

/-- What the candidates are. -/
theorem mem_candidates {r : SearchResult} (h : r ∈ candidates config order ftsResults vectorResults) :
    r.chunkId ∈ (ftsResults ++ vectorResults).map (fun r => r.chunkId) ∧
      r.score = normalizedScore config ftsResults vectorResults r.chunkId ∧
      Admitted config ftsResults vectorResults r.chunkId := by
  have hnormalized : ∀ r ∈ normalize (collected config order ftsResults vectorResults),
      r.chunkId ∈ (ftsResults ++ vectorResults).map (fun r => r.chunkId) ∧
        r.score = normalizedScore config ftsResults vectorResults r.chunkId := by
    rw [normalize_collected]
    intro r hr
    obtain ⟨r', hr', rfl⟩ := List.mem_map.mp hr
    exact ⟨(mem_collected hr').1, rfl⟩
  unfold candidates at h
  split at h
  next hmin =>
    obtain ⟨hr, hscore⟩ := List.mem_filter.mp h
    obtain ⟨hfound, heq⟩ := hnormalized r hr
    refine ⟨hfound, heq, fun _ => ?_⟩
    rw [← heq]
    exact of_decide_eq_true hscore
  next hmin =>
    obtain ⟨hfound, heq⟩ := hnormalized r h
    exact ⟨hfound, heq, fun hpos => absurd hpos hmin⟩

variable (config order) in
theorem exists_candidate {id : Nat} (h : id ∈ (ftsResults ++ vectorResults).map fun r => r.chunkId)
    (hadmitted : Admitted config ftsResults vectorResults id) :
    ∃ r ∈ candidates config order ftsResults vectorResults, r.chunkId = id := by
  obtain ⟨r, hr, rfl⟩ := exists_collected config order h
  have hnormalized : { r with score := normalizedScore config ftsResults vectorResults r.chunkId } ∈
      normalize (collected config order ftsResults vectorResults) := by
    rw [normalize_collected]
    exact List.mem_map_of_mem hr
  refine ⟨{ r with score := normalizedScore config ftsResults vectorResults r.chunkId }, ?_, rfl⟩
  unfold candidates
  split
  next hmin => exact List.mem_filter.mpr ⟨hnormalized, decide_eq_true (hadmitted hmin)⟩
  · exact hnormalized

theorem nodup_candidates : ((candidates config order ftsResults vectorResults).map fun r => r.chunkId).Nodup := by
  have hnormalized : ((normalize (collected config order ftsResults vectorResults)).map fun r => r.chunkId).Nodup := by
    rw [normalize_collected, List.map_map]
    exact nodup_collected
  unfold candidates
  split
  · exact hnormalized.sublist (List.filter_sublist.map _)
  · exact hnormalized

/-- Two orders of iteration give the same candidates. -/
theorem candidates_perm (order' : ChunkOrder) :
    (candidates config order ftsResults vectorResults).Perm (candidates config order' ftsResults vectorResults) := by
  have hperm : (normalize (collected config order ftsResults vectorResults)).Perm
      (normalize (collected config order' ftsResults vectorResults)) := by
    rw [normalize_collected, normalize_collected]
    exact (((order.perm _).trans (order'.perm _).symm).map toSearchResult).map _
  unfold candidates
  split
  · exact hperm.filter _
  · exact hperm

variable (config order ftsResults vectorResults)

/-- **What a fused list says**, for any order of iteration. -/
theorem fuse_fused :
    Fused config ftsResults vectorResults (fuseResults config order ftsResults vectorResults) := by
  rw [fuseResults_eq_take]
  have hmem : ∀ r ∈ (ranked (fun r => r.score) (candidates config order ftsResults vectorResults)).take config.limit,
      r ∈ candidates config order ftsResults vectorResults :=
    fun r hr => (ranked_perm _ _).mem_iff.mp (List.mem_of_mem_take hr)
  constructor
  · exact List.length_take_le _ _
  · have hnodup := ((ranked_perm (fun r => r.score) (candidates config order ftsResults vectorResults)).map
      fun r => r.chunkId).nodup_iff.mpr nodup_candidates
    exact hnodup.sublist ((List.take_sublist _ _).map _)
  · exact (pairwise_ranked _ _).sublist (List.take_sublist _ _)
  · exact fun r hr => (mem_candidates (hmem r hr)).1
  · exact fun r hr => (mem_candidates (hmem r hr)).2.1
  · exact fun r hr => (mem_candidates (hmem r hr)).2.2
  · intro id hid hadmitted hout
    obtain ⟨r, hr, rfl⟩ := exists_candidate config order hid hadmitted
    have hnot : r ∉ (ranked (fun r => r.score) (candidates config order ftsResults vectorResults)).take config.limit :=
      fun hin => hout r hin rfl
    refine ⟨?_, fun best hbest => ?_⟩
    · -- a candidate is left out only when the list is full
      rw [List.length_take, Nat.min_eq_left]
      by_contra hlt
      rw [List.take_of_length_le (Nat.le_of_not_le hlt)] at hnot
      exact hnot ((ranked_perm _ _).mem_iff.mpr hr)
    · rw [← (mem_candidates hr).2.1]
      exact le_of_mem_take _ hbest hr hnot

end Fused

/-- **Search fusion.** For every order in which the hash map is iterated the list says what it should, and the scores
agree place by place between any two orders; where no two chunks have one score, the lists are the same. -/
theorem fuse_results_spec (config : SearchConfig) (order order' : ChunkOrder)
    (ftsResults vectorResults : List RankedResult) :
    Fused config ftsResults vectorResults (fuseResults config order ftsResults vectorResults) ∧
      (fuseResults config order ftsResults vectorResults).map (fun r => r.score) =
        (fuseResults config order' ftsResults vectorResults).map (fun r => r.score) ∧
      ((∀ a ∈ ftsResults ++ vectorResults, ∀ b ∈ ftsResults ++ vectorResults,
          normalizedScore config ftsResults vectorResults a.chunkId =
            normalizedScore config ftsResults vectorResults b.chunkId → a.chunkId = b.chunkId) →
        fuseResults config order ftsResults vectorResults = fuseResults config order' ftsResults vectorResults) := by
  refine ⟨fuse_fused config order ftsResults vectorResults, ?_, fun hties => ?_⟩
  · rw [fuseResults_eq_take, fuseResults_eq_take, List.map_take, List.map_take,
      map_ranked_eq _ (candidates_perm order')]
  · rw [fuseResults_eq_take, fuseResults_eq_take, ranked_eq _ (candidates_perm order')]
    intro a ha b hb hscore
    obtain ⟨hfound, heq, -⟩ := mem_candidates ha
    obtain ⟨hfound', heq', -⟩ := mem_candidates hb
    obtain ⟨ra, hra, hida⟩ := List.mem_map.mp hfound
    obtain ⟨rb, hrb, hidb⟩ := List.mem_map.mp hfound'
    have hid : a.chunkId = b.chunkId := by
      rw [← hida, ← hidb]
      refine hties ra hra rb hrb ?_
      rw [hida, hidb, ← heq, ← heq']
      exact hscore
    exact List.inj_on_of_nodup_map nodup_candidates ha hb hid

/-- The entries of a map, the last one first. -/
def ChunkOrder.reversed : ChunkOrder := ⟨fun t => t.entries.reverse, fun t => t.entries.reverse_perm⟩

theorem fuse_results_spec_untied :
    let config : SearchConfig := ⟨10, 60, 0, .rrf, 1 / 2, 1 / 2⟩
    let fts : List RankedResult := [⟨1, 1, [], [], 1, le_rfl⟩]
    let vector : List RankedResult := [⟨2, 2, [], [], 2, by decide⟩]
    fuseResults config .plain fts vector = fuseResults config .reversed fts vector :=
  (fuse_results_spec _ _ _ _ _).2.2 (by decide +kernel)

/-- Two chunks with the same score stand in the order of the hash map. -/
theorem tied_chunks_follow_order :
    ¬∀ (config : SearchConfig) (order order' : ChunkOrder) (ftsResults vectorResults : List RankedResult),
      fuseResults config order ftsResults vectorResults = fuseResults config order' ftsResults vectorResults := by
  intro h
  have heq := h ⟨10, 60, 0, .rrf, 1 / 2, 1 / 2⟩ .plain .reversed [⟨1, 1, [], [], 1, le_rfl⟩] [⟨2, 2, [], [], 1, le_rfl⟩]
  revert heq
  decide +kernel

end Ironclaw.Workspace
