import Ironclaw.Agent.Submission
import Mathlib.Tactic.Ring

/-!
# Chunking a document

`chunk_document`: a document that is longer than a chunk is cut into windows of `chunk_size` words that overlap, and a
window at the end that is too small is merged with the chunk before it. The overlap is a number of words.

- `chunkLoop_eq`: the chunks are the windows of the words, each joined (`windowLoop` is the loop on lists);
- `windowLoop_spec`: what the loop gives from each of its states on, where a chunk is no smaller than the smallest one;
- `chunk_covers_iff`: the loop ends, and when its chunks are the document.
-/

namespace Ironclaw.Workspace

open Text Agent

/-- `ChunkConfig`, with the number of words that `overlap_size` computes. -/
structure ChunkConfig where
  chunkSize : Nat
  overlapSize : Nat
  minChunkSize : Nat

namespace ChunkConfig

variable (config : ChunkConfig)

def stepSize : Nat := config.chunkSize - config.overlapSize

/-- The loop of `chunk_document`, with the place and the chunks so far; the first argument bounds the rounds. -/
def chunkLoop (words : List Str) : Nat → Nat → List Str → Option (List Str)
  | 0, _, _ => none
  | fuel + 1, start, chunks =>
    if start < words.length then
      let stop := min (start + config.chunkSize) words.length
      let chunkWords := (words.drop start).take (stop - start)
      match if chunkWords.length < config.minChunkSize then chunks.getLast? else none with
      | some last => some (chunks.dropLast ++ [last ++ " ".toList ++ join " ".toList chunkWords])
      | none =>
        let chunks := chunks ++ [join " ".toList chunkWords]
        let start := start + config.stepSize
        if words.length ≤ start + config.minChunkSize ∧ stop = words.length then some chunks
        else chunkLoop words fuel start chunks
    else some chunks

/-- `chunk_document`. -/
def chunkDocument (fuel : Nat) (content : Str) : Option (List Str) :=
  if content = [] then some []
  else
    let words := splitWhitespace content
    if words = [] then some []
    else if words.length ≤ config.chunkSize then some [content]
    else config.chunkLoop words fuel 0 []

end ChunkConfig

/-! ## Words -/

/-- A word: not empty, and without whitespace. -/
def IsWord (word : Str) : Prop := word ≠ [] ∧ ∀ c ∈ word, isWhitespace c = false

theorem splitOnP_of_word {word : Str} (h : IsWord word) : word.splitOnP isWhitespace = [word] :=
  List.splitOnP_eq_singleton h.2

/-- The pieces between whitespace have none. -/
theorem mem_splitOnP : ∀ {s piece : Str}, piece ∈ s.splitOnP isWhitespace → ∀ c ∈ piece, isWhitespace c = false
  | [], piece, h => by
    rw [List.splitOnP_nil, List.mem_singleton] at h
    rw [h]
    exact fun c hc => by cases hc
  | c :: s, piece, h => by
    rw [List.splitOnP_cons_eq_if_modifyHead] at h
    cases hc : isWhitespace c with
    | true =>
      rw [hc, if_pos rfl] at h
      rcases List.mem_cons.mp h with rfl | h
      · exact fun c hc => by cases hc
      · exact mem_splitOnP h
    | false =>
      rw [hc, if_neg Bool.false_ne_true] at h
      obtain ⟨first, rest, hsplit⟩ := List.exists_cons_of_ne_nil (List.splitOnP_ne_nil isWhitespace s)
      rw [hsplit, List.modifyHead_cons] at h
      rcases List.mem_cons.mp h with rfl | h
      · refine List.forall_mem_cons.mpr ⟨hc, mem_splitOnP (s := s) ?_⟩
        rw [hsplit]
        exact List.mem_cons_self
      · refine mem_splitOnP (s := s) ?_
        rw [hsplit]
        exact List.mem_cons_of_mem _ h

theorem isWord_of_mem {s word : Str} (h : word ∈ splitWhitespace s) : IsWord word := by
  obtain ⟨hmem, hne⟩ := List.mem_filter.mp h
  refine ⟨fun hempty => ?_, mem_splitOnP hmem⟩
  rw [hempty] at hne
  cases hne

theorem filter_cons_word {word : Str} (h : IsWord word) (rest : List Str) :
    (word :: rest).filter (fun w => !w.isEmpty) = word :: rest.filter fun w => !w.isEmpty := by
  refine List.filter_cons_of_pos ?_
  rw [Bool.not_eq_true', List.isEmpty_eq_false_iff]
  exact h.1

/-- Words that are joined by blanks are found again. -/
theorem splitWhitespace_join : ∀ (words : List Str), (∀ word ∈ words, IsWord word) →
    splitWhitespace (join " ".toList words) = words
  | [], _ => rfl
  | [word], h => by
    have hword : IsWord word := h word List.mem_cons_self
    rw [join_singleton, splitWhitespace, splitOnP_of_word hword, filter_cons_word hword, List.filter_nil]
  | word :: word' :: words, h => by
    have hword : IsWord word := h word List.mem_cons_self
    have ih := splitWhitespace_join (word' :: words) fun w hw => h w (List.mem_cons_of_mem _ hw)
    have hblank : " ".toList = [' '] := rfl
    rw [hblank] at ih ⊢
    rw [join_cons_cons, splitWhitespace, List.splitOnP_append_cons_of_forall_mem hword.2 ' ' (by decide),
      filter_cons_word hword]
    exact congrArg (word :: ·) ih

/-! ## Windows -/

/-- Chunks of words without the words that each one shares with the chunk before it. -/
def withoutOverlaps {W : Type} (overlap : Nat) : List (List W) → List W
  | [] => []
  | chunk :: chunks => chunk ++ (chunks.map (List.drop overlap)).flatten

section Windows

variable {W : Type} {overlap : Nat} {words : List W}

theorem withoutOverlaps_concat {chunks : List (List W)} (h : chunks ≠ []) (chunk : List W) :
    withoutOverlaps overlap (chunks ++ [chunk]) = withoutOverlaps overlap chunks ++ chunk.drop overlap := by
  cases chunks with
  | nil => exact absurd rfl h
  | cons first chunks => simp [withoutOverlaps]

/-- The last chunk is made longer. -/
theorem withoutOverlaps_extend {chunks : List (List W)} {last : List W} (hlast : chunks.getLast? = some last)
    (hlong : overlap ≤ last.length) (more : List W) :
    withoutOverlaps overlap (chunks.dropLast ++ [last ++ more]) = withoutOverlaps overlap chunks ++ more := by
  have hchunks : chunks = chunks.dropLast ++ [last] := (List.dropLast_append_getLast? last hlast).symm
  cases hfront : chunks.dropLast with
  | nil =>
    rw [hchunks, hfront]
    simp [withoutOverlaps]
  | cons first front =>
    have hne : first :: front ≠ [] := List.cons_ne_nil _ _
    rw [withoutOverlaps_concat hne, List.drop_append_of_le_length hlong, hchunks, hfront, withoutOverlaps_concat hne,
      List.append_assoc]

/-- Every word is in some chunk. -/
theorem mem_of_withoutOverlaps {chunks : List (List W)} {word : W} (h : word ∈ withoutOverlaps overlap chunks) :
    ∃ chunk ∈ chunks, word ∈ chunk := by
  cases chunks with
  | nil => cases h
  | cons first chunks =>
    rcases List.mem_append.mp h with h | h
    · exact ⟨first, List.mem_cons_self, h⟩
    · obtain ⟨_, hchunk, hword⟩ := List.mem_flatten.mp h
      obtain ⟨chunk, hmem, rfl⟩ := List.mem_map.mp hchunk
      exact ⟨chunk, List.mem_cons_of_mem _ hmem, List.mem_of_mem_drop hword⟩

/-- One more window continues the words. -/
theorem take_append_window (words : List W) {start size : Nat} (h : overlap ≤ size) :
    words.take (start + overlap) ++ ((words.drop start).take size).drop overlap = words.take (start + size) := by
  rw [List.drop_take, List.drop_drop, ← List.take_add]
  congr 1
  omega

end Windows

namespace ChunkConfig

variable (config : ChunkConfig)

/-- The loop on lists of words. -/
def windowLoop {W : Type} (words : List W) : Nat → Nat → List (List W) → Option (List (List W))
  | 0, _, _ => none
  | fuel + 1, start, chunks =>
    if start < words.length then
      let window := (words.drop start).take config.chunkSize
      match if window.length < config.minChunkSize then chunks.getLast? else none with
      | some last => some (chunks.dropLast ++ [last ++ window])
      | none =>
        if words.length ≤ start + config.stepSize + config.minChunkSize ∧ words.length ≤ start + config.chunkSize then
          some (chunks ++ [window])
        else windowLoop words fuel (start + config.stepSize) (chunks ++ [window])
    else some chunks

variable {config}

theorem window_eq {W : Type} (words : List W) {start : Nat} (hstart : start < words.length) :
    (words.drop start).take (min (start + config.chunkSize) words.length - start) =
      (words.drop start).take config.chunkSize := by
  rw [List.take_eq_take_iff, List.length_drop]
  omega

/-- **The chunks are the windows**, each joined. -/
theorem chunkLoop_eq (hsize : 0 < config.chunkSize) (words : List Str) :
    ∀ (fuel start : Nat) (chunks : List (List Str)), (∀ chunk ∈ chunks, chunk ≠ []) →
      config.chunkLoop words fuel start (chunks.map (join " ".toList)) =
        (config.windowLoop words fuel start chunks).map (List.map (join " ".toList))
  | 0, _, _, _ => rfl
  | fuel + 1, start, chunks, hchunks => by
    rw [chunkLoop, windowLoop]
    by_cases hstart : start < words.length
    · have hwindow : (words.drop start).take config.chunkSize ≠ [] := by
        refine List.ne_nil_of_length_pos ?_
        rw [List.length_take, List.length_drop]
        omega
      rw [if_pos hstart, if_pos hstart]
      dsimp only
      rw [window_eq words hstart]
      by_cases hsmall : ((words.drop start).take config.chunkSize).length < config.minChunkSize ∧ chunks ≠ []
      · -- the window is merged with the last chunk
        obtain ⟨last, hlast⟩ := Option.ne_none_iff_exists'.mp (fun h => hsmall.2 (List.getLast?_eq_none_iff.mp h))
        have hne : last ≠ [] := hchunks last (List.mem_of_getLast? hlast)
        rw [if_pos hsmall.1, if_pos hsmall.1, List.getLast?_map, hlast, Option.map_some, Option.map_some]
        rw [List.map_append, List.map_singleton, List.map_dropLast, join_append _ hwindow last hne]
      · have hnone : (if ((words.drop start).take config.chunkSize).length < config.minChunkSize then chunks.getLast?
            else none) = none := by
          split
          next hlt => exact List.getLast?_eq_none_iff.mpr (not_not.mp fun hne => hsmall ⟨hlt, hne⟩)
          · rfl
        have hnone' : (if ((words.drop start).take config.chunkSize).length < config.minChunkSize then
            (chunks.map (join " ".toList)).getLast? else none) = none := by
          split
          next hlt =>
            rw [not_not.mp fun hne => hsmall ⟨hlt, hne⟩]
            rfl
          · rfl
        rw [hnone, hnone']
        dsimp only
        have hmore : ∀ chunk ∈ chunks ++ [(words.drop start).take config.chunkSize], chunk ≠ [] := by
          intro chunk hchunk
          rcases List.mem_append.mp hchunk with h | h
          · exact hchunks chunk h
          · rw [List.mem_singleton.mp h]
            exact hwindow
        have ih := chunkLoop_eq hsize words fuel (start + config.stepSize) _ hmore
        rw [List.map_append, List.map_singleton] at ih
        have hstop : min (start + config.chunkSize) words.length = words.length ↔
            words.length ≤ start + config.chunkSize := by omega
        by_cases hend : words.length ≤ start + config.stepSize + config.minChunkSize ∧
            words.length ≤ start + config.chunkSize
        · rw [if_pos ⟨hend.1, hstop.mpr hend.2⟩, if_pos hend, Option.map_some, List.map_append, List.map_singleton]
        · rw [if_neg fun h => hend ⟨h.1, hstop.mp h.2⟩, if_neg hend, ih]
    · rw [if_neg hstart, if_neg hstart, Option.map_some]

end ChunkConfig

/-! ## The loop -/

/-- The number of words of the first window that reaches the end, from a place on. -/
def ChunkConfig.lastWindow (config : ChunkConfig) (rest : Nat) : Nat :=
  config.overlapSize + 1 + (rest - config.overlapSize - 1) % config.stepSize

section Loop

variable {config : ChunkConfig} {W : Type} {words : List W}

/-- The state of the loop after its first round: the chunks are the words up to the overlap with the next window; those
that end before the end of the document are full, and what is left for the next window is new or not small. -/
structure Windowed (config : ChunkConfig) (words : List W) (start : Nat) (chunks : List (List W)) : Prop where
  nonempty : chunks ≠ []
  covered : withoutOverlaps config.overlapSize chunks = words.take (start + config.overlapSize)
  small : ∀ chunk ∈ chunks, chunk.length ≤ config.chunkSize
  full : start + config.overlapSize < words.length → ∀ chunk ∈ chunks, chunk.length = config.chunkSize
  next : start + config.overlapSize < words.length ∨ start + config.minChunkSize < words.length

theorem step_add_overlap (hoverlap : config.overlapSize < config.chunkSize) :
    config.stepSize + config.overlapSize = config.chunkSize := by
  unfold ChunkConfig.stepSize
  omega

theorem lastWindow_of_le (hoverlap : config.overlapSize < config.chunkSize) {rest : Nat}
    (hnew : config.overlapSize < rest)
    (hreach : rest ≤ config.chunkSize) : config.lastWindow rest = rest := by
  have hstep := step_add_overlap hoverlap
  have hmod : (rest - config.overlapSize - 1) % config.stepSize = rest - config.overlapSize - 1 :=
    Nat.mod_eq_of_lt (by omega)
  rw [ChunkConfig.lastWindow, hmod]
  omega

theorem lastWindow_le (hoverlap : config.overlapSize < config.chunkSize) (rest : Nat) :
    config.lastWindow rest ≤ config.chunkSize := by
  have hstep := step_add_overlap hoverlap
  have hlt : (rest - config.overlapSize - 1) % config.stepSize < config.stepSize := Nat.mod_lt _ (by omega)
  unfold ChunkConfig.lastWindow
  omega

/-- A window that does not reach the end leaves the last one as it is. -/
theorem lastWindow_step (hoverlap : config.overlapSize < config.chunkSize) {rest : Nat}
    (hrest : config.chunkSize < rest) :
    config.lastWindow (rest - config.stepSize) = config.lastWindow rest := by
  have hstep := step_add_overlap hoverlap
  have hperiod : rest - config.overlapSize - 1 = rest - config.stepSize - config.overlapSize - 1 + config.stepSize := by
    omega
  rw [ChunkConfig.lastWindow, ChunkConfig.lastWindow, hperiod, Nat.add_mod_right]

/-- The next window is pushed. -/
theorem Windowed.push (hoverlap : config.overlapSize < config.chunkSize) {start : Nat} {chunks : List (List W)}
    (h : Windowed config words start chunks)
    (hnext : ¬(words.length ≤ start + config.stepSize + config.minChunkSize ∧
      words.length ≤ start + config.chunkSize)) :
    Windowed config words (start + config.stepSize) (chunks ++ [(words.drop start).take config.chunkSize]) := by
  have hstep := step_add_overlap hoverlap
  have hend : start + config.stepSize + config.overlapSize = start + config.chunkSize := by omega
  refine ⟨List.append_ne_nil_of_left_ne_nil h.nonempty _, ?_, ?_, ?_, ?_⟩
  · rw [withoutOverlaps_concat h.nonempty, h.covered, take_append_window words hoverlap.le, hend]
  · intro chunk hchunk
    rcases List.mem_append.mp hchunk with hold | hnew
    · exact h.small chunk hold
    · rw [List.mem_singleton.mp hnew]
      exact List.length_take_le _ _
  · intro hlt chunk hchunk
    rw [hend] at hlt
    rcases List.mem_append.mp hchunk with hold | hnew
    · exact h.full (by omega) chunk hold
    · rw [List.mem_singleton.mp hnew, List.length_take, List.length_drop]
      omega
  · rw [hend]
    omega

/-- A window that is merged adds all of its words. -/
theorem Windowed.merge (hoverlap : config.overlapSize < config.chunkSize) {start : Nat} {chunks : List (List W)}
    (h : Windowed config words start chunks) (hnew : start + config.overlapSize < words.length) {last : List W}
    (hlast : chunks.getLast? = some last) :
    withoutOverlaps config.overlapSize (chunks.dropLast ++ [last ++ (words.drop start).take config.chunkSize]) =
      words.take (start + config.overlapSize) ++ (words.drop start).take config.chunkSize := by
  have hfull : last.length = config.chunkSize := h.full hnew last (List.mem_of_getLast? hlast)
  rw [withoutOverlaps_extend hlast (by omega), h.covered]

/-- The rest of the document is repeated unless there is no overlap. -/
theorem take_append_drop_eq_iff {start : Nat} (hnew : start + config.overlapSize < words.length) :
    words.take (start + config.overlapSize) ++ words.drop start = words ↔ config.overlapSize = 0 := by
  constructor
  · intro h
    have hlength := congrArg List.length h
    rw [List.length_append, List.length_take, List.length_drop] at hlength
    omega
  · intro h
    rw [h, Nat.add_zero, List.take_append_drop]

/-- More rounds change nothing once the loop has ended. -/
theorem windowLoop_mono : ∀ {fuel more start : Nat} {chunks windows : List (List W)}, fuel ≤ more →
    config.windowLoop words fuel start chunks = some windows → config.windowLoop words more start chunks = some windows
  | fuel + 1, more + 1, start, chunks, windows, hle, h => by
    rw [ChunkConfig.windowLoop] at h ⊢
    split at h
    next hstart =>
      rw [if_pos hstart]
      dsimp only at h ⊢
      split at h
      next last hlast => exact h
      next hlast =>
        split at h
        next hend =>
          rw [if_pos hend]
          exact h
        next hend =>
          rw [if_neg hend]
          exact windowLoop_mono (Nat.le_of_succ_le_succ hle) h
    next hstart =>
      rw [if_neg hstart]
      exact h

/-- The words of the windows are words of the document. -/
theorem windowLoop_mem : ∀ {fuel start : Nat} {chunks windows : List (List W)},
    config.windowLoop words fuel start chunks = some windows → (∀ chunk ∈ chunks, chunk ⊆ words) →
      ∀ window ∈ windows, window ⊆ words
  | fuel + 1, start, chunks, windows, h, hchunks => by
    have hwindow : (words.drop start).take config.chunkSize ⊆ words :=
      fun word hword => List.mem_of_mem_drop (List.mem_of_mem_take hword)
    have hmore : ∀ chunk ∈ chunks ++ [(words.drop start).take config.chunkSize], chunk ⊆ words := by
      intro chunk hchunk
      rcases List.mem_append.mp hchunk with hold | hnew
      · exact hchunks chunk hold
      · rw [List.mem_singleton.mp hnew]
        exact hwindow
    rw [ChunkConfig.windowLoop] at h
    split at h
    · dsimp only at h
      split at h
      next last hlast =>
        cases h
        intro window hmem
        rcases List.mem_append.mp hmem with hold | hmerged
        · exact hchunks window (List.mem_of_mem_dropLast hold)
        · rw [List.mem_singleton.mp hmerged]
          split at hlast
          · exact List.append_subset.mpr ⟨hchunks last (List.mem_of_getLast? hlast), hwindow⟩
          · cases hlast
      · split at h
        · cases h
          exact hmore
        · exact windowLoop_mem h hmore
    · cases h
      exact hchunks

/-- **What the loop gives** from a state after its first round on, where a chunk is no smaller than the smallest one. -/
theorem windowLoop_spec (hoverlap : config.overlapSize < config.chunkSize)
    (hmin : config.minChunkSize ≤ config.chunkSize) :
    ∀ (fuel start : Nat) (chunks : List (List W)), words.length - start < fuel → Windowed config words start chunks →
      ∃ windows, config.windowLoop words fuel start chunks = some windows ∧
        (∀ window ∈ windows, window.length ≤ config.chunkSize + config.minChunkSize) ∧
        (withoutOverlaps config.overlapSize windows = words ↔
          words.length ≤ start + config.overlapSize ∨
            config.minChunkSize ≤ config.lastWindow (words.length - start) ∨ config.overlapSize = 0)
  | fuel + 1, start, chunks, hfuel, h => by
    have hstep := step_add_overlap hoverlap
    have hnext := h.next
    have hstart : start < words.length := by omega
    obtain ⟨last, hlast⟩ := Option.ne_none_iff_exists'.mp fun hnil => h.nonempty (List.getLast?_eq_none_iff.mp hnil)
    have hlength : ((words.drop start).take config.chunkSize).length = min config.chunkSize (words.length - start) := by
      rw [List.length_take, List.length_drop]
    rw [ChunkConfig.windowLoop, if_pos hstart]
    dsimp only
    by_cases hsmall : ((words.drop start).take config.chunkSize).length < config.minChunkSize
    · -- the window reaches the end, and is merged
      rw [if_pos hsmall, hlast]
      rw [hlength] at hsmall
      have hnew : start + config.overlapSize < words.length := by omega
      have hrest : (words.drop start).take config.chunkSize = words.drop start :=
        List.take_of_length_le (by rw [List.length_drop]; omega)
      refine ⟨_, rfl, ?_, ?_⟩
      · intro window hwindow
        rcases List.mem_append.mp hwindow with hold | hmerged
        · exact (h.small window (List.mem_of_mem_dropLast hold)).trans (Nat.le_add_right _ _)
        · rw [List.mem_singleton.mp hmerged, List.length_append, hlength, h.full hnew last (List.mem_of_getLast? hlast)]
          omega
      · rw [h.merge hoverlap hnew hlast, hrest, take_append_drop_eq_iff hnew,
          lastWindow_of_le hoverlap (by omega) (by omega)]
        omega
    · rw [if_neg hsmall]
      rw [hlength] at hsmall
      dsimp only
      by_cases hend : words.length ≤ start + config.stepSize + config.minChunkSize ∧
          words.length ≤ start + config.chunkSize
      · -- the window reaches the end, and the loop stops
        rw [if_pos hend]
        have hcovered : withoutOverlaps config.overlapSize (chunks ++ [(words.drop start).take config.chunkSize]) =
            words := by
          rw [withoutOverlaps_concat h.nonempty, h.covered, take_append_window words hoverlap.le]
          exact List.take_of_length_le hend.2
        refine ⟨_, rfl, ?_, iff_of_true hcovered ?_⟩
        · intro window hwindow
          rcases List.mem_append.mp hwindow with hold | hpushed
          · exact (h.small window hold).trans (Nat.le_add_right _ _)
          · rw [List.mem_singleton.mp hpushed, hlength]
            omega
        · by_cases hdone : words.length ≤ start + config.overlapSize
          · exact .inl hdone
          · refine .inr (.inl ?_)
            rw [lastWindow_of_le hoverlap (by omega) (by omega)]
            omega
      · rw [if_neg hend]
        obtain ⟨windows, hloop, hbound, hiff⟩ := windowLoop_spec hoverlap hmin fuel (start + config.stepSize)
          (chunks ++ [(words.drop start).take config.chunkSize]) (by omega) (h.push hoverlap hend)
        refine ⟨windows, hloop, hbound, hiff.trans ?_⟩
        by_cases hreach : words.length ≤ start + config.chunkSize
        · -- what comes after the end repeats the overlap
          refine iff_of_true (.inl (by omega)) ?_
          by_cases hdone : words.length ≤ start + config.overlapSize
          · exact .inl hdone
          · refine .inr (.inl ?_)
            rw [lastWindow_of_le hoverlap (by omega) (by omega)]
            omega
        · rw [← Nat.sub_sub, lastWindow_step hoverlap (by omega)]
          omega

/-- After the first round of the loop. -/
theorem windowed_first (hoverlap : config.overlapSize < config.chunkSize) (hlong : config.chunkSize < words.length) :
    Windowed config words config.stepSize [words.take config.chunkSize] := by
  have hstep := step_add_overlap hoverlap
  have hfirst : (words.take config.chunkSize).length = config.chunkSize := by
    rw [List.length_take]
    omega
  refine ⟨List.cons_ne_nil _ _, ?_, ?_, ?_, .inl (by omega)⟩
  · rw [hstep]
    simp [withoutOverlaps]
  · exact List.forall_mem_singleton.mpr hfirst.le
  · exact fun _ => List.forall_mem_singleton.mpr hfirst

/-- When the chunks of a document are the document: it is one chunk; or the last window is not too small; or there is no
overlap to be repeated, and chunks are no smaller than the smallest one; or they are smaller, and the second window,
which is merged with the first one, ends the document. -/
def Covering (config : ChunkConfig) (words : List W) : Prop :=
  words.length ≤ config.chunkSize ∨ config.minChunkSize ≤ config.lastWindow words.length ∨
    (config.minChunkSize ≤ config.chunkSize ∧ config.overlapSize = 0) ∨
      (config.chunkSize < config.minChunkSize ∧
        words.drop config.chunkSize = (words.drop config.stepSize).take config.chunkSize)

/-- The whole loop, for a document of more than one chunk. -/
theorem windows_cover_iff (hoverlap : config.overlapSize < config.chunkSize) (hlong : config.chunkSize < words.length)
    {fuel : Nat} (hfuel : words.length < fuel) :
    ∃ windows, config.windowLoop words fuel 0 [] = some windows ∧
      (∀ window ∈ windows, window.length ≤ config.chunkSize + config.minChunkSize) ∧
      (withoutOverlaps config.overlapSize windows = words ↔ Covering config words) := by
  have hstep := step_add_overlap hoverlap
  have hlast := lastWindow_le hoverlap words.length
  obtain ⟨fuel, rfl⟩ := Nat.exists_eq_succ_of_ne_zero (Nat.ne_zero_of_lt hfuel)
  have hfirst : config.windowLoop words (fuel + 1) 0 [] =
      config.windowLoop words fuel config.stepSize [words.take config.chunkSize] := by
    rw [ChunkConfig.windowLoop, if_pos (by omega)]
    dsimp only
    rw [List.getLast?_nil, ite_self]
    dsimp only
    rw [if_neg fun h => by omega, Nat.zero_add, List.drop_zero, List.nil_append]
  rw [Nat.succ_eq_add_one, hfirst, Covering]
  by_cases hmin : config.minChunkSize ≤ config.chunkSize
  · obtain ⟨windows, hloop, hbound, hiff⟩ := windowLoop_spec hoverlap hmin fuel config.stepSize _ (by omega)
      (windowed_first hoverlap hlong)
    refine ⟨windows, hloop, hbound, hiff.trans ?_⟩
    rw [lastWindow_step hoverlap hlong]
    omega
  · -- the second window is smaller than the smallest chunk
    obtain ⟨fuel, rfl⟩ := Nat.exists_eq_succ_of_ne_zero (show fuel ≠ 0 by omega)
    have hsmall : ((words.drop config.stepSize).take config.chunkSize).length < config.minChunkSize :=
      (List.length_take_le _ _).trans_lt (Nat.lt_of_not_le hmin)
    have htwo : config.windowLoop words (fuel + 1) config.stepSize [words.take config.chunkSize] =
        some [words.take config.chunkSize ++ (words.drop config.stepSize).take config.chunkSize] := by
      rw [ChunkConfig.windowLoop, if_pos (by omega)]
      dsimp only
      rw [if_pos hsmall]
      rfl
    refine ⟨_, htwo, ?_, ?_⟩
    · refine List.forall_mem_singleton.mpr ?_
      rw [List.length_append]
      have hone := List.length_take_le config.chunkSize words
      omega
    · have hwords : withoutOverlaps config.overlapSize
          [words.take config.chunkSize ++ (words.drop config.stepSize).take config.chunkSize] =
            words.take config.chunkSize ++ (words.drop config.stepSize).take config.chunkSize := List.append_nil _
      have hsplit : words.take config.chunkSize ++ (words.drop config.stepSize).take config.chunkSize = words ↔
          words.drop config.chunkSize = (words.drop config.stepSize).take config.chunkSize := by
        constructor
        · intro h
          exact (List.append_cancel_left (h.trans (List.take_append_drop config.chunkSize words).symm)).symm
        · intro h
          rw [← h, List.take_append_drop]
      rw [hwords, hsplit]
      constructor
      · exact fun h => .inr (.inr (.inr ⟨Nat.lt_of_not_le hmin, h⟩))
      · rintro (h | h | h | h)
        · omega
        · omega
        · omega
        · exact h.2

end Loop

/-! ## Documents -/

/-- The chunks are the document: every word is in one of them, without the overlaps they are its words in order, and
none is longer than a chunk and the smallest one together. -/
structure Covers (config : ChunkConfig) (content : Str) (chunks : List Str) : Prop where
  occurs : ∀ word ∈ splitWhitespace content, ∃ chunk ∈ chunks, word ∈ splitWhitespace chunk
  inOrder : withoutOverlaps config.overlapSize (chunks.map splitWhitespace) = splitWhitespace content
  bounded : ∀ chunk ∈ chunks, (splitWhitespace chunk).length ≤ config.chunkSize + config.minChunkSize

/-- The words in order say that every word occurs. -/
theorem covers_iff {config : ChunkConfig} {content : Str} {chunks : List Str}
    (hbounded : ∀ chunk ∈ chunks, (splitWhitespace chunk).length ≤ config.chunkSize + config.minChunkSize) :
    Covers config content chunks ↔
      withoutOverlaps config.overlapSize (chunks.map splitWhitespace) = splitWhitespace content := by
  refine ⟨Covers.inOrder, fun h => ⟨fun word hword => ?_, h, hbounded⟩⟩
  rw [← h] at hword
  obtain ⟨words, hwords, hmem⟩ := mem_of_withoutOverlaps hword
  obtain ⟨chunk, hchunk, rfl⟩ := List.mem_map.mp hwords
  exact ⟨chunk, hchunk, hmem⟩

/-- A document in one piece. -/
theorem covers_single {config : ChunkConfig} {content : Str}
    (hshort : (splitWhitespace content).length ≤ config.chunkSize) : Covers config content [content] := by
  refine (covers_iff ?_).mpr (List.append_nil _)
  exact List.forall_mem_singleton.mpr (hshort.trans (Nat.le_add_right _ _))

/-- **Chunking covers the document** exactly when no overlap is repeated by a merged window and no window after the
merged one is lost; in any case it ends, whatever more rounds it is given. -/
theorem chunk_covers_iff (config : ChunkConfig) (hoverlap : config.overlapSize < config.chunkSize) (content : Str) :
    ∃ chunks, (∀ fuel, (splitWhitespace content).length < fuel → config.chunkDocument fuel content = some chunks) ∧
      (Covers config content chunks ↔ Covering config (splitWhitespace content)) := by
  by_cases hempty : splitWhitespace content = []
  · refine ⟨[], fun fuel _ => ?_, ?_⟩
    · rw [ChunkConfig.chunkDocument]
      dsimp only
      rw [if_pos hempty, ite_self]
    · rw [covers_iff (fun chunk hchunk => by cases hchunk), hempty]
      exact iff_of_true rfl (.inl (Nat.zero_le _))
  have hcontent : content ≠ [] := fun h => hempty (by rw [h]; rfl)
  by_cases hshort : (splitWhitespace content).length ≤ config.chunkSize
  · refine ⟨[content], fun fuel _ => ?_, iff_of_true (covers_single hshort) (.inl hshort)⟩
    rw [ChunkConfig.chunkDocument, if_neg hcontent]
    dsimp only
    rw [if_neg hempty, if_pos hshort]
  have hlong : config.chunkSize < (splitWhitespace content).length := Nat.lt_of_not_le hshort
  obtain ⟨windows, hloop, hbound, hiff⟩ := windows_cover_iff hoverlap hlong (Nat.lt_succ_self _)
  have hwords : ∀ window ∈ windows, splitWhitespace (join " ".toList window) = window := by
    intro window hwindow
    have hmem := windowLoop_mem hloop (fun chunk hchunk => by cases hchunk) window hwindow
    exact splitWhitespace_join window fun word hword => isWord_of_mem (hmem hword)
  have hsplit : (windows.map (join " ".toList)).map splitWhitespace = windows := by
    rw [List.map_map]
    exact (List.map_congr_left hwords).trans (List.map_id windows)
  refine ⟨windows.map (join " ".toList), fun fuel hfuel => ?_, ?_⟩
  · rw [ChunkConfig.chunkDocument, if_neg hcontent]
    dsimp only
    rw [if_neg hempty, if_neg hshort]
    have hsize : 0 < config.chunkSize := by omega
    have hrefined := ChunkConfig.chunkLoop_eq hsize (splitWhitespace content) fuel 0 [] ?_
    · rw [List.map_nil, windowLoop_mono hfuel hloop] at hrefined
      exact hrefined
    · exact fun chunk hchunk => by cases hchunk
  · rw [covers_iff, hsplit]
    · exact hiff
    · intro chunk hchunk
      obtain ⟨window, hwindow, rfl⟩ := List.mem_map.mp hchunk
      rw [hwords window hwindow]
      exact hbound window hwindow

theorem chunk_covers_four :
    ∃ chunks, (∀ fuel, (splitWhitespace "a b c d".toList).length < fuel →
        (ChunkConfig.mk 2 1 2).chunkDocument fuel "a b c d".toList = some chunks) ∧
      Covers ⟨2, 1, 2⟩ "a b c d".toList chunks := by
  obtain ⟨chunks, hends, hiff⟩ := chunk_covers_iff ⟨2, 1, 2⟩ (by decide) "a b c d".toList
  exact ⟨chunks, hends, hiff.mpr (.inr (.inl (by decide)))⟩

/-- Four words in chunks of three with one word of overlap: the small last window is merged, and its overlap
repeated. -/
theorem merged_window_repeats :
    ¬∀ (config : ChunkConfig), config.overlapSize < config.chunkSize →
    ∀ (content : Str) (fuel : Nat) (chunks : List Str),
      config.chunkDocument fuel content = some chunks → Covers config content chunks := by
  intro h
  have hcovers := h ⟨3, 1, 3⟩ (by decide) "a b c d".toList 3 ["a b c c d".toList] (by decide)
  have horder := hcovers.inOrder
  revert horder
  decide

end Ironclaw.Workspace
