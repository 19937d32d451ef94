import Ironclaw.Lib.Lru
import Ironclaw.Lib.Run
import Ironclaw.Lib.Text

/-!
# The cache of embeddings

`CachedEmbeddingProvider`: a call looks its texts up under the lock of the cache, asks the inner provider for those that
are not there, and stores what it gets under the lock again. A batch is split by hits and misses, and the new embeddings
are put back by their indices. Between its two locks other callers may use the cache, and a call of the inner provider
may fail. The cache under the lock is a library's, of which only the laws of `LruCache` are used.

- `readHits_eq`: what the first lock reads;
- `scatter_hits`: the misses, asked for on their own and put back, give what the whole batch gives;
- `Coherent`: every entry is the inner provider's answer for its text;
- `cache_transparent`: what holds of every call of a run.
-/

namespace Ironclaw.Workspace

open Text Run

inductive EmbeddingError
  | httpError (message : Str)
  | invalidResponse (message : Str)
  | rateLimited (retryAfter : Option Nat)
  | authFailed
  | textTooLong (length max : Nat)
  deriving DecidableEq

/-- `EmbeddingProvider`, as far as the cache uses it. -/
structure EmbeddingProvider (V : Type) where
  modelName : Str
  embed : Str → Except EmbeddingError V
  embedBatch : List Str → Except EmbeddingError (List V)

/-- A batch gives what its texts give one by one. -/
def EmbeddingProvider.Pointwise {V : Type} (inner : EmbeddingProvider V) : Prop :=
  ∀ texts, inner.embedBatch texts = texts.mapM inner.embed

/-- The provider in a call that fails, where there is a failure. -/
def EmbeddingProvider.failing {V : Type} (inner : EmbeddingProvider V) : Option EmbeddingError → EmbeddingProvider V
  | none => inner
  | some e => { inner with embed := fun _ => .error e, embedBatch := fun _ => .error e }

/-- `CachedEmbeddingProvider`: the inner provider and the hash of the keys; the cache is passed along. -/
structure CachedEmbeddingProvider (V Key : Type) where
  inner : EmbeddingProvider V
  hash : Str → Key

/-- What another caller does under the lock: it reads a text, stores the embedding of a text, or clears the cache. -/
inductive CacheTouch
  | get (text : Str)
  | push (text : Str)
  | clear

/-- `results[i] = Some(embedding)`, for each of the pairs. -/
def scatter {V : Type} (results : List (Option V)) (pairs : List (Nat × V)) : List (Option V) :=
  pairs.foldl (fun results pair => results.set pair.1 (some pair.2)) results

/-- The slots as a list; one that was not populated is an error. -/
def collectSlots {V : Type} : Nat → List (Option V) → Except EmbeddingError (List V)
  | _, [] => .ok []
  | i, none :: _ =>
    .error (.invalidResponse ("embedding slot ".toList ++ (Nat.repr i).toList ++ " was not populated".toList))
  | i, some v :: slots => (collectSlots (i + 1) slots).map (v :: ·)

namespace CachedEmbeddingProvider

variable {V Key : Type} {lru : LruCache Key V} (cached : CachedEmbeddingProvider V Key)

/-- `cache_key`: the hash of the model's name, a zero and the text. -/
def cacheKey (text : Str) : Key := cached.hash (cached.inner.modelName ++ Char.ofNat 0 :: text)

/-- `new`: the capacity is at least 1. -/
def new (lru : LruCache Key V) (maxEntries : Nat) : lru.Cache := lru.empty (max maxEntries 1) (by omega)

/-- Another caller stores what the inner provider gives. -/
def touch (cache : lru.Cache) : CacheTouch → lru.Cache
  | .get text => (lru.get (cached.cacheKey text) cache).2
  | .push text =>
    match cached.inner.embed text with
    | .ok embedding => lru.push (cached.cacheKey text) embedding cache
    | .error _ => cache
  | .clear => lru.clear cache

/-- Other callers use the cache while this one does not hold the lock. -/
def meanwhile (others : List CacheTouch) (cache : lru.Cache) : lru.Cache := others.foldl cached.touch cache

/-- `embed`: the result, and the cache that is left. -/
def embed (failure : Option EmbeddingError) (others : List CacheTouch) (text : Str) (cache : lru.Cache) :
    Except EmbeddingError V × lru.Cache :=
  let key := cached.cacheKey text
  match lru.get key cache with
  | (some embedding, cache) => (.ok embedding, cache)
  | (none, cache) =>
    let cache := cached.meanwhile others cache
    match (cached.inner.failing failure).embed text with
    | .error e => (.error e, cache)
    | .ok embedding =>
      match lru.get key cache with
      | (some _, cache) => (.ok embedding, cache)
      | (none, cache) => (.ok embedding, lru.push key embedding cache)

/-- The first lock of a batch: the slots, the indices of the misses and the cache, after the keys from the index on. -/
def readHits : Nat → List Key → List (Option V) × List Nat × lru.Cache → List (Option V) × List Nat × lru.Cache
  | _, [], state => state
  | i, key :: keys, (results, missIndices, cache) =>
    match lru.get key cache with
    | (some embedding, cache) => readHits (i + 1) keys (results.set i (some embedding), missIndices, cache)
    | (none, cache) => readHits (i + 1) keys (results, missIndices ++ [i], cache)

/-- The second lock of a batch: the new embeddings are pushed, but for those that the cache could not keep. -/
def storeMisses (keys : List Key) (missIndices : List Nat) (newEmbeddings : List V) (cache : lru.Cache) : lru.Cache :=
  let skip := missIndices.length - lru.cap cache
  ((missIndices.drop skip).zip (newEmbeddings.drop skip)).foldl
    (fun cache pair =>
      match keys[pair.1]? with
      | some key => lru.push key pair.2 cache
      | none => cache)
    cache

/-- `embed_batch`. -/
def embedBatch (failure : Option EmbeddingError) (others : List CacheTouch) (texts : List Str) (cache : lru.Cache) :
    Except EmbeddingError (List V) × lru.Cache :=
  if texts = [] then (.ok [], cache)
  else
    let keys := texts.map cached.cacheKey
    let (results, missIndices, cache) := readHits 0 keys (List.replicate texts.length none, [], cache)
    if missIndices = [] then (collectSlots 0 results, cache)
    else
      let cache := cached.meanwhile others cache
      let missTexts := missIndices.filterMap (texts[·]?)
      match (cached.inner.failing failure).embedBatch missTexts with
      | .error e => (.error e, cache)
      | .ok newEmbeddings =>
        if newEmbeddings.length ≠ missIndices.length then
          (.error (.invalidResponse ("embed_batch returned ".toList ++ (Nat.repr newEmbeddings.length).toList ++
            " embeddings, expected ".toList ++ (Nat.repr missIndices.length).toList)), cache)
        else
          let cache := storeMisses keys missIndices newEmbeddings cache
          (collectSlots 0 (scatter results (missIndices.zip newEmbeddings)), cache)

end CachedEmbeddingProvider

/-- A call on the cached provider, with what happens meanwhile. -/
inductive CacheCall
  | embed (failure : Option EmbeddingError) (others : List CacheTouch) (text : Str)
  | embedBatch (failure : Option EmbeddingError) (others : List CacheTouch) (texts : List Str)
  | clear

/-! ## The first lock -/

section Reading

variable {V Key : Type} {lru : LruCache Key V}

/-- The indices of the keys that the cache does not hold. -/
def missesFrom (cache : lru.Cache) : Nat → List Key → List Nat
  | _, [] => []
  | i, key :: keys =>
    if lru.lookup key cache = none then i :: missesFrom cache (i + 1) keys else missesFrom cache (i + 1) keys

/-- **What the first lock reads**: in each slot what the cache holds for its key, and the indices of the empty ones. -/
theorem readHits_eq (cache : lru.Cache) :
    ∀ (keys : List Key) (pre : List (Option V)) (misses : List Nat) {c : lru.Cache},
    lru.Reordered cache c → ∃ c', lru.Reordered cache c' ∧
      CachedEmbeddingProvider.readHits pre.length keys (pre ++ List.replicate keys.length none, misses, c) =
        (pre ++ keys.map (lru.lookup · cache), misses ++ missesFrom cache pre.length keys, c')
  | [], pre, misses, c, h => ⟨c, h, by simp [CachedEmbeddingProvider.readHits, missesFrom]⟩
  | key :: keys, pre, misses, c, h => by
    have hget : lru.get key c = (lru.lookup key cache, (lru.get key c).2) :=
      Prod.ext ((lru.get_fst key c).trans (h.lookup key)) rfl
    rw [CachedEmbeddingProvider.readHits, hget, missesFrom, List.length_cons, List.replicate_succ, List.map_cons]
    cases hkey : lru.lookup key cache with
    | some embedding =>
      obtain ⟨c', hc', heq⟩ := readHits_eq cache keys (pre ++ [some embedding]) misses (h.get key)
      refine ⟨c', hc', ?_⟩
      rw [if_neg (Option.some_ne_none embedding)]
      dsimp only
      rw [List.set_append_right _ _ (Nat.le_refl _), Nat.sub_self, List.set_cons_zero]
      rw [List.length_append, List.length_singleton, List.append_assoc, List.append_assoc] at heq
      exact heq
    | none =>
      obtain ⟨c', hc', heq⟩ := readHits_eq cache keys (pre ++ [none]) (misses ++ [pre.length]) (h.get key)
      refine ⟨c', hc', ?_⟩
      rw [if_pos rfl]
      dsimp only
      rw [List.length_append, List.length_singleton, List.append_assoc, List.append_assoc, List.append_assoc] at heq
      exact heq

end Reading

/-! ## Asking for the misses -/

section Misses

variable {V Key : Type} {lru : LruCache Key V} {f : Str → Except EmbeddingError V} {key : Str → Key} {cache : lru.Cache}

/-- What the cache holds for a text is its embedding. -/
def Coherent (f : Str → Except EmbeddingError V) (key : Str → Key) (cache : lru.Cache) : Prop :=
  lru.Holds (fun k v => ∀ text, key text = k → f text = .ok v) cache

/-- The texts that the cache does not hold. -/
def missed (key : Str → Key) (cache : lru.Cache) (texts : List Str) : List Str :=
  texts.filter fun text => decide (lru.lookup (key text) cache = none)

variable {text : Str} {texts : List Str} {v : V}

theorem missed_cons_hit (h : lru.lookup (key text) cache = some v) :
    missed key cache (text :: texts) = missed key cache texts :=
  List.filter_cons_of_neg (by simp [h])

theorem missed_cons_miss (h : lru.lookup (key text) cache = none) :
    missed key cache (text :: texts) = text :: missed key cache texts :=
  List.filter_cons_of_pos (by simp [h])

theorem missesFrom_cons_hit (h : lru.lookup (key text) cache = some v) (i : Nat) :
    missesFrom cache i ((text :: texts).map key) = missesFrom cache (i + 1) (texts.map key) :=
  if_neg (by simp [h])

theorem missesFrom_cons_miss (h : lru.lookup (key text) cache = none) (i : Nat) :
    missesFrom cache i ((text :: texts).map key) = i :: missesFrom cache (i + 1) (texts.map key) :=
  if_pos h

theorem mapM_cons_ok (h : f text = .ok v) : (text :: texts).mapM f = (texts.mapM f).map (v :: ·) := by
  rw [List.mapM_cons, h]
  cases texts.mapM f <;> rfl

theorem mapM_cons_error {e : EmbeddingError} (h : f text = .error e) : (text :: texts).mapM f = .error e := by
  rw [List.mapM_cons, h]
  rfl

/-- A batch that succeeds, by its first text. -/
theorem of_mapM_cons_ok {vs : List V} (h : (text :: texts).mapM f = .ok vs) :
    ∃ v vs', f text = .ok v ∧ texts.mapM f = .ok vs' ∧ vs = v :: vs' := by
  cases hf : f text with
  | error e =>
    rw [mapM_cons_error hf] at h
    cases h
  | ok v =>
    rw [mapM_cons_ok hf] at h
    cases hrest : texts.mapM f with
    | error e =>
      rw [hrest] at h
      cases h
    | ok vs' =>
      rw [hrest] at h
      cases h
      exact ⟨v, vs', rfl, rfl, rfl⟩

theorem length_of_mapM : ∀ {texts : List Str} {vs : List V}, texts.mapM f = .ok vs → vs.length = texts.length
  | [], _, h => by
    cases h
    rfl
  | text :: texts, _, h => by
    obtain ⟨v, vs, -, hrest, rfl⟩ := of_mapM_cons_ok h
    rw [List.length_cons, List.length_cons, length_of_mapM hrest]

variable (key cache)

/-- The missed texts, read by the indices of the misses. -/
theorem filterMap_missesFrom : ∀ (texts pre : List Str),
    (missesFrom cache pre.length (texts.map key)).filterMap ((pre ++ texts)[·]?) = missed key cache texts
  | [], _ => rfl
  | text :: texts, pre => by
    have ih := filterMap_missesFrom texts (pre ++ [text])
    rw [List.length_append, List.length_singleton, ← List.append_cons] at ih
    cases hhit : lru.lookup (key text) cache with
    | some v => rw [missesFrom_cons_hit hhit, missed_cons_hit hhit, ih]
    | none =>
      rw [missesFrom_cons_miss hhit, missed_cons_miss hhit, List.filterMap_cons_some (b := text), ih]
      simp

theorem length_missesFrom : ∀ (i : Nat) (texts : List Str),
    (missesFrom cache i (texts.map key)).length = (missed key cache texts).length
  | _, [] => rfl
  | i, text :: texts => by
    have ih := length_missesFrom (i + 1) texts
    cases hhit : lru.lookup (key text) cache with
    | some v => rw [missesFrom_cons_hit hhit, missed_cons_hit hhit, ih]
    | none => rw [missesFrom_cons_miss hhit, missed_cons_miss hhit, List.length_cons, List.length_cons, ih]

variable {key cache}

/-- A failure among the misses is the first failure of the whole batch. -/
theorem mapM_error_of_missed (hcoherent : Coherent f key cache) {e : EmbeddingError} : ∀ {texts : List Str},
    (missed key cache texts).mapM f = .error e → texts.mapM f = .error e
  | [], h => by cases h
  | text :: texts, h => by
    cases hhit : lru.lookup (key text) cache with
    | some v =>
      rw [missed_cons_hit hhit] at h
      rw [mapM_cons_ok (hcoherent _ v hhit text rfl), mapM_error_of_missed hcoherent h]
      rfl
    | none =>
      rw [missed_cons_miss hhit] at h
      cases hf : f text with
      | error e' =>
        rw [mapM_cons_error hf] at h ⊢
        exact h
      | ok v =>
        rw [mapM_cons_ok hf] at h ⊢
        cases hrest : (missed key cache texts).mapM f with
        | ok vs =>
          rw [hrest] at h
          cases h
        | error e' =>
          rw [hrest] at h
          rw [mapM_error_of_missed hcoherent hrest]
          exact h

/-- **The misses, asked for on their own and put back by their indices, complete the hits** to what the whole batch
gives. -/
theorem scatter_hits (hcoherent : Coherent f key cache) : ∀ (texts : List Str) (pre : List (Option V)) {news : List V},
    (missed key cache texts).mapM f = .ok news → ∃ vs, texts.mapM f = .ok vs ∧
      scatter (pre ++ texts.map fun text => lru.lookup (key text) cache)
        ((missesFrom cache pre.length (texts.map key)).zip news) = pre ++ vs.map some
  | [], pre, news, _ => ⟨[], rfl, by simp [scatter, missesFrom]⟩
  | text :: texts, pre, news, h => by
    cases hhit : lru.lookup (key text) cache with
    | some v =>
      rw [missed_cons_hit hhit] at h
      obtain ⟨vs, hvs, hscatter⟩ := scatter_hits hcoherent texts (pre ++ [some v]) h
      rw [List.length_append, List.length_singleton, List.append_assoc, List.append_assoc] at hscatter
      refine ⟨v :: vs, ?_, ?_⟩
      · rw [mapM_cons_ok (hcoherent _ v hhit text rfl), hvs]
        rfl
      · rw [missesFrom_cons_hit hhit, List.map_cons, hhit]
        exact hscatter
    | none =>
      rw [missed_cons_miss hhit] at h
      obtain ⟨v, news, hf, hrest, rfl⟩ := of_mapM_cons_ok h
      obtain ⟨vs, hvs, hscatter⟩ := scatter_hits hcoherent texts (pre ++ [some v]) hrest
      rw [List.length_append, List.length_singleton, List.append_assoc, List.append_assoc] at hscatter
      refine ⟨v :: vs, ?_, ?_⟩
      · rw [mapM_cons_ok hf, hvs]
        rfl
      · rw [missesFrom_cons_miss hhit, List.map_cons, List.zip_cons_cons, scatter, List.foldl_cons]
        rw [List.set_append_right _ _ (Nat.le_refl _), Nat.sub_self, List.set_cons_zero]
        exact hscatter

/-- Each new embedding belongs to the text at its index. -/
theorem mem_zip_misses : ∀ (texts pre : List Str) {news : List V}, (missed key cache texts).mapM f = .ok news →
    ∀ pair ∈ (missesFrom cache pre.length (texts.map key)).zip news,
      ∃ text, (pre ++ texts)[pair.1]? = some text ∧ f text = .ok pair.2
  | [], _, _, _, _, hpair => by cases hpair
  | text :: texts, pre, news, h, pair, hpair => by
    cases hhit : lru.lookup (key text) cache with
    | some v =>
      rw [missed_cons_hit hhit] at h
      rw [missesFrom_cons_hit hhit] at hpair
      have ih := mem_zip_misses texts (pre ++ [text]) h pair
      rw [List.length_append, List.length_singleton, ← List.append_cons] at ih
      exact ih hpair
    | none =>
      rw [missed_cons_miss hhit] at h
      obtain ⟨v, news, hf, hrest, rfl⟩ := of_mapM_cons_ok h
      rw [missesFrom_cons_miss hhit, List.zip_cons_cons] at hpair
      rcases List.mem_cons.mp hpair with rfl | hpair
      · exact ⟨text, by simp, hf⟩
      · have ih := mem_zip_misses texts (pre ++ [text]) hrest pair
        rw [List.length_append, List.length_singleton, ← List.append_cons] at ih
        exact ih hpair

theorem collectSlots_map_some : ∀ (i : Nat) (vs : List V), collectSlots i (vs.map some) = .ok vs
  | _, [] => rfl
  | i, v :: vs => by
    rw [List.map_cons, collectSlots, collectSlots_map_some (i + 1) vs]
    rfl

end Misses

/-! ## The calls -/

section Calls

open CachedEmbeddingProvider

variable {V Key : Type} {lru : LruCache Key V} {cached : CachedEmbeddingProvider V Key} {cache : lru.Cache}

/-- What one call does: it answers as the inner provider does, or fails as its call of the inner provider fails; the
cache stays within its capacity, and every entry is the inner provider's answer for its text; a failed call leaves the
entries to the other callers. -/
structure Answers {α : Type} (cached : CachedEmbeddingProvider V Key) (failure : Option EmbeddingError)
    (others : List CacheTouch) (own : Except EmbeddingError α) (before : lru.Cache)
    (r : Except EmbeddingError α × lru.Cache) : Prop where
  result : r.1 = own ∨ ∃ e, failure = some e ∧ r.1 = .error e
  cap : lru.cap r.2 = lru.cap before
  len : lru.len r.2 ≤ lru.cap before
  coherent : Coherent cached.inner.embed cached.cacheKey r.2
  unchanged : ∀ e, r.1 = .error e → ∃ c, lru.Reordered before c ∧ r.2 = cached.meanwhile others c

theorem cacheKey_injective (hhash : Function.Injective cached.hash) : Function.Injective cached.cacheKey := by
  intro a b h
  have htexts := List.append_cancel_left (hhash h)
  exact (List.cons.inj htexts).2

/-- The embedding of a text is stored under the key of no other text. -/
theorem Coherent.push (hhash : Function.Injective cached.hash) (h : Coherent cached.inner.embed cached.cacheKey cache)
    {text : Str} {v : V} (hv : cached.inner.embed text = .ok v) :
    Coherent cached.inner.embed cached.cacheKey (lru.push (cached.cacheKey text) v cache) := by
  refine LruCache.Holds.push h fun other hkey => ?_
  rw [cacheKey_injective hhash hkey]
  exact hv

@[simp] theorem touch_cap (touch : CacheTouch) : lru.cap (cached.touch cache touch) = lru.cap cache := by
  unfold CachedEmbeddingProvider.touch
  split
  · exact lru.cap_get _ _
  · split
    · exact lru.cap_push _ _ _
    · rfl
  · exact lru.cap_clear _

theorem touch_coherent (hhash : Function.Injective cached.hash)
    (h : Coherent cached.inner.embed cached.cacheKey cache) (touch : CacheTouch) :
    Coherent cached.inner.embed cached.cacheKey (cached.touch cache touch) := by
  cases touch with
  | get text => exact LruCache.Holds.of_reordered h ((LruCache.Reordered.refl cache).get _)
  | push text =>
    unfold CachedEmbeddingProvider.touch
    dsimp only
    split
    next v hv => exact h.push hhash hv
    · exact h
  | clear => exact LruCache.holds_of_none fun k => lru.lookup_clear k cache

theorem meanwhile_cap (others : List CacheTouch) : lru.cap (cached.meanwhile others cache) = lru.cap cache := by
  induction others generalizing cache with
  | nil => rfl
  | cons touch others ih => exact ih.trans (touch_cap touch)

theorem meanwhile_coherent (hhash : Function.Injective cached.hash) (others : List CacheTouch)
    (h : Coherent cached.inner.embed cached.cacheKey cache) :
    Coherent cached.inner.embed cached.cacheKey (cached.meanwhile others cache) := by
  induction others generalizing cache with
  | nil => exact h
  | cons touch others ih => exact ih (touch_coherent hhash h touch)

/-- The second lock of a batch. -/
theorem storeMisses_inv (hhash : Function.Injective cached.hash) {texts : List Str} {missIndices : List Nat}
    {news : List V}
    (hnews : ∀ pair ∈ missIndices.zip news, ∃ text, texts[pair.1]? = some text ∧ cached.inner.embed text = .ok pair.2)
    (h : Coherent cached.inner.embed cached.cacheKey cache) :
    Coherent cached.inner.embed cached.cacheKey
        (storeMisses (texts.map cached.cacheKey) missIndices news cache) ∧
      lru.cap (storeMisses (texts.map cached.cacheKey) missIndices news cache) = lru.cap cache := by
  have hdrop :
    (missIndices.drop (missIndices.length - lru.cap cache)).zip (news.drop (missIndices.length - lru.cap cache)) =
      (missIndices.zip news).drop (missIndices.length - lru.cap cache) := (List.drop_zipWith ..).symm
  unfold storeMisses
  dsimp only
  rw [hdrop]
  have hpairs := fun pair hpair => hnews pair (List.mem_of_mem_drop (i := missIndices.length - lru.cap cache) hpair)
  clear hdrop
  generalize (missIndices.zip news).drop (missIndices.length - lru.cap cache) = pairs at hpairs
  -- the pairs are pushed one by one
  induction pairs generalizing cache with
  | nil => exact ⟨h, rfl⟩
  | cons pair pairs ih =>
    obtain ⟨hpair, hpairs⟩ := List.forall_mem_cons.mp hpairs
    obtain ⟨text, htext, hv⟩ := hpair
    rw [List.foldl_cons, List.getElem?_map, htext]
    obtain ⟨hstored, hcap⟩ := ih (h.push hhash hv) hpairs
    exact ⟨hstored, hcap.trans (lru.cap_push _ _ _)⟩

/-- The call of the inner provider gives its answer, or the failure. -/
theorem embed_answers (hhash : Function.Injective cached.hash) (h : Coherent cached.inner.embed cached.cacheKey cache)
    (failure : Option EmbeddingError) (others : List CacheTouch) (text : Str) :
    Answers cached failure others (cached.inner.embed text) cache (cached.embed failure others text cache) := by
  have hfirst : lru.Reordered cache (lru.get (cached.cacheKey text) cache).2 := (LruCache.Reordered.refl cache).get _
  have hget : lru.get (cached.cacheKey text) cache =
      (lru.lookup (cached.cacheKey text) cache, (lru.get (cached.cacheKey text) cache).2) := LruCache.get_eq _ _
  unfold CachedEmbeddingProvider.embed
  dsimp only
  rw [hget]
  generalize (lru.get (cached.cacheKey text) cache).2 = first at hfirst
  cases hhit : lru.lookup (cached.cacheKey text) cache with
  | some v =>
    refine ⟨.inl (h _ v hhit text rfl).symm, hfirst.cap, (lru.len_le first).trans_eq hfirst.cap,
      LruCache.Holds.of_reordered h hfirst, ?_⟩
    intro e he
    cases he
  | none =>
    dsimp only
    have hcap : lru.cap (cached.meanwhile others first) = lru.cap cache := (meanwhile_cap others).trans hfirst.cap
    have hkept := meanwhile_coherent hhash others (LruCache.Holds.of_reordered h hfirst)
    cases hanswer : (cached.inner.failing failure).embed text with
    | error e =>
      refine ⟨?_, hcap, (lru.len_le (cached.meanwhile others first)).trans_eq hcap, hkept, fun _ _ =>
        ⟨first, hfirst, rfl⟩⟩
      cases failure with
      | none => exact .inl hanswer.symm
      | some e' => exact .inr ⟨e', rfl, hanswer.symm⟩
    | ok v =>
      have hown : cached.inner.embed text = .ok v := by
        cases failure with
        | none => exact hanswer
        | some e' => cases hanswer
      have hread := (LruCache.Reordered.refl (cached.meanwhile others first)).get (cached.cacheKey text)
      have hsecond : lru.get (cached.cacheKey text) (cached.meanwhile others first) =
          (lru.lookup (cached.cacheKey text) (cached.meanwhile others first),
            (lru.get (cached.cacheKey text) (cached.meanwhile others first)).2) := LruCache.get_eq _ _
      dsimp only
      rw [hsecond]
      generalize (lru.get (cached.cacheKey text) (cached.meanwhile others first)).2 = second at hread
      have hsecondCap : lru.cap second = lru.cap cache := hread.cap.trans hcap
      cases lru.lookup (cached.cacheKey text) (cached.meanwhile others first) with
      | some w =>
        refine ⟨.inl hown.symm, hsecondCap, (lru.len_le second).trans_eq hsecondCap,
          LruCache.Holds.of_reordered hkept hread, ?_⟩
        intro e he
        cases he
      | none =>
        have hpushed := (lru.cap_push (cached.cacheKey text) v second).trans hsecondCap
        refine ⟨.inl hown.symm, hpushed, (lru.len_le _).trans_eq hpushed,
          Coherent.push hhash (LruCache.Holds.of_reordered hkept hread) hown, ?_⟩
        intro e he
        cases he

/-- A batch gives what its texts give one by one, in their order. -/
theorem embedBatch_answers (hhash : Function.Injective cached.hash) (hinner : cached.inner.Pointwise)
    (h : Coherent cached.inner.embed cached.cacheKey cache) (failure : Option EmbeddingError) (others : List CacheTouch)
    (texts : List Str) :
    Answers cached failure others (cached.inner.embedBatch texts) cache
      (cached.embedBatch failure others texts cache) := by
  unfold CachedEmbeddingProvider.embedBatch
  by_cases hempty : texts = []
  · rw [if_pos hempty, hinner texts, hempty]
    exact ⟨.inl rfl, rfl, lru.len_le cache, h, fun e he => by cases he⟩
  rw [if_neg hempty, hinner texts]
  obtain ⟨first, hfirst, hread⟩ := readHits_eq cache (texts.map cached.cacheKey) [] [] (LruCache.Reordered.refl cache)
  rw [List.length_map, List.length_nil, List.nil_append, List.nil_append, List.nil_append, List.map_map] at hread
  dsimp only
  rw [hread]
  dsimp only
  have hmissed := filterMap_missesFrom cached.cacheKey cache texts []
  have hlength := length_missesFrom cached.cacheKey cache 0 texts
  rw [List.length_nil, List.nil_append] at hmissed
  by_cases hall : missesFrom cache 0 (texts.map cached.cacheKey) = []
  · -- every text is there
    have hnone : missed cached.cacheKey cache texts = [] := by
      rw [hall] at hmissed
      exact hmissed.symm
    have hnothing : (missed cached.cacheKey cache texts).mapM cached.inner.embed = .ok [] := by
      rw [hnone]
      rfl
    obtain ⟨vs, hvs, hscatter⟩ := scatter_hits h texts [] hnothing
    rw [List.zip_nil_right] at hscatter
    have hresults : texts.map (fun text => lru.lookup (cached.cacheKey text) cache) = vs.map some := hscatter
    rw [if_pos hall]
    refine ⟨.inl ?_, hfirst.cap, (lru.len_le first).trans_eq hfirst.cap, LruCache.Holds.of_reordered h hfirst,
      fun e he => ?_⟩
    · show collectSlots 0 (texts.map fun text => lru.lookup (cached.cacheKey text) cache) = _
      rw [hresults, collectSlots_map_some, hvs]
    · have hok : collectSlots 0 (texts.map fun text => lru.lookup (cached.cacheKey text) cache) = .error e := he
      rw [hresults, collectSlots_map_some] at hok
      cases hok
  rw [if_neg hall]
  have hcap : lru.cap (cached.meanwhile others first) = lru.cap cache := (meanwhile_cap others).trans hfirst.cap
  have hkept := meanwhile_coherent hhash others (LruCache.Holds.of_reordered h hfirst)
  rw [hmissed]
  cases hanswer : (cached.inner.failing failure).embedBatch (missed cached.cacheKey cache texts) with
  | error e =>
    refine ⟨?_, hcap, (lru.len_le (cached.meanwhile others first)).trans_eq hcap, hkept, fun _ _ =>
      ⟨first, hfirst, rfl⟩⟩
    cases failure with
    | none => exact .inl (mapM_error_of_missed h ((hinner _).symm.trans hanswer)).symm
    | some e' => exact .inr ⟨e', rfl, hanswer.symm⟩
  | ok news =>
    have hnews : (missed cached.cacheKey cache texts).mapM cached.inner.embed = .ok news := by
      cases failure with
      | none => exact (hinner _).symm.trans hanswer
      | some e' => cases hanswer
    obtain ⟨vs, hvs, hscatter⟩ := scatter_hits h texts [] hnews
    have hstored := storeMisses_inv hhash (mem_zip_misses texts [] hnews) hkept
    have hok : collectSlots 0 (scatter (texts.map fun text => lru.lookup (cached.cacheKey text) cache)
        ((missesFrom cache 0 (texts.map cached.cacheKey)).zip news)) = .ok vs :=
      (congrArg (collectSlots 0) hscatter).trans (collectSlots_map_some 0 vs)
    dsimp only
    rw [if_neg (not_not_intro ((length_of_mapM hnews).trans hlength.symm))]
    refine ⟨.inl (hok.trans hvs.symm), hstored.2.trans hcap, (lru.len_le _).trans_eq (hstored.2.trans hcap),
      hstored.1, ?_⟩
    intro e he
    cases hok.symm.trans he

end Calls

/-! ## Runs -/

namespace CacheCall

variable {V Key : Type} {lru : LruCache Key V} (cached : CachedEmbeddingProvider V Key)

/-- The cache that a call leaves. -/
def apply (cache : lru.Cache) : CacheCall → lru.Cache
  | embed failure others text => (cached.embed failure others text cache).2
  | embedBatch failure others texts => (cached.embedBatch failure others texts cache).2
  | clear => lru.clear cache

/-- The call answers as the inner provider does. -/
def Transparent (cache : lru.Cache) : CacheCall → Prop
  | embed failure others text =>
    Answers cached failure others (cached.inner.embed text) cache (cached.embed failure others text cache)
  | embedBatch failure others texts =>
    Answers cached failure others (cached.inner.embedBatch texts) cache (cached.embedBatch failure others texts cache)
  | clear => True

end CacheCall

/-- **The cache of embeddings is transparent**: in every run from the empty cache, with any capacity, every call gives
what the inner provider gives for its texts, in their order, unless its call of the inner provider fails; then the
entries stay. -/
theorem cache_transparent {V Key : Type} (lru : LruCache Key V) (cached : CachedEmbeddingProvider V Key)
    (hhash : Function.Injective cached.hash) (hinner : cached.inner.Pointwise) (maxEntries : Nat)
    (calls : List CacheCall) :
    Along (CacheCall.apply cached) (fun cache call => lru.cap cache = max maxEntries 1 ∧
      CacheCall.Transparent cached cache call)
      (CachedEmbeddingProvider.new lru maxEntries) calls := by
  have hcall : ∀ (cache : lru.Cache) (call : CacheCall), Coherent cached.inner.embed cached.cacheKey cache →
      CacheCall.Transparent cached cache call := by
    intro cache call h
    cases call with
    | embed failure others text => exact embed_answers hhash h failure others text
    | embedBatch failure others texts => exact embedBatch_answers hhash hinner h failure others texts
    | clear => trivial
  refine along_inv (G := fun _ _ => True)
    (I := fun cache => lru.cap cache = max maxEntries 1 ∧ Coherent cached.inner.embed cached.cacheKey cache) ?_
    (fun cache call _ h => ⟨h.1, hcall cache call h.2⟩) calls
    ⟨lru.cap_empty _ _, LruCache.holds_of_none (lru.lookup_empty _ _)⟩
    (along_of_forall fun _ _ => trivial)
  rintro cache call - ⟨hcap, h⟩
  cases call with
  | embed failure others text =>
    have hanswers := embed_answers hhash h failure others text
    exact ⟨hanswers.cap.trans hcap, hanswers.coherent⟩
  | embedBatch failure others texts =>
    have hanswers := embedBatch_answers hhash hinner h failure others texts
    exact ⟨hanswers.cap.trans hcap, hanswers.coherent⟩
  | clear => exact ⟨(lru.cap_clear cache).trans hcap, touch_coherent hhash h .clear⟩

/-- A provider that gives the length of a text, behind a cache of one entry that is asked for a repeated text. -/
theorem cache_transparent_lengths :
    let inner : EmbeddingProvider Nat :=
      ⟨"m".toList, fun text => .ok text.length, fun texts => texts.mapM fun text => .ok text.length⟩
    Along (CacheCall.apply ⟨inner, id⟩) (fun cache call => (leastRecent Str Nat).cap cache = 1 ∧
      CacheCall.Transparent ⟨inner, id⟩ cache call)
      (CachedEmbeddingProvider.new (leastRecent Str Nat) 1)
      [.embed none [] "a".toList, .embedBatch none [.push "b".toList] ["a".toList, "b".toList, "a".toList]] :=
  cache_transparent _ _ Function.injective_id (fun _ => rfl) 1 _

end Ironclaw.Workspace
