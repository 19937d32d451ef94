import Ironclaw.Lib.Run
import Ironclaw.Lib.Table
import Ironclaw.Llm.CacheKey

/-!
# The response cache

`CachedProvider`: a call of `complete` takes the time, looks its key up under the lock of the cache, calls the provider
on a miss, and stores the response under the lock again, after it has dropped expired entries and those that were not
used for longest. Any number of calls interleave. The counters for the statistics are left out: nothing reads them but a
log line.

- `len_evict`, `len_storeResponse`: the number of entries;
- `inv_step`: every entry and every hit goes back to a response that was stored in time;
- `cache_sound`: what holds of every run.
-/

namespace Ironclaw.Llm

open Run

structure ResponseCacheConfig where
  ttl : Nat
  maxEntries : Nat

structure CacheEntry where
  response : CompletionResponse
  createdAt : Nat
  lastAccessed : Nat
  hitCount : Nat

abbrev Cache := Table Str CacheEntry

abbrev CacheOrder := Table.Iteration Str CacheEntry

/-! ## The steps under the lock -/

section Locked

variable (config : ResponseCacheConfig) (now : Nat)

/-- The entry is not older than the time to live; an entry from later on has no age. -/
def CacheEntry.fresh (entry : CacheEntry) : Bool := decide (now - entry.createdAt < config.ttl)

/-- The lookup: a fresh entry is a hit, an expired one is removed. -/
def lookupResponse (key : Str) (cache : Cache) : Option CompletionResponse × Cache :=
  match cache.lookup key with
  | none => (none, cache)
  | some entry =>
    if entry.fresh config now then
      (some entry.response,
        Table.modify key (fun entry => { entry with lastAccessed := now, hitCount := entry.hitCount + 1 }) cache)
    else (none, cache.erase key)

/-- The key of an entry that was not used for longest. -/
def oldestKey (order : CacheOrder) (cache : Cache) : Option Str :=
  (List.argmin (fun e : Sigma fun _ : Str => CacheEntry => e.2.lastAccessed) (order.entries cache)).map Sigma.fst

/-- The loop that makes room; the first argument is the number of entries. -/
def evict (order : CacheOrder) : Nat → Cache → Cache
  | 0, cache => cache
  | n + 1, cache =>
    if config.maxEntries ≤ Table.len cache then
      match oldestKey order cache with
      | some key => evict order n (cache.erase key)
      | none => cache
    else cache

/-- A response is stored with the time of its call. -/
def storeResponse (order : CacheOrder) (key : Str) (response : CompletionResponse) (cache : Cache) : Cache :=
  let cache := Table.retain (fun _ entry => entry.fresh config now) cache
  let cache := evict config order (Table.len cache) cache
  cache.insert key ⟨response, now, now, 0⟩

end Locked

/-! ## Calls -/

/-- A request with its effective model and the time that its call took at the start. -/
structure Asked where
  model : Str
  request : CompletionRequest
  now : Nat

/-- Where a call of `complete` stands. -/
inductive CacheCall
  | lookup (asked : Asked)
  | inner (asked : Asked)
  | store (asked : Asked) (result : Except Str CompletionResponse)
  | returned (result : Except Str CompletionResponse)

/-- What happened: the provider answered a request, a response was stored at a time, a call found a response, or a
request with tools was answered. -/
inductive CacheEvent
  | produced (asked : Asked) (response : CompletionResponse)
  | stored (asked : Asked) (response : CompletionResponse) (time : Nat)
  | hit (asked : Asked) (response : CompletionResponse)
  | withTools (result : Except Str ToolCompletionResponse)

/-- The cache, the clock and the calls; the log has the last event first. -/
structure CachedProvider where
  cache : Cache
  clock : Nat
  calls : List CacheCall
  log : List CacheEvent

/-- A step: time passes, a call begins (the effective model comes from the provider), the cache is cleared, or a call
goes on, with the answer of the provider and the order in which the map is iterated. -/
inductive CacheLabel
  | tick (d : Nat)
  | complete (model : Str) (request : CompletionRequest)
  | completeWithTools (result : Except Str ToolCompletionResponse)
  | clear
  | advance (i : Nat) (answer : Except Str CompletionResponse) (order : CacheOrder)

def Asked.key (sha256 : List UInt8 → Str) (asked : Asked) : Str := cacheKey sha256 asked.model asked.request

namespace CachedProvider

def initial : CachedProvider := ⟨∅, 0, [], []⟩

section Step

variable (sha256 : List UInt8 → Str) (config : ResponseCacheConfig) (w : CachedProvider)

/-- The next step of a call. -/
def callStep (answer : Except Str CompletionResponse) (order : CacheOrder) : CacheCall → CachedProvider × CacheCall
  | .lookup asked =>
    match lookupResponse config asked.now (asked.key sha256) w.cache with
    | (some response, cache) =>
      ({ w with cache := cache, log := .hit asked response :: w.log }, .returned (.ok response))
    | (none, cache) => ({ w with cache := cache }, .inner asked)
  | .inner asked =>
    match answer with
    | .ok response => ({ w with log := .produced asked response :: w.log }, .store asked (.ok response))
    | .error e => (w, .store asked (.error e))
  | .store asked (.ok response) =>
    ({ w with
      cache := storeResponse config asked.now order (asked.key sha256) response w.cache
      log := .stored asked response w.clock :: w.log }, .returned (.ok response))
  | .store _ (.error e) => (w, .returned (.error e))
  | .returned result => (w, .returned result)

def step : CacheLabel → CachedProvider
  | .tick d => { w with clock := w.clock + d }
  | .complete model request => { w with calls := w.calls ++ [.lookup ⟨model, request, w.clock⟩] }
  | .completeWithTools result => { w with log := .withTools result :: w.log }
  | .clear => { w with cache := ∅ }
  | .advance i answer order =>
    match w.calls[i]? with
    | none => w
    | some call =>
      { (callStep sha256 config w answer order call).1 with
        calls := w.calls.set i (callStep sha256 config w answer order call).2 }

end Step

end CachedProvider

/-! ## The number of entries -/

section Bound

variable {config : ResponseCacheConfig} {order : CacheOrder}

theorem oldestKey_mem {cache : Cache} {key : Str} (h : oldestKey order cache = some key) : key ∈ cache := by
  obtain ⟨e, he, rfl⟩ := Option.map_eq_some_iff.mp h
  have hmem := (order.perm cache).mem_iff.mp (List.argmin_mem he)
  exact AList.mem_keys.mpr (List.mem_keys_of_mem hmem)

theorem len_of_oldestKey_none {cache : Cache} (h : oldestKey order cache = none) : Table.len cache = 0 := by
  have hnil := List.argmin_eq_none.mp (Option.map_eq_none_iff.mp h)
  rw [Table.len, ← (order.perm cache).length_eq, hnil, List.length_nil]

/-- The loop ends with room for one more entry, or with no entry. -/
theorem len_evict : ∀ (n : Nat) (cache : Cache), Table.len cache ≤ n →
    Table.len (evict config order n cache) < config.maxEntries ∨ Table.len (evict config order n cache) = 0
  | 0, cache, h => .inr (Nat.le_zero.mp h)
  | n + 1, cache, h => by
    rw [evict]
    split
    · split
      next key hkey =>
        have hlt := Table.len_erase_lt cache key (oldestKey_mem hkey)
        exact len_evict n (cache.erase key) (by omega)
      next hnone => exact .inr (len_of_oldestKey_none hnone)
    next hroom => exact .inl (Nat.lt_of_not_le hroom)

theorem len_storeResponse (now : Nat) (key : Str) (response : CompletionResponse) (cache : Cache) :
    Table.len (storeResponse config now order key response cache) ≤ max 1 config.maxEntries := by
  have hinsert := Table.len_insert_le
    (evict config order (Table.len (Table.retain (fun _ entry => entry.fresh config now) cache))
      (Table.retain (fun _ entry => entry.fresh config now) cache)) key ⟨response, now, now, 0⟩
  have hevict := @len_evict config order _ (Table.retain (fun _ entry => entry.fresh config now) cache) (Nat.le_refl _)
  rw [storeResponse]
  omega

end Bound

/-! ## What a lock window leaves of the entries -/

section Entries

variable {config : ResponseCacheConfig} {now : Nat} {key : Str} {cache : Cache}

theorem lookup_evict (order : CacheOrder) : ∀ (n : Nat) {cache : Cache} {k : Str} {entry : CacheEntry},
    (evict config order n cache).lookup k = some entry → cache.lookup k = some entry
  | 0, _, _, _, h => h
  | n + 1, cache, k, entry, h => by
    rw [evict] at h
    split at h
    · split at h
      next key hkey =>
        have herase := lookup_evict order n h
        rw [Table.lookup_erase] at herase
        split at herase
        · cases herase
        · exact herase
      next => exact h
    · exact h

/-- After a response was stored, an entry is the new one, or it was there before. -/
theorem lookup_storeResponse {order : CacheOrder} {response : CompletionResponse} {k : Str} {entry : CacheEntry}
    (h : (storeResponse config now order key response cache).lookup k = some entry) :
    k = key ∧ entry = ⟨response, now, now, 0⟩ ∨ cache.lookup k = some entry := by
  rw [storeResponse, Table.lookup_insert] at h
  split at h
  next hk => exact .inl ⟨hk, (Option.some.inj h).symm⟩
  next =>
    have hretained := lookup_evict order _ h
    rw [Table.lookup_retain] at hretained
    exact .inr (Option.filter_eq_some_iff.mp hretained).1

/-- An entry after a lookup has the response and the age of one before. -/
theorem lookup_lookupResponse {k : Str} {entry : CacheEntry}
    (h : (lookupResponse config now key cache).2.lookup k = some entry) :
    ∃ before, cache.lookup k = some before ∧ entry.response = before.response ∧ entry.createdAt = before.createdAt := by
  unfold lookupResponse at h
  split at h
  · exact ⟨entry, h, rfl, rfl⟩
  split at h
  · rw [Table.lookup_modify] at h
    split at h
    · obtain ⟨before, hbefore, rfl⟩ := Option.map_eq_some_iff.mp h
      exact ⟨before, hbefore, rfl, rfl⟩
    · exact ⟨entry, h, rfl, rfl⟩
  · rw [Table.lookup_erase] at h
    split at h
    · cases h
    · exact ⟨entry, h, rfl, rfl⟩

/-- A hit is the response of a fresh entry. -/
theorem hit_lookupResponse {response : CompletionResponse}
    (h : (lookupResponse config now key cache).1 = some response) :
    ∃ entry, cache.lookup key = some entry ∧ entry.response = response ∧ now < entry.createdAt + config.ttl := by
  unfold lookupResponse at h
  split at h
  · cases h
  next entry hentry =>
    split at h
    next hfresh =>
      have hage : now - entry.createdAt < config.ttl := of_decide_eq_true hfresh
      exact ⟨entry, hentry, Option.some.inj h, by omega⟩
    · cases h

end Entries

/-! ## Every hit was stored in time -/

section Runs

variable (sha256 : List UInt8 → Str) (config : ResponseCacheConfig)

/-- The response was produced for a request with the key, and then stored at the time. -/
def StoredFor (log : List CacheEvent) (key : Str) (response : CompletionResponse) (time : Nat) : Prop :=
  ∃ source : Asked, source.key sha256 = key ∧ .produced source response ∈ log ∧ .stored source response time ∈ log

/-- Every hit of the log was stored, before it, less than the time to live before its call. -/
def HitsFresh (log : List CacheEvent) : Prop :=
  ∀ asked response later earlier, log = later ++ .hit asked response :: earlier →
    ∃ time, StoredFor sha256 earlier (asked.key sha256) response time ∧ asked.now < time + config.ttl

/-- What a call relies on: its time is past, and the provider answered its request. -/
def CacheCall.Sound (w : CachedProvider) : CacheCall → Prop
  | .lookup asked => asked.now ≤ w.clock
  | .inner asked => asked.now ≤ w.clock
  | .store asked result => asked.now ≤ w.clock ∧ ∀ response, result = .ok response → .produced asked response ∈ w.log
  | .returned _ => True

/-- Every entry goes back to a response that was stored no earlier than its age tells. -/
structure Sound (w : CachedProvider) : Prop where
  entries : ∀ key entry, w.cache.lookup key = some entry →
    ∃ time, StoredFor sha256 w.log key entry.response time ∧ entry.createdAt ≤ time
  calls : ∀ call ∈ w.calls, call.Sound w
  hits : HitsFresh sha256 config w.log

variable {sha256 config}

theorem StoredFor.mono {log log' : List CacheEvent} {key : Str} {response : CompletionResponse} {time : Nat}
    (h : StoredFor sha256 log key response time) (hlog : ∀ e ∈ log, e ∈ log') :
    StoredFor sha256 log' key response time := by
  obtain ⟨source, hkey, hproduced, hstored⟩ := h
  exact ⟨source, hkey, hlog _ hproduced, hlog _ hstored⟩

theorem CacheCall.Sound.mono {w w' : CachedProvider} {call : CacheCall} (h : call.Sound w) (hclock : w.clock ≤ w'.clock)
    (hlog : ∀ e ∈ w.log, e ∈ w'.log) : call.Sound w' := by
  cases call with
  | lookup asked => exact h.trans hclock
  | inner asked => exact h.trans hclock
  | store asked result => exact ⟨h.1.trans hclock, fun response hr => hlog _ (h.2 response hr)⟩
  | returned result => trivial

theorem hitsFresh_cons {log : List CacheEvent} {event : CacheEvent} (h : HitsFresh sha256 config log)
    (hevent : ∀ asked response, event = .hit asked response →
      ∃ time, StoredFor sha256 log (asked.key sha256) response time ∧ asked.now < time + config.ttl) :
    HitsFresh sha256 config (event :: log) := by
  intro asked response later earlier heq
  cases later with
  | nil =>
    obtain ⟨hhead, rfl⟩ := List.cons.inj heq
    exact hevent asked response hhead
  | cons e later =>
    obtain ⟨-, htail⟩ := List.cons.inj heq
    exact h asked response later earlier htail

/-- The entries of another cache that has the responses and ages of the old one, while the log grows. -/
theorem Sound.entries_of {w : CachedProvider} (h : Sound sha256 config w) {log : List CacheEvent} {cache : Cache}
    (hlog : ∀ e ∈ w.log, e ∈ log) (hcache : ∀ key entry, cache.lookup key = some entry →
      ∃ before, w.cache.lookup key = some before ∧ entry.response = before.response ∧
        entry.createdAt = before.createdAt) :
    ∀ key entry, cache.lookup key = some entry →
      ∃ time, StoredFor sha256 log key entry.response time ∧ entry.createdAt ≤ time := by
  intro key entry hentry
  obtain ⟨before, hbefore, hresponse, hcreated⟩ := hcache key entry hentry
  obtain ⟨time, hstored, hle⟩ := h.entries key before hbefore
  rw [hresponse, hcreated]
  exact ⟨time, hstored.mono hlog, hle⟩

theorem calls_callStep (sha256 : List UInt8 → Str) (config : ResponseCacheConfig) (w : CachedProvider)
    (answer : Except Str CompletionResponse) (order : CacheOrder) (call : CacheCall) :
    (w.callStep sha256 config answer order call).1.calls = w.calls := by
  unfold CachedProvider.callStep
  split
  · split <;> rfl
  · split <;> rfl
  all_goals rfl

/-- A step of a call keeps what is relied on, and the call goes on with what it relies on. -/
theorem sound_callStep {w : CachedProvider} (h : Sound sha256 config w) {call : CacheCall} (hcall : call.Sound w)
    (answer : Except Str CompletionResponse) (order : CacheOrder) :
    Sound sha256 config (w.callStep sha256 config answer order call).1 ∧
      (w.callStep sha256 config answer order call).2.Sound (w.callStep sha256 config answer order call).1 := by
  have hself : ∀ e ∈ w.log, e ∈ w.log := fun _ he => he
  have hcons : ∀ event, ∀ e ∈ w.log, e ∈ event :: w.log := fun _ _ he => List.mem_cons_of_mem _ he
  have hcalls : ∀ w' : CachedProvider, w'.calls = w.calls → w.clock ≤ w'.clock → (∀ e ∈ w.log, e ∈ w'.log) →
      ∀ c ∈ w'.calls, c.Sound w' := by
    intro w' hsame hclock hlog c hc
    rw [hsame] at hc
    exact (h.calls c hc).mono hclock hlog
  cases call with
  | lookup asked =>
    rw [CachedProvider.callStep]
    have hentries : ∀ log, (∀ e ∈ w.log, e ∈ log) → ∀ key entry,
        (lookupResponse config asked.now (asked.key sha256) w.cache).2.lookup key = some entry →
          ∃ time, StoredFor sha256 log key entry.response time ∧ entry.createdAt ≤ time :=
      fun log hlog => h.entries_of hlog fun key entry => lookup_lookupResponse
    have hhit : ∀ response, (lookupResponse config asked.now (asked.key sha256) w.cache).1 = some response →
        ∃ time, StoredFor sha256 w.log (asked.key sha256) response time ∧ asked.now < time + config.ttl := by
      intro response hresponse
      obtain ⟨entry, hentry, rfl, hfresh⟩ := hit_lookupResponse hresponse
      obtain ⟨time, hstored, hle⟩ := h.entries _ entry hentry
      exact ⟨time, hstored, by omega⟩
    split
    next response cache heq =>
      rw [heq] at hentries hhit
      refine ⟨⟨hentries _ (hcons _), hcalls _ rfl (Nat.le_refl _) (hcons _), ?_⟩, trivial⟩
      refine hitsFresh_cons h.hits ?_
      rintro _ _ ⟨⟩
      exact hhit response rfl
    next cache heq =>
      rw [heq] at hentries
      exact ⟨⟨hentries _ hself, hcalls _ rfl (Nat.le_refl _) hself, h.hits⟩, hcall⟩
  | inner asked =>
    cases answer with
    | error e => exact ⟨h, hcall, nofun⟩
    | ok response =>
      refine ⟨⟨?_, hcalls _ rfl (Nat.le_refl _) (hcons _), hitsFresh_cons h.hits nofun⟩, hcall, ?_⟩
      · exact h.entries_of (hcons _) fun key entry hentry => ⟨entry, hentry, rfl, rfl⟩
      · rintro _ ⟨⟩
        exact List.mem_cons_self
  | store asked result =>
    cases result with
    | error e => exact ⟨h, trivial⟩
    | ok response =>
      refine ⟨⟨?_, hcalls _ rfl (Nat.le_refl _) (hcons _), hitsFresh_cons h.hits nofun⟩, trivial⟩
      intro key entry hentry
      obtain ⟨rfl, rfl⟩ | hbefore := lookup_storeResponse hentry
      · have hproduced := hcall.2 response rfl
        exact ⟨w.clock, ⟨asked, rfl, List.mem_cons_of_mem _ hproduced, List.mem_cons_self⟩, hcall.1⟩
      · obtain ⟨time, hstored, hle⟩ := h.entries key entry hbefore
        exact ⟨time, hstored.mono (hcons _), hle⟩
  | returned result => exact ⟨h, trivial⟩

theorem sound_step {w : CachedProvider} (h : Sound sha256 config w) : ∀ l, Sound sha256 config (w.step sha256 config l)
  | .tick d => by
    refine ⟨h.entries, fun call hcall => ?_, h.hits⟩
    exact (h.calls call hcall).mono (Nat.le_add_right _ _) fun _ he => he
  | .complete model request => by
    refine ⟨h.entries, fun call hcall => ?_, h.hits⟩
    obtain hcall | hcall := List.mem_append.mp hcall
    · exact (h.calls call hcall).mono (Nat.le_refl _) fun _ he => he
    · rw [List.mem_singleton.mp hcall]
      exact Nat.le_refl w.clock
  | .completeWithTools result => by
    have hcons : ∀ e ∈ w.log, e ∈ CacheEvent.withTools result :: w.log := fun _ he => List.mem_cons_of_mem _ he
    refine ⟨h.entries_of hcons fun _ entry hentry => ⟨entry, hentry, rfl, rfl⟩, fun call hcall => ?_, ?_⟩
    · exact (h.calls call hcall).mono (Nat.le_refl _) hcons
    · exact hitsFresh_cons h.hits nofun
  | .clear => by
    refine ⟨fun key entry hentry => ?_, fun call hcall => ?_, h.hits⟩
    · cases hentry
    · exact (h.calls call hcall).mono (Nat.le_refl _) fun _ he => he
  | .advance i answer order => by
    rw [CachedProvider.step]
    cases hcall : w.calls[i]? with
    | none => exact h
    | some call =>
      obtain ⟨hstep, hnext⟩ := sound_callStep h (h.calls call (List.mem_of_getElem? hcall)) answer order
      refine ⟨hstep.entries, fun c hc => ?_, hstep.hits⟩
      obtain hc | rfl := List.mem_or_eq_of_mem_set hc
      · rw [← calls_callStep sha256 config w answer order call] at hc
        exact (hstep.calls c hc).mono (Nat.le_refl _) fun _ he => he
      · exact hnext.mono (Nat.le_refl _) fun _ he => he

/-- What the cache promises in a state: each hit has a response that the provider produced for a request with the same
key and that was stored less than the time to live before; a call whose request failed leaves the cache as it is;
storing a response leaves at most `max_entries` entries, or one; a request with tools neither reads the cache nor
changes it. -/
structure Promised (sha256 : List UInt8 → Str) (config : ResponseCacheConfig) (w : CachedProvider) : Prop where
  hits : HitsFresh sha256 config w.log
  failed : ∀ i asked e answer order, w.calls[i]? = some (.store asked (.error e)) →
    (w.step sha256 config (.advance i answer order)).cache = w.cache
  bounded : ∀ i asked response answer order, w.calls[i]? = some (.store asked (.ok response)) →
    Table.len (w.step sha256 config (.advance i answer order)).cache ≤ max 1 config.maxEntries
  withTools : ∀ result cache, { w with cache := cache }.step sha256 config (.completeWithTools result) =
    { w.step sha256 config (.completeWithTools result) with cache := cache }

/-- **The response cache** keeps its promises in every state of every run. -/
theorem cache_sound (sha256 : List UInt8 → Str) (config : ResponseCacheConfig) (ls : List CacheLabel) :
    Promised sha256 config (run (CachedProvider.step sha256 config) .initial ls) := by
  have hinitial : Sound sha256 config .initial := by
    refine ⟨nofun, nofun, ?_⟩
    intro asked response later earlier heq
    cases later <;> cases heq
  have hstep : ∀ (w : CachedProvider) l, Sound sha256 config w → Sound sha256 config (w.step sha256 config l) :=
    fun _ l h => sound_step h l
  have hsound := run_inv_all hstep ls hinitial
  generalize run (CachedProvider.step sha256 config) .initial ls = w at hsound ⊢
  refine ⟨hsound.hits, fun i asked e answer order hcall => ?_, fun i asked response answer order hcall => ?_,
    fun _ _ => rfl⟩
  · rw [CachedProvider.step, hcall]
    rfl
  · rw [CachedProvider.step, hcall]
    exact len_storeResponse asked.now (asked.key sha256) response w.cache

end Runs

end Ironclaw.Llm
