import Ironclaw.Lib.JsonText
import Ironclaw.Lib.SlidingLog
import Ironclaw.Lib.Table

/-!
# The queue of websocket frames

A `ChannelWorkspaceStore` keeps texts by path. The frames of a websocket are queued as a JSON text at one path, which
the guest can write as well; a poll moves the queue to another path. The move takes the text away before it has read it.

- `append_cases`, `move_cases`: what an append and a move do;
- `tracks_entries`: in every run the queue is the frames of the appends since the last move;
- `unchanged_iff`: which moves that fail leave the store as it was;
- `queueLaw_iff`: the law for whole runs.
-/

namespace Ironclaw.Channels

/-- The JSON texts of arrays of strings. -/
structure QueueCodec where
  toString : List Str → Except Str Str
  fromStr : Str → Except Str (List Str)
  roundTrip : ∀ queue text, toString queue = .ok text → fromStr text = .ok queue

structure PendingWorkspaceWrite where
  path : Str
  content : Str
  deriving DecidableEq

/-- The texts by path, behind a lock that is poisoned when a thread panics while it holds it. -/
structure ChannelWorkspaceStore where
  data : Table Str Str
  poisoned : Bool

namespace ChannelWorkspaceStore

def new : ChannelWorkspaceStore := ⟨∅, false⟩

def commitWrites (store : ChannelWorkspaceStore) (writes : List PendingWorkspaceWrite) : ChannelWorkspaceStore :=
  if store.poisoned then store
  else { store with data := writes.foldl (fun data write => data.insert write.path write.content) store.data }

def lockPoisoned : Str := "workspace store lock poisoned".toList

/-- The queue at a path; a text that is none counts as the empty queue. -/
def queueAt (codec : QueueCodec) (store : ChannelWorkspaceStore) (path : Str) : List Str :=
  ((store.data.lookup path).bind fun raw => (codec.fromStr raw).toOption).getD []

def appendJsonTextQueue (codec : QueueCodec) (store : ChannelWorkspaceStore) (path text : Str) (maxItems : Nat) :
    Except Str Unit × ChannelWorkspaceStore :=
  if store.poisoned then (.error lockPoisoned, store)
  else
    let queue := store.queueAt codec path ++ [text]
    let queue := if maxItems < queue.length then queue.drop (queue.length - maxItems) else queue
    match codec.toString queue with
    | .error error => (.error ("failed to serialize websocket queue: ".toList ++ error), store)
    | .ok serialized => (.ok (), { store with data := store.data.insert path serialized })

def moveJsonTextQueue (codec : QueueCodec) (store : ChannelWorkspaceStore) (sourcePath destPath : Str) :
    Except Str Bool × ChannelWorkspaceStore :=
  if store.poisoned then (.error lockPoisoned, store)
  else
    match store.data.lookup sourcePath with
    | none => (.ok false, { store with data := store.data.erase destPath })
    | some rawQueue =>
      let data := store.data.erase sourcePath
      match codec.fromStr rawQueue with
      | .error error => (.error ("failed to deserialize websocket queue: ".toList ++ error),
        { store with data := data })
      | .ok queue =>
        if queue.isEmpty then (.ok false, { store with data := data.erase destPath })
        else (.ok true, { store with data := data.insert destPath rawQueue })

def read (store : ChannelWorkspaceStore) (path : Str) : Option Str :=
  if store.poisoned then none else store.data.lookup path

end ChannelWorkspaceStore

/-- The paths of a queue and its bound. -/
structure FrameQueue where
  sourcePath : Str
  destPath : Str
  maxItems : Nat
  pos : 1 ≤ maxItems
  ne : sourcePath ≠ destPath

inductive QueueOp
  | commitWrites (writes : List PendingWorkspaceWrite)
  | append (text : Str)
  | move
  /-- A thread panics while it holds the lock. -/
  | panic

/-- A call with its answer, and the store before and after it. -/
structure QueueEntry where
  op : QueueOp
  before : ChannelWorkspaceStore
  result : Except Str Bool
  after : ChannelWorkspaceStore

section Run

variable (codec : QueueCodec) (q : FrameQueue)

def queueStep (store : ChannelWorkspaceStore) : QueueOp → Except Str Bool × ChannelWorkspaceStore
  | .commitWrites writes => (.ok true, store.commitWrites writes)
  | .append text =>
    let appended := store.appendJsonTextQueue codec q.sourcePath text q.maxItems
    (appended.1.map fun _ => true, appended.2)
  | .move => store.moveJsonTextQueue codec q.sourcePath q.destPath
  | .panic => (.ok true, { store with poisoned := true })

/-- What happens in a run. -/
def queueEntries (store : ChannelWorkspaceStore) : List QueueOp → List QueueEntry
  | [] => []
  | op :: ops =>
    let stepped := queueStep codec q store op
    ⟨op, store, stepped.1, stepped.2⟩ :: queueEntries stepped.2 ops

end Run

/-! ## What is asked of the queue -/

/-- The frames appended since the last move, if no write touches them. -/
def track (q : FrameQueue) (frames : Option (List Str)) (e : QueueEntry) : Option (List Str) :=
  match e.op, e.result with
  | .commitWrites writes, _ =>
    if e.before.poisoned = false ∧ q.sourcePath ∈ writes.map PendingWorkspaceWrite.path then none else frames
  | .append text, .ok _ => frames.map (· ++ [text])
  | .move, .ok _ => some []
  | _, _ => frames

def sinceMove (q : FrameQueue) (es : List QueueEntry) : Option (List Str) := es.foldl (track q) (some [])

/-- The law of the queue: it is the most recent frames appended since the last move; a move that finds frames takes them
to the destination; and a call that fails leaves the store as it was. -/
structure QueueLaw (codec : QueueCodec) (q : FrameQueue) (es : List QueueEntry) : Prop where
  queue : ∀ pre e post, es = pre ++ e :: post → ∀ frames, sinceMove q (pre ++ [e]) = some frames →
    e.after.queueAt codec q.sourcePath = frames.rtake q.maxItems
  moved : ∀ pre e post, es = pre ++ e :: post → e.op = .move → e.result = .ok true →
    e.after.queueAt codec q.destPath = e.before.queueAt codec q.sourcePath ∧ e.after.read q.sourcePath = none ∧
      ∀ frames, sinceMove q pre = some frames → e.after.queueAt codec q.destPath = frames.rtake q.maxItems
  unchanged : ∀ e ∈ es, ∀ error, e.result = .error error → e.after = e.before

/-- The text that a move takes away is a queue. -/
def QueueEntry.Readable (codec : QueueCodec) (q : FrameQueue) (e : QueueEntry) : Prop :=
  e.op = .move → ∀ raw, e.before.read q.sourcePath = some raw → ∃ queue, codec.fromStr raw = .ok queue

/-! ## One call -/

/-- The entry is a call of the store. -/
def QueueEntry.Stepped (codec : QueueCodec) (q : FrameQueue) (e : QueueEntry) : Prop :=
  (e.result, e.after) = queueStep codec q e.before e.op

/-- The queue is the last of the frames that are tracked. -/
def Tracks (codec : QueueCodec) (q : FrameQueue) (frames : Option (List Str)) (store : ChannelWorkspaceStore) : Prop :=
  ∀ fs, frames = some fs → store.queueAt codec q.sourcePath = fs.rtake q.maxItems

section Call

variable {codec : QueueCodec} {q : FrameQueue} {store : ChannelWorkspaceStore} {frames : List Str}

open ChannelWorkspaceStore

theorem queueAt_of_lookup {raw path : Str} {queue : List Str} (h : store.data.lookup path = some raw)
    (hread : codec.fromStr raw = .ok queue) : store.queueAt codec path = queue := by
  rw [queueAt, h, Option.bind_some, hread]
  rfl

theorem queueAt_of_absent {path : Str} (h : store.data.lookup path = none) : store.queueAt codec path = [] := by
  rw [queueAt, h]
  rfl

theorem tracks_of_absent {data : Table Str Str} {poisoned : Bool} (h : data.lookup q.sourcePath = none) :
    Tracks codec q (some []) ⟨data, poisoned⟩ := by
  rintro fs ⟨⟩
  rw [List.rtake_nil]
  exact queueAt_of_absent h

theorem queueAt_congr {store' : ChannelWorkspaceStore} {path : Str}
    (h : store'.data.lookup path = store.data.lookup path) : store'.queueAt codec path = store.queueAt codec path := by
  rw [queueAt, queueAt, h]

theorem rtake_eq (n : Nat) (frames : List Str) :
    (if n < frames.length then frames.drop (frames.length - n) else frames) = frames.rtake n := by
  unfold List.rtake
  split
  · rfl
  next hle => rw [Nat.sub_eq_zero_of_le (Nat.not_lt.mp hle), List.drop_zero]

/-- An append fails and changes nothing, or adds the frame and keeps the last ones. -/
theorem append_cases (codec : QueueCodec) (store : ChannelWorkspaceStore) (path text : Str) (maxItems : Nat) :
    (∃ error, store.appendJsonTextQueue codec path text maxItems = (.error error, store)) ∨
      ∃ serialized, codec.fromStr serialized = .ok ((store.queueAt codec path ++ [text]).rtake maxItems) ∧
        store.appendJsonTextQueue codec path text maxItems =
          (.ok (), { store with data := store.data.insert path serialized }) := by
  simp only [appendJsonTextQueue, rtake_eq]
  split
  · exact .inl ⟨_, rfl⟩
  · cases hserialized : codec.toString ((store.queueAt codec path ++ [text]).rtake maxItems) with
    | error error => exact .inl ⟨_, rfl⟩
    | ok serialized => exact .inr ⟨serialized, codec.roundTrip _ _ hserialized, rfl⟩

/-- What a move does. -/
inductive Moved (codec : QueueCodec) (store : ChannelWorkspaceStore) (sourcePath destPath : Str) :
    Except Str Bool × ChannelWorkspaceStore → Prop
  | poisoned (h : store.poisoned = true) : Moved codec store sourcePath destPath (.error lockPoisoned, store)
  | absent (h : store.read sourcePath = none) (hlock : store.poisoned = false) :
    Moved codec store sourcePath destPath (.ok false, { store with data := store.data.erase destPath })
  | unreadable {raw error error' : Str} (h : store.read sourcePath = some raw)
      (hread : codec.fromStr raw = .error error) :
    Moved codec store sourcePath destPath (.error error', { store with data := store.data.erase sourcePath })
  | empty {raw : Str} (h : store.read sourcePath = some raw) (hread : codec.fromStr raw = .ok []) :
    Moved codec store sourcePath destPath
      (.ok false, { store with data := (store.data.erase sourcePath).erase destPath })
  | frames {raw : Str} {queue : List Str} (h : store.read sourcePath = some raw) (hread : codec.fromStr raw = .ok queue)
    (hne : queue ≠ []) : Moved codec store sourcePath destPath
      (.ok true, { store with data := (store.data.erase sourcePath).insert destPath raw })

theorem read_of_unlocked (h : store.poisoned = false) (path : Str) : store.read path = store.data.lookup path :=
  if_neg (by rw [h]; exact Bool.false_ne_true)

theorem read_eq_some {path raw : Str} (h : store.read path = some raw) :
    store.poisoned = false ∧ store.data.lookup path = some raw := by
  unfold ChannelWorkspaceStore.read at h
  split at h
  · cases h
  next hlock => exact ⟨Bool.eq_false_iff.mpr hlock, h⟩

theorem move_cases (codec : QueueCodec) (store : ChannelWorkspaceStore) (sourcePath destPath : Str) :
    Moved codec store sourcePath destPath (store.moveJsonTextQueue codec sourcePath destPath) := by
  unfold moveJsonTextQueue
  split
  next hlock => exact .poisoned hlock
  next hlock =>
    have hlock : store.poisoned = false := Bool.eq_false_iff.mpr hlock
    have hread := read_of_unlocked hlock sourcePath
    cases hraw : store.data.lookup sourcePath with
    | none => exact .absent (hread.trans hraw) hlock
    | some raw =>
      have hraw := hread.trans hraw
      dsimp only
      cases hqueue : codec.fromStr raw with
      | error error => exact .unreadable hraw hqueue
      | ok queue =>
        cases queue with
        | nil => exact .empty hraw hqueue
        | cons frame queue => exact .frames hraw hqueue (List.cons_ne_nil frame queue)

/-- A write to other paths leaves a path as it is. -/
theorem lookup_commit {path : Str} : ∀ (writes : List PendingWorkspaceWrite) (data : Table Str Str),
    path ∉ writes.map PendingWorkspaceWrite.path →
      (writes.foldl (fun data write => data.insert write.path write.content) data).lookup path = data.lookup path
  | [], _, _ => rfl
  | write :: writes, data, h => by
    rw [List.map_cons, List.mem_cons, not_or] at h
    rw [List.foldl_cons, lookup_commit writes _ h.2, AList.lookup_insert_ne h.1]

end Call

/-! ## Runs -/

section Runs

variable {codec : QueueCodec} {q : FrameQueue} {e : QueueEntry}

open ChannelWorkspaceStore

/-- A move that succeeds leaves no queue behind. -/
theorem lookup_source_moved (q : FrameQueue) (data : Table Str Str) (raw : Str) :
    ((data.erase q.sourcePath).insert q.destPath raw).lookup q.sourcePath = none := by
  rw [AList.lookup_insert_ne q.ne, AList.lookup_erase]

/-- A call keeps the queue the last of the frames that are tracked. -/
theorem tracks_step {frames : Option (List Str)} (h : Tracks codec q frames e.before) (hstep : e.Stepped codec q) :
    Tracks codec q (track q frames e) e.after := by
  obtain ⟨op, before, result, after⟩ := e
  replace hstep : (result, after) = queueStep codec q before op := hstep
  cases op with
  | commitWrites writes =>
    cases hstep
    intro fs hfs
    replace hfs : (if before.poisoned = false ∧ q.sourcePath ∈ writes.map PendingWorkspaceWrite.path then none
      else frames) = some fs := hfs
    split at hfs
    · cases hfs
    next hfree =>
      rw [← h fs hfs]
      refine queueAt_congr ?_
      simp only [commitWrites]
      split
      · rfl
      next hlock => exact lookup_commit writes _ fun hmem => hfree ⟨Bool.eq_false_iff.mpr hlock, hmem⟩
  | append text =>
    rw [queueStep] at hstep
    rcases append_cases codec before q.sourcePath text q.maxItems with ⟨error, happend⟩ | ⟨serialized, hread, happend⟩
    · rw [happend] at hstep
      cases hstep
      exact h
    · rw [happend] at hstep
      cases hstep
      intro fs hfs
      obtain ⟨old, hold, rfl⟩ := Option.map_eq_some_iff.mp hfs
      rw [queueAt_of_lookup (AList.lookup_insert _) hread, h old hold]
      exact SlidingLog.rtake_rtake_concat _ _ _
  | move =>
    have hmoved := move_cases codec before q.sourcePath q.destPath
    rw [show before.moveJsonTextQueue codec q.sourcePath q.destPath = (result, after) from hstep.symm] at hmoved
    cases hmoved with
    | poisoned => exact h
    | absent hraw hlock =>
      refine tracks_of_absent ?_
      rw [Table.lookup_erase, if_neg q.ne, ← read_of_unlocked hlock]
      exact hraw
    | unreadable hraw hread =>
      -- what is lost was no queue
      intro fs hfs
      have hlost : before.queueAt codec q.sourcePath = [] := by
        rw [queueAt, (read_eq_some hraw).2, Option.bind_some, hread]
        rfl
      rw [← h fs hfs, hlost]
      exact queueAt_of_absent (AList.lookup_erase _ before.data)
    | empty hraw hread =>
      refine tracks_of_absent ?_
      rw [Table.lookup_erase, if_neg q.ne, AList.lookup_erase]
    | frames hraw hread hne =>
      exact tracks_of_absent (lookup_source_moved q _ _)
  | panic =>
    cases hstep
    exact h

/-- **Every call of a run** finds the queue as the last of the frames that are tracked. -/
theorem tracks_entries : ∀ (ops : List QueueOp) {store : ChannelWorkspaceStore} {frames : Option (List Str)},
    Tracks codec q frames store → ∀ {pre : List QueueEntry} {e : QueueEntry} {post : List QueueEntry},
      queueEntries codec q store ops = pre ++ e :: post →
        e.Stepped codec q ∧ Tracks codec q (pre.foldl (track q) frames) e.before
  | [], _, _, _, pre, e, post, h => absurd h.symm (List.append_ne_nil_of_right_ne_nil pre (List.cons_ne_nil e post))
  | op :: ops, store, frames, htracks, [], e, post, h => by
    rw [queueEntries, List.nil_append] at h
    obtain ⟨rfl, -⟩ := List.cons.inj h
    exact ⟨rfl, htracks⟩
  | op :: ops, store, frames, htracks, a :: pre, e, post, h => by
    rw [queueEntries, List.cons_append] at h
    obtain ⟨rfl, hrest⟩ := List.cons.inj h
    have hnext :=
      tracks_step (e := ⟨op, store, (queueStep codec q store op).1, (queueStep codec q store op).2⟩) htracks rfl
    exact tracks_entries ops hnext hrest

theorem tracks_new : Tracks codec q (some []) .new := tracks_of_absent (AList.lookup_empty _)

/-- A move that finds frames takes them to the destination. -/
theorem moved_frames (hstep : e.Stepped codec q) (hop : e.op = .move) (hresult : e.result = .ok true) :
    e.after.queueAt codec q.destPath = e.before.queueAt codec q.sourcePath ∧ e.after.read q.sourcePath = none := by
  obtain ⟨op, before, result, after⟩ := e
  obtain rfl : op = .move := hop
  obtain rfl : result = .ok true := hresult
  have hmoved := move_cases codec before q.sourcePath q.destPath
  rw [show before.moveJsonTextQueue codec q.sourcePath q.destPath = (.ok true, after) from hstep.symm] at hmoved
  cases hmoved with
  | frames hraw hread hne =>
    obtain ⟨hlock, hlookup⟩ := read_eq_some hraw
    rw [queueAt_of_lookup hlookup hread, queueAt_of_lookup (AList.lookup_insert _) hread]
    exact ⟨rfl, (if_neg (by simp [hlock])).trans (lookup_source_moved q _ _)⟩

/-- **Calls that fail.** A call that fails leaves the store as it was unless it is a move of a text that is no queue. -/
theorem unchanged_iff (hstep : e.Stepped codec q) :
    (∀ error, e.result = .error error → e.after = e.before) ↔ e.Readable codec q := by
  obtain ⟨op, before, result, after⟩ := e
  replace hstep : (result, after) = queueStep codec q before op := hstep
  cases op with
  | commitWrites writes =>
    cases hstep
    exact ⟨fun _ => nofun, fun _ => nofun⟩
  | append text =>
    refine ⟨fun _ => nofun, fun _ error herror => ?_⟩
    rw [queueStep] at hstep
    rcases append_cases codec before q.sourcePath text q.maxItems with ⟨error', happend⟩ | ⟨serialized, -, happend⟩
    · rw [happend] at hstep
      exact congrArg Prod.snd hstep
    · rw [happend] at hstep
      cases hstep
      cases herror
  | move =>
    have hmoved := move_cases codec before q.sourcePath q.destPath
    rw [show before.moveJsonTextQueue codec q.sourcePath q.destPath = (result, after) from hstep.symm] at hmoved
    have hreads : ∀ {raw : Str} {queue : Except Str (List Str)}, before.read q.sourcePath = some raw →
        codec.fromStr raw = queue →
        (QueueEntry.Readable codec q ⟨.move, before, result, after⟩ ↔ ∃ fs, queue = .ok fs) := by
      rintro raw queue hraw rfl
      refine ⟨fun h => h rfl raw hraw, fun h _ raw' hraw' => ?_⟩
      cases hraw.symm.trans hraw'
      exact h
    cases hmoved with
    | poisoned hlock =>
      refine ⟨fun _ _ raw hraw => ?_, fun _ _ _ => rfl⟩
      cases (read_eq_some hraw).1.symm.trans hlock
    | absent hraw hlock =>
      refine ⟨fun _ _ raw hraw' => ?_, fun _ => nofun⟩
      cases hraw.symm.trans hraw'
    | unreadable hraw hread =>
      rw [hreads hraw hread]
      constructor
      · intro hsame
        -- the text is gone
        have hgone : (before.data.erase q.sourcePath).lookup q.sourcePath = before.data.lookup q.sourcePath :=
          congrArg (fun store : ChannelWorkspaceStore => store.data.lookup q.sourcePath) (hsame _ rfl)
        rw [AList.lookup_erase, (read_eq_some hraw).2] at hgone
        cases hgone
      · rintro ⟨fs, ⟨⟩⟩
    | empty hraw hread =>
      rw [hreads hraw hread]
      exact ⟨fun _ => ⟨_, rfl⟩, fun _ => nofun⟩
    | frames hraw hread hne =>
      rw [hreads hraw hread]
      exact ⟨fun _ => ⟨_, rfl⟩, fun _ => nofun⟩
  | panic =>
    cases hstep
    exact ⟨fun _ => nofun, fun _ => nofun⟩

end Runs

/-- **The law of the queue** holds in a run if and only if every text that a move takes away is a queue. -/
theorem queueLaw_iff (codec : QueueCodec) (q : FrameQueue) (ops : List QueueOp) :
    QueueLaw codec q (queueEntries codec q .new ops) ↔
      ∀ e ∈ queueEntries codec q .new ops, e.Readable codec q := by
  have hstepped : ∀ e ∈ queueEntries codec q .new ops, e.Stepped codec q := by
    intro e he
    obtain ⟨pre, post, hsplit⟩ := List.append_of_mem he
    exact (tracks_entries ops tracks_new hsplit).1
  constructor
  · exact fun h e he => (unchanged_iff (hstepped e he)).mp (h.unchanged e he)
  · intro h
    refine ⟨fun pre e post hsplit frames hframes => ?_, fun pre e post hsplit hop hresult => ?_,
      fun e he => (unchanged_iff (hstepped e he)).mpr (h e he)⟩
    · obtain ⟨hstep, htracks⟩ := tracks_entries ops tracks_new hsplit
      rw [sinceMove, List.foldl_append] at hframes
      exact tracks_step htracks hstep frames hframes
    · obtain ⟨hstep, htracks⟩ := tracks_entries ops tracks_new hsplit
      obtain ⟨hmoved, hgone⟩ := moved_frames hstep hop hresult
      exact ⟨hmoved, hgone, fun frames hframes => hmoved.trans (htracks frames hframes)⟩

/-! ## A text that is no queue -/

/-- The strings of an array. -/
def stringsOf : Json → Except Str (List Str)
  | .arr xs =>
    match xs.mapM Json.asStr with
    | some queue => .ok queue
    | none => .error "invalid type, expected a string".toList
  | _ => .error "invalid type, expected a sequence".toList

theorem mapM_asStr (queue : List Str) : (queue.map Json.str).mapM Json.asStr = some queue := by
  induction queue with
  | nil => rfl
  | cons frame queue ih => simp [List.mapM_cons, ih, Json.asStr]

/-- The compact texts of arrays of strings. -/
noncomputable def compactQueues : QueueCodec where
  toString queue := .ok (Json.arr (queue.map .str)).toText
  fromStr raw := (JsonText.compact.parse raw).bind stringsOf
  roundTrip := by
    rintro queue text ⟨⟩
    have hprintable : (Json.arr (queue.map .str)).Printable :=
      (Json.printableAll_iff _).mpr (by simp [Json.Printable])
    rw [JsonText.parse_compact hprintable]
    show (match (queue.map Json.str).mapM Json.asStr with
      | some queue => Except.ok queue
      | none => .error "invalid type, expected a string".toList) = .ok queue
    rw [mapM_asStr]

def eventQueue : FrameQueue where
  sourcePath := "events".toList
  destPath := "processing".toList
  maxItems := 100
  pos := by decide
  ne := by decide

/-- The guest writes a text over the queue, and a move comes. -/
def overwritten : List QueueOp := [.commitWrites [⟨"events".toList, "hello".toList⟩], .move]

theorem hello_no_queue (queue : List Str) : compactQueues.fromStr "hello".toList ≠ .ok queue := by
  have hnone : Json.ofText "hello".toList = none := by
    rw [Json.ofText, dif_neg]
    rintro ⟨v, hv, htext⟩
    refine Json.head_toText hv (c := 'h') rfl [] "ello".toList ?_
    rw [List.append_nil, htext]
    rfl
  have hparse : JsonText.compact.parse "hello".toList = .error "expected value".toList := by
    show (Json.ofText "hello".toList).elim _ _ = _
    rw [hnone]
    rfl
  show (JsonText.compact.parse "hello".toList).bind stringsOf ≠ _
  rw [hparse]
  intro h
  cases h

/-- The move fails, and the text of the guest is gone. -/
theorem failed_move_loses_text :
    ¬QueueLaw compactQueues eventQueue (queueEntries compactQueues eventQueue .new overwritten) := by
  intro h
  let written : ChannelWorkspaceStore := .commitWrites .new [⟨"events".toList, "hello".toList⟩]
  let moved := queueStep compactQueues eventQueue written .move
  have hmem : ⟨.move, written, moved.1, moved.2⟩ ∈ queueEntries compactQueues eventQueue .new overwritten :=
    List.mem_cons_of_mem _ List.mem_cons_self
  have hstep : QueueEntry.Stepped compactQueues eventQueue ⟨.move, written, moved.1, moved.2⟩ := rfl
  have hread : written.read "events".toList = some "hello".toList := by decide
  obtain ⟨queue, hqueue⟩ := (unchanged_iff hstep).mp (h.unchanged _ hmem) rfl _ hread
  exact hello_no_queue queue hqueue

end Ironclaw.Channels
