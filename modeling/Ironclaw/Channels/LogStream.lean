import Ironclaw.Lib.Broadcast
import Ironclaw.Lib.Run
import Ironclaw.Safety.Redaction

/-!
# The stream of the log

Log entries are scrubbed, put into a ring of the recent ones, and then broadcast; between the two another thread may
run. A tab subscribes to the broadcast and then takes a snapshot of the ring, which it shows before the live entries.

- `inv_step`: the ring has the last entries of the log, and each entry is broadcast once;
- `log_without_gap`: an entry that was broadcast is in the snapshot of a tab or is broadcast to it, unless it had left
  the ring;
- `log_scrubbed`: nothing but what the leak detector lets pass is shown.
-/

namespace Ironclaw.Channels.LogStream

open Broadcast Run Safety
open Regex (Contains)

/-- `HISTORY_CAP` -/
@[irreducible] def HISTORY_CAP : Nat := 500

/-- The capacity of the channel. -/
def CAPACITY : Nat := 512

structure LogEntry where
  level : Str
  target : Str
  message : Str
  timestamp : Str

/-- A tab: its receiver, the snapshot when it was taken, and the live entries that it was given. -/
structure Tab where
  receiver : Receiver
  history : Option (List LogEntry)
  live : List (Nat × LogEntry)

/-- `LogBroadcaster`, with all entries that were put into the ring, the entries that are on their way from there to the
channel, and those that were sent; an entry comes with its place in the log. -/
structure LogBroadcaster where
  recent : List LogEntry
  log : List LogEntry
  onTheWay : List (Nat × LogEntry)
  sent : List (Nat × LogEntry)
  tabs : List Tab

namespace LogBroadcaster

def new : LogBroadcaster := ⟨[], [], [], [], []⟩

section Send

variable (isWord : Char → Bool)

/-- What is logged in place of a message that is blocked. -/
def REDACTED : Str := "[log message redacted: contained blocked secret]".toList

/-- The message as `send` passes it on. -/
def scrubbed (message : Str) : Str :=
  match LeakDetector.new.scanAndClean isWord message with
  | .ok cleaned => cleaned
  | .error _ => REDACTED

/-- The first half of `send`: the entry is scrubbed and put into the ring. -/
def stash (b : LogBroadcaster) (entry : LogEntry) : LogBroadcaster :=
  let entry := { entry with message := scrubbed isWord entry.message }
  let buf := if HISTORY_CAP ≤ b.recent.length then b.recent.tail else b.recent
  { b with recent := buf ++ [entry], log := b.log ++ [entry], onTheWay := b.onTheWay ++ [(b.log.length, entry)] }

/-- The second half of `send`, for one of the entries on their way. -/
def transmit (b : LogBroadcaster) (n : Nat) : LogBroadcaster :=
  match b.onTheWay[n]? with
  | some message => { b with onTheWay := b.onTheWay.eraseIdx n, sent := b.sent ++ [message] }
  | none => b

/-- `logs_events_handler` subscribes. -/
def openTab (b : LogBroadcaster) : LogBroadcaster := { b with tabs := b.tabs ++ [⟨subscribe b.sent, none, []⟩] }

/-- Then it takes its snapshot: `recent_entries`. -/
def snapshot (recent : List LogEntry) (tab : Tab) : Tab :=
  if tab.history = none then { tab with history := some recent } else tab

/-- The stream takes one answer of the receiver. -/
def poll (sent : List (Nat × LogEntry)) (tab : Tab) : Tab :=
  if tab.history = none then tab
  else
    let answer := recv CAPACITY sent tab.receiver
    { tab with
      receiver := answer.2
      live := tab.live ++ answer.1.toList }

/-- A step of one of the threads. -/
inductive Label
  | stash (entry : LogEntry)
  | transmit (n : Nat)
  | openTab
  | snapshot (k : Nat)
  | poll (k : Nat)

def step (b : LogBroadcaster) : Label → LogBroadcaster
  | .stash entry => b.stash isWord entry
  | .transmit n => b.transmit n
  | .openTab => b.openTab
  | .snapshot k => { b with tabs := b.tabs.modify k (snapshot b.recent) }
  | .poll k => { b with tabs := b.tabs.modify k (poll b.sent) }

end Send

/-- When tab `k` is polled, it is not further behind than the channel keeps entries. -/
def KeepsUp (k : Nat) (b : LogBroadcaster) : Label → Prop
  | .poll n => n = k → ∀ tab ∈ b.tabs[k]?, b.sent.length ≤ tab.receiver.next + CAPACITY
  | _ => True

end LogBroadcaster

/-! ## The ring and the channel -/

/-- The last entries of the first `n` of a log. -/
def window (log : List LogEntry) (n : Nat) : List LogEntry := (log.take n).drop (n - HISTORY_CAP)

theorem cap_pos : 0 < HISTORY_CAP := by
  rw [HISTORY_CAP]
  omega

theorem window_length (log : List LogEntry) : window log log.length = log.drop (log.length - HISTORY_CAP) := by
  rw [window, List.take_length]

theorem window_append {log : List LogEntry} {n : Nat} (h : n ≤ log.length) (entries : List LogEntry) :
    window (log ++ entries) n = window log n := by
  rw [window, window, List.take_append_of_le_length h]

theorem getElem?_concat {log : List LogEntry} {i : Nat} {x y : LogEntry} (h : log[i]? = some x) :
    (log ++ [y])[i]? = some x := by
  obtain ⟨hlt, -⟩ := List.getElem?_eq_some_iff.mp h
  rw [List.getElem?_append_left hlt, h]

/-- An entry among the first `n` is in the window, or at least as many followed as the ring keeps. -/
theorem mem_window {log : List LogEntry} {n i : Nat} {entry : LogEntry} (h : log[i]? = some entry) (hi : i < n) :
    entry ∈ window log n ∨ i + HISTORY_CAP < n := by
  by_cases hold : i + HISTORY_CAP < n
  · exact .inr hold
  · refine .inl (List.mem_of_getElem? (i := i - (n - HISTORY_CAP)) ?_)
    rw [window, List.getElem?_drop, List.getElem?_take, if_pos (by omega), ← h]
    congr 1
    omega

namespace LogBroadcaster

/-- The ring has the last entries of the log, and each entry of the log is on its way or was sent, once. -/
structure Ring (b : LogBroadcaster) : Prop where
  recent : b.recent = window b.log b.log.length
  numbered : ∀ m ∈ b.onTheWay ++ b.sent, b.log[m.1]? = some m.2
  once : ((b.onTheWay ++ b.sent).map Prod.fst).Perm (List.range b.log.length)

theorem Ring.lt {b : LogBroadcaster} (h : b.Ring) {m : Nat × LogEntry} (hm : m ∈ b.sent) : m.1 < b.log.length :=
  (List.getElem?_eq_some_iff.mp (h.numbered m (List.mem_append_right _ hm))).1

/-- Each entry is broadcast at most once. -/
theorem Ring.sent_nodup {b : LogBroadcaster} (h : b.Ring) : (b.sent.map Prod.fst).Nodup := by
  have hnodup := h.once.nodup_iff.mpr List.nodup_range
  rw [List.map_append] at hnodup
  exact hnodup.of_append_right

theorem ring_stash (isWord : Char → Bool) {b : LogBroadcaster} (h : b.Ring) (entry : LogEntry) :
    (b.stash isWord entry).Ring := by
  obtain ⟨hrecent, hnumbered, honce⟩ := h
  rw [window_length] at hrecent
  have hlength : b.recent.length = min b.log.length HISTORY_CAP := by
    rw [hrecent, List.length_drop]
    omega
  refine ⟨?_, fun m hm => ?_, ?_⟩
  · simp only [stash]
    rw [window_length, List.length_append, List.length_singleton]
    by_cases hfull : HISTORY_CAP ≤ b.recent.length
    · have hpos := cap_pos
      have hdrop : b.log.length + 1 - HISTORY_CAP = b.log.length - HISTORY_CAP + 1 := by omega
      have hle : b.log.length - HISTORY_CAP + 1 ≤ b.log.length := by omega
      rw [if_pos hfull, hrecent, List.tail_drop, hdrop, List.drop_append_of_le_length hle]
    · have hdrop : b.log.length + 1 - HISTORY_CAP = b.log.length - HISTORY_CAP := by omega
      rw [if_neg hfull, hrecent, hdrop, List.drop_append_of_le_length (by omega)]
  · simp only [stash, List.append_assoc, List.mem_append, List.mem_singleton] at hm
    simp only [stash]
    rcases hm with hm | rfl | hm
    · exact getElem?_concat (hnumbered m (List.mem_append_left _ hm))
    · exact List.getElem?_concat_length
    · exact getElem?_concat (hnumbered m (List.mem_append_right _ hm))
  · simp only [stash, List.map_append, List.map_cons, List.map_nil, List.length_append, List.length_singleton,
      List.range_succ, List.append_assoc] at honce ⊢
    exact List.perm_middle.trans ((honce.cons _).trans (List.perm_append_singleton _ _).symm)

theorem ring_transmit {b : LogBroadcaster} (h : b.Ring) (n : Nat) : (b.transmit n).Ring := by
  unfold transmit
  split
  next message hmessage =>
    have hperm : (b.onTheWay.eraseIdx n ++ (b.sent ++ [message])).Perm (b.onTheWay ++ b.sent) := by
      obtain ⟨hlt, rfl⟩ := List.getElem?_eq_some_iff.mp hmessage
      rw [← List.append_assoc]
      refine (List.perm_append_singleton _ _).trans ?_
      exact (List.getElem_cons_eraseIdx_perm hlt).append_right b.sent
    refine ⟨h.recent, fun m hm => h.numbered m (hperm.mem_iff.mp hm), ?_⟩
    exact (hperm.map Prod.fst).trans h.once
  · exact h

end LogBroadcaster

/-! ## The tabs -/

/-- A tab agrees with the log and the channel: what was sent before it subscribed was in the ring before its
snapshot. -/
structure Tab.Ok (log : List LogEntry) (sent : List (Nat × LogEntry)) (tab : Tab) : Prop where
  ok : tab.receiver.Ok CAPACITY sent
  start_le : tab.receiver.start ≤ tab.receiver.next
  live : tab.live = tab.receiver.messages sent
  before : tab.history = none → tab.live = []
  history : ∀ hist, tab.history = some hist → ∃ n, n ≤ log.length ∧ hist = window log n ∧
    ∀ m ∈ sent.take tab.receiver.start, m.1 < n

namespace Tab.Ok

variable {log : List LogEntry} {sent : List (Nat × LogEntry)} {tab : Tab}

theorem append (h : tab.Ok log sent) (entries : List LogEntry) : tab.Ok (log ++ entries) sent where
  ok := h.ok
  start_le := h.start_le
  live := h.live
  before := h.before
  history hist hhist := by
    obtain ⟨n, hn, hwindow, hbefore⟩ := h.history hist hhist
    refine ⟨n, ?_, hwindow.trans (window_append hn entries).symm, hbefore⟩
    rw [List.length_append]
    omega

theorem send (h : tab.Ok log sent) (message : Nat × LogEntry) : tab.Ok log (sent ++ [message]) where
  ok := h.ok.send message
  start_le := h.start_le
  live := by rw [Receiver.messages_send h.ok, h.live]
  before := h.before
  history hist hhist := by
    obtain ⟨n, hn, hwindow, hbefore⟩ := h.history hist hhist
    refine ⟨n, hn, hwindow, ?_⟩
    rwa [List.take_append_of_le_length (h.start_le.trans h.ok.next_le)]

/-- What is in the channel when the snapshot is taken has passed the ring. -/
theorem snapshot (h : tab.Ok log sent) (hbefore : ∀ m ∈ sent, m.1 < log.length) :
    (LogBroadcaster.snapshot (window log log.length) tab).Ok log sent := by
  unfold LogBroadcaster.snapshot
  split
  · refine ⟨h.ok, h.start_le, h.live, nofun, fun hist hhist => ?_⟩
    obtain rfl := Option.some.inj hhist
    exact ⟨log.length, le_refl _, rfl, fun m hm => hbefore m (List.mem_of_mem_take hm)⟩
  · exact h

theorem poll (h : tab.Ok log sent) : (LogBroadcaster.poll sent tab).Ok log sent := by
  unfold LogBroadcaster.poll
  split
  · exact h
  next hsome =>
    refine ⟨h.ok.recv h.start_le, Receiver.start_le_recv h.start_le, ?_, fun hnone => absurd hnone hsome,
      fun hist hhist => ?_⟩
    · dsimp only
      rw [Receiver.messages_recv, h.live]
    · obtain ⟨n, hn, hwindow, hbefore⟩ := h.history hist hhist
      refine ⟨n, hn, hwindow, ?_⟩
      dsimp only
      rwa [Receiver.start_recv]

end Tab.Ok

namespace LogBroadcaster

variable {isWord : Char → Bool}

/-- The ring, the channel and all tabs are in order. -/
structure Inv (b : LogBroadcaster) : Prop extends b.Ring where
  tabs : ∀ tab ∈ b.tabs, tab.Ok b.log b.sent

theorem inv_modify {b : LogBroadcaster} (h : b.Inv) {f : Tab → Tab}
    (hf : ∀ tab, tab.Ok b.log b.sent → (f tab).Ok b.log b.sent)
    (k : Nat) : Inv { b with tabs := b.tabs.modify k f } := by
  refine ⟨⟨h.recent, h.numbered, h.once⟩, fun tab htab => ?_⟩
  rcases mem_modify htab with htab | ⟨tab', htab', rfl⟩
  · exact h.tabs tab htab
  · exact hf tab' (h.tabs tab' (List.mem_of_getElem? htab'))

theorem inv_step {b : LogBroadcaster} (h : b.Inv) (l : Label) : (step isWord b l).Inv := by
  cases l with
  | stash entry => exact ⟨ring_stash isWord h.toRing entry, fun tab htab => (h.tabs tab htab).append _⟩
  | transmit n =>
    refine ⟨ring_transmit h.toRing n, ?_⟩
    show ∀ tab ∈ (b.transmit n).tabs, tab.Ok (b.transmit n).log (b.transmit n).sent
    unfold transmit
    split
    · exact fun tab htab => (h.tabs tab htab).send _
    · exact h.tabs
  | openTab =>
    refine ⟨⟨h.recent, h.numbered, h.once⟩, fun tab htab => ?_⟩
    rcases List.mem_append.mp htab with htab | htab
    · exact h.tabs tab htab
    · rw [List.mem_singleton.mp htab]
      exact ⟨Receiver.ok_subscribe CAPACITY b.sent, le_refl _, rfl, fun _ => rfl, nofun⟩
  | snapshot k =>
    refine inv_modify h (fun tab htab => ?_) k
    rw [h.recent]
    exact htab.snapshot fun m hm => h.toRing.lt hm
  | poll k => exact inv_modify h (fun tab htab => htab.poll) k

theorem inv_run (isWord : Char → Bool) (labels : List Label) : (run (step isWord) new labels).Inv := by
  refine run_inv_all (I := Inv) (fun b l h => inv_step h l) labels ⟨⟨?_, ?_, .nil⟩, ?_⟩
  · simp [new, window]
  · intro m hm
    cases hm
  · intro tab htab
    cases htab

/-! ## A tab that keeps up -/

/-- Tab `k` has missed nothing. -/
def Whole (k : Nat) (b : LogBroadcaster) : Prop := ∀ tab, b.tabs[k]? = some tab → tab.receiver.Full

theorem whole_modify {k n : Nat} {b : LogBroadcaster} {f : Tab → Tab} (h : b.Whole k)
    (hf : n = k → ∀ tab, b.tabs[k]? = some tab → (f tab).receiver.Full) :
      Whole k { b with tabs := b.tabs.modify n f } := by
  intro tab htab
  dsimp only at htab
  rw [List.getElem?_modify] at htab
  obtain ⟨tab', htab', rfl⟩ := Option.map_eq_some_iff.mp htab
  split
  next hn => exact hf hn tab' htab'
  · exact h tab' htab'

theorem whole_step {k : Nat} {b : LogBroadcaster} {l : Label} (hkeeps : b.KeepsUp k l) (h : b.Whole k) :
    (step isWord b l).Whole k := by
  cases l with
  | stash entry => exact h
  | transmit n =>
    show (b.transmit n).Whole k
    unfold transmit
    split <;> exact h
  | openTab =>
    intro tab htab
    simp only [step, openTab, List.getElem?_append] at htab
    split at htab
    · exact h tab htab
    · rw [List.mem_singleton.mp (List.mem_of_getElem? htab)]
      exact Receiver.full_subscribe b.sent
  | snapshot n =>
    refine whole_modify h fun hn tab htab => ?_
    unfold snapshot
    split <;> exact h tab htab
  | poll n =>
    refine whole_modify h fun hn tab htab => ?_
    unfold poll
    split
    · exact h tab htab
    · exact (h tab htab).recv (hkeeps hn tab htab)

/-- **No gap.** In every run, a tab shows as its history what the ring had at some time: the last entries of the first
`n` of the log. An entry that was broadcast is in it, or had left the ring by then, or is broadcast to the tab. Of these
the tab gets some, in their order and each once, and all up to its position while it keeps up. -/
theorem log_without_gap (isWord : Char → Bool) (labels : List Label) (k : Nat) :
    ∀ tab, (run (step isWord) new labels).tabs[k]? = some tab → ∀ hist, tab.history = some hist →
      (∃ n ≤ (run (step isWord) new labels).log.length, hist = window (run (step isWord) new labels).log n ∧
        ∀ m ∈ (run (step isWord) new labels).sent,
          m.2 ∈ hist ∨ m.1 + HISTORY_CAP < n ∨ m ∈ (run (step isWord) new labels).sent.drop tab.receiver.start) ∧
      tab.live.Sublist ((run (step isWord) new labels).sent.drop tab.receiver.start) ∧
      (tab.live.map Prod.fst).Nodup ∧
      (Along (step isWord) (KeepsUp k) new labels → tab.live =
        ((run (step isWord) new labels).sent.drop tab.receiver.start).take
          (tab.receiver.next - tab.receiver.start)) := by
  intro tab htab hist hhist
  have hinv := inv_run isWord labels
  have hok := hinv.tabs tab (List.mem_of_getElem? htab)
  have hsub : tab.live.Sublist ((run (step isWord) new labels).sent.drop tab.receiver.start) := by
    rw [hok.live]
    exact hok.ok.messages_sublist
  refine ⟨?_, hsub, ?_, fun hkeeps => ?_⟩
  · obtain ⟨n, hn, hwindow, hbefore⟩ := hok.history hist hhist
    refine ⟨n, hn, hwindow, fun m hm => ?_⟩
    rw [← List.take_append_drop tab.receiver.start (run (step isWord) new labels).sent] at hm
    rcases List.mem_append.mp hm with hm | hm
    · rw [hwindow]
      have hmem := hinv.numbered m (List.mem_append_right _ (List.mem_of_mem_take hm))
      exact (mem_window hmem (hbefore m hm)).imp_right .inl
    · exact .inr (.inr hm)
  · exact hinv.toRing.sent_nodup.sublist ((hsub.trans (List.drop_sublist _ _)).map Prod.fst)
  · have hwhole : (run (step isWord) new labels).Whole k :=
      run_inv (G := KeepsUp k) (I := Whole k) (fun b l hk h => whole_step hk h) labels
        (fun tab htab => by cases htab) hkeeps
    rw [hok.live, hok.ok.messages_eq hok.start_le (hwhole tab htab)]

/-- A tab that subscribes between the two halves of a `send` has the entry in its history, and will get it once more. -/
theorem log_without_gap_between :
    let entry : LogEntry := ⟨"INFO".toList, "ironclaw".toList, [], []⟩
    let b := run (step fun _ => false) new [.stash entry, .openTab, .transmit 0, .snapshot 0]
    (∃ n ≤ b.log.length, b.recent = window b.log n ∧ ∀ m ∈ b.sent,
      m.2 ∈ b.recent ∨ m.1 + HISTORY_CAP < n ∨ m ∈ b.sent.drop 0) := by
  intro entry b
  exact (log_without_gap (fun _ => false) [.stash entry, .openTab, .transmit 0, .snapshot 0] 0
    ⟨⟨0, 0, []⟩, some b.recent, []⟩ (by simp [run, step, stash, openTab, transmit, snapshot, new, subscribe, b])
    b.recent rfl).1

/-! ## What is shown -/

/-- The entries that were logged, as they are shown. -/
def logged (isWord : Char → Bool) : List Label → List LogEntry
  | [] => []
  | .stash entry :: labels => { entry with message := scrubbed isWord entry.message } :: logged isWord labels
  | _ :: labels => logged isWord labels

theorem mem_logged {isWord : Char → Bool} {shown : LogEntry} : ∀ {labels : List Label}, shown ∈ logged isWord labels →
    ∃ entry, .stash entry ∈ labels ∧ shown = { entry with message := scrubbed isWord entry.message }
  | .stash entry :: labels, h => by
    rcases List.mem_cons.mp h with rfl | h
    · exact ⟨entry, List.mem_cons_self, rfl⟩
    · obtain ⟨entry', hentry, rfl⟩ := mem_logged h
      exact ⟨entry', List.mem_cons_of_mem _ hentry, rfl⟩
  | .transmit _ :: labels, h | .openTab :: labels, h | .snapshot _ :: labels, h | .poll _ :: labels, h => by
    have hrest : shown ∈ logged isWord labels := h
    obtain ⟨entry, hentry, rfl⟩ := mem_logged hrest
    exact ⟨entry, List.mem_cons_of_mem _ hentry, rfl⟩

/-- A scrubbed message has no match of a pattern that blocks or is redacted, when no prefix is hidden and the ranges of
the message are in order. -/
theorem not_contains_scrubbed {isWord : Char → Bool} {message : Str} (hid : NotHidden isWord message)
    (hord : RangesInOrder isWord message) : scrubbed isWord message = REDACTED ∨
      ∀ p ∈ defaultPatterns, p.action ≠ .warn → ¬Contains p.regex.ast (scrubbed isWord message) := by
  cases hscan : LeakDetector.new.scanAndClean isWord message with
  | error e =>
    left
    rw [scrubbed, hscan]
  | ok cleaned =>
    right
    intro p hp hact
    rw [scrubbed, hscan]
    exact not_contains_cleaned hid hord hscan hp hact

theorem log_run (isWord : Char → Bool) : ∀ (labels : List Label) (b : LogBroadcaster),
    (run (step isWord) b labels).log = b.log ++ logged isWord labels
  | [], b => by simp [logged]
  | l :: labels, b => by
    rw [run_cons, log_run isWord labels]
    cases l with
    | stash entry => simp [step, stash, logged]
    | transmit n =>
      have hlog : (b.transmit n).log = b.log := by
        unfold transmit
        split <;> rfl
      simp [step, hlog, logged]
    | openTab => rfl
    | snapshot k => rfl
    | poll k => rfl

/-- **Nothing else is shown.** In every run the ring has the last entries that were logged, scrubbed. Each entry is
broadcast at most once, and what a tab shows, as its history or live, is an entry that was logged, scrubbed: without a
match of a pattern that blocks or is redacted, when no prefix is hidden and the ranges are in order. -/
theorem log_shown (isWord : Char → Bool) (labels : List Label) :
    (run (step isWord) new labels).recent =
      (logged isWord labels).drop ((logged isWord labels).length - HISTORY_CAP) ∧
    ((run (step isWord) new labels).sent.map Prod.fst).Nodup ∧
    ∀ tab ∈ (run (step isWord) new labels).tabs, ∀ shown : LogEntry,
      (∃ hist, tab.history = some hist ∧ shown ∈ hist) ∨ shown ∈ tab.live.map Prod.snd →
      ∃ entry, .stash entry ∈ labels ∧ shown = { entry with message := scrubbed isWord entry.message } ∧
        (NotHidden isWord entry.message → RangesInOrder isWord entry.message → shown.message = REDACTED ∨
          ∀ p ∈ defaultPatterns, p.action ≠ .warn → ¬Contains p.regex.ast shown.message) := by
  have hinv := inv_run isWord labels
  have hlog : (run (step isWord) new labels).log = logged isWord labels := log_run isWord labels new
  refine ⟨?_, hinv.toRing.sent_nodup, fun tab htab shown hshown => ?_⟩
  · rw [hinv.recent, window_length, hlog]
  · have hok := hinv.tabs tab htab
    have hmem : shown ∈ logged isWord labels := by
      rw [← hlog]
      rcases hshown with ⟨hist, hhist, hmem⟩ | hmem
      · obtain ⟨n, -, hwindow, -⟩ := hok.history hist hhist
        rw [hwindow] at hmem
        exact List.mem_of_mem_take (List.mem_of_mem_drop hmem)
      · obtain ⟨m, hm, rfl⟩ := List.mem_map.mp hmem
        rw [hok.live] at hm
        have hsent := hok.ok.messages_sublist.subset hm
        exact List.mem_of_getElem? (hinv.numbered m (List.mem_append_right _ (List.mem_of_mem_drop hsent)))
    obtain ⟨entry, hentry, rfl⟩ := mem_logged hmem
    exact ⟨entry, hentry, rfl, not_contains_scrubbed⟩

end LogBroadcaster

end Ironclaw.Channels.LogStream
