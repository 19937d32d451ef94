import Ironclaw.Lib.Broadcast
import Ironclaw.Lib.Run
import Ironclaw.Lib.Text

/-!
# Server-sent events

The manager of the event streams of the browser tabs: events are broadcast to all clients or to those of one user, and
each client reads from the channel at its own pace. A subscription takes a place in the count of the connections before
it has a receiver, and gives the place back when its stream is dropped; the steps of different clients may come in any
order.

- `events_delivered`: a client gets events that it may see, in their order, each once, and all of them while it keeps
  up;
- `connections_counted`: the counter tells the connections that are held, of which there are never too many.
-/

namespace Ironclaw.Channels.Sse

open Broadcast Run

/-- `MAX_CONNECTIONS` -/
def MAX_CONNECTIONS : Nat := 100

/-- The capacity of the channel. -/
def CAPACITY : Nat := 256

/-- An event, for all users or for one. -/
structure ScopedEvent (ε : Type) where
  userId : Option Str
  event : ε

variable {ε : Type}

/-- The filter of a subscription: global events go to all, and a subscription without a user gets all events. -/
def ScopedEvent.passes (sub : Option Str) (message : ScopedEvent ε) : Option ε :=
  match sub, message.userId with
  | _, none => some message.event
  | none, _ => some message.event
  | some sub, some ev => if sub = ev then some message.event else none

/-- Where a connection is: its place is counted, its stream is open, or the stream was dropped. -/
inductive Phase
  | counted
  | opened
  | dropped
  deriving DecidableEq

/-- A subscription, and the events that its stream has given. -/
structure Connection (ε : Type) where
  userId : Option Str
  phase : Phase
  receiver : Receiver
  delivered : List ε

/-- `SseManager`, with the messages that were sent to its channel and the connections that got a place. -/
structure SseManager (ε : Type) where
  sent : List (ScopedEvent ε)
  connectionCount : Nat
  maxConnections : Nat
  connections : List (Connection ε)

/-- `SseManager::new` -/
def SseManager.new : SseManager ε := ⟨[], 0, MAX_CONNECTIONS, []⟩

/-- The connection holds a place. -/
def Connection.held (c : Connection ε) : Bool := c.phase ≠ .dropped

namespace SseManager

def broadcast (m : SseManager ε) (event : ε) : SseManager ε := { m with sent := m.sent ++ [⟨none, event⟩] }

def broadcastForUser (m : SseManager ε) (userId : Str) (event : ε) : SseManager ε :=
  { m with sent := m.sent ++ [⟨some userId, event⟩] }

/-- The start of `subscribe_raw` and of `subscribe`: a place is taken if there is one. -/
def reserve (m : SseManager ε) (userId : Option Str) : Option (SseManager ε) :=
  if m.connectionCount < m.maxConnections then
    some
      { m with
        connectionCount := m.connectionCount + 1
        connections := m.connections ++ [⟨userId, .counted, subscribe m.sent, []⟩] }
  else none

/-- The rest of a subscription: the receiver is made. -/
def attach (sent : List (ScopedEvent ε)) (c : Connection ε) : Connection ε :=
  if c.phase = .counted then { c with phase := .opened, receiver := subscribe sent } else c

/-- The stream takes one answer of its receiver. -/
def poll (sent : List (ScopedEvent ε)) (c : Connection ε) : Connection ε :=
  if c.phase = .opened then
    let answer := recv CAPACITY sent c.receiver
    { c with
      receiver := answer.2
      delivered := c.delivered ++ answer.1.toList.filterMap (·.passes c.userId) }
  else c

theorem poll_opened {sent : List (ScopedEvent ε)} {c : Connection ε} (h : c.phase = .opened) :
    poll sent c =
      { c with
        receiver := (recv CAPACITY sent c.receiver).2
        delivered := c.delivered ++ (recv CAPACITY sent c.receiver).1.toList.filterMap (·.passes c.userId) } := if_pos h

theorem poll_of_not {sent : List (ScopedEvent ε)} {c : Connection ε} (h : c.phase ≠ .opened) :
    poll sent c = c := if_neg h

/-- `CountedStream::drop`; the counter is an unsigned number of 64 bits. -/
def drop (m : SseManager ε) (n : Nat) : SseManager ε :=
  match m.connections[n]? with
  | some ⟨userId, .opened, receiver, delivered⟩ =>
    { m with
      connectionCount := (m.connectionCount + (2 ^ 64 - 1)) % 2 ^ 64
      connections := m.connections.set n ⟨userId, .dropped, receiver, delivered⟩ }
  | _ => m

/-- A step of the program; connections are numbered as they got their places. -/
inductive Label (ε : Type)
  | broadcast (event : ε)
  | broadcastForUser (userId : Str) (event : ε)
  | reserve (userId : Option Str)
  | attach (n : Nat)
  | poll (n : Nat)
  | drop (n : Nat)

def step (m : SseManager ε) : Label ε → SseManager ε
  | .broadcast event => m.broadcast event
  | .broadcastForUser userId event => m.broadcastForUser userId event
  | .reserve userId => (m.reserve userId).getD m
  | .attach n => { m with connections := m.connections.modify n (attach m.sent) }
  | .poll n => { m with connections := m.connections.modify n (poll m.sent) }
  | .drop n => m.drop n

/-- When client `k` is polled, it is not further behind than the channel keeps events. -/
def KeepsUp (k : Nat) (m : SseManager ε) : Label ε → Prop
  | .poll n => n = k → ∀ c ∈ m.connections[k]?, m.sent.length ≤ c.receiver.next + CAPACITY
  | _ => True

end SseManager

/-! ## What a client gets -/

theorem passes_eq_some {sub : Option Str} {message : ScopedEvent ε} {e : ε} (h : message.passes sub = some e) :
    message.event = e ∧ (message.userId = none ∨ sub = none ∨ message.userId = sub) := by
  unfold ScopedEvent.passes at h
  split at h
  next hnone => exact ⟨Option.some.inj h, .inl hnone⟩
  · exact ⟨Option.some.inj h, .inr (.inl rfl)⟩
  next hev =>
    split at h
    next heq => exact ⟨Option.some.inj h, .inr (.inr (by rw [hev, heq]))⟩
    · cases h

/-- The events that a subscription may see, of some that were sent. -/
def visible (sub : Option Str) (sent : List (ScopedEvent ε)) : List ε := sent.filterMap (·.passes sub)

/-- The state of a connection agrees with what was sent. -/
structure Connection.Sound (sent : List (ScopedEvent ε)) (c : Connection ε) : Prop where
  ok : c.receiver.Ok CAPACITY sent
  start_le : c.receiver.start ≤ c.receiver.next
  delivered : c.delivered = visible c.userId (c.receiver.messages sent)
  untouched : c.phase = .counted → c.delivered = []

namespace Connection.Sound

variable {sent : List (ScopedEvent ε)} {c : Connection ε}

theorem send (h : c.Sound sent) (message : ScopedEvent ε) : c.Sound (sent ++ [message]) where
  ok := h.ok.send message
  start_le := h.start_le
  delivered := by rw [Receiver.messages_send h.ok, h.delivered]
  untouched := h.untouched

theorem attach (h : c.Sound sent) : (SseManager.attach sent c).Sound sent := by
  unfold SseManager.attach
  split
  next hphase =>
    refine ⟨Receiver.ok_subscribe CAPACITY sent, le_refl _, ?_, nofun⟩
    exact h.untouched hphase
  · exact h

theorem poll (h : c.Sound sent) : (SseManager.poll sent c).Sound sent := by
  by_cases hphase : c.phase = .opened
  · rw [SseManager.poll_opened hphase]
    refine ⟨h.ok.recv h.start_le, Receiver.start_le_recv h.start_le, ?_, fun hcounted => ?_⟩
    · simp only [visible, Receiver.messages_recv, List.filterMap_append, h.delivered]
    · exact absurd (hcounted.symm.trans hphase) (by decide)
  · rwa [SseManager.poll_of_not hphase]

end Connection.Sound

namespace SseManager

/-- Every connection agrees with what was sent. -/
def Sound (m : SseManager ε) : Prop := ∀ c ∈ m.connections, c.Sound m.sent

theorem sound_send {m : SseManager ε} (h : m.Sound) (message : ScopedEvent ε) :
    Sound { m with sent := m.sent ++ [message] } := fun c hc => (h c hc).send message

/-- What one step does to the connections: one more, one that goes on, one that is dropped, or more was sent. -/
theorem step_cases (m : SseManager ε) (l : Label ε) :
    (∃ message, m.step l = { m with sent := m.sent ++ [message] }) ∨
    (∃ userId, l = .reserve userId ∧ m.connectionCount < m.maxConnections ∧ m.step l =
      { m with
        connectionCount := m.connectionCount + 1
        connections := m.connections ++ [⟨userId, .counted, subscribe m.sent, []⟩] }) ∨
    (∃ n, l = .attach n ∧ m.step l = { m with connections := m.connections.modify n (attach m.sent) }) ∨
    (∃ n, l = .poll n ∧ m.step l = { m with connections := m.connections.modify n (poll m.sent) }) ∨
    (∃ n c, m.connections[n]? = some c ∧ c.phase = .opened ∧ m.step l =
      { m with
        connectionCount := (m.connectionCount + (2 ^ 64 - 1)) % 2 ^ 64
        connections := m.connections.set n { c with phase := .dropped } }) ∨
    m.step l = m := by
  cases l with
  | broadcast event => exact .inl ⟨_, rfl⟩
  | broadcastForUser userId event => exact .inl ⟨_, rfl⟩
  | reserve userId =>
    by_cases hroom : m.connectionCount < m.maxConnections
    · exact .inr (.inl ⟨userId, rfl, hroom, by rw [step, reserve, if_pos hroom]; rfl⟩)
    · exact .inr (.inr (.inr (.inr (.inr (by rw [step, reserve, if_neg hroom]; rfl)))))
  | attach n => exact .inr (.inr (.inl ⟨n, rfl, rfl⟩))
  | poll n => exact .inr (.inr (.inr (.inl ⟨n, rfl, rfl⟩)))
  | drop n =>
    refine .inr (.inr (.inr (.inr ?_)))
    rw [step, drop]
    split
    next userId receiver delivered hc => exact .inl ⟨n, _, hc, rfl, rfl⟩
    · exact .inr rfl

theorem sound_step {m : SseManager ε} (h : m.Sound) (l : Label ε) : (m.step l).Sound := by
  rcases m.step_cases l with ⟨message, hs⟩ | ⟨userId, -, -, hs⟩ | ⟨n, -, hs⟩ | ⟨n, -, hs⟩ | ⟨n, c, hc, -, hs⟩ |
    hs <;> rw [hs]
  · exact sound_send h message
  · intro c hc
    rcases List.mem_append.mp hc with hc | hc
    · exact h c hc
    · rw [List.mem_singleton.mp hc]
      exact ⟨Receiver.ok_subscribe CAPACITY m.sent, le_refl _, rfl, fun _ => rfl⟩
  · intro c hc
    rcases mem_modify hc with hc | ⟨c', hc', rfl⟩
    · exact h c hc
    · exact (h c' (List.mem_of_getElem? hc')).attach
  · intro c hc
    rcases mem_modify hc with hc | ⟨c', hc', rfl⟩
    · exact h c hc
    · exact (h c' (List.mem_of_getElem? hc')).poll
  · intro c' hc'
    rcases List.mem_or_eq_of_mem_set hc' with hc' | rfl
    · exact h c' hc'
    · have hsound := h c (List.mem_of_getElem? hc)
      exact ⟨hsound.ok, hsound.start_le, hsound.delivered, nofun⟩
  · exact h

/-- The connection that a step leaves at a number: the one that was there, one that goes on, or a new one. -/
theorem getElem?_step {m : SseManager ε} {l : Label ε} {k : Nat} {c : Connection ε}
    (h : (m.step l).connections[k]? = some c) :
    (∃ c', m.connections[k]? = some c' ∧
      (c.receiver = c'.receiver ∨ l = .poll k ∧ c.receiver = (recv CAPACITY m.sent c'.receiver).2)) ∨
    c.receiver = subscribe m.sent := by
  rcases m.step_cases l with ⟨message, hs⟩ | ⟨userId, -, -, hs⟩ | ⟨n, -, hs⟩ | ⟨n, rfl, hs⟩ |
    ⟨n, c', hc', -, hs⟩ | hs <;>
    rw [hs] at h
  · exact .inl ⟨c, h, .inl rfl⟩
  · rw [List.getElem?_append] at h
    split at h
    · exact .inl ⟨c, h, .inl rfl⟩
    · rw [List.mem_singleton.mp (List.mem_of_getElem? h)]
      exact .inr rfl
  · rw [List.getElem?_modify] at h
    obtain ⟨c', hc', rfl⟩ := Option.map_eq_some_iff.mp h
    by_cases hn : n = k
    · rw [if_pos hn, attach]
      split
      · exact .inr rfl
      · exact .inl ⟨c', hc', .inl rfl⟩
    · rw [if_neg hn]
      exact .inl ⟨c', hc', .inl rfl⟩
  · rw [List.getElem?_modify] at h
    obtain ⟨c', hc', rfl⟩ := Option.map_eq_some_iff.mp h
    by_cases hn : n = k
    · rw [if_pos hn]
      by_cases hphase : c'.phase = .opened
      · rw [poll_opened hphase]
        exact .inl ⟨c', hc', .inr ⟨by rw [hn], rfl⟩⟩
      · rw [poll_of_not hphase]
        exact .inl ⟨c', hc', .inl rfl⟩
    · rw [if_neg hn]
      exact .inl ⟨c', hc', .inl rfl⟩
  · rw [List.getElem?_set] at h
    by_cases hn : n = k
    · subst hn
      rw [if_pos rfl] at h
      split at h
      next =>
        obtain rfl := Option.some.inj h
        exact .inl ⟨c', hc', .inl rfl⟩
      · cases h
    · rw [if_neg hn] at h
      exact .inl ⟨c, h, .inl rfl⟩
  · exact .inl ⟨c, h, .inl rfl⟩

/-- Client `k` has missed no event. -/
def Whole (k : Nat) (m : SseManager ε) : Prop := ∀ c, m.connections[k]? = some c → c.receiver.Full

theorem whole_step {k : Nat} {m : SseManager ε} {l : Label ε} (hkeeps : m.KeepsUp k l) (h : m.Whole k) :
    (m.step l).Whole k := by
  intro c hc
  rcases getElem?_step hc with ⟨c', hc', hsame | ⟨rfl, hpoll⟩⟩ | hnew
  · rw [hsame]
    exact h c' hc'
  · rw [hpoll]
    exact (h c' hc').recv (hkeeps rfl c' hc')
  · rw [hnew]
    exact Receiver.full_subscribe m.sent

/-- **Events.** In every run, a client has been given events that are global or for its user, sent since it subscribed,
in the order in which they were sent and each once. When it keeps up, it has been given all that it may see up to its
position. -/
theorem events_delivered (labels : List (Label ε)) (k : Nat) :
    ∀ c, (run step new labels).connections[k]? = some c →
      c.delivered.Sublist (visible c.userId ((run step new labels).sent.drop c.receiver.start)) ∧
      (∀ e ∈ c.delivered, ∃ message ∈ (run step new labels).sent.drop c.receiver.start, message.event = e ∧
        (message.userId = none ∨ c.userId = none ∨ message.userId = c.userId)) ∧
      (Along step (KeepsUp k) new labels → c.delivered = visible c.userId
        (((run step new labels).sent.drop c.receiver.start).take (c.receiver.next - c.receiver.start))) := by
  intro c hc
  have hall : (run step new labels).Sound :=
    run_inv_all (I := Sound) (fun m l h => sound_step h l) labels fun c hc => by cases hc
  have hsound : c.Sound (run step new labels).sent := hall c (List.mem_of_getElem? hc)
  have hsub : c.delivered.Sublist (visible c.userId ((run step new labels).sent.drop c.receiver.start)) := by
    rw [hsound.delivered]
    exact hsound.ok.messages_sublist.filterMap _
  refine ⟨hsub, fun e he => ?_, fun hkeeps => ?_⟩
  · obtain ⟨message, hmessage, hpass⟩ := List.mem_filterMap.mp (hsub.subset he)
    exact ⟨message, hmessage, passes_eq_some hpass⟩
  · have hwhole : (run step new labels).Whole k :=
      run_inv (G := KeepsUp k) (I := Whole k) (fun m l hk h => whole_step hk h) labels (fun c hc => by cases hc) hkeeps
    rw [hsound.delivered, hsound.ok.messages_eq hsound.start_le (hwhole c hc)]

/-- A client of one user gets the event for all and not the one for another user. -/
theorem events_delivered_scoped :
    let labels : List (Label Nat) :=
      [.reserve (some ['a']), .attach 0, .broadcastForUser ['b'] 1, .broadcast 2, .poll 0, .poll 0]
    let c : Connection Nat := ⟨some ['a'], .opened, ⟨0, 2, [0, 1]⟩, [2]⟩
    (run step new labels).connections[0]? = some c ∧
      c.delivered.Sublist (visible c.userId ((run step new labels).sent.drop c.receiver.start)) := by
  intro labels c
  have hc : (run step new labels).connections[0]? = some c := by
    simp [labels, c, run, step, new, reserve, attach, broadcastForUser, broadcast, poll, subscribe, recv, oldest,
      CAPACITY, MAX_CONNECTIONS, Received.toList, ScopedEvent.passes]
  exact ⟨hc, (events_delivered labels 0 c hc).1⟩

/-! ## The count of the connections -/

/-- The counter tells the connections that hold a place, and there are not too many. -/
structure Counted (m : SseManager ε) : Prop where
  count : m.connectionCount = m.connections.countP Connection.held
  le : m.connectionCount ≤ m.maxConnections
  max : m.maxConnections = MAX_CONNECTIONS

theorem countP_modify {f : Connection ε → Connection ε} (hf : ∀ c, (f c).held = c.held) (n : Nat)
    (cs : List (Connection ε)) :
    (cs.modify n f).countP Connection.held = cs.countP Connection.held := by
  induction cs generalizing n with
  | nil => simp
  | cons c cs ih => cases n <;> simp [List.countP_cons, hf, ih]

theorem held_attach (sent : List (ScopedEvent ε)) (c : Connection ε) : (attach sent c).held = c.held := by
  unfold attach
  split
  next h => simp [Connection.held, h]
  · rfl

theorem held_poll (sent : List (ScopedEvent ε)) (c : Connection ε) : (poll sent c).held = c.held := by
  by_cases hphase : c.phase = .opened
  · rw [poll_opened hphase]
    rfl
  · rw [poll_of_not hphase]

/-- A connection that is dropped gives its place back. -/
theorem countP_set_dropped {c : Connection ε} (hc : c.phase = .opened) : ∀ {cs : List (Connection ε)} {n : Nat},
    cs[n]? = some c →
    (cs.set n { c with phase := .dropped }).countP Connection.held + 1 = cs.countP Connection.held
  | c' :: cs, 0, h => by
    obtain rfl := Option.some.inj h
    simp [Connection.held, hc]
  | c' :: cs, n + 1, h => by
    have ih : (cs.set n { c with phase := .dropped }).countP Connection.held + 1 = cs.countP Connection.held :=
      countP_set_dropped hc h
    rw [List.set_cons_succ, List.countP_cons, List.countP_cons, ← ih]
    omega

theorem counted_step {m : SseManager ε} (h : m.Counted) (l : Label ε) : (m.step l).Counted := by
  obtain ⟨hcount, hle, hmax⟩ := h
  rcases m.step_cases l with ⟨message, hs⟩ | ⟨userId, -, hroom, hs⟩ | ⟨n, -, hs⟩ | ⟨n, -, hs⟩ |
    ⟨n, c, hc, hopened, hs⟩ | hs <;>
    rw [hs]
  · exact ⟨hcount, hle, hmax⟩
  · refine ⟨?_, hroom, hmax⟩
    simp [List.countP_append, hcount, Connection.held]
  · exact ⟨hcount.trans (countP_modify (held_attach m.sent) n _).symm, hle, hmax⟩
  · exact ⟨hcount.trans (countP_modify (held_poll m.sent) n _).symm, hle, hmax⟩
  · have hdrop := countP_set_dropped hopened hc
    rw [hmax] at hle
    have hsmall : MAX_CONNECTIONS < 2 ^ 64 := by decide
    refine ⟨?_, ?_, hmax⟩ <;> dsimp only <;> omega
  · exact ⟨hcount, hle, hmax⟩

/-- **Connections.** In every run the counter is the number of connections that hold a place, at most `MAX_CONNECTIONS`;
and a subscription is refused exactly when that many are held. -/
theorem connections_counted (labels : List (Label ε)) (userId : Option Str) :
    (run step new labels).connectionCount = (run step (new : SseManager ε) labels).connections.countP Connection.held ∧
    (run step (new : SseManager ε) labels).connectionCount ≤ MAX_CONNECTIONS ∧
    ((run step new labels).reserve userId = none ↔
      (run step (new : SseManager ε) labels).connections.countP Connection.held = MAX_CONNECTIONS) := by
  have hcounted : (run step (new : SseManager ε) labels).Counted :=
    run_inv_all (I := Counted) (fun m l h => counted_step h l) labels ⟨rfl, Nat.zero_le _, rfl⟩
  obtain ⟨hcount, hle, hmax⟩ := hcounted
  refine ⟨hcount, hle.trans_eq hmax, ?_⟩
  rw [hmax] at hle
  rw [reserve, hmax, ← hcount]
  split
  next hlt => exact iff_of_false nofun hlt.ne
  next hge => exact iff_of_true rfl (le_antisymm hle (not_lt.mp hge))

end SseManager

end Ironclaw.Channels.Sse
