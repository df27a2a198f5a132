import Meeting.Lib.Runs

/-!
# Meeting.Call.Reconnect — the reconnecting websocket (`ws/index.ts`)

`SocketClient` opens a websocket when it is created and again some time after each `close` event.  It emits
`connect` and `disconnect`, and sends a ping at intervals while it is connected.  All its websockets share the
handlers, and nothing is done to an old websocket or to a timer that is running: that they do not disturb
each other is a property of the runs.

* `socket_events`: `connect` and `disconnect` alternate, at most one websocket is live or due, pings are sent
  by one interval exactly while connected and never to a websocket that is connecting;
* `disconnect_silent_iff`: after `disconnect` there is no `connect` or `disconnect` any more if and only if neither a
  websocket was connecting nor a reconnect due; an open websocket is not closed, so that the messages of the server end
  only if it was closed already.
-/

namespace Meeting.Call.Reconnect

open Lib

/-! ### State -/

/-- How far a websocket is, by the events that it has fired. -/
inductive Phase where
  | connecting
  | opened
  | closed
  deriving DecidableEq, Repr

inductive Event where
  | connect
  | disconnect
  deriving DecidableEq, Repr

structure Client where
  ws : Phase
  /-- The websockets that `ws` has held before. -/
  old : List Phase
  connected : Bool
  pingInterval : Option ℕ
  /-- The intervals that are running. -/
  intervals : List ℕ
  /-- How many intervals were set. -/
  handles : ℕ
  /-- How many timers will call `connect`. -/
  timers : ℕ
  reconnectTimeout : ℕ
  pingIntervalTimeout : ℕ
  /-- The client's own events that were emitted. -/
  events : List Event
  /-- How many sends have thrown, because the websocket was connecting. -/
  throws : ℕ
  /-- The types of the messages that were emitted. -/
  messages : List String
  deriving DecidableEq, Repr

/-- The constructor. -/
def Client.new (reconnectTimeout pingIntervalTimeout : ℕ) : Client :=
  ⟨.connecting, [], false, none, [], 0, 0, reconnectTimeout, pingIntervalTimeout, [], 0, []⟩

/-! ### Operations -/

def connect (c : Client) : Client := { c with ws := .connecting, old := c.old ++ [c.ws] }

/-- The first `if` of `wsHandleClose`. -/
def emitDisconnect (c : Client) : Client :=
  if c.connected then { c with events := c.events ++ [.disconnect], connected := false } else c

/-- The second `if` of `wsHandleClose`. -/
def clearPing (c : Client) : Client :=
  match c.pingInterval with
  | some k => { c with intervals := c.intervals.erase k }
  | none => c

def wsHandleClose (c : Client) : Client :=
  let c := clearPing (emitDisconnect c)
  if c.reconnectTimeout ≠ 0 then { c with timers := c.timers + 1 } else c

def disconnect (c : Client) : Client := wsHandleClose { c with reconnectTimeout := 0 }

def wsHandleOpen (c : Client) : Client :=
  let c := { c with connected := true, events := c.events ++ [.connect] }
  if c.pingIntervalTimeout ≠ 0 then
    { c with pingInterval := some c.handles, intervals := c.intervals ++ [c.handles], handles := c.handles + 1 }
  else c

/-- `emit` sends on the current websocket. -/
def ping (c : Client) : Client := if c.ws = .connecting then { c with throws := c.throws + 1 } else c

/-- `wsHandleMessage` for a message that `JSON.parse` takes; for another one it throws and emits nothing. -/
def wsHandleMessage (c : Client) (type : String) : Client := { c with messages := c.messages ++ [type] }

inductive Action where
  /-- The current websocket opens. -/
  | opened
  | closed
  /-- A message comes on the current websocket. -/
  | message (type : String)
  | oldOpened (i : ℕ)
  | oldClosed (i : ℕ)
  | oldMessage (i : ℕ) (type : String)
  /-- A timer fires. -/
  | reconnect
  | disconnect
  /-- Interval `k` is due. -/
  | ping (k : ℕ)
  deriving DecidableEq, Repr

def step (c : Client) : Action → Option Client
  | .opened => if c.ws = .connecting then some (wsHandleOpen { c with ws := .opened }) else none
  | .closed => if c.ws = .closed then none else some (wsHandleClose { c with ws := .closed })
  | .message type => if c.ws = .opened then some (wsHandleMessage c type) else none
  | .oldOpened i =>
    if c.old[i]? = some .connecting then some (wsHandleOpen { c with old := c.old.set i .opened }) else none
  | .oldClosed i =>
    if c.old[i]? = some .connecting ∨ c.old[i]? = some .opened then
      some (wsHandleClose { c with old := c.old.set i .closed })
    else none
  | .oldMessage i type => if c.old[i]? = some .opened then some (wsHandleMessage c type) else none
  | .reconnect => if c.timers = 0 then none else some (connect { c with timers := c.timers - 1 })
  | .disconnect => some (disconnect c)
  | .ping k => if k ∈ c.intervals then some (ping c) else none

/-- What a step can do. -/
inductive Stepped (c : Client) : Action → Client → Prop
  | opened : c.ws = .connecting → Stepped c .opened (wsHandleOpen { c with ws := .opened })
  | closed : c.ws ≠ .closed → Stepped c .closed (wsHandleClose { c with ws := .closed })
  | message {type : String} : c.ws = .opened → Stepped c (.message type) (wsHandleMessage c type)
  | oldOpened {i : ℕ} : c.old[i]? = some .connecting →
      Stepped c (.oldOpened i) (wsHandleOpen { c with old := c.old.set i .opened })
  | oldClosed {i : ℕ} {p : Phase} : c.old[i]? = some p → p ≠ .closed →
      Stepped c (.oldClosed i) (wsHandleClose { c with old := c.old.set i .closed })
  | oldMessage {i : ℕ} {type : String} : c.old[i]? = some .opened →
      Stepped c (.oldMessage i type) (wsHandleMessage c type)
  | reconnect : c.timers ≠ 0 → Stepped c .reconnect (connect { c with timers := c.timers - 1 })
  | disconnect : Stepped c .disconnect (disconnect c)
  | ping {k : ℕ} : k ∈ c.intervals → Stepped c (.ping k) (ping c)

theorem stepped_of_step {c c' : Client} {a : Action} (hs : step c a = some c') : Stepped c a c' := by
  cases a with
  | disconnect => exact Option.some.inj hs ▸ .disconnect
  | oldClosed i =>
    simp only [step] at hs
    split_ifs at hs with h
    obtain rfl := Option.some.inj hs
    rcases h with h | h
    · exact .oldClosed h (by decide)
    · exact .oldClosed h (by decide)
  | opened =>
    simp only [step] at hs
    split_ifs at hs with h
    exact Option.some.inj hs ▸ .opened h
  | closed =>
    simp only [step] at hs
    split_ifs at hs with h
    exact Option.some.inj hs ▸ .closed h
  | message type =>
    simp only [step] at hs
    split_ifs at hs with h
    exact Option.some.inj hs ▸ .message h
  | oldOpened i =>
    simp only [step] at hs
    split_ifs at hs with h
    exact Option.some.inj hs ▸ .oldOpened h
  | oldMessage i type =>
    simp only [step] at hs
    split_ifs at hs with h
    exact Option.some.inj hs ▸ .oldMessage h
  | reconnect =>
    simp only [step] at hs
    split_ifs at hs with h
    exact Option.some.inj hs ▸ .reconnect h
  | ping k =>
    simp only [step] at hs
    split_ifs at hs with h
    exact Option.some.inj hs ▸ .ping h

/-! ### The invariant -/

/-- The first `n` events when `connect` and `disconnect` alternate. -/
def alternating (n : ℕ) : List Event :=
  (List.range n).map fun i => if i % 2 = 0 then .connect else .disconnect

theorem alternating_succ (n : ℕ) :
    alternating (n + 1) = alternating n ++ [if n % 2 = 0 then .connect else .disconnect] := by
  simp [alternating, List.range_succ]

/-- Websockets that are live, or due. -/
def live (c : Client) : ℕ := (if c.ws = .closed then 0 else 1) + c.timers

structure Wired (c : Client) : Prop where
  events : ∃ n, c.events = alternating n ∧ (c.connected = true ↔ n % 2 = 1)
  old : ∀ p ∈ c.old, p = .closed
  one : live c ≤ 1
  due : c.reconnectTimeout ≠ 0 → live c = 1
  connected : c.connected = true → c.ws = .opened
  intervals : c.intervals = if c.connected ∧ c.pingIntervalTimeout ≠ 0 then c.pingInterval.toList else []
  handle : c.connected = true → c.pingIntervalTimeout ≠ 0 → c.pingInterval.isSome
  throws : c.throws = 0

theorem wired_new (r p : ℕ) : Wired (Client.new r p) where
  events := ⟨0, rfl, by simp [Client.new]⟩
  old := by simp [Client.new]
  one := by simp [live, Client.new]
  due := by simp [live, Client.new]
  connected := by simp [Client.new]
  intervals := by simp [Client.new]
  handle := by simp [Client.new]
  throws := rfl

section Steps

variable {c : Client}

theorem Wired.emitDisconnect_events (h : Wired c) :
    ∃ n, (emitDisconnect c).events = alternating n ∧ n % 2 = 0 := by
  obtain ⟨n, hn, hodd⟩ := h.events
  unfold emitDisconnect
  split_ifs with hc
  · refine ⟨n + 1, ?_, by have := hodd.mp hc; omega⟩
    rw [alternating_succ, if_neg (by rw [hodd.mp hc]; decide)]
    simp [hn]
  · refine ⟨n, hn, ?_⟩
    have : ¬ n % 2 = 1 := fun hn => hc (hodd.mpr hn)
    omega

theorem emitDisconnect_eq (c : Client) :
    emitDisconnect c = { c with events := (emitDisconnect c).events, connected := false } := by
  unfold emitDisconnect
  split_ifs with hc
  · rfl
  · obtain ⟨_, _, connected, _⟩ := c
    obtain rfl : connected = false := by simpa using hc
    rfl

theorem clearPing_eq (c : Client) : clearPing c = { c with intervals := (clearPing c).intervals } := by
  unfold clearPing
  split <;> rfl

theorem wsHandleClose_eq (c : Client) : wsHandleClose c = { c with
    events := (emitDisconnect c).events
    connected := false
    intervals := (clearPing c).intervals
    timers := if c.reconnectTimeout ≠ 0 then c.timers + 1 else c.timers } := by
  have hping : (clearPing (emitDisconnect c)).intervals = (clearPing c).intervals := by
    rw [emitDisconnect_eq]
    unfold clearPing
    cases c.pingInterval <;> rfl
  unfold wsHandleClose
  rw [clearPing_eq, hping, emitDisconnect_eq]
  dsimp only
  split_ifs <;> rfl

/-- The interval that runs is the one that is cleared. -/
theorem Wired.clearPing_intervals (h : Wired c) : (clearPing c).intervals = [] := by
  have hi := h.intervals
  unfold clearPing
  cases hp : c.pingInterval with
  | none =>
    rw [hp] at hi
    simpa using hi
  | some k =>
    rw [hp] at hi
    simp only [hi]
    split_ifs <;> simp

/-- `wsHandleClose` keeps the invariant, whatever has become of the websocket. -/
theorem Wired.close (h : Wired c) {ws : Phase}
    (one : live { c with ws, timers := if c.reconnectTimeout ≠ 0 then c.timers + 1 else c.timers } ≤ 1) :
    Wired (wsHandleClose { c with ws }) := by
  have hev : (emitDisconnect { c with ws }).events = (emitDisconnect c).events := by
    unfold emitDisconnect
    split_ifs <;> rfl
  have hping : (clearPing { c with ws }).intervals = [] := by
    refine Eq.trans ?_ h.clearPing_intervals
    unfold clearPing
    cases c.pingInterval <;> rfl
  obtain ⟨n, hn, heven⟩ := h.emitDisconnect_events
  rw [wsHandleClose_eq, hev, hping]
  refine ⟨⟨n, hn, by simp [heven]⟩, h.old, one, fun hr => Nat.le_antisymm one ?_, by simp, by simp, by simp, h.throws⟩
  have hr' : c.reconnectTimeout ≠ 0 := hr
  simp only [live, if_pos hr']
  omega

theorem Wired.opened (h : Wired c) (hws : c.ws = .connecting) : Wired (wsHandleOpen { c with ws := .opened }) := by
  have hc : c.connected = false := by
    by_contra hc
    have := h.connected (by simpa using hc)
    rw [hws] at this
    cases this
  obtain ⟨n, hn, hodd⟩ := h.events
  have heven : n % 2 = 0 := by
    have : ¬ n % 2 = 1 := fun hn => by simp [hodd.mpr hn] at hc
    omega
  have hi : c.intervals = [] := by simpa [hc] using h.intervals
  have hev : c.events ++ [.connect] = alternating (n + 1) := by rw [alternating_succ, if_pos heven, hn]
  have hlive : live { c with ws := .opened } = live c := by simp [live, hws]
  have hone : live { c with ws := .opened } ≤ 1 := hlive ▸ h.one
  have hdue : c.reconnectTimeout ≠ 0 → live { c with ws := .opened } = 1 := fun hr => hlive.trans (h.due hr)
  unfold wsHandleOpen
  dsimp only
  split_ifs with hp
  · exact ⟨⟨n + 1, hev, by simp; omega⟩, h.old, hone, hdue, fun _ => rfl, by simp [hi, hp], by simp, h.throws⟩
  · exact ⟨⟨n + 1, hev, by simp; omega⟩, h.old, hone, hdue, fun _ => rfl, by simp [hi, hp],
      fun _ hp' => absurd hp' hp, h.throws⟩

theorem Wired.reconnect (h : Wired c) (ht : c.timers ≠ 0) : Wired (connect { c with timers := c.timers - 1 }) := by
  have hone := h.one
  have hws : c.ws = .closed := by
    by_contra hws
    simp only [live, if_neg hws] at hone
    omega
  have hc : c.connected = false := by
    by_contra hc
    have := h.connected (by simpa using hc)
    rw [hws] at this
    cases this
  refine ⟨h.events, fun p hp => ?_, ?_, fun hr => ?_, fun hc' => ?_, h.intervals, h.handle, h.throws⟩
  · rcases List.mem_append.mp hp with hp | hp
    · exact h.old p hp
    · rw [List.mem_singleton.mp hp, hws]
  · simp only [live, if_pos hws] at hone
    simp only [live, connect, reduceCtorEq, ↓reduceIte]
    omega
  · simp only [live, if_pos hws] at hone
    simp only [live, connect, reduceCtorEq, ↓reduceIte]
    omega
  · rw [show (connect { c with timers := c.timers - 1 }).connected = c.connected from rfl, hc] at hc'
    cases hc'

theorem Wired.closed (h : Wired c) (hws : c.ws ≠ .closed) : Wired (wsHandleClose { c with ws := .closed }) := by
  have hone := h.one
  refine h.close ?_
  simp only [live, if_neg hws, ↓reduceIte] at hone ⊢
  split_ifs <;> omega

theorem Wired.disconnect (h : Wired c) : Wired (disconnect c) := by
  have h0 : Wired { c with reconnectTimeout := 0 } :=
    ⟨h.events, h.old, h.one, fun hr => absurd rfl hr, h.connected, h.intervals, h.handle, h.throws⟩
  exact h0.close h.one

/-- An old websocket has nothing more to fire. -/
theorem Wired.old_closed (h : Wired c) {i : ℕ} {p : Phase} (hp : c.old[i]? = some p) : p = .closed :=
  h.old p (List.mem_of_getElem? hp)

/-- A ping that is due is sent. -/
theorem Wired.ping_eq (h : Wired c) {k : ℕ} (hk : k ∈ c.intervals) : ping c = c := by
  have hc : c.connected = true := by
    by_contra hc
    rw [h.intervals, if_neg (fun hcc => hc hcc.1)] at hk
    cases hk
  rw [ping, h.connected hc]
  rfl

/-- A message changes nothing but what was emitted. -/
theorem Wired.message (h : Wired c) (type : String) : Wired (wsHandleMessage c type) :=
  ⟨h.events, h.old, h.one, h.due, h.connected, h.intervals, h.handle, h.throws⟩

/-- **Step lemma.** -/
theorem Wired.step {c' : Client} {a : Action} (h : Wired c) (hs : Stepped c a c') : Wired c' := by
  cases hs with
  | opened hws => exact h.opened hws
  | closed hws => exact h.closed hws
  | message => exact h.message _
  | oldOpened hp => cases h.old_closed hp
  | oldClosed hp hne => exact absurd (h.old_closed hp) hne
  | oldMessage hp => cases h.old_closed hp
  | reconnect ht => exact h.reconnect ht
  | disconnect => exact h.disconnect
  | ping hk => exact (h.ping_eq hk).symm ▸ h

end Steps

theorem wired_of_reach {c : Client} {r p : ℕ} (h : Reach step anyStep (Client.new r p) c) : Wired c :=
  h.invariant (wired_new r p) fun _ _ _ hI _ hs => hI.step (stepped_of_step hs)

/-- **Connections come one after the other**: in every order of the events of the websockets, timers and
intervals, with or without `disconnect`, the client has emitted `connect` and `disconnect` in turns and is
connected after a `connect`; at most one websocket is live or due, and just one until `disconnect` is called;
while the client is connected its current websocket is open and one interval sends pings, else none does; and no
ping throws. -/
theorem socket_events {c : Client} {r p : ℕ} (h : Reach step anyStep (Client.new r p) c) :
    (∃ n, c.events = alternating n ∧ (c.connected = true ↔ n % 2 = 1)) ∧
      ((∀ q ∈ c.old, q = .closed) ∧ live c ≤ 1 ∧ (c.reconnectTimeout ≠ 0 → live c = 1)) ∧
      (c.connected = true → c.ws = .opened) ∧
      (c.intervals.length = if c.connected ∧ c.pingIntervalTimeout ≠ 0 then 1 else 0) ∧ c.throws = 0 := by
  have hW := wired_of_reach h
  refine ⟨hW.events, ⟨hW.old, hW.one, hW.due⟩, hW.connected, ?_, hW.throws⟩
  rw [hW.intervals]
  split_ifs with hc
  · obtain ⟨k, hk⟩ := Option.isSome_iff_exists.mp (hW.handle hc.1 hc.2)
    simp [hk]
  · rfl

/-- The connection is lost, a reconnect fails, the next one succeeds. -/
theorem socket_events_example : ∃ c, exec (guarded step anyStep) (Client.new 2000 5000)
      [.opened, .ping 0, .closed, .reconnect, .closed, .reconnect, .opened, .ping 1] = some c ∧
    (c.connected = true ∧ c.old.length = 2 ∧ c.events = [.connect, .disconnect, .connect]) ∧
    live c ≤ 1 ∧ c.throws = 0 := by
  refine exists_exec (by decide) fun c h _ => ?_
  obtain ⟨-, ⟨-, hone, -⟩, -, -, hthrows⟩ := socket_events h
  exact ⟨hone, hthrows⟩

/-! ### After `disconnect` -/

/-- Nothing is left that could emit `connect` or `disconnect`. -/
structure Silent (c : Client) (events : List Event) : Prop where
  ws : c.ws ≠ .connecting
  timers : c.timers = 0
  old : ∀ q ∈ c.old, q = .closed
  reconnectTimeout : c.reconnectTimeout = 0
  connected : c.connected = false
  events : c.events = events

theorem Silent.step {c c' : Client} {a : Action} {l : List Event} (h : Silent c l) (hs : Stepped c a c') :
    Silent c' l := by
  have hclose : ∀ d : Client, d.ws ≠ .connecting → d.timers = 0 → (∀ q ∈ d.old, q = .closed) →
      d.reconnectTimeout = 0 → d.connected = false → d.events = l → Silent (wsHandleClose d) l := by
    intro d hws ht hold hr hc hev
    rw [wsHandleClose_eq]
    refine ⟨hws, by simp [hr, ht], hold, hr, rfl, ?_⟩
    simp [emitDisconnect, hc, hev]
  cases hs with
  | opened hws => exact absurd hws h.ws
  | closed => exact hclose _ (by simp) h.timers h.old h.reconnectTimeout h.connected h.events
  | message => exact ⟨h.ws, h.timers, h.old, h.reconnectTimeout, h.connected, h.events⟩
  | oldOpened hp => cases h.old _ (List.mem_of_getElem? hp)
  | oldClosed hp hne => exact absurd (h.old _ (List.mem_of_getElem? hp)) hne
  | oldMessage hp => cases h.old _ (List.mem_of_getElem? hp)
  | reconnect ht => exact absurd h.timers ht
  | disconnect => exact hclose _ h.ws h.timers h.old rfl h.connected h.events
  | ping =>
    rw [ping, if_neg h.ws]
    exact h

/-- Nothing is left that could emit. -/
structure Mute (c : Client) (events : List Event) (messages : List String) : Prop extends Silent c events where
  closed : c.ws = .closed
  messages : c.messages = messages

theorem Mute.step {c c' : Client} {a : Action} {l : List Event} {ms : List String} (h : Mute c l ms)
    (hs : Stepped c a c') : Mute c' l ms := by
  have hsame : c'.ws = .closed ∧ c'.messages = ms := by
    cases hs with
    | opened hws => exact absurd hws h.ws
    | closed hws => exact absurd h.closed hws
    | message hws =>
      rw [h.closed] at hws
      cases hws
    | oldOpened hp => cases h.old _ (List.mem_of_getElem? hp)
    | oldClosed hp hne => exact absurd (h.old _ (List.mem_of_getElem? hp)) hne
    | oldMessage hp => cases h.old _ (List.mem_of_getElem? hp)
    | reconnect ht => exact absurd h.timers ht
    | disconnect =>
      rw [disconnect, wsHandleClose_eq]
      exact ⟨h.closed, h.messages⟩
    | ping =>
      rw [ping, if_neg h.ws]
      exact ⟨h.closed, h.messages⟩
  exact ⟨h.toSilent.step hs, hsame.1, hsame.2⟩

/-- A websocket that opens emits `connect`, also after `disconnect`. -/
theorem events_wsHandleOpen (c : Client) : (wsHandleOpen c).events = c.events ++ [.connect] := by
  unfold wsHandleOpen
  dsimp only
  split_ifs <;> rfl

theorem append_singleton_ne {α : Type} (l : List α) (a : α) : l ++ [a] ≠ l := fun hl => by
  simpa using congrArg List.length hl

/-- What `disconnect` leaves as it is: the websockets and the timers. -/
theorem disconnect_eq (c : Client) : disconnect c = { c with
    reconnectTimeout := 0
    events := (disconnect c).events
    connected := false
    intervals := (disconnect c).intervals } := by
  rw [disconnect, wsHandleClose_eq]
  rfl

section Disconnect

variable {c : Client}

theorem silent_disconnect (h : Wired c) (hws : c.ws ≠ .connecting) (ht : c.timers = 0) :
    Silent (disconnect c) (disconnect c).events := by
  rw [disconnect_eq]
  exact ⟨hws, ht, h.old, rfl, rfl, rfl⟩

/-- A websocket that is connecting, or a reconnect that is due, may emit `connect` after `disconnect`. -/
theorem events_after_disconnect (h : ¬ (c.ws ≠ .connecting ∧ c.timers = 0)) :
    ∃ c', Reach step anyStep (disconnect c) c' ∧ c'.events ≠ (disconnect c).events := by
  by_cases hws : c.ws = .connecting
  · have hs : step (disconnect c) .opened = some (wsHandleOpen { disconnect c with ws := .opened }) := by
      rw [step, if_pos]
      rw [disconnect_eq]
      exact hws
    refine ⟨_, Reach.refl.tail trivial hs, ?_⟩
    rw [events_wsHandleOpen]
    exact append_singleton_ne _ _
  · have ht : (disconnect c).timers ≠ 0 := by
      rw [disconnect_eq]
      exact fun ht => h ⟨hws, ht⟩
    have hs : step (disconnect c) .reconnect =
        some (connect { disconnect c with timers := (disconnect c).timers - 1 }) := by
      rw [step, if_neg ht]
    refine ⟨_, (Reach.refl.tail trivial hs).tail (a := .opened) trivial rfl, ?_⟩
    rw [events_wsHandleOpen]
    exact append_singleton_ne _ _

/-- **When `disconnect` is the end**: the client emits no `connect` and no `disconnect` after it, in any run, if and only if
no websocket was connecting and no reconnect was due when it was called; and nothing at all, no message of the server
either, if and only if its websocket was closed and no reconnect due. -/
theorem disconnect_silent_iff {c : Client} {r p : ℕ} (h : Reach step anyStep (Client.new r p) c) :
    ((∀ c', Reach step anyStep (disconnect c) c' → c'.events = (disconnect c).events) ↔
      c.ws ≠ .connecting ∧ c.timers = 0) ∧
    ((∀ c', Reach step anyStep (disconnect c) c' →
        c'.events = (disconnect c).events ∧ c'.messages = (disconnect c).messages) ↔
      c.ws = .closed ∧ c.timers = 0) := by
  have hW := wired_of_reach h
  have hends : (∀ c', Reach step anyStep (disconnect c) c' → c'.events = (disconnect c).events) →
      c.ws ≠ .connecting ∧ c.timers = 0 := by
    intro hq
    by_contra hno
    obtain ⟨c', hc', hne⟩ := events_after_disconnect hno
    exact hne (hq c' hc')
  refine ⟨⟨hends, fun ⟨hws, ht⟩ c' hc' => ?_⟩, fun hq => ?_, fun ⟨hws, ht⟩ c' hc' => ?_⟩
  · exact (hc'.invariant (I := fun d => Silent d (disconnect c).events) (silent_disconnect hW hws ht)
      fun _ _ _ hI _ hs => hI.step (stepped_of_step hs)).events
  · obtain ⟨hws, ht⟩ := hends fun c' hc' => (hq c' hc').1
    refine ⟨?_, ht⟩
    cases hphase : c.ws with
    | connecting => exact absurd hphase hws
    | closed => rfl
    | opened =>
      -- the websocket is still open, and its handler still there
      have hs : step (disconnect c) (.message "users") = some (wsHandleMessage (disconnect c) "users") := by
        rw [step, if_pos]
        rw [disconnect_eq]
        exact hphase
      exact absurd (hq _ (Reach.refl.tail trivial hs)).2 (append_singleton_ne _ _)
  · have hS := silent_disconnect hW (by rw [hws]; decide) ht
    have hM : Mute (disconnect c) (disconnect c).events (disconnect c).messages := by
      refine ⟨hS, ?_, rfl⟩
      rw [disconnect_eq]
      exact hws
    have hM' := hc'.invariant (I := fun d => Mute d (disconnect c).events (disconnect c).messages) hM
      fun _ _ _ hI _ hs => hI.step (stepped_of_step hs)
    exact ⟨hM'.events, hM'.messages⟩

end Disconnect

/-- `disconnect` of a connected client: it is the last of its events, but the server is still heard. -/
theorem disconnect_silent_iff_example : ∃ c, exec (guarded step anyStep) (Client.new 2000 5000)
      [.closed, .reconnect, .opened, .message "users"] = some c ∧
    ((c.ws = .opened ∧ c.timers = 0) ∧ (disconnect c).events = [.connect, .disconnect]) ∧
    (∀ c', Reach step anyStep (disconnect c) c' → c'.events = [.connect, .disconnect]) ∧
      ¬ ∀ c', Reach step anyStep (disconnect c) c' →
        c'.events = (disconnect c).events ∧ c'.messages = (disconnect c).messages := by
  refine exists_exec (by decide) fun c h ⟨⟨hws, ht⟩, hev⟩ => ?_
  obtain ⟨hevents, hall⟩ := disconnect_silent_iff h
  refine ⟨fun c' hc' => ?_, fun hmute => ?_⟩
  · rw [← hev]
    exact hevents.mpr ⟨by rw [hws]; decide, ht⟩ c' hc'
  · have hclosed := (hall.mp hmute).1
    rw [hws] at hclosed
    cases hclosed

end Meeting.Call.Reconnect
