import Meeting.Lib.Lists
import Meeting.Lib.Measure

/-!
# Meeting.Sfu.Locks — the locks of a room and of its signallers (`tracksmanager.go`, `wrtcsignaller.go`, `sfu.go`)

`addTrack`, `removeTrack` and `Add` hold the lock of the room while they negotiate with one transport after the
other.  `Negotiate` holds the lock of the negotiator and may wait in `onSignal` for `signalMu`, which is held until
`processLocalSignals` has taken the signal before; and `processLocalSignals` needs the lock of the room for the
metadata that go before a session description.

The circle is closed only if a description waits at a client that has another one under way.  The server is the
initiator, so its offers come one at a time as long as the clients do nothing but answer the offers they got.

* `room_progress`: along such runs, whatever is done from there on without the clients ends after at most `work r`
  steps, and until all is at rest some goroutine can go on;
* `offer_stops_room`: a client that sends an offer of its own can stop the room for everyone.

The lock of the room is a `sync.RWMutex`: a writer first announces itself, which keeps new readers out until it
unlocks, and the readers that were kept out may get in before the next writer announces itself.

The runs are those of transports that are not closed.  `WebRTCTransport.mu` is left out: `RemoveTrack` holds it over
`Negotiate`, but under the lock of the room, and the others give it back at once.
-/

namespace Meeting.Sfu.Locks

open Lib

/-! ### Clients -/

inductive Signal where
  /-- `webrtc.SessionDescription`. -/
  | description
  | candidate
  deriving DecidableEq, Repr

/-- Who holds the lock of the negotiator while it waits for `signalMu`. -/
inductive Caller where
  /-- A goroutine that has the lock of the room. -/
  | task (k : ℕ)
  /-- `HandleMessage`. -/
  | handler
  /-- `handleSignalingStateChange`. -/
  | callback
  deriving DecidableEq, Repr

/-- `processLocalSignals`. -/
inductive Reader where
  | idle
  | taken (signal : Signal)
  /-- `GetTracksMetadata` has the read lock of the room. -/
  | reading
  /-- The metadata were emitted. -/
  | described
  deriving DecidableEq, Repr

/-- `HandleMessage`, which has one message at a time. -/
inductive Handler where
  | idle
  /-- `Negotiate` waits for the lock of the negotiator. -/
  | negotiating
  /-- It waits for `signalMu` with an offer. -/
  | signalling
  /-- `handleRemoteOffer` waits for `signalMu` with an answer. -/
  | answering
  deriving DecidableEq, Repr

/-- A transport with its negotiator, its signaller and the socket handler. -/
structure Client where
  /-- `negotiationDone` is not nil. -/
  negotiating : Bool
  queuedNegotiation : Bool
  /-- The signalling state is not stable. -/
  haveLocalOffer : Bool
  /-- The callbacks of the stable state that are still to be handled. -/
  callbacks : ℕ
  /-- The lock of the negotiator. -/
  mu : Option Caller
  /-- What is sent on `signalChannel`, under `signalMu`. -/
  pending : Option Signal
  reader : Reader
  handler : Handler
  /-- The candidates that wait for `signalMu`. -/
  candidates : ℕ
  /-- The browser has an offer that it has not answered. -/
  received : Bool
  deriving DecidableEq, Repr

def Client.new : Client := ⟨false, false, false, 0, none, none, .idle, .idle, 0, false⟩

/-- `SetLocalDescription` and `onSignal`, which waits if `signalMu` is held. -/
def Client.offer (x : Client) (caller : Caller) : Client :=
  match x.pending with
  | none => { x with haveLocalOffer := true, pending := some .description }
  | some _ => { x with haveLocalOffer := true, mu := some caller }

/-- `negotiate`; the offer may fail. -/
def Client.negotiate (x : Client) (caller : Caller) (success : Bool) : Client :=
  if success then x.offer caller else x

/-- `Negotiate`, under the lock. -/
def Client.lockedNegotiate (x : Client) (caller : Caller) (success : Bool) : Client :=
  if x.negotiating then { x with queuedNegotiation := true }
  else { x with negotiating := true }.negotiate caller success

/-- `handleSignalingStateChange` to the stable state. -/
def Client.handleSignalingStateChange (x : Client) (success : Bool) : Client :=
  if x.queuedNegotiation then { x with queuedNegotiation := false }.negotiate .callback success
  else { x with negotiating := false }

/-- The steps at one client. -/
inductive Local where
  /-- The peer connection has a candidate. -/
  | candidate
  /-- The client asks for a negotiation or a transceiver. -/
  | renegotiate
  /-- The client answers the offer. -/
  | answer
  /-- The client sends an offer, and the answer is set. -/
  | offer
  /-- `Negotiate`, called by `HandleMessage`, gets the lock. -/
  | enter (success : Bool)
  | callback (success : Bool)
  /-- The offer of `HandleMessage` or of a callback gets `signalMu`. -/
  | signal
  | signalAnswer
  | signalCandidate
  /-- `processLocalSignals` takes what is sent. -/
  | take
  | runlock
  | emit
  deriving DecidableEq, Repr

def Client.step (x : Client) : Local → Option Client
  | .candidate => some { x with candidates := x.candidates + 1 }
  | .renegotiate => if x.handler = .idle then some { x with handler := .negotiating } else none
  | .answer =>
    if x.handler = .idle ∧ x.haveLocalOffer then
      some { x with haveLocalOffer := false, callbacks := x.callbacks + 1, received := false }
    else none
  | .offer =>
    if x.handler = .idle ∧ x.haveLocalOffer = false then
      some { x with handler := .answering, callbacks := x.callbacks + 1 }
    else none
  | .enter success =>
    if x.handler = .negotiating ∧ x.mu = none then
      let x' := x.lockedNegotiate .handler success
      some { x' with handler := if x'.mu = none then .idle else .signalling }
    else none
  | .callback success =>
    if 0 < x.callbacks ∧ x.mu = none then
      some ({ x with callbacks := x.callbacks - 1 }.handleSignalingStateChange success)
    else none
  | .signal =>
    match x.mu, x.pending with
    | some .handler, none => some { x with mu := none, pending := some .description, handler := .idle }
    | some .callback, none => some { x with mu := none, pending := some .description }
    | _, _ => none
  | .signalAnswer =>
    if x.handler = .answering ∧ x.pending = none then
      some { x with handler := .idle, pending := some .description }
    else none
  | .signalCandidate =>
    if 0 < x.candidates ∧ x.pending = none then
      some { x with candidates := x.candidates - 1, pending := some .candidate }
    else none
  | .take =>
    match x.pending, x.reader with
    | some s, .idle => some { x with pending := none, reader := .taken s }
    | _, _ => none
  | .runlock => if x.reader = .reading then some { x with reader := .described } else none
  | .emit =>
    match x.reader with
    | .taken .candidate => some { x with reader := .idle }
    | .described => some { x with reader := .idle, received := true }
    | _ => none

/-! ### Rooms -/

/-- A goroutine that calls `AddTrack` or `RemoveTrack` of some transports under the lock of the room. -/
inductive Task where
  | waiting (todo : List ℕ)
  /-- It keeps new readers out, and waits for those that read. -/
  | announced (todo : List ℕ)
  | running (todo : List ℕ)
  /-- The offer to a client waits for `signalMu`. -/
  | signalling (c : ℕ) (todo : List ℕ)
  | done
  deriving DecidableEq, Repr

structure Room where
  clients : List Client
  tasks : List Task
  /-- The goroutine that has announced itself, until it gives the lock back. -/
  mu : Option ℕ
  deriving DecidableEq, Repr

def Room.new (n : ℕ) : Room := ⟨List.replicate n .new, [], none⟩

inductive Action where
  | client (c : ℕ) (action : Local)
  /-- A track event, or a transport that is added: these transports are to be negotiated with. -/
  | event (todo : List ℕ)
  /-- `Lock`, up to where it waits for the readers. -/
  | announce (k : ℕ)
  | lockRoom (k : ℕ)
  /-- `AddTrack` or `RemoveTrack` of the next transport. -/
  | next (k : ℕ) (success : Bool)
  /-- The offer of a goroutine that has the lock of the room gets `signalMu`. -/
  | signalTask (c : ℕ)
  | unlockRoom (k : ℕ)
  | rlock (c : ℕ)
  deriving DecidableEq, Repr

def step (r : Room) : Action → Option Room
  | .client c a =>
    match r.clients[c]? with
    | none => none
    | some x => (x.step a).map fun x' => { r with clients := r.clients.set c x' }
  | .event todo =>
    if ∀ c ∈ todo, c < r.clients.length then some { r with tasks := r.tasks ++ [.waiting todo] } else none
  | .announce k =>
    match r.tasks[k]? with
    | some (.waiting todo) =>
      if r.mu = none then some { r with tasks := r.tasks.set k (.announced todo), mu := some k } else none
    | _ => none
  | .lockRoom k =>
    match r.tasks[k]? with
    | some (.announced todo) =>
      if ∀ x ∈ r.clients, x.reader ≠ .reading then some { r with tasks := r.tasks.set k (.running todo) } else none
    | _ => none
  | .next k success =>
    match r.tasks[k]? with
    | some (.running (c :: todo)) =>
      match r.clients[c]? with
      | none => none
      | some x =>
        if x.mu = none then
          let x' := x.lockedNegotiate (.task k) success
          some { r with
            clients := r.clients.set c x'
            tasks := r.tasks.set k (if x'.mu = none then .running todo else .signalling c todo) }
        else none
    | _ => none
  | .signalTask c =>
    match r.clients[c]? with
    | none => none
    | some x =>
      match x.mu, x.pending with
      | some (.task k), none =>
        match r.tasks[k]? with
        | some (.signalling _ todo) =>
          some { r with
            clients := r.clients.set c { x with mu := none, pending := some .description }
            tasks := r.tasks.set k (.running todo) }
        | _ => none
      | _, _ => none
  | .unlockRoom k =>
    match r.tasks[k]? with
    | some (.running []) => some { r with tasks := r.tasks.set k .done, mu := none }
    | _ => none
  | .rlock c =>
    match r.clients[c]? with
    | none => none
    | some x =>
      if x.reader = .taken .description ∧ r.mu = none then
        some { r with clients := r.clients.set c { x with reader := .reading } }
      else none

/-- What a step can do. -/
inductive Stepped (r : Room) : Action → Room → Prop
  | client {c : ℕ} {a : Local} {x x' : Client} : r.clients[c]? = some x → x.step a = some x' →
      Stepped r (.client c a) { r with clients := r.clients.set c x' }
  | event {todo : List ℕ} : (∀ c ∈ todo, c < r.clients.length) →
      Stepped r (.event todo) { r with tasks := r.tasks ++ [.waiting todo] }
  | announce {k : ℕ} {todo : List ℕ} : r.tasks[k]? = some (.waiting todo) → r.mu = none →
      Stepped r (.announce k) { r with tasks := r.tasks.set k (.announced todo), mu := some k }
  | lockRoom {k : ℕ} {todo : List ℕ} : r.tasks[k]? = some (.announced todo) →
      Stepped r (.lockRoom k) { r with tasks := r.tasks.set k (.running todo) }
  | next {k c : ℕ} {todo : List ℕ} {x : Client} {success : Bool} : r.tasks[k]? = some (.running (c :: todo)) →
      r.clients[c]? = some x → x.mu = none → (x.lockedNegotiate (.task k) success).mu = none →
      Stepped r (.next k success) { r with
        clients := r.clients.set c (x.lockedNegotiate (.task k) success)
        tasks := r.tasks.set k (.running todo) }
  | block {k c : ℕ} {todo : List ℕ} {x : Client} {success : Bool} : r.tasks[k]? = some (.running (c :: todo)) →
      r.clients[c]? = some x → x.mu = none → (x.lockedNegotiate (.task k) success).mu ≠ none →
      Stepped r (.next k success) { r with
        clients := r.clients.set c (x.lockedNegotiate (.task k) success)
        tasks := r.tasks.set k (.signalling c todo) }
  | signalTask {k c d : ℕ} {todo : List ℕ} {x : Client} : r.clients[c]? = some x → x.mu = some (.task k) →
      x.pending = none → r.tasks[k]? = some (.signalling d todo) →
      Stepped r (.signalTask c) { r with
        clients := r.clients.set c { x with mu := none, pending := some .description }
        tasks := r.tasks.set k (.running todo) }
  | unlockRoom {k : ℕ} : r.tasks[k]? = some (.running []) →
      Stepped r (.unlockRoom k) { r with tasks := r.tasks.set k .done, mu := none }
  | rlock {c : ℕ} {x : Client} : r.clients[c]? = some x → x.reader = .taken .description →
      Stepped r (.rlock c) { r with clients := r.clients.set c { x with reader := .reading } }

theorem stepped_of_step {r r' : Room} {a : Action} (hs : step r a = some r') : Stepped r a r' := by
  cases a with
  | client c a =>
    simp only [step] at hs
    split at hs
    · cases hs
    next x hx =>
      obtain ⟨x', hx', rfl⟩ := Option.map_eq_some_iff.mp hs
      exact .client hx hx'
  | event todo =>
    simp only [step] at hs
    split_ifs at hs with h
    exact Option.some.inj hs ▸ .event h
  | announce k =>
    simp only [step] at hs
    split at hs
    next todo hk =>
      split_ifs at hs with h
      exact Option.some.inj hs ▸ .announce hk h
    · cases hs
  | lockRoom k =>
    simp only [step] at hs
    split at hs
    next todo hk =>
      split_ifs at hs
      exact Option.some.inj hs ▸ .lockRoom hk
    · cases hs
  | next k success =>
    simp only [step] at hs
    split at hs
    next c todo hk =>
      split at hs
      · cases hs
      next x hx =>
        split_ifs at hs with hmu hmu'
        · exact Option.some.inj hs ▸ .next hk hx hmu hmu'
        · exact Option.some.inj hs ▸ .block hk hx hmu hmu'
    · cases hs
  | signalTask c =>
    simp only [step] at hs
    split at hs
    · cases hs
    next x hx =>
      split at hs
      next k hmu hp =>
        split at hs
        next d todo hk => exact Option.some.inj hs ▸ .signalTask hx hmu hp hk
        · cases hs
      · cases hs
  | unlockRoom k =>
    simp only [step] at hs
    split at hs
    next hk => exact Option.some.inj hs ▸ .unlockRoom hk
    · cases hs
  | rlock c =>
    simp only [step] at hs
    split at hs
    · cases hs
    next x hx =>
      split_ifs at hs with h
      exact Option.some.inj hs ▸ .rlock hx h.1

/-! ### Offers come one at a time -/

/-- How many there are of something that is there or not. -/
def count (b : Bool) : ℕ := if b then 1 else 0

def Reader.offers : Reader → ℕ
  | .taken .description | .reading | .described => 1
  | _ => 0

/-- The descriptions on the way to the browser. -/
def Client.inFlight (x : Client) : ℕ :=
  count x.mu.isSome + count (x.pending = some .description) + x.reader.offers

/-- An offer that is not answered is on the way or the browser has it, and a negotiation is in progress until the
callback after the answer. -/
def Client.Flow (x : Client) : Prop :=
  x.inFlight + count x.received = count x.haveLocalOffer ∧ x.callbacks + count x.haveLocalOffer ≤ count x.negotiating

structure Client.Sane (x : Client) : Prop where
  flow : x.Flow
  answering : x.handler ≠ .answering
  signalling : x.handler = .signalling → x.mu = some .handler

theorem sane_new : Client.new.Sane := ⟨⟨rfl, by decide⟩, by decide, by decide⟩

/-- The clients only answer, and only offers that they got. -/
def Local.Answers (x : Client) : Local → Prop
  | .answer => x.received = true
  | .offer => False
  | _ => True

instance {x : Client} : DecidablePred (Local.Answers x)
  | .answer => inferInstanceAs (Decidable (x.received = true))
  | .offer => isFalse id
  | .candidate | .renegotiate | .enter _ | .callback _ | .signal | .signalAnswer | .signalCandidate | .take
  | .runlock | .emit => isTrue trivial

section Sane

variable {x x' : Client} {a : Local} {caller : Caller} {success : Bool}

@[simp] theorem count_true : count true = 1 := rfl

@[simp] theorem count_false : count false = 0 := rfl

theorem count_le (b : Bool) : count b ≤ 1 := by cases b <;> decide

theorem Client.Flow.negotiate (h : x.Flow) (hn : x.negotiating = true) (hl : x.haveLocalOffer = false)
    (hc : x.callbacks = 0) : (x.negotiate caller success).Flow := by
  have hf := h.1
  simp only [hl, count_false, Client.inFlight] at hf
  unfold Client.negotiate
  split_ifs
  · unfold Client.offer
    split
    · refine ⟨?_, by simp [hn, hc]⟩
      simp only [Client.inFlight, decide_true, count_true]
      omega
    · refine ⟨?_, by simp [hn, hc]⟩
      simp only [Client.inFlight, Option.isSome_some, count_true]
      omega
  · exact h

theorem Client.Flow.lockedNegotiate (h : x.Flow) : (x.lockedNegotiate caller success).Flow := by
  unfold Client.lockedNegotiate
  split_ifs with hn
  · exact h
  · obtain ⟨hf, hp⟩ := h
    rw [Bool.not_eq_true] at hn
    rw [hn, count_false] at hp
    have hl : x.haveLocalOffer = false := by
      by_contra hl
      rw [Bool.not_eq_false] at hl
      rw [hl, count_true] at hp
      omega
    refine Client.Flow.negotiate ⟨hf, ?_⟩ rfl hl (by show x.callbacks = 0; omega)
    show x.callbacks + count x.haveLocalOffer ≤ 1
    omega

theorem Client.Flow.callback (h : x.Flow) (hc : 0 < x.callbacks) :
    ({ x with callbacks := x.callbacks - 1 }.handleSignalingStateChange success).Flow := by
  obtain ⟨hf, hp⟩ := h
  have hle := count_le x.negotiating
  have hn : x.negotiating = true := by
    by_contra hn
    rw [Bool.not_eq_true] at hn
    rw [hn, count_false] at hp
    omega
  have hl : x.haveLocalOffer = false := by
    by_contra hl
    rw [Bool.not_eq_false] at hl
    rw [hl, count_true] at hp
    omega
  unfold Client.handleSignalingStateChange
  split_ifs
  · refine Client.Flow.negotiate ⟨hf, ?_⟩ hn hl (by show x.callbacks - 1 = 0; omega)
    show x.callbacks - 1 + count x.haveLocalOffer ≤ count x.negotiating
    omega
  · refine ⟨hf, ?_⟩
    show x.callbacks - 1 + count x.haveLocalOffer ≤ 0
    rw [hl, count_false] at hp ⊢
    omega

/-- What `negotiate` leaves as it is. -/
theorem Client.negotiate_fields (hmu : x.mu = none) : (x.negotiate caller success).handler = x.handler ∧
    ((x.negotiate caller success).mu = none ∨ (x.negotiate caller success).mu = some caller) := by
  unfold Client.negotiate Client.offer
  split_ifs
  · split <;> simp [hmu]
  · exact ⟨rfl, Or.inl hmu⟩

theorem Client.lockedNegotiate_fields (hmu : x.mu = none) (caller : Caller) (success : Bool) :
    (x.lockedNegotiate caller success).handler = x.handler ∧
      ((x.lockedNegotiate caller success).mu = none ∨ (x.lockedNegotiate caller success).mu = some caller) := by
  unfold Client.lockedNegotiate
  split_ifs
  · exact ⟨rfl, Or.inl hmu⟩
  · exact Client.negotiate_fields (x := { x with negotiating := true }) hmu

theorem Client.callback_fields (hmu : x.mu = none) (success : Bool) :
    (x.handleSignalingStateChange success).handler = x.handler ∧
    ((x.handleSignalingStateChange success).mu = none ∨ (x.handleSignalingStateChange success).mu = some .callback) := by
  unfold Client.handleSignalingStateChange
  split_ifs
  · exact Client.negotiate_fields (x := { x with queuedNegotiation := false }) hmu
  · exact ⟨rfl, Or.inl hmu⟩

/-- The description that waited is sent. -/
theorem Client.Flow.signal (h : x.Flow) (hmu : x.mu.isSome = true) (hp : x.pending = none) (handler : Handler) :
    Client.Flow { x with mu := none, pending := some .description, handler } := by
  refine ⟨?_, h.2⟩
  have hf := h.1
  simp only [Client.inFlight, hmu, hp, count_true, reduceCtorEq, decide_false, count_false, decide_true,
    Option.isSome_none] at hf ⊢
  omega

/-- **Step lemma** for one client. -/
theorem Client.Sane.step (h : x.Sane) (hok : a.Answers x) (hs : x.step a = some x') : x'.Sane := by
  obtain ⟨⟨hf, hp⟩, hans, hsig⟩ := h
  have hflow : x.Flow := ⟨hf, hp⟩
  cases a with
  | candidate => exact Option.some.inj hs ▸ ⟨hflow, hans, hsig⟩
  | renegotiate =>
    simp only [Client.step] at hs
    split_ifs at hs
    exact Option.some.inj hs ▸ ⟨hflow, by simp, by simp⟩
  | answer =>
    simp only [Client.step] at hs
    split_ifs at hs with hc
    obtain rfl := Option.some.inj hs
    have hr : x.received = true := hok
    rw [hr, hc.2] at hf
    rw [hc.2] at hp
    refine ⟨⟨?_, ?_⟩, hans, hsig⟩
    · simp only [Client.inFlight, count_true, count_false] at hf ⊢
      omega
    · simp only [count_true, count_false] at hp ⊢
      omega
  | offer => exact hok.elim
  | enter success =>
    simp only [Client.step] at hs
    split_ifs at hs with hc hmu
    · obtain ⟨hh, -⟩ := Client.lockedNegotiate_fields hc.2 .handler success
      exact Option.some.inj hs ▸ ⟨hflow.lockedNegotiate, by simp, by simp⟩
    · obtain ⟨hh, hm⟩ := Client.lockedNegotiate_fields hc.2 .handler success
      exact Option.some.inj hs ▸ ⟨hflow.lockedNegotiate, by simp, fun _ => hm.resolve_left hmu⟩
  | callback success =>
    simp only [Client.step] at hs
    split_ifs at hs with hc
    obtain rfl := Option.some.inj hs
    obtain ⟨hh, hm⟩ := Client.callback_fields (x := { x with callbacks := x.callbacks - 1 }) hc.2 success
    refine ⟨hflow.callback hc.1, by rw [hh]; exact hans, fun hsg => ?_⟩
    rw [hh] at hsg
    exact absurd (hsig hsg) (by simp [hc.2])
  | signal =>
    simp only [Client.step] at hs
    split at hs
    next hmu hpn => exact Option.some.inj hs ▸ ⟨hflow.signal (by simp [hmu]) hpn _, by simp, by simp⟩
    next hmu hpn =>
      refine Option.some.inj hs ▸ ⟨hflow.signal (by simp [hmu]) hpn _, hans, fun hsg => ?_⟩
      exact absurd (hsig hsg) (by simp [hmu])
    · cases hs
  | signalAnswer =>
    simp only [Client.step] at hs
    split_ifs at hs with hc
    exact absurd hc.1 hans
  | signalCandidate =>
    simp only [Client.step] at hs
    split_ifs at hs with hc
    refine Option.some.inj hs ▸ ⟨⟨?_, hp⟩, hans, hsig⟩
    simpa [Client.inFlight, hc.2] using hf
  | take =>
    simp only [Client.step] at hs
    split at hs
    next t hpt hr =>
      refine Option.some.inj hs ▸ ⟨⟨?_, hp⟩, hans, hsig⟩
      cases t <;> simpa [Client.inFlight, hpt, hr, Reader.offers, Nat.add_assoc] using hf
    · cases hs
  | runlock =>
    simp only [Client.step] at hs
    split_ifs at hs with hr
    refine Option.some.inj hs ▸ ⟨⟨?_, hp⟩, hans, hsig⟩
    simpa [Client.inFlight, hr, Reader.offers] using hf
  | emit =>
    simp only [Client.step] at hs
    split at hs
    next hr =>
      refine Option.some.inj hs ▸ ⟨⟨?_, hp⟩, hans, hsig⟩
      simpa [Client.inFlight, hr, Reader.offers] using hf
    next hr =>
      refine Option.some.inj hs ▸ ⟨⟨?_, hp⟩, hans, hsig⟩
      have hle := count_le x.haveLocalOffer
      simp only [Client.inFlight, hr, Reader.offers, count_true] at hf ⊢
      omega
    · cases hs

/-- A step at one client keeps what a goroutine of the room waits for. -/
theorem Client.mu_step (hs : x.step a = some x') (k : ℕ) : x'.mu = some (.task k) ↔ x.mu = some (.task k) := by
  cases a with
  | enter success =>
    simp only [Client.step] at hs
    split_ifs at hs with hc hmu
    all_goals
      obtain rfl := Option.some.inj hs
      obtain ⟨-, hm⟩ := Client.lockedNegotiate_fields hc.2 .handler success
      rcases hm with hm | hm <;> simp [hm, hc.2]
  | callback success =>
    simp only [Client.step] at hs
    split_ifs at hs with hc
    obtain rfl := Option.some.inj hs
    obtain ⟨-, hm⟩ := Client.callback_fields (x := { x with callbacks := x.callbacks - 1 }) hc.2 success
    rcases hm with hm | hm
    · rw [hm, hc.2]
    · rw [hm, hc.2]
      simp
  | signal =>
    simp only [Client.step] at hs
    split at hs
    next hmu _ => simp [← Option.some.inj hs, hmu]
    next hmu _ => simp [← Option.some.inj hs, hmu]
    · cases hs
  | take =>
    simp only [Client.step] at hs
    split at hs
    · rw [← Option.some.inj hs]
    · cases hs
  | emit =>
    simp only [Client.step] at hs
    split at hs
    · rw [← Option.some.inj hs]
    · rw [← Option.some.inj hs]
    · cases hs
  | candidate => rw [← Option.some.inj hs]
  | _ =>
    simp only [Client.step] at hs
    split_ifs at hs
    rw [← Option.some.inj hs]

end Sane

/-! ### The lock of the room -/

def Task.todo : Task → List ℕ
  | .waiting todo | .announced todo | .running todo | .signalling _ todo => todo
  | .done => []

/-- The goroutine has the lock of the room, or is the next to get it. -/
def Task.Inside : Task → Prop
  | .announced _ | .running _ | .signalling _ _ => True
  | _ => False

structure Sound (r : Room) : Prop where
  clients : ∀ x ∈ r.clients, x.Sane
  todo : ∀ t ∈ r.tasks, ∀ c ∈ t.todo, c < r.clients.length
  inside : ∀ (k : ℕ) (t : Task), r.tasks[k]? = some t → (t.Inside ↔ r.mu = some k)
  held : ∀ k, r.mu = some k → k < r.tasks.length
  /-- A goroutine that waits for `signalMu` of a client has the lock of its negotiator. -/
  waits : ∀ (k c : ℕ) (todo : List ℕ), r.tasks[k]? = some (.signalling c todo) →
    ∃ x, r.clients[c]? = some x ∧ x.mu = some (.task k)
  locks : ∀ (c : ℕ) (x : Client) (k : ℕ), r.clients[c]? = some x → x.mu = some (.task k) →
    ∃ todo, r.tasks[k]? = some (.signalling c todo)

theorem sound_new (n : ℕ) : Sound (.new n) where
  clients x hx := by
    rw [List.eq_of_mem_replicate hx]
    exact sane_new
  todo _ ht := by cases ht
  inside _ _ hk := by simp [Room.new] at hk
  held _ hk := by cases hk
  waits _ _ _ hk := by simp [Room.new] at hk
  locks c x k hx hmu := by
    have := List.eq_of_mem_replicate (List.mem_of_getElem? hx)
    subst this
    cases hmu

/-- The clients only answer, and only offers that they got. -/
def OnlyAnswers (r : Room) : Action → Prop
  | .client c a => ∀ x ∈ r.clients[c]?, a.Answers x
  | _ => True

instance : DecidableRel OnlyAnswers
  | r, .client c a => inferInstanceAs (Decidable (∀ x ∈ r.clients[c]?, a.Answers x))
  | _, .event _ | _, .announce _ | _, .lockRoom _ | _, .next _ _ | _, .signalTask _ | _, .unlockRoom _
  | _, .rlock _ => isTrue trivial

section Sound

variable {r r' : Room} {a : Action} {c k : ℕ} {x x' : Client} {t t' : Task}

/-- One client changes, and no goroutine of the room waits for it before or after. -/
theorem Sound.setClient (h : Sound r) (hx : r.clients[c]? = some x) (hs : x'.Sane)
    (hmu : ∀ k, x'.mu = some (.task k) ↔ x.mu = some (.task k)) :
    Sound { r with clients := r.clients.set c x' } where
  clients y hy := by
    rcases List.mem_or_eq_of_mem_set hy with hy | rfl
    · exact h.clients y hy
    · exact hs
  todo t ht d hd := by
    rw [List.length_set]
    exact h.todo t ht d hd
  inside := h.inside
  held := h.held
  waits k d todo hk := by
    obtain ⟨y, hy, hyk⟩ := h.waits k d todo hk
    by_cases hd : c = d
    · subst hd
      obtain rfl : x = y := by simpa [hx] using hy
      exact ⟨x', getElem?_set_of_some hx, (hmu k).mpr hyk⟩
    · exact ⟨y, by rwa [List.getElem?_set_ne hd], hyk⟩
  locks d y k hy hyk := by
    rcases getElem?_set_cases hy with ⟨rfl, rfl⟩ | ⟨-, hy⟩
    · exact h.locks c x k hx ((hmu k).mp hyk)
    · exact h.locks d y k hy hyk

/-- One goroutine of the room moves, and waits for no client before or after. -/
theorem Sound.setTask (h : Sound r) (hk : r.tasks[k]? = some t) (ht : ∀ c todo, t ≠ .signalling c todo)
    (ht' : ∀ c todo, t' ≠ .signalling c todo) (htodo : t'.todo ⊆ t.todo) {mu : Option ℕ}
    (hin : t'.Inside ↔ mu = some k) (hmu : ∀ j, j ≠ k → (mu = some j ↔ r.mu = some j)) :
    Sound { r with tasks := r.tasks.set k t', mu } where
  clients := h.clients
  todo s hs d hd := by
    rcases List.mem_or_eq_of_mem_set hs with hs | rfl
    · exact h.todo s hs d hd
    · exact h.todo t (List.mem_of_getElem? hk) d (htodo hd)
  inside j s hj := by
    rcases getElem?_set_cases hj with ⟨rfl, rfl⟩ | ⟨hjk, hj⟩
    · exact hin
    · rw [h.inside j s hj]
      exact (hmu j (Ne.symm hjk)).symm
  held j hj := by
    rw [List.length_set]
    by_cases hjk : k = j
    · subst hjk
      exact (List.getElem?_eq_some_iff.mp hk).1
    · exact h.held j ((hmu j (Ne.symm hjk)).mp hj)
  waits j d todo hj := by
    rcases getElem?_set_cases hj with ⟨-, hsig⟩ | ⟨-, hj⟩
    · exact absurd hsig.symm (ht' d todo)
    · exact h.waits j d todo hj
  locks d y j hy hyj := by
    obtain ⟨todo, hj⟩ := h.locks d y j hy hyj
    refine ⟨todo, ?_⟩
    have hjk : k ≠ j := by
      rintro rfl
      rw [hk] at hj
      exact ht d todo (Option.some.inj hj)
    rwa [List.getElem?_set_ne hjk]

/-- A goroutine of the room moves at client `c`, which is the only one that it may wait for before or after. -/
theorem Sound.setBoth (h : Sound r) (hx : r.clients[c]? = some x) (hk : r.tasks[k]? = some t) (hs : x'.Sane)
    (hmu : ∀ j, j ≠ k → (x'.mu = some (.task j) ↔ x.mu = some (.task j)))
    (hself : x'.mu = some (.task k) ↔ ∃ todo, t' = .signalling c todo)
    (ht : ∀ d todo, t = .signalling d todo → d = c) (ht' : ∀ d todo, t' = .signalling d todo → d = c)
    (htodo : t'.todo ⊆ t.todo) (hin : t'.Inside ↔ t.Inside) :
    Sound { r with clients := r.clients.set c x', tasks := r.tasks.set k t' } where
  clients y hy := by
    rcases List.mem_or_eq_of_mem_set hy with hy | rfl
    · exact h.clients y hy
    · exact hs
  todo s hs d hd := by
    rw [List.length_set]
    rcases List.mem_or_eq_of_mem_set hs with hs | rfl
    · exact h.todo s hs d hd
    · exact h.todo t (List.mem_of_getElem? hk) d (htodo hd)
  inside j s hj := by
    rcases getElem?_set_cases hj with ⟨rfl, rfl⟩ | ⟨-, hj⟩
    · exact hin.trans (h.inside k t hk)
    · exact h.inside j s hj
  held j hj := by
    rw [List.length_set]
    exact h.held j hj
  waits j d todo hj := by
    rcases getElem?_set_cases hj with ⟨rfl, hsig⟩ | ⟨hjk, hj⟩
    · obtain rfl := ht' d todo hsig.symm
      exact ⟨x', getElem?_set_of_some hx, hself.mpr ⟨todo, hsig.symm⟩⟩
    · obtain ⟨y, hy, hyj⟩ := h.waits j d todo hj
      by_cases hd : c = d
      · subst hd
        obtain rfl : x = y := by simpa [hx] using hy
        exact ⟨x', getElem?_set_of_some hx, (hmu j (Ne.symm hjk)).mpr hyj⟩
      · exact ⟨y, by rwa [List.getElem?_set_ne hd], hyj⟩
  locks d y j hy hyj := by
    rcases getElem?_set_cases hy with ⟨rfl, rfl⟩ | ⟨hd, hy⟩
    · by_cases hjk : k = j
      · subst hjk
        obtain ⟨todo, rfl⟩ := hself.mp hyj
        exact ⟨todo, getElem?_set_of_some hk⟩
      · obtain ⟨todo, hj⟩ := h.locks c x j hx ((hmu j (Ne.symm hjk)).mp hyj)
        exact ⟨todo, by rwa [List.getElem?_set_ne hjk]⟩
    · obtain ⟨todo, hj⟩ := h.locks d y j hy hyj
      have hjk : k ≠ j := by
        rintro rfl
        rw [hk] at hj
        exact hd (ht d todo (Option.some.inj hj)).symm
      exact ⟨todo, by rwa [List.getElem?_set_ne hjk]⟩

theorem Sound.event (h : Sound r) {todo : List ℕ} (htodo : ∀ c ∈ todo, c < r.clients.length) :
    Sound { r with tasks := r.tasks ++ [.waiting todo] } where
  clients := h.clients
  todo t ht := by
    rcases List.mem_append.mp ht with ht | ht
    · exact h.todo t ht
    · obtain rfl := List.mem_singleton.mp ht
      exact htodo
  inside k t hk := by
    rcases getElem?_concat_cases hk with hk | ⟨rfl, rfl⟩
    · exact h.inside k t hk
    · exact ⟨False.elim, fun hmu => absurd (h.held _ hmu) (lt_irrefl _)⟩
  held k hk := by
    rw [List.length_append]
    exact Nat.lt_add_right _ (h.held k hk)
  waits k c todo' hk := by
    rcases getElem?_concat_cases hk with hk | ⟨-, hw⟩
    · exact h.waits k c todo' hk
    · cases hw
  locks c x k hx hmu := by
    obtain ⟨todo', hk⟩ := h.locks c x k hx hmu
    exact ⟨todo', getElem?_append_of_some hk⟩

theorem Sound.sane (h : Sound r) (hx : r.clients[c]? = some x) : x.Sane := h.clients x (List.mem_of_getElem? hx)

/-- `Negotiate` under the lock of the room keeps a client sane. -/
theorem Client.Sane.lockedNegotiate (h : x.Sane) (hmu : x.mu = none) {success : Bool} :
    (x.lockedNegotiate (.task k) success).Sane := by
  obtain ⟨hh, -⟩ := Client.lockedNegotiate_fields hmu (.task k) success
  refine ⟨h.flow.lockedNegotiate, by rw [hh]; exact h.answering, fun hs => ?_⟩
  rw [hh] at hs
  exact absurd (h.signalling hs) (by simp [hmu])

/-- **Step lemma.** -/
theorem Sound.step (h : Sound r) (hok : OnlyAnswers r a) (hs : Stepped r a r') : Sound r' := by
  cases hs with
  | client hx hs => exact h.setClient hx ((h.sane hx).step (hok _ hx) hs) (Client.mu_step hs)
  | event htodo => exact h.event htodo
  | @announce k todo hk hmu =>
    refine h.setTask hk (by simp) (by simp) ?_ ?_ fun j hj => ?_
    · exact List.Subset.refl _
    · exact ⟨fun _ => rfl, fun _ => trivial⟩
    · simp [hmu, Ne.symm hj]
  | @lockRoom k todo hk =>
    refine h.setTask hk (by simp) (by simp) ?_ ?_ fun _ _ => Iff.rfl
    · exact List.Subset.refl _
    · exact h.inside k (.announced todo) hk
  | @next k c todo x success hk hx hmu hmu' =>
    refine h.setBoth hx hk ((h.sane hx).lockedNegotiate hmu) (fun j _ => ?_) ?_ (by simp) (by simp)
      (List.subset_cons_self _ _) Iff.rfl
    · simp [hmu, hmu']
    · simp [hmu']
  | @block k c todo x success hk hx hmu hmu' =>
    obtain ⟨-, hm⟩ := Client.lockedNegotiate_fields hmu (.task k) success
    have hm' := hm.resolve_left hmu'
    refine h.setBoth hx hk ((h.sane hx).lockedNegotiate hmu) (fun j hj => ?_) ?_ (by simp) (by simp)
      (List.subset_cons_self _ _) Iff.rfl
    · simp [hmu, hm', Ne.symm hj]
    · simp [hm']
  | @signalTask k c d todo x hx hmu hp hk =>
    have hsane := h.sane hx
    have hcd : ∀ e todo', Task.signalling d todo = .signalling e todo' → e = c := by
      intro e todo' he
      obtain ⟨todo'', hk'⟩ := h.locks c x k hx hmu
      rw [hk] at hk'
      cases he
      cases hk'
      rfl
    refine h.setBoth hx hk ⟨hsane.flow.signal (by simp [hmu]) hp x.handler, hsane.answering, fun hs => ?_⟩ (fun j hj => ?_)
      (by simp) hcd (by simp) (List.Subset.refl _) Iff.rfl
    · exact absurd (hsane.signalling hs) (by simp [hmu])
    · simp [hmu, Ne.symm hj]
  | @unlockRoom k hk =>
    have hmu : r.mu = some k := (h.inside k _ hk).mp trivial
    refine h.setTask hk (by simp) (by simp) ?_ ?_ fun j hj => ?_
    · exact List.Subset.refl _
    · exact ⟨False.elim, fun hn => by cases hn⟩
    · simp [hmu, Ne.symm hj]
  | @rlock c x hx hr =>
    have hsane := h.sane hx
    refine h.setClient hx ⟨⟨?_, hsane.flow.2⟩, hsane.answering, hsane.signalling⟩ fun _ => Iff.rfl
    simpa [Client.inFlight, hr, Reader.offers] using hsane.flow.1

end Sound

theorem sound_of_reach {r : Room} {n : ℕ} (h : Reach step OnlyAnswers (.new n) r) : Sound r :=
  h.invariant (sound_new n) fun _ _ _ hI hok hs => hI.step hok (stepped_of_step hs)

/-! ### Progress -/

/-- The steps that need nothing from the clients. -/
def Internal : Action → Prop
  | .client _ .candidate | .client _ .renegotiate | .client _ .answer | .client _ .offer | .event _ => False
  | _ => True

def Enabled (r : Room) : Prop := ∃ a, Internal a ∧ (step r a).isSome = true

/-- No goroutine has anything to do. -/
structure Client.AtRest (x : Client) : Prop where
  callbacks : x.callbacks = 0
  mu : x.mu = none
  pending : x.pending = none
  reader : x.reader = .idle
  handler : x.handler = .idle
  candidates : x.candidates = 0

def AtRest (r : Room) : Prop := (∀ x ∈ r.clients, x.AtRest) ∧ (∀ t ∈ r.tasks, t = .done) ∧ r.mu = none

section Progress

variable {r r' : Room} {a : Action} {c k : ℕ} {x x' : Client} {t : Task}

theorem enabled_of_client {l : Local} (hx : r.clients[c]? = some x) (hl : Internal (.client c l))
    (hs : (x.step l).isSome = true) : Enabled r := by
  obtain ⟨x', hx'⟩ := Option.isSome_iff_exists.mp hs
  exact ⟨.client c l, hl, by simp [step, hx, hx']⟩

/-- A client at which nothing can be done has its signals waiting behind a description that was taken. -/
structure Client.Stuck (x : Client) : Prop where
  reader : x.reader = .idle ∨ x.reader = .taken .description
  pending : x.pending ≠ none → x.reader = .taken .description
  candidates : 0 < x.candidates → x.pending ≠ none
  mu : x.mu = none
  handler : x.handler = .idle
  callbacks : x.callbacks = 0

/-- An offer of the room that waits is sent once `signalMu` is free. -/
theorem Sound.enabled_signal (h : Sound r) (hx : r.clients[c]? = some x) {caller : Caller} (hmu : x.mu = some caller)
    (hp : x.pending = none) : Enabled r := by
  cases caller with
  | task k =>
    obtain ⟨todo, hk⟩ := h.locks c x k hx hmu
    exact ⟨.signalTask c, trivial, by simp [Locks.step, hx, hmu, hp, hk]⟩
  | handler => exact enabled_of_client (l := .signal) hx trivial (by simp [Client.step, hmu, hp])
  | callback => exact enabled_of_client (l := .signal) hx trivial (by simp [Client.step, hmu, hp])

/-- Some goroutine at the client can go on, or it is stuck. -/
theorem Sound.stuck_of (h : Sound r) (hno : ¬ Enabled r) (hx : r.clients[c]? = some x) : x.Stuck := by
  have hsane := h.sane hx
  have hnot {l : Local} (hl : Internal (.client c l)) : ¬ (x.step l).isSome = true :=
    fun hs => hno (enabled_of_client hx hl hs)
  have hreader : x.reader = .idle ∨ x.reader = .taken .description := by
    cases hr : x.reader with
    | idle => exact Or.inl rfl
    | taken t =>
      cases t with
      | description => exact Or.inr rfl
      | candidate => exact absurd (by simp [Client.step, hr]) (hnot (l := .emit) trivial)
    | reading => exact absurd (by simp [Client.step, hr]) (hnot (l := .runlock) trivial)
    | described => exact absurd (by simp [Client.step, hr]) (hnot (l := .emit) trivial)
  have hpending (hp : x.pending ≠ none) : x.reader = .taken .description := by
    obtain ⟨t, ht⟩ := Option.ne_none_iff_exists'.mp hp
    exact hreader.resolve_left fun hr => hnot (l := .take) trivial (by simp [Client.step, ht, hr])
  have hmu : x.mu = none := by
    by_contra hmu
    obtain ⟨caller, hcaller⟩ := Option.ne_none_iff_exists'.mp hmu
    by_cases hp : x.pending = none
    · exact hno (h.enabled_signal hx hcaller hp)
    · -- the offer that waits and the one that was taken would be two
      have hf := hsane.flow.1
      have hle := count_le x.haveLocalOffer
      simp only [Client.inFlight, hcaller, hpending hp, Option.isSome_some, count_true, Reader.offers] at hf
      omega
  refine ⟨hreader, hpending, fun hc hp => ?_, hmu, ?_, ?_⟩
  · exact hnot (l := .signalCandidate) trivial (by simp [Client.step, hc, hp])
  · cases hh : x.handler with
    | idle => rfl
    | negotiating => exact absurd (by simp [Client.step, hh, hmu]) (hnot (l := .enter true) trivial)
    | signalling => exact absurd (hsane.signalling hh) (by simp [hmu])
    | answering => exact absurd hh hsane.answering
  · by_contra hc
    exact hnot (l := .callback true) trivial (by simp [Client.step, Nat.pos_of_ne_zero hc, hmu])

theorem Sound.not_reading (h : Sound r) (hno : ¬ Enabled r) (hx : x ∈ r.clients) : x.reader ≠ .reading := by
  intro hr
  obtain ⟨c, hc⟩ := List.getElem?_of_mem hx
  rcases (h.stuck_of hno hc).reader with h' | h' <;> rw [h'] at hr <;> cases hr

/-- The lock of the room is given back. -/
theorem Sound.mu_eq_none (h : Sound r) (hno : ¬ Enabled r) : r.mu = none := by
  by_contra hmu
  obtain ⟨k, hk⟩ := Option.ne_none_iff_exists'.mp hmu
  have hlt := h.held k hk
  have ht : r.tasks[k]? = some r.tasks[k] := List.getElem?_eq_getElem hlt
  have hin := (h.inside k _ ht).mpr hk
  cases htk : r.tasks[k] with
  | waiting todo => exact (htk ▸ hin : Task.Inside (.waiting todo))
  | done => exact (htk ▸ hin : Task.Inside .done)
  | announced todo =>
    rw [htk] at ht
    refine hno ⟨.lockRoom k, trivial, ?_⟩
    simp only [Locks.step, ht]
    rw [if_pos fun x hx => h.not_reading hno hx]
    rfl
  | signalling c todo =>
    rw [htk] at ht
    obtain ⟨x, hx, hxk⟩ := h.waits k c todo ht
    rw [(h.stuck_of hno hx).mu] at hxk
    cases hxk
  | running todo =>
    rw [htk] at ht
    cases todo with
    | nil => exact hno ⟨.unlockRoom k, trivial, by simp [Locks.step, ht]⟩
    | cons c todo =>
      have hc := h.todo _ (List.mem_of_getElem? ht) c List.mem_cons_self
      have hx : r.clients[c]? = some r.clients[c] := List.getElem?_eq_getElem hc
      exact hno ⟨.next k true, trivial, by simp only [Locks.step, ht, hx, (h.stuck_of hno hx).mu]; rfl⟩

theorem Sound.tasks_done (h : Sound r) (hno : ¬ Enabled r) (ht : t ∈ r.tasks) : t = .done := by
  have hmu := h.mu_eq_none hno
  obtain ⟨k, hk⟩ := List.getElem?_of_mem ht
  have hout : ¬ t.Inside := fun hin => by
    rw [(h.inside k t hk).mp hin] at hmu
    cases hmu
  cases t with
  | done => rfl
  | announced | running | signalling => exact absurd trivial hout
  | waiting todo => exact absurd ⟨.announce k, trivial, by simp [Locks.step, hk, hmu]⟩ hno

/-- **Progress**: until all is at rest, some goroutine can go on. -/
theorem Sound.progress (h : Sound r) : AtRest r ∨ Enabled r := by
  by_cases hno : Enabled r
  · exact Or.inr hno
  have hmu := h.mu_eq_none hno
  have htasks (t : Task) (ht : t ∈ r.tasks) : t = .done := h.tasks_done hno ht
  refine Or.inl ⟨fun x hx => ?_, htasks, hmu⟩
  obtain ⟨c, hc⟩ := List.getElem?_of_mem hx
  have hst := h.stuck_of hno hc
  have hr : x.reader = .idle :=
    hst.reader.resolve_right fun hr => hno ⟨.rlock c, trivial, by simp [Locks.step, hc, hr, hmu]⟩
  have hp : x.pending = none := by
    by_contra hp
    have := hst.pending hp
    rw [hr] at this
    cases this
  exact ⟨hst.callbacks, hst.mu, hp, hr, hst.handler, by
    by_contra hc
    exact hst.candidates (Nat.pos_of_ne_zero hc) hp⟩

end Progress

/-! ### How much there is to do -/

def Reader.work : Reader → ℕ
  | .idle => 0
  | .taken .candidate | .described => 1
  | .reading => 2
  | .taken .description => 3

def Signal.work : Signal → ℕ
  | .description => 4
  | .candidate => 2

def Handler.work : Handler → ℕ
  | .idle | .signalling => 0
  | .answering => 5
  | .negotiating => 6

/-- The steps that are left at a client: a callback or a call of `Negotiate` may make an offer. -/
def Client.work (x : Client) : ℕ :=
  5 * count x.mu.isSome + (x.pending.map Signal.work).getD 0 + x.reader.work + x.handler.work + 3 * x.candidates +
    6 * x.callbacks

def Task.work : Task → ℕ
  | .waiting todo => 6 * todo.length + 3
  | .announced todo => 6 * todo.length + 2
  | .running todo | .signalling _ todo => 6 * todo.length + 1
  | .done => 0

def work (r : Room) : ℕ := (r.clients.map Client.work).sum + (r.tasks.map Task.work).sum

section Work

variable {r r' : Room} {a : Action} {c k : ℕ} {x x' : Client} {t : Task} {caller : Caller} {success : Bool}

theorem Client.work_offer (hmu : x.mu = none) : (x.offer caller).work ≤ x.work + 5 := by
  unfold Client.offer
  split
  next hp =>
    simp only [Client.work, hp, Option.map_none, Option.getD_none, Option.map_some, Option.getD_some, Signal.work]
    omega
  next hp =>
    simp only [Client.work, hmu, Option.isSome_some, Option.isSome_none, count_true, count_false]
    omega

theorem Client.work_negotiate (hmu : x.mu = none) : (x.negotiate caller success).work ≤ x.work + 5 := by
  unfold Client.negotiate
  split_ifs
  · exact Client.work_offer hmu
  · omega

theorem Client.work_lockedNegotiate (hmu : x.mu = none) (caller : Caller) (success : Bool) :
    (x.lockedNegotiate caller success).work ≤ x.work + 5 := by
  unfold Client.lockedNegotiate
  split_ifs
  · exact Nat.le_add_right _ _
  · exact Client.work_negotiate (x := { x with negotiating := true }) hmu

theorem Client.work_callback (hmu : x.mu = none) (hc : 0 < x.callbacks) :
    ({ x with callbacks := x.callbacks - 1 }.handleSignalingStateChange success).work < x.work := by
  have hy : ({ x with callbacks := x.callbacks - 1 } : Client).work + 6 = x.work := by
    simp only [Client.work]
    omega
  unfold Client.handleSignalingStateChange
  split_ifs
  · have hle : (Client.negotiate { x with callbacks := x.callbacks - 1, queuedNegotiation := false } .callback
        success).work ≤ ({ x with callbacks := x.callbacks - 1 } : Client).work + 5 := Client.work_negotiate hmu
    exact lt_of_le_of_lt hle (by omega)
  · show ({ x with callbacks := x.callbacks - 1 } : Client).work < x.work
    omega

theorem Client.work_handler (handler : Handler) :
    ({ x with handler } : Client).work + x.handler.work = x.work + handler.work := by
  simp only [Client.work]
  omega

/-- A call of `Negotiate` ends, or waits for `signalMu`. -/
theorem Client.work_enter {handler : Handler} (hle : x'.work ≤ x.work + 5) (hh : x'.handler = .negotiating)
    (hw : handler.work = 0) : ({ x' with handler } : Client).work < x.work := by
  have hset := Client.work_handler (x := x') handler
  rw [hh, hw] at hset
  simp only [Handler.work] at hset
  omega

/-- **Step lemma** for one client: what is done there by itself leaves less to do. -/
theorem Client.work_step {l : Local} (hl : Internal (.client c l)) (hs : x.step l = some x') : x'.work < x.work := by
  cases l with
  | candidate | renegotiate | answer | offer => exact hl.elim
  | enter success =>
    simp only [Client.step] at hs
    split_ifs at hs with hc hmu
    all_goals
      obtain ⟨hfield, -⟩ := Client.lockedNegotiate_fields hc.2 .handler success
      exact Option.some.inj hs ▸ Client.work_enter (Client.work_lockedNegotiate hc.2 _ _) (hfield.trans hc.1) rfl
  | callback success =>
    simp only [Client.step] at hs
    split_ifs at hs with hc
    exact Option.some.inj hs ▸ Client.work_callback hc.2 hc.1
  | signal =>
    simp only [Client.step] at hs
    split at hs
    next hmu hp =>
      obtain rfl := Option.some.inj hs
      simp [Client.work, hmu, hp, Signal.work, Handler.work]
      omega
    next hmu hp =>
      obtain rfl := Option.some.inj hs
      simp [Client.work, hmu, hp, Signal.work]
    · cases hs
  | signalAnswer =>
    simp only [Client.step] at hs
    split_ifs at hs with hc
    obtain rfl := Option.some.inj hs
    simp [Client.work, hc.1, hc.2, Signal.work, Handler.work]
    omega
  | signalCandidate =>
    simp only [Client.step] at hs
    split_ifs at hs with hc
    obtain rfl := Option.some.inj hs
    simp [Client.work, hc.2, Signal.work]
    omega
  | take =>
    simp only [Client.step] at hs
    split at hs
    next t hp hr =>
      obtain rfl := Option.some.inj hs
      cases t <;> simp [Client.work, hp, hr, Signal.work, Reader.work]
    · cases hs
  | runlock =>
    simp only [Client.step] at hs
    split_ifs at hs with hr
    obtain rfl := Option.some.inj hs
    simp [Client.work, hr, Reader.work]
  | emit =>
    simp only [Client.step] at hs
    split at hs
    next hr =>
      obtain rfl := Option.some.inj hs
      simp [Client.work, hr, Reader.work]
    next hr =>
      obtain rfl := Option.some.inj hs
      simp [Client.work, hr, Reader.work]
    · cases hs

/-- **Step lemma**: every step that needs nothing from the clients leaves less to do. -/
theorem work_step (ha : Internal a) (hs : Stepped r a r') : work r' < work r := by
  cases hs with
  | event => exact ha.elim
  | @client c l x x' hx hs =>
    have hlt := Client.work_step ha hs
    have hset := sum_set (f := Client.work) (y := x') hx
    simp only [work]
    omega
  | @announce k todo hk =>
    have hset := sum_set (f := Task.work) (y := .announced todo) hk
    simp only [work]
    simp only [Task.work] at hset
    omega
  | @lockRoom k todo hk =>
    have hset := sum_set (f := Task.work) (y := .running todo) hk
    simp only [work]
    simp only [Task.work] at hset
    omega
  | @next k c todo x success hk hx hmu =>
    have hle := Client.work_lockedNegotiate hmu (.task k) success
    have hx' := sum_set (f := Client.work) (y := x.lockedNegotiate (.task k) success) hx
    have hk' := sum_set (f := Task.work) (y := .running todo) hk
    simp only [work]
    simp only [Task.work, List.length_cons] at hk'
    omega
  | @block k c todo x success hk hx hmu =>
    have hle := Client.work_lockedNegotiate hmu (.task k) success
    have hx' := sum_set (f := Client.work) (y := x.lockedNegotiate (.task k) success) hx
    have hk' := sum_set (f := Task.work) (y := .signalling c todo) hk
    simp only [work]
    simp only [Task.work, List.length_cons] at hk'
    omega
  | @signalTask k c d todo x hx hmu hp hk =>
    have hlt : ({ x with mu := none, pending := some .description } : Client).work < x.work := by
      simp [Client.work, hmu, hp, Signal.work]
    have hx' := sum_set (f := Client.work) (y := { x with mu := none, pending := some .description }) hx
    have hk' := sum_set (f := Task.work) (y := .running todo) hk
    simp only [work]
    simp only [Task.work] at hk'
    omega
  | @unlockRoom k hk =>
    have hset := sum_set (f := Task.work) (y := .done) hk
    simp only [work]
    simp only [Task.work] at hset
    omega
  | @rlock c x hx hr =>
    have hlt : ({ x with reader := .reading } : Client).work < x.work := by simp [Client.work, hr, Reader.work]
    have hset := sum_set (f := Client.work) (y := { x with reader := .reading }) hx
    simp only [work]
    omega

end Work

theorem onlyAnswers_of_internal {r : Room} {a : Action} (ha : Internal a) : OnlyAnswers r a := by
  cases a with
  | client c l => cases l <;> first | exact ha.elim | exact fun _ _ => trivial
  | _ => trivial

/-- **The room does not stop**: along every run in which the clients do nothing but answer the offers they got, what
is done from there on without them takes at most `work r` steps, and until all is at rest some goroutine can go
on. -/
theorem room_progress {r r' : Room} {n : ℕ} {as : List Action} (h : Reach step OnlyAnswers (.new n) r)
    (ha : ∀ a ∈ as, Internal a) (he : exec step r as = some r') :
    as.length ≤ work r ∧ (AtRest r' ∨ Enabled r') := by
  have hrun := exec_measure (I := Reach step OnlyAnswers (.new n)) (m := work) (fun r a r' hr ha hs =>
    ⟨hr.tail (onlyAnswers_of_internal ha) hs, work_step ha (stepped_of_step hs)⟩) as h ha he
  obtain ⟨h', hle⟩ := hrun
  exact ⟨by omega, (sound_of_reach h').progress⟩

/-- Two tracks are added while a candidate and an offer are on their way to the other client. -/
theorem room_progress_example : ∃ r, exec (guarded step OnlyAnswers) (.new 2)
      [.client 0 .renegotiate, .client 0 (.enter true), .client 0 .candidate, .client 0 .take,
        .client 0 .signalCandidate, .event [0, 1], .announce 0, .lockRoom 0, .event [1], .next 0 true,
        .client 1 .candidate, .client 1 .signalCandidate, .next 0 true] = some r ∧
    (work r = 22 ∧ r.tasks = [.signalling 1 [], .waiting [1]]) ∧ (AtRest r ∨ Enabled r) :=
  exists_exec (by decide +kernel) fun _ h _ => (room_progress h (List.forall_mem_nil _) rfl).2

/-- The internal steps that there could be. -/
def internal (r : Room) : List Action :=
  ((List.range r.clients.length).flatMap fun c =>
    [.signalTask c, .rlock c] ++ [Local.enter true, .enter false, .callback true, .callback false, .signal,
      .signalAnswer, .signalCandidate, .take, .runlock, .emit].map (.client c)) ++
  (List.range r.tasks.length).flatMap fun k =>
    [.announce k, .lockRoom k, .next k true, .next k false, .unlockRoom k]

theorem mem_internal {r : Room} {a : Action} (ha : Internal a) (hs : (step r a).isSome = true) : a ∈ internal r := by
  have hclient {c : ℕ} (hn : r.clients[c]? ≠ none) : c < r.clients.length := by simpa using hn
  have htask {k : ℕ} (hn : r.tasks[k]? ≠ none) : k < r.tasks.length := by simpa using hn
  simp only [internal, List.mem_append, List.mem_flatMap, List.mem_range]
  cases a with
  | event => exact ha.elim
  | client c l =>
    refine Or.inl ⟨c, hclient fun hn => by simp [step, hn] at hs, Or.inr (List.mem_map_of_mem ?_)⟩
    cases l with
    | candidate | renegotiate | answer | offer => exact ha.elim
    | enter success => cases success <;> simp
    | callback success => cases success <;> simp
    | _ => simp
  | signalTask c => exact Or.inl ⟨c, hclient fun hn => by simp [step, hn] at hs, by simp⟩
  | rlock c => exact Or.inl ⟨c, hclient fun hn => by simp [step, hn] at hs, by simp⟩
  | announce k => exact Or.inr ⟨k, htask fun hn => by simp [step, hn] at hs, by simp⟩
  | lockRoom k => exact Or.inr ⟨k, htask fun hn => by simp [step, hn] at hs, by simp⟩
  | unlockRoom k => exact Or.inr ⟨k, htask fun hn => by simp [step, hn] at hs, by simp⟩
  | next k success =>
    exact Or.inr ⟨k, htask fun hn => by simp [step, hn] at hs, by cases success <;> simp⟩

/-- **A client that sends an offer can stop the room**: its answer has been taken, the candidate after it holds
`signalMu`, and a goroutine that has the lock of the room waits for it with an offer. -/
theorem offer_stops_room : ∃ r, exec (guarded step anyStep) (.new 2)
      [.client 0 .offer, .client 0 .signalAnswer, .client 0 (.callback true), .client 0 .take, .client 0 .candidate,
        .client 0 .signalCandidate, .event [0], .announce 0, .lockRoom 0, .next 0 true, .event [1]] = some r ∧
    ((∀ a ∈ internal r, (step r a).isNone = true) ∧ r.mu = some 0) ∧ ¬ Enabled r := by
  refine exists_exec (by decide +kernel) fun r _ hq => ?_
  rintro ⟨a, ha, hs⟩
  have hnone := hq.1 a (mem_internal ha hs)
  rw [Option.isNone_iff_eq_none.mp hnone] at hs
  cases hs

end Meeting.Sfu.Locks
