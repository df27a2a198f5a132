import Meeting.Lib.Runs

/-!
# Meeting.Room.Cleanup — the goroutines of one mesh request (`mesh.go`, `wssub.go`, `wsclient.go`)

Three goroutines of the server and a remote take part in a websocket request.  The handler of
`NewMeshHandler` checks the token and ranges over `sub.Messages`; the goroutine of `WSS.Subscribe` adds the
client, forwards the messages on that channel, removes the client and exits the room; the goroutine of
`Client.Subscribe` reads the socket.  Both channels are unbuffered: a message passes in one step of its sender
and its receiver.  When the handler returns, or panics on a message, the context of the request is cancelled.

* `cleaned_up`: along the runs in which every message is read for a handler that is still there
  (`HandlerListens`), when the connection is closed or cancelled and no goroutine can go on, the client is
  removed and the room exited;
* `never_cleaned_up`: a message of a rejected client is forwarded to nobody.
-/

namespace Meeting.Room.Cleanup

open Lib

/-! ### State -/

/-- What the remote sends.  Of a message it only matters here whether the handler panics on it (a `ready` without
a nickname, say). -/
inductive Frame where
  | message (panics : Bool)
  /-- It cannot be deserialized, or is not text. -/
  | malformed
  deriving DecidableEq, Repr

inductive Handler where
  /-- Before `JWTTokenFromCookie`. -/
  | authenticating
  /-- At the `range` over `sub.Messages`. -/
  | draining
  | handling (panics : Bool)
  | returned
  deriving DecidableEq, Repr

/-- The goroutine of `WSS.Subscribe`, after `Enter`. -/
inductive Subscription where
  | adding
  /-- At the `range` over `msgChan`. -/
  | receiving
  /-- Before `ch <- message`. -/
  | forwarding (panics : Bool)
  /-- Before `close(ch)`. -/
  | closing
  | removing
  | exiting
  /-- Before `c.Close`. -/
  | disconnecting
  | done
  deriving DecidableEq, Repr

/-- The goroutine of `Client.Subscribe`. -/
inductive Reader where
  | notStarted
  | reading
  /-- Before `msgChan <- message`. -/
  | sending (panics : Bool)
  /-- It has closed `msgChan`. -/
  | done
  deriving DecidableEq, Repr

structure Request where
  /-- Whether `JWTTokenFromCookie` succeeds. -/
  token : Bool
  handler : Handler
  subscription : Subscription
  reader : Reader
  /-- What the remote has sent and the reader has not read. -/
  inbox : List Frame
  /-- The remote has closed the connection. -/
  closed : Bool
  /-- The client is in the adapter's `clients`. -/
  registered : Bool
  /-- How often the room was entered and exited. -/
  enters : ℕ
  exits : ℕ
  /-- The messages that were read, and those that the handler got. -/
  read : List Bool
  received : List Bool
  deriving DecidableEq, Repr

/-- `Subscribe` has returned, and its goroutine was started. -/
def Request.start (token : Bool) : Request :=
  ⟨token, .authenticating, .adding, .notStarted, [], false, false, 1, 0, [], []⟩

/-- The context of the request is cancelled when the handler is left. -/
def Request.cancelled (r : Request) : Prop := r.handler = .returned

instance (r : Request) : Decidable r.cancelled := inferInstanceAs (Decidable (_ = _))

/-- `ch` is closed. -/
def Subscription.chClosed : Subscription → Bool
  | .removing | .exiting | .disconnecting | .done => true
  | .adding | .receiving | .forwarding _ | .closing => false

/-! ### Steps -/

inductive Action where
  | send (frame : Frame)
  | close
  /-- The handler looks at the token. -/
  | authenticate
  /-- A message passes through `ch`. -/
  | forward
  | handle
  /-- The handler finds `ch` closed. -/
  | drained
  | add
  /-- A message passes through `msgChan`. -/
  | deliver
  /-- The subscription finds `msgChan` closed. -/
  | endOfMessages
  | closeCh
  | remove
  | exit
  | disconnect
  /-- The reader reads a frame, or gets an error from the connection. -/
  | read
  | readError
  deriving DecidableEq, Repr

/-- An action of the remote. -/
def Action.remote : Action → Bool
  | .send _ | .close => true
  | _ => false

def step (r : Request) : Action → Option Request
  | .send frame => if r.closed then none else some { r with inbox := r.inbox ++ [frame] }
  | .close => if r.closed then none else some { r with closed := true }
  | .authenticate =>
    if r.handler = .authenticating then
      some { r with handler := if r.token then .draining else .returned }
    else none
  | .forward =>
    match r.subscription, r.handler with
    | .forwarding m, .draining =>
      some { r with subscription := .receiving, handler := .handling m, received := r.received ++ [m] }
    | _, _ => none
  | .handle =>
    match r.handler with
    | .handling m => some { r with handler := if m then .returned else .draining }
    | _ => none
  | .drained =>
    if r.handler = .draining ∧ r.subscription.chClosed then some { r with handler := .returned } else none
  | .add =>
    if r.subscription = .adding then
      some { r with subscription := .receiving, registered := true, reader := .reading }
    else none
  | .deliver =>
    match r.reader, r.subscription with
    | .sending m, .receiving => some { r with reader := .reading, subscription := .forwarding m }
    | _, _ => none
  | .endOfMessages =>
    if r.subscription = .receiving ∧ r.reader = .done then some { r with subscription := .closing } else none
  | .closeCh => if r.subscription = .closing then some { r with subscription := .removing } else none
  | .remove =>
    if r.subscription = .removing then some { r with subscription := .exiting, registered := false } else none
  | .exit =>
    if r.subscription = .exiting then
      some { r with subscription := .disconnecting, exits := r.exits + 1 }
    else none
  | .disconnect => if r.subscription = .disconnecting then some { r with subscription := .done } else none
  | .read =>
    match r.reader, r.inbox with
    | .reading, .message m :: inbox => some { r with reader := .sending m, inbox, read := r.read ++ [m] }
    | .reading, .malformed :: inbox => some { r with reader := .done, inbox }
    | _, _ => none
  | .readError =>
    if r.reader = .reading ∧ (r.closed ∨ r.cancelled) then some { r with reader := .done } else none

/-- What a step can do. -/
inductive Stepped (r : Request) : Action → Request → Prop
  | send {frame : Frame} : Stepped r (.send frame) { r with inbox := r.inbox ++ [frame] }
  | close : Stepped r .close { r with closed := true }
  | accept : r.handler = .authenticating → r.token = true →
      Stepped r .authenticate { r with handler := .draining }
  | reject : r.handler = .authenticating → r.token = false →
      Stepped r .authenticate { r with handler := .returned }
  | forward {m : Bool} : r.subscription = .forwarding m → r.handler = .draining → Stepped r .forward { r with
      subscription := .receiving, handler := .handling m, received := r.received ++ [m] }
  | handle : r.handler = .handling false → Stepped r .handle { r with handler := .draining }
  | panic : r.handler = .handling true → Stepped r .handle { r with handler := .returned }
  | drained : r.handler = .draining → r.subscription.chClosed = true →
      Stepped r .drained { r with handler := .returned }
  | add : r.subscription = .adding →
      Stepped r .add { r with subscription := .receiving, registered := true, reader := .reading }
  | deliver {m : Bool} : r.reader = .sending m → r.subscription = .receiving →
      Stepped r .deliver { r with reader := .reading, subscription := .forwarding m }
  | endOfMessages : r.subscription = .receiving → r.reader = .done →
      Stepped r .endOfMessages { r with subscription := .closing }
  | closeCh : r.subscription = .closing → Stepped r .closeCh { r with subscription := .removing }
  | remove : r.subscription = .removing →
      Stepped r .remove { r with subscription := .exiting, registered := false }
  | exit : r.subscription = .exiting →
      Stepped r .exit { r with subscription := .disconnecting, exits := r.exits + 1 }
  | disconnect : r.subscription = .disconnecting → Stepped r .disconnect { r with subscription := .done }
  | read {m : Bool} {inbox : List Frame} : r.reader = .reading → r.inbox = .message m :: inbox →
      Stepped r .read { r with reader := .sending m, inbox, read := r.read ++ [m] }
  | malformed {inbox : List Frame} : r.reader = .reading → r.inbox = .malformed :: inbox →
      Stepped r .read { r with reader := .done, inbox }
  | readError : r.reader = .reading → r.closed = true ∨ r.cancelled →
      Stepped r .readError { r with reader := .done }

theorem stepped_of_step {r r' : Request} {x : Action} (hs : step r x = some r') : Stepped r x r' := by
  cases x with
  | send frame =>
    simp only [step] at hs
    split_ifs at hs
    exact Option.some.inj hs ▸ .send
  | close =>
    simp only [step] at hs
    split_ifs at hs
    exact Option.some.inj hs ▸ .close
  | authenticate =>
    simp only [step] at hs
    split_ifs at hs with hh ht
    · exact Option.some.inj hs ▸ .accept hh ht
    · exact Option.some.inj hs ▸ .reject hh (by simpa using ht)
  | forward =>
    simp only [step] at hs
    split at hs
    next m hsub hh => exact Option.some.inj hs ▸ .forward hsub hh
    next => cases hs
  | handle =>
    simp only [step] at hs
    split at hs
    next m hh =>
      cases m with
      | false => exact Option.some.inj hs ▸ .handle hh
      | true => exact Option.some.inj hs ▸ .panic hh
    next => cases hs
  | drained =>
    simp only [step] at hs
    split_ifs at hs with h
    exact Option.some.inj hs ▸ .drained h.1 h.2
  | add =>
    simp only [step] at hs
    split_ifs at hs with h
    exact Option.some.inj hs ▸ .add h
  | deliver =>
    simp only [step] at hs
    split at hs
    next m hr hsub => exact Option.some.inj hs ▸ .deliver hr hsub
    next => cases hs
  | endOfMessages =>
    simp only [step] at hs
    split_ifs at hs with h
    exact Option.some.inj hs ▸ .endOfMessages h.1 h.2
  | closeCh =>
    simp only [step] at hs
    split_ifs at hs with h
    exact Option.some.inj hs ▸ .closeCh h
  | remove =>
    simp only [step] at hs
    split_ifs at hs with h
    exact Option.some.inj hs ▸ .remove h
  | exit =>
    simp only [step] at hs
    split_ifs at hs with h
    exact Option.some.inj hs ▸ .exit h
  | disconnect =>
    simp only [step] at hs
    split_ifs at hs with h
    exact Option.some.inj hs ▸ .disconnect h
  | read =>
    simp only [step] at hs
    split at hs
    next m inbox hr hin => exact Option.some.inj hs ▸ .read hr hin
    next inbox hr hin => exact Option.some.inj hs ▸ .malformed hr hin
    next => cases hs
  | readError =>
    simp only [step] at hs
    split_ifs at hs with h
    exact Option.some.inj hs ▸ .readError h.1 h.2

/-- No goroutine of the server can go on. -/
def Stuck (r : Request) : Prop := ∀ x : Action, x.remote = false → step r x = none

def serverActions : List Action :=
  [.authenticate, .forward, .handle, .drained, .add, .deliver, .endOfMessages, .closeCh, .remove, .exit,
    .disconnect, .read, .readError]

theorem mem_serverActions {x : Action} : x ∈ serverActions ↔ x.remote = false := by
  cases x <;> simp [serverActions, Action.remote]

instance (r : Request) : Decidable (Stuck r) :=
  decidable_of_iff (∀ x ∈ serverActions, step r x = none)
    (forall_congr' fun _ => imp_congr_left mem_serverActions)

/-- A message is read only when the token is accepted and the handler has not got, and will not get before, a
message that it panics on. -/
def HandlerListens (r : Request) : Action → Prop
  | .read => ∀ m ∈ r.inbox.head?, m = .malformed ∨ r.token = true ∧ true ∉ r.read
  | _ => True

instance : DecidableRel HandlerListens
  | r, .read =>
    inferInstanceAs (Decidable (∀ m ∈ r.inbox.head?, m = .malformed ∨ r.token = true ∧ true ∉ r.read))
  | _, .send _ | _, .close | _, .authenticate | _, .forward | _, .handle | _, .drained | _, .add
  | _, .deliver | _, .endOfMessages | _, .closeCh | _, .remove | _, .exit | _, .disconnect
  | _, .readError => isTrue trivial

/-! ### How far the goroutines are -/

/-- The client is registered from `Add` to `Remove`. -/
def Subscription.registered : Subscription → Bool
  | .receiving | .forwarding _ | .closing | .removing => true
  | .adding | .exiting | .disconnecting | .done => false

def Subscription.exits : Subscription → ℕ
  | .disconnecting | .done => 1
  | .adding | .receiving | .forwarding _ | .closing | .removing | .exiting => 0

/-- The reader is started after `Add`, and the subscription goes on after it when it is done. -/
def Subscription.Fits : Subscription → Reader → Prop
  | .adding, reader => reader = .notStarted
  | .receiving, reader | .forwarding _, reader => reader ≠ .notStarted
  | .closing, reader | .removing, reader | .exiting, reader | .disconnecting, reader | .done, reader =>
    reader = .done

structure Staged (r : Request) : Prop where
  registered : r.registered = r.subscription.registered
  enters : r.enters = 1
  exits : r.exits = r.subscription.exits
  fits : r.subscription.Fits r.reader

theorem staged_start (token : Bool) : Staged (.start token) := ⟨rfl, rfl, rfl, rfl⟩

theorem Subscription.Fits.of_reading {a : Subscription} {reader reader' : Reader} (h : a.Fits reader)
    (hr : reader = .reading) (hr' : reader' ≠ .notStarted) : a.Fits reader' := by
  subst hr
  cases a with
  | receiving => exact hr'
  | forwarding => exact hr'
  | adding => cases h
  | closing => cases h
  | removing => cases h
  | exiting => cases h
  | disconnecting => cases h
  | done => cases h

theorem Staged.step {r r' : Request} {x : Action} (h : Staged r) (hs : Stepped r x r') : Staged r' := by
  obtain ⟨hreg, hen, hex, hfit⟩ := h
  cases hs with
  | send => exact ⟨hreg, hen, hex, hfit⟩
  | close => exact ⟨hreg, hen, hex, hfit⟩
  | accept => exact ⟨hreg, hen, hex, hfit⟩
  | reject => exact ⟨hreg, hen, hex, hfit⟩
  | handle => exact ⟨hreg, hen, hex, hfit⟩
  | panic => exact ⟨hreg, hen, hex, hfit⟩
  | drained => exact ⟨hreg, hen, hex, hfit⟩
  | forward hsub =>
    rw [hsub] at hreg hex hfit
    exact ⟨hreg, hen, hex, hfit⟩
  | add hsub =>
    rw [hsub] at hex
    exact ⟨rfl, hen, hex, nofun⟩
  | deliver hr hsub =>
    rw [hsub] at hreg hex
    exact ⟨hreg, hen, hex, nofun⟩
  | endOfMessages hsub hr =>
    rw [hsub] at hreg hex
    exact ⟨hreg, hen, hex, hr⟩
  | closeCh hsub =>
    rw [hsub] at hreg hex hfit
    exact ⟨hreg, hen, hex, hfit⟩
  | remove hsub =>
    rw [hsub] at hex hfit
    exact ⟨rfl, hen, hex, hfit⟩
  | exit hsub =>
    rw [hsub] at hreg hex hfit
    exact ⟨hreg, hen, congrArg (· + 1) hex, hfit⟩
  | disconnect hsub =>
    rw [hsub] at hreg hex hfit
    exact ⟨hreg, hen, hex, hfit⟩
  | read hr => exact ⟨hreg, hen, hex, hfit.of_reading hr nofun⟩
  | malformed hr => exact ⟨hreg, hen, hex, hfit.of_reading hr nofun⟩
  | readError hr => exact ⟨hreg, hen, hex, hfit.of_reading hr nofun⟩

/-! ### The messages in flight -/

/-- The message that the subscription holds. -/
def Subscription.holds : Subscription → List Bool
  | .forwarding m => [m]
  | _ => []

/-- The message that the reader holds. -/
def Reader.holds : Reader → List Bool
  | .sending m => [m]
  | _ => []

/-- What the handler has got, and why it returned. -/
def Handler.Got (r : Request) : Handler → Prop
  | .authenticating => r.received = []
  | .draining => true ∉ r.received
  | .handling m => ∃ before, r.received = before ++ [m] ∧ true ∉ before
  | .returned => r.token = false ∨ true ∈ r.received ∨ r.subscription.chClosed = true

/-- A channel stays closed. -/
theorem Handler.Got.mono {r r' : Request} {a : Handler} (h : a.Got r) (ht : r'.token = r.token)
    (hr : r'.received = r.received)
    (hc : r.subscription.chClosed = true → r'.subscription.chClosed = true) : a.Got r' := by
  cases a with
  | authenticating => exact hr.trans h
  | draining => rwa [Got, hr]
  | handling m => rwa [Got, hr]
  | returned =>
    rw [Got, hr, ht]
    exact h.imp_right (Or.imp_right hc)

structure Piped (r : Request) : Prop where
  /-- Messages pass through both channels in order. -/
  pipe : r.received ++ r.subscription.holds ++ r.reader.holds = r.read
  rejected : r.token = false → r.read = []
  /-- Nothing was read after a message that the handler panics on. -/
  last : true ∉ r.read.dropLast
  got : r.handler.Got r

theorem piped_start (token : Bool) : Piped (.start token) := by
  refine ⟨rfl, fun _ => rfl, ?_, rfl⟩
  intro h
  cases h

/-- **Step lemma** of the messages. -/
theorem Piped.step {r r' : Request} {x : Action} (h : Piped r) (hst : Staged r) (hok : HandlerListens r x)
    (hs : Stepped r x r') : Piped r' := by
  have hp := h.pipe
  have hg := h.got
  cases hs with
  | send => exact ⟨hp, h.rejected, h.last, hg⟩
  | close => exact ⟨hp, h.rejected, h.last, hg⟩
  | accept hh =>
    rw [hh] at hg
    refine ⟨hp, h.rejected, h.last, ?_⟩
    rw [show r.received = [] from hg]
    exact List.not_mem_nil
  | reject _ ht => exact ⟨hp, h.rejected, h.last, Or.inl ht⟩
  | forward hsub hh =>
    rw [hsub] at hp
    rw [hh] at hg
    refine ⟨?_, h.rejected, h.last, r.received, rfl, hg⟩
    simpa [Subscription.holds] using hp
  | handle hh =>
    rw [hh] at hg
    obtain ⟨before, he, hb⟩ := hg
    refine ⟨hp, h.rejected, h.last, ?_⟩
    show true ∉ r.received
    rw [he]
    simpa using hb
  | panic hh =>
    rw [hh] at hg
    obtain ⟨before, he, hb⟩ := hg
    refine ⟨hp, h.rejected, h.last, Or.inr (Or.inl ?_)⟩
    show true ∈ r.received
    rw [he]
    simp
  | drained _ hcl => exact ⟨hp, h.rejected, h.last, Or.inr (Or.inr hcl)⟩
  | add hsub =>
    have hr : r.reader = .notStarted := by simpa [Subscription.Fits, hsub] using hst.fits
    rw [hsub, hr] at hp
    exact ⟨hp, h.rejected, h.last, hg.mono rfl rfl (by simp [hsub, Subscription.chClosed])⟩
  | deliver hr hsub =>
    rw [hsub, hr] at hp
    refine ⟨?_, h.rejected, h.last, hg.mono rfl rfl (by simp [hsub, Subscription.chClosed])⟩
    simpa [Subscription.holds, Reader.holds] using hp
  | endOfMessages hsub =>
    rw [hsub] at hp
    exact ⟨hp, h.rejected, h.last, hg.mono rfl rfl (by simp [hsub, Subscription.chClosed])⟩
  | closeCh hsub =>
    rw [hsub] at hp
    exact ⟨hp, h.rejected, h.last, hg.mono rfl rfl fun _ => rfl⟩
  | remove hsub =>
    rw [hsub] at hp
    exact ⟨hp, h.rejected, h.last, hg.mono rfl rfl fun _ => rfl⟩
  | exit hsub =>
    rw [hsub] at hp
    exact ⟨hp, h.rejected, h.last, hg.mono rfl rfl fun _ => rfl⟩
  | disconnect hsub =>
    rw [hsub] at hp
    exact ⟨hp, h.rejected, h.last, hg.mono rfl rfl fun _ => rfl⟩
  | @read m inbox hr hin =>
    -- the handler is there for the message
    have hlisten : r.token = true ∧ true ∉ r.read := by
      refine (hok (.message m) (by simp [hin])).resolve_left ?_
      nofun
    rw [hr] at hp
    refine ⟨?_, ?_, ?_, hg.mono rfl rfl id⟩
    · show r.received ++ r.subscription.holds ++ [m] = r.read ++ [m]
      rw [← hp]
      simp [Reader.holds]
    · intro ht
      rw [hlisten.1] at ht
      cases ht
    · rw [List.dropLast_concat]
      exact hlisten.2
  | malformed hr =>
    rw [hr] at hp
    exact ⟨hp, h.rejected, h.last, hg.mono rfl rfl id⟩
  | readError hr =>
    rw [hr] at hp
    exact ⟨hp, h.rejected, h.last, hg.mono rfl rfl id⟩

/-- The handler has not returned while a message is forwarded to it. -/
theorem Piped.not_returned {r : Request} (h : Piped r) {m : Bool} (hsub : r.subscription = .forwarding m) :
    r.handler ≠ .returned := by
  intro hh
  have hp := h.pipe
  rw [hsub] at hp
  have hg := h.got
  rw [hh] at hg
  rcases hg with ht | hpanic | hcl
  · rw [h.rejected ht] at hp
    simp [Subscription.holds] at hp
  · -- a message was read after the one that the handler panicked on
    refine h.last ?_
    rw [← hp, List.append_assoc, List.dropLast_append_of_ne_nil (by simp [Subscription.holds])]
    exact List.mem_append_left _ hpanic
  · rw [hsub] at hcl
    cases hcl

/-! ### Clean-up -/

section Progress

variable {r : Request}

/-- The handler takes a message that is forwarded, sooner or later. -/
theorem exists_step_forwarding {m : Bool} (hsub : r.subscription = .forwarding m)
    (hh : r.handler ≠ .returned) : ∃ x : Action, x.remote = false ∧ (step r x).isSome := by
  cases ha : r.handler with
  | authenticating => exact ⟨.authenticate, rfl, by simp [step, ha]⟩
  | draining => exact ⟨.forward, rfl, by simp [step, ha, hsub]⟩
  | handling m => exact ⟨.handle, rfl, by simp [step, ha]⟩
  | returned => exact absurd ha hh

/-- A reader that has started gets a message through, or ends. -/
theorem exists_step_receiving (hsub : r.subscription = .receiving) (hr : r.reader ≠ .notStarted)
    (hend : r.closed = true ∨ r.cancelled) : ∃ x : Action, x.remote = false ∧ (step r x).isSome := by
  cases ha : r.reader with
  | notStarted => exact absurd ha hr
  | reading => exact ⟨.readError, rfl, by simp [step, ha, hend]⟩
  | sending m => exact ⟨.deliver, rfl, by simp [step, ha, hsub]⟩
  | done => exact ⟨.endOfMessages, rfl, by simp [step, ha, hsub]⟩

/-- **Progress**: until the subscription is done, some goroutine can go on. -/
theorem exists_step (h : Piped r) (hst : Staged r) (hend : r.closed = true ∨ r.cancelled)
    (hdone : r.subscription ≠ .done) : ∃ x : Action, x.remote = false ∧ (step r x).isSome := by
  have hfit := hst.fits
  cases ha : r.subscription with
  | adding => exact ⟨.add, rfl, by simp [step, ha]⟩
  | receiving =>
    rw [ha] at hfit
    exact exists_step_receiving ha hfit hend
  | forwarding m => exact exists_step_forwarding ha (h.not_returned ha)
  | closing => exact ⟨.closeCh, rfl, by simp [step, ha]⟩
  | removing => exact ⟨.remove, rfl, by simp [step, ha]⟩
  | exiting => exact ⟨.exit, rfl, by simp [step, ha]⟩
  | disconnecting => exact ⟨.disconnect, rfl, by simp [step, ha]⟩
  | done => exact absurd ha hdone

end Progress

/-- **Clean-up**: in every run in which the handler listens to what is read, for every token, when the connection
is closed or its context cancelled and no goroutine can go on, the client is removed and the room was exited as
often as it was entered. -/
theorem cleaned_up {token : Bool} {r : Request} (h : Reach step HandlerListens (.start token) r)
    (hend : r.closed = true ∨ r.cancelled) (hstuck : Stuck r) :
    r.registered = false ∧ r.exits = r.enters := by
  have hI := Reach.invariant (I := fun r => Staged r ∧ Piped r) ⟨staged_start token, piped_start token⟩
    (fun _ _ _ hI hok hs => ⟨hI.1.step (stepped_of_step hs), hI.2.step hI.1 hok (stepped_of_step hs)⟩) h
  have hdone : r.subscription = .done := by
    by_contra hne
    obtain ⟨x, hx, hsome⟩ := exists_step hI.2 hI.1 hend hne
    rw [hstuck x hx] at hsome
    cases hsome
  obtain ⟨hreg, hen, hex, -⟩ := hI.1
  rw [hdone] at hreg hex
  exact ⟨hreg, hex.trans hen.symm⟩

/-- A client sends two messages, the second of which the handler panics on. -/
theorem cleaned_up_example : ∃ r, exec (guarded step HandlerListens) (.start true)
      [.send (.message false), .add, .read, .send (.message true), .deliver, .authenticate, .forward, .read,
        .deliver, .handle, .forward, .handle, .readError, .endOfMessages, .closeCh, .remove, .exit,
        .disconnect] = some r ∧
    (r.cancelled ∧ Stuck r) ∧ (r.registered = false ∧ r.exits = r.enters) :=
  exists_exec (by decide) fun _ hs hq => cleaned_up hs (Or.inr hq.1) hq.2

/-- The message of a rejected client is read and forwarded; the client closes the connection. -/
theorem never_cleaned_up : ∃ r, exec (guarded step anyStep) (.start false)
      [.send (.message false), .add, .read, .deliver, .authenticate, .close, .readError] = some r ∧
    (r.closed = true ∧ r.cancelled ∧ Stuck r ∧ r.registered = true ∧ r.exits = 0 ∧ r.enters = 1) ∧
    Reach step anyStep (.start false) r :=
  exists_exec (by decide) fun _ hs _ => hs

end Meeting.Room.Cleanup
