import Meeting.Lib.Emitter
import Meeting.Lib.Lists
import Meeting.Lib.Runs

/-!
# Meeting.Call.Dial — dialling and hanging up (`CallActions.ts`, `SocketActions.ts`, `async/middleware.ts`)

`dial` attaches the listeners of a new `SocketHandler`, sends `ready` and resolves at the next `users` message;
ten seconds later its timer rejects it, which does nothing to a promise that is settled.  The async middleware
gives the store the pending action and, when the promise settles, the resolved or rejected one, from which
`media` gets the dial state.  `hangUp` and the next `dial` remove the listeners of `metadata`, `signal`, `users`
and `hangUp`, but neither those of `record_callback` and of the stream url nor the timer.  While the websocket
connects every send throws: `dial` has attached its listeners by then, `hangUp` has done nothing yet.

* `listeners_attached`: at most the handler of the last dial listens to the four events, and every handler
  there ever was to the other two; each dial gives the store its pending action and then at most one outcome;
  the dial state never shows more than the listeners can do;
* `dial_state_shown`: along the runs in which no dial fails (`Answered`), the dial state shows exactly what
  is attached.
-/

namespace Meeting.Call.Dial

open Lib

/-! ### State -/

inductive Event where
  | metadata
  | signal
  | users
  | hangUp
  | recordCallback
  | streamUrl
  deriving DecidableEq, Repr

/-- The functions that listen to the socket. -/
inductive Callback where
  /-- The method of the `SocketHandler` of a dial for the event. -/
  | handler (dial : ℕ)
  | resolve (dial : ℕ)
  deriving DecidableEq, Repr

/-- The `status` of an async action. -/
inductive Status where
  | pending
  | resolved
  | rejected
  deriving DecidableEq, Repr

inductive DialState where
  | hungUp
  | dialling
  | inCall
  deriving DecidableEq, Repr

structure Caller where
  socket : Emitter Event Callback
  /-- The promises of all dials. -/
  dials : List Status
  timers : List ℕ
  dialState : DialState
  /-- The `DIAL` actions that the store was given. -/
  dispatched : List (ℕ × Status)

def Caller.empty : Caller := ⟨.empty, [], [], .hungUp, []⟩

/-! ### Operations -/

/-- `removeEventListeners`. -/
def removeEventListeners (socket : Emitter Event Callback) : Emitter Event Callback :=
  (((socket.removeAllListeners .metadata).removeAllListeners .signal).removeAllListeners .users)
    |>.removeAllListeners .hangUp

/-- The listeners that `handshake` leaves on the socket. -/
def handshake (socket : Emitter Event Callback) (dial : ℕ) : Emitter Event Callback :=
  ((((((removeEventListeners socket).on .metadata (.handler dial)).on .signal (.handler dial)).on .users
    (.handler dial)).on .hangUp (.handler dial)).on .recordCallback (.handler dial)).on .streamUrl (.handler dial)

/-- `handleDial` of the `media` reducer. -/
def handleDial : Status → DialState
  | .pending => .dialling
  | .resolved => .inCall
  | .rejected => .hungUp

/-- The async middleware gives the store an action of dial `k`. -/
def dispatch (c : Caller) (k : ℕ) (status : Status) : Caller :=
  { c with dialState := handleDial status, dispatched := c.dispatched ++ [(k, status)] }

/-- `resolve` or `reject` of the promise of dial `k`, with the reaction of the middleware. -/
def settle (c : Caller) (k : ℕ) (status : Status) : Caller :=
  if c.dials[k]? = some .pending then dispatch { c with dials := c.dials.set k status } k status else c

def invoke (c : Caller) : Callback → Caller
  | .handler _ => c
  | .resolve k => settle c k .resolved

inductive Action where
  | dial
  /-- The send of `ready` throws, because the websocket is connecting: the promise is rejected at once. -/
  | dialThrows
  /-- A message of the server. -/
  | receive (e : Event)
  /-- Ten seconds after the dial. -/
  | timeout (k : ℕ)
  | hangUp
  /-- The send of `hangUp` throws: no listener is removed, and the store gets no `HANG_UP`. -/
  | hangUpThrows
  deriving DecidableEq, Repr

def step (c : Caller) : Action → Option Caller
  | .dial =>
    let k := c.dials.length
    some (dispatch { c with
      socket := (handshake c.socket k).once .users (.resolve k)
      dials := c.dials ++ [.pending]
      timers := c.timers ++ [k] } k .pending)
  | .dialThrows =>
    let k := c.dials.length
    some (dispatch (dispatch { c with
      socket := handshake c.socket k
      dials := c.dials ++ [.rejected] } k .pending) k .rejected)
  | .receive e =>
    let (callbacks, socket) := c.socket.emit e
    some (callbacks.foldl invoke { c with socket })
  | .timeout k =>
    if k ∈ c.timers then some (settle { c with timers := c.timers.erase k } k .rejected) else none
  | .hangUp => some { c with socket := removeEventListeners c.socket, dialState := .hungUp }
  | .hangUpThrows => some c

/-! ### What is attached -/

/-- The events whose listeners `removeEventListeners` forgets. -/
def Forgotten (e : Event) : Prop := e = .recordCallback ∨ e = .streamUrl

instance : DecidablePred Forgotten := fun e => inferInstanceAs (Decidable (e = .recordCallback ∨ e = .streamUrl))

@[simp] theorem view_removeEventListeners (socket : Emitter Event Callback) (e : Event) :
    (removeEventListeners socket).view e = if Forgotten e then socket.view e else [] := by
  cases e <;> simp [removeEventListeners, Forgotten]

@[simp] theorem view_handshake (socket : Emitter Event Callback) (k : ℕ) (e : Event) :
    (handshake socket k).view e = (if Forgotten e then socket.view e else []) ++ [(.handler k, false)] := by
  cases e <;> simp [handshake, Forgotten]

/-- What listens to `users`. -/
inductive Listening where
  | nothing
  /-- The handler of the last dial. -/
  | handler
  /-- The handler, and the promise of the dial. -/
  | both
  deriving DecidableEq, Repr

/-- The listeners of `users` after `k + 1` dials. -/
def Listening.view (k : ℕ) : Listening → List (Callback × Bool)
  | .nothing => []
  | .handler => [(.handler k, false)]
  | .both => [(.handler k, false), (.resolve k, true)]

/-- The dial state that says what is attached. -/
def Listening.shown : Listening → DialState
  | .nothing => .hungUp
  | .handler => .inCall
  | .both => .dialling

/-- The actions of dial `k` that the store was given. -/
def actions (c : Caller) (k : ℕ) : List Status := (c.dispatched.filter fun x => x.1 = k).map Prod.snd

/-- The actions of a dial by the state of its promise. -/
def outcome : Option Status → List Status
  | none => []
  | some .pending => [.pending]
  | some status => [.pending, status]

structure Attached (c : Caller) (l : Listening) : Prop where
  dialled : l ≠ .nothing → 0 < c.dials.length
  users : c.socket.view .users = l.view (c.dials.length - 1)
  others : ∀ e, e ≠ .users → c.socket.view e =
    if Forgotten e then (List.range c.dials.length).map fun k => (.handler k, false)
    else (l.view (c.dials.length - 1)).take 1
  timers : ∀ k, c.dials[k]? = some .pending → k ∈ c.timers
  actions : ∀ k, actions c k = outcome c.dials[k]?
  late : l = .both → c.dials[c.dials.length - 1]? = some .pending ∨ c.dialState = .hungUp
  shown : c.dialState = .hungUp ∨ c.dialState = l.shown

theorem attached_empty : Attached .empty .nothing := by
  refine ⟨fun h => absurd rfl h, rfl, fun e he => ?_, fun k h => ?_, fun k => ?_, fun h => ?_, Or.inl rfl⟩
  · cases e <;> rfl
  · simp [Caller.empty] at h
  · simp [actions, Caller.empty, outcome]
  · cases h

theorem outcome_concat (dials : List Status) (status : Status) (k : ℕ) :
    outcome (dials ++ [status])[k]? =
      outcome dials[k]? ++ if k = dials.length then outcome (some status) else [] := by
  rcases lt_trichotomy k dials.length with hk | hk | hk
  · simp [List.getElem?_append_left hk, Nat.ne_of_lt hk]
  · simp [hk, outcome]
  · have hn : (dials ++ [status])[k]? = none := List.getElem?_eq_none_iff.mpr (by simp; omega)
    simp [hn, List.getElem?_eq_none_iff.mpr (Nat.le_of_lt hk), Nat.ne_of_gt hk, outcome]

section Steps

variable {c : Caller} {l : Listening} {k : ℕ}

theorem actions_dispatch (c : Caller) (j k : ℕ) (status : Status) :
    actions (dispatch c j status) k = actions c k ++ if k = j then [status] else [] := by
  by_cases h : k = j
  · subst h
    simp [actions, dispatch]
  · simp [actions, dispatch, h, Ne.symm h]

/-- A promise is settled once. -/
theorem actions_settle (h : ∀ j, actions c j = outcome c.dials[j]?) {status : Status} (hs : status ≠ .pending)
    (j : ℕ) : actions (settle c k status) j = outcome (settle c k status).dials[j]? := by
  unfold settle
  split_ifs with hk
  · rw [actions_dispatch]
    have hlt : k < c.dials.length := (List.getElem?_eq_some_iff.mp hk).1
    have hold := h j
    by_cases hj : j = k
    · subst hj
      rw [hk] at hold
      have hnew : actions { c with dials := c.dials.set j status } j = [.pending] := hold
      rw [hnew]
      cases status <;> simp [dispatch, hlt, outcome] at hs ⊢
    · simp only [if_neg hj, List.append_nil, dispatch, List.getElem?_set_ne (Ne.symm hj)]
      exact hold
  · exact h j

theorem length_settle (c : Caller) (k : ℕ) (status : Status) : (settle c k status).dials.length = c.dials.length := by
  unfold settle
  split_ifs
  · simp [dispatch]
  · rfl

theorem socket_settle (c : Caller) (k : ℕ) (status : Status) : (settle c k status).socket = c.socket := by
  unfold settle
  split_ifs <;> rfl

theorem timers_settle (c : Caller) (k : ℕ) (status : Status) : (settle c k status).timers = c.timers := by
  unfold settle
  split_ifs <;> rfl

theorem Status.resolved_ne : Status.resolved ≠ .pending := by decide

theorem Status.rejected_ne : Status.rejected ≠ .pending := by decide

theorem pending_of_settle {status : Status} {j : ℕ} (hs : status ≠ .pending)
    (h : (settle c k status).dials[j]? = some .pending) : c.dials[j]? = some .pending ∧ j ≠ k := by
  unfold settle at h
  split_ifs at h with hk
  · by_cases hj : j = k
    · subst hj
      have hlt : j < c.dials.length := (List.getElem?_eq_some_iff.mp hk).1
      simp [dispatch, hlt, hs] at h
    · simp only [dispatch, List.getElem?_set_ne (Ne.symm hj)] at h
      exact ⟨h, hj⟩
  · refine ⟨h, ?_⟩
    rintro rfl
    exact hk h

theorem Attached.hangUp (h : Attached c l) :
    Attached { c with socket := removeEventListeners c.socket, dialState := .hungUp } .nothing := by
  refine ⟨fun hl => absurd rfl hl, ?_, fun e he => ?_, h.timers, h.actions, fun hl => ?_, Or.inl rfl⟩
  · simp [Forgotten, Listening.view]
  · rw [view_removeEventListeners, h.others e he]
    split_ifs <;> rfl
  · cases hl

theorem Attached.dial (h : Attached c l) :
    Attached (dispatch { c with
      socket := (handshake c.socket c.dials.length).once .users (.resolve c.dials.length)
      dials := c.dials ++ [.pending]
      timers := c.timers ++ [c.dials.length] } c.dials.length .pending) .both := by
  refine ⟨fun _ => by simp [dispatch], ?_, fun e he => ?_, fun k hk => ?_, fun k => ?_, fun _ => Or.inl ?_,
    Or.inr rfl⟩
  · simp [dispatch, Forgotten, Listening.view]
  · have hold := h.others e he
    by_cases hf : Forgotten e
    · simp [dispatch, hf, hold, he.symm, List.range_succ]
    · simp [dispatch, hf, he.symm, Listening.view]
  · simp only [dispatch, List.mem_append, List.mem_singleton] at hk ⊢
    rcases getElem?_concat_cases hk with hk | ⟨rfl, -⟩
    · exact Or.inl (h.timers k hk)
    · exact Or.inr rfl
  · rw [actions_dispatch]
    exact (congrArg (· ++ _) (h.actions k)).trans (outcome_concat c.dials .pending k).symm
  · simp [dispatch]

theorem Attached.dialThrows (h : Attached c l) :
    Attached (dispatch (dispatch { c with
      socket := handshake c.socket c.dials.length
      dials := c.dials ++ [.rejected] } c.dials.length .pending) c.dials.length .rejected) .handler := by
  refine ⟨fun _ => by simp [dispatch], ?_, fun e he => ?_, fun k hk => ?_, fun k => ?_, fun hl => ?_, Or.inl rfl⟩
  · simp [dispatch, Forgotten, Listening.view]
  · have hold := h.others e he
    by_cases hf : Forgotten e
    · simp [dispatch, hf, hold, List.range_succ]
    · simp [dispatch, hf, Listening.view]
  · rcases getElem?_concat_cases hk with hk | ⟨-, hk⟩
    · exact h.timers k hk
    · cases hk
  · rw [actions_dispatch, actions_dispatch, List.append_assoc]
    refine (congrArg (· ++ _) (h.actions k)).trans ((outcome_concat c.dials .rejected k).trans ?_).symm
    split_ifs <;> rfl
  · cases hl

/-- A rejection that comes too late does nothing. -/
theorem settle_rejected (c : Caller) (k : ℕ) :
    (settle c k .rejected).dialState = .hungUp ∨ settle c k .rejected = c := by
  unfold settle
  split_ifs
  · exact Or.inl rfl
  · exact Or.inr rfl

/-- A timer fires. -/
theorem Attached.timeout (h : Attached c l) :
    Attached (settle { c with timers := c.timers.erase k } k .rejected) l := by
  have hlen := length_settle { c with timers := c.timers.erase k } k .rejected
  refine ⟨fun hl => ?_, ?_, fun e he => ?_, fun j hj => ?_, fun j => ?_, fun hl => ?_, ?_⟩
  · rw [hlen]
    exact h.dialled hl
  · rw [socket_settle, hlen]
    exact h.users
  · rw [socket_settle, hlen]
    exact h.others e he
  · obtain ⟨hj, hjk⟩ := pending_of_settle Status.rejected_ne hj
    rw [timers_settle]
    exact (List.mem_erase_of_ne hjk).mpr (h.timers j hj)
  · refine actions_settle ?_ Status.rejected_ne j
    exact h.actions
  · rcases settle_rejected { c with timers := c.timers.erase k } k with hs | hs
    · exact Or.inr hs
    · rw [hs]
      exact h.late hl
  · rcases settle_rejected { c with timers := c.timers.erase k } k with hs | hs
    · exact Or.inl hs
    · rw [hs]
      exact h.shown

theorem foldl_invoke_handlers {ks : List ℕ} (c : Caller) : (ks.map Callback.handler).foldl invoke c = c := by
  induction ks with
  | nil => rfl
  | cons k ks ih => exact ih

/-- Messages that are not `users` are left to the handlers. -/
theorem Attached.receive_other (h : Attached c l) {e : Event} (he : e ≠ .users) :
    (c.socket.emit e).1.foldl invoke { c with socket := (c.socket.emit e).2 } =
      { c with socket := (c.socket.emit e).2 } := by
  have hk : ∃ ks : List ℕ, (c.socket.emit e).1 = ks.map Callback.handler := by
    rw [Emitter.emit_fst, h.others e he]
    split_ifs
    · exact ⟨List.range c.dials.length, by simp⟩
    · cases l
      · exact ⟨[], rfl⟩
      · exact ⟨[c.dials.length - 1], rfl⟩
      · exact ⟨[c.dials.length - 1], rfl⟩
  obtain ⟨ks, hks⟩ := hk
  rw [hks, foldl_invoke_handlers]

theorem Attached.emit_other (h : Attached c l) {e : Event} (he : e ≠ .users) :
    Attached { c with socket := (c.socket.emit e).2 } l := by
  refine ⟨h.dialled, ?_, fun e' he' => ?_, h.timers, h.actions, h.late, h.shown⟩
  · simp only [Emitter.view_emit, if_neg he]
    exact h.users
  · simp only [Emitter.view_emit]
    rw [h.others e' he']
    -- the listeners that are attached for good are not removed by a message
    split_ifs
    · exact List.filter_eq_self.mpr (by simp)
    · cases l <;> rfl
    · rfl
    · rfl

theorem Attached.emit_users (h : Attached c l) (hl : l ≠ .both) :
    Attached { c with socket := (c.socket.emit .users).2 } l := by
  refine ⟨h.dialled, ?_, fun e he => ?_, h.timers, h.actions, h.late, h.shown⟩
  · simp only [Emitter.view_emit, ↓reduceIte, h.users]
    cases l
    · rfl
    · rfl
    · exact absurd rfl hl
  · simp only [Emitter.view_emit, if_neg he.symm]
    exact h.others e he

/-- The message that `dial` waits for. -/
theorem Attached.answer (h : Attached c .both) :
    Attached (settle { c with socket := (c.socket.emit .users).2 } (c.dials.length - 1) .resolved) .handler := by
  have hlen := length_settle { c with socket := (c.socket.emit .users).2 } (c.dials.length - 1) .resolved
  refine ⟨fun _ => ?_, ?_, fun e he => ?_, fun j hj => ?_, fun j => ?_, fun hl => ?_, ?_⟩
  · rw [hlen]
    exact h.dialled (by decide)
  · rw [socket_settle, hlen]
    simp [h.users, Listening.view]
  · rw [socket_settle, hlen]
    simp only [Emitter.view_emit, if_neg he.symm]
    exact h.others e he
  · obtain ⟨hj, -⟩ := pending_of_settle Status.resolved_ne hj
    rw [timers_settle]
    exact h.timers j hj
  · refine actions_settle ?_ Status.resolved_ne j
    exact h.actions
  · cases hl
  · unfold settle
    split_ifs with hp
    · exact Or.inr rfl
    · exact Or.inl ((h.late rfl).resolve_left hp)

/-- No dial is rejected in the step: `ready` is sent, and the timer finds its dial settled. -/
def Answered (c : Caller) : Action → Prop
  | .dialThrows => False
  | .timeout k => c.dials[k]? ≠ some .pending
  | _ => True

instance : DecidableRel Answered
  | _, .dialThrows => isFalse id
  | c, .timeout k => inferInstanceAs (Decidable (c.dials[k]? ≠ some .pending))
  | _, .dial | _, .receive _ | _, .hangUp | _, .hangUpThrows => isTrue trivial

/-- The dial state says what is attached. -/
def Shown (c : Caller) (l : Listening) : Prop := c.dialState = l.shown

theorem Attached.receive (h : Attached c l) (e : Event) :
    ∃ l', Attached ((c.socket.emit e).1.foldl invoke { c with socket := (c.socket.emit e).2 }) l' ∧
      (Shown c l → Shown ((c.socket.emit e).1.foldl invoke { c with socket := (c.socket.emit e).2 }) l') := by
  by_cases he : e = .users
  · subst he
    rw [Emitter.emit_fst, h.users]
    cases l with
    | nothing => exact ⟨_, h.emit_users (by decide), id⟩
    | handler => exact ⟨_, h.emit_users (by decide), id⟩
    | both =>
      refine ⟨_, h.answer, fun hshown => ?_⟩
      have hp : c.dials[c.dials.length - 1]? = some .pending := by
        refine (h.late rfl).resolve_right fun hh => ?_
        rw [Shown, hh] at hshown
        cases hshown
      simp [Listening.view, invoke, settle, hp, Shown, dispatch, handleDial, Listening.shown]
  · rw [h.receive_other he]
    exact ⟨l, h.emit_other he, id⟩

/-- **Step lemma.** -/
theorem Attached.step {c' : Caller} {a : Action} (h : Attached c l) (hs : step c a = some c') :
    ∃ l', Attached c' l' ∧ (Answered c a → Shown c l → Shown c' l') := by
  cases a with
  | dial =>
    obtain rfl := Option.some.inj hs
    exact ⟨_, h.dial, fun _ _ => rfl⟩
  | dialThrows =>
    obtain rfl := Option.some.inj hs
    exact ⟨_, h.dialThrows, False.elim⟩
  | receive e =>
    obtain rfl := Option.some.inj hs
    obtain ⟨l', hl', hshown⟩ := h.receive e
    exact ⟨l', hl', fun _ => hshown⟩
  | timeout k =>
    simp only [Dial.step] at hs
    split_ifs at hs
    obtain rfl := Option.some.inj hs
    refine ⟨l, h.timeout, fun hok hshown => ?_⟩
    rw [settle, if_neg (show ¬ c.dials[k]? = some .pending from hok)]
    exact hshown
  | hangUp =>
    obtain rfl := Option.some.inj hs
    exact ⟨_, h.hangUp, fun _ _ => rfl⟩
  | hangUpThrows =>
    obtain rfl := Option.some.inj hs
    exact ⟨l, h, fun _ hshown => hshown⟩

end Steps

/-- **What listens to the socket**: after any run, the four events that a call needs have at most the handler of
the last dial, `users` perhaps with its promise; `record_callback` and the stream url have a handler for every
dial there was; every dial has given the store its pending action and then at most one outcome; and a dial state
other than hung up says what is attached. -/
theorem listeners_attached {c : Caller} (h : Reach step anyStep .empty c) :
    (∃ l : Listening, c.socket.view .users = l.view (c.dials.length - 1) ∧
      (∀ e, e ≠ .users → ¬ Forgotten e → c.socket.view e = (l.view (c.dials.length - 1)).take 1) ∧
      (c.dialState = .hungUp ∨ c.dialState = l.shown)) ∧
    (∀ e, Forgotten e → c.socket.view e = (List.range c.dials.length).map fun k => (.handler k, false)) ∧
    ∀ k, actions c k = outcome c.dials[k]? := by
  have hinv : ∃ l, Attached c l := h.invariant (I := fun c => ∃ l, Attached c l) ⟨_, attached_empty⟩
    fun c a c' hI _ hs => by
      obtain ⟨l, hl⟩ := hI
      obtain ⟨l', hl', -⟩ := hl.step hs
      exact ⟨l', hl'⟩
  obtain ⟨l, hl⟩ := hinv
  refine ⟨⟨l, hl.users, fun e he hf => ?_, hl.shown⟩, fun e hf => ?_, hl.actions⟩
  · rw [hl.others e he, if_neg hf]
  · have he : e ≠ .users := by
      rintro rfl
      exact absurd hf (by decide)
    rw [hl.others e he, if_pos hf]

/-- A dial that is given up for a second one: the handler of the first still gets the record callbacks. -/
theorem listeners_attached_example : ∃ c, exec (guarded step anyStep) .empty
      [.dial, .hangUp, .dial, .receive .users, .receive .recordCallback] = some c ∧
    (c.dialState = .inCall ∧ c.dials = [.pending, .resolved]) ∧
    c.socket.view .recordCallback = (List.range c.dials.length).map fun k => (.handler k, false) :=
  exists_exec (by decide +kernel) fun _ h _ => (listeners_attached h).2.1 _ (Or.inl rfl)

/-- **The dial state is the state of the call**: along every run in which no dial is rejected, the dial state
is hung up, in call or dialling as nothing, the handler of the last dial or also its promise listens to
`users`, and the promise is pending while it says dialling. -/
theorem dial_state_shown {c : Caller} (h : Reach step Answered .empty c) :
    ∃ l : Listening, c.socket.view .users = l.view (c.dials.length - 1) ∧ c.dialState = l.shown ∧
      (l = .both → c.dials[c.dials.length - 1]? = some .pending) := by
  have hinv : ∃ l, Attached c l ∧ Shown c l := h.invariant (I := fun c => ∃ l, Attached c l ∧ Shown c l)
    ⟨_, attached_empty, rfl⟩ fun c a c' hI hok hs => by
      obtain ⟨l, hl, hshown⟩ := hI
      obtain ⟨l', hl', hshown'⟩ := hl.step hs
      exact ⟨l', hl', hshown' hok hshown⟩
  obtain ⟨l, hl, hshown⟩ := hinv
  refine ⟨l, hl.users, hshown, fun hb => (hl.late hb).resolve_right fun hh => ?_⟩
  subst hb
  rw [Shown, hh] at hshown
  cases hshown

/-- Two calls, the timer of the first one fires during the second. -/
theorem dial_state_shown_example : ∃ c, exec (guarded step Answered) .empty
      [.dial, .receive .users, .receive .signal, .hangUp, .dial, .timeout 0, .receive .users] = some c ∧
    (c.dialState = .inCall ∧ c.dials = [.resolved, .resolved] ∧ c.timers = [1]) ∧
    ∃ l : Listening, c.socket.view .users = l.view 1 ∧ c.dialState = l.shown := by
  refine exists_exec (by decide +kernel) fun c h hq => ?_
  obtain ⟨l, hview, hshown, -⟩ := dial_state_shown h
  rw [hq.2.1] at hview
  exact ⟨l, hview, hshown⟩

-- a dial that was given up before its answer ends the next call on the screen, not on the socket
example : (exec (guarded step anyStep) .empty
    [.dial, .hangUp, .dial, .receive .users, .timeout 0]).any (fun c =>
      c.dialState = .hungUp ∧ c.socket.view .users = [(.handler 1, false)]) = true := by
  decide +kernel

end Meeting.Call.Dial
