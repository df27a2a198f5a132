import Meeting.Lib.Lists
import Meeting.Lib.Runs

/-!
# Meeting.Sfu.Sessions — the calls of one websocket connection (`sfu.go`)

`SocketHandler` makes a transport at `ready` and keeps it in `webRTCTransport`.  A goroutine passes the signals of
the transport to the client, session descriptions after the metadata of the tracks, until the transport is closed;
then it takes the lock `mu`, forgets the transport and the nickname and broadcasts `hangUp`.  `HandleMessage` runs
under `mu`; `Cleanup`, when the websocket has ended, does not.

* `session_messages`: in every interleaving, what a connection has said is one session after the other, each with the
  `users` that were read for it, exactly the signals that its goroutine has taken, in order, every description right after
  the metadata that were returned for it, and its `hangUp`;
* `transports_closed`: only the transport of `webRTCTransport` can be open, and none is once the connection is over;
* `listed_iff_in_call`: where the client ids differ and no `ready` fails or has an empty nickname, a client that the
  adapter has has a nickname if and only if it has a transport;
* `nickname_of_other`: the end of an old connection takes the nickname of the one that replaced it.
-/

namespace Meeting.Sfu.Sessions

open Lib

variable {μ : Type*}

/-! ### State -/

inductive Signal where
  /-- `webrtc.SessionDescription`. -/
  | description (sdp : String)
  | other (payload : String)
  deriving DecidableEq, Repr

/-- What a connection asks of its adapter. -/
inductive Said (μ : Type*) where
  /-- The broadcast of `users`, with the nicknames. -/
  | users (nicknames : List (String × String))
  | metadata (metadata : μ)
  | signal (signal : Signal)
  /-- The broadcast of `hangUp` after the transport was closed. -/
  | hangUp
  /-- The one of `Cleanup`. -/
  | cleanup
  deriving DecidableEq, Repr

/-- `processLocalSignals`. -/
inductive Loop (μ : Type*) where
  | running
  | taken (signal : Signal)
  /-- The metadata were emitted, if the client is in the room. -/
  | described (sdp : String) (metadata : Option μ)
  /-- The channel of the signals is closed. -/
  | ended
  | done
  deriving DecidableEq, Repr

structure Transport (μ : Type*) where
  closed : Bool
  loop : Loop μ
  /-- The signals that the goroutine has received from the channel. -/
  taken : List Signal
  /-- What `GetTracksMetadata` has returned to it. -/
  answers : List (Option μ)
  deriving DecidableEq, Repr

/-- What holds `mu`. -/
inductive Lock where
  | free
  /-- `handleReady` has set the nickname. -/
  | registered
  /-- It has read the ready clients. -/
  | read (nicknames : List (String × String))
  /-- It has broadcast `users`. -/
  | announced (nicknames : List (String × String))
  /-- The goroutine of a transport has forgotten it. -/
  | finishing (transport : ℕ)
  deriving DecidableEq, Repr

structure Handler (μ : Type*) where
  clientID : String
  mu : Lock
  webRTCTransport : Option ℕ
  transports : List (Transport μ)
  /-- The websocket has ended: there are no more messages. -/
  closed : Bool
  /-- `Cleanup` has run, or a message has panicked. -/
  finished : Bool
  said : List (Said μ)
  /-- The ready clients that were read, for each `ready`. -/
  reads : List (List (String × String))
  deriving DecidableEq, Repr

structure Server (μ : Type*) where
  handlers : List (Handler μ)
  /-- The clients of the adapter, with their metadata. -/
  clients : AList fun _ : String => String

def Server.new : Server μ := ⟨[], ∅⟩

/-! ### Steps -/

/-- The payload of `ready`. -/
inductive Payload where
  | malformed
  /-- There is no nickname: the type assertion panics. -/
  | noNickname
  | nickname (nickname : String)
  deriving DecidableEq, Repr

/-- `handleReady` holds the lock. -/
def Lock.Handling : Lock → Prop
  | .registered | .read _ | .announced _ => True
  | .free | .finishing _ => False

instance : DecidablePred Lock.Handling
  | .registered | .read _ | .announced _ => isTrue trivial
  | .free | .finishing _ => isFalse id

/-- The steps of a connection that need nothing of the adapter but to pass on messages. -/
inductive Local (μ : Type*) where
  /-- The broadcast of `users`. -/
  | announce (success : Bool)
  /-- `NewWebRTCTransport`. -/
  | create (success : Bool)
  /-- The message `hangUp`. -/
  | hangUp
  /-- The peer connection is closed. -/
  | close (transport : ℕ)
  | take (transport : ℕ) (signal : Signal)
  /-- `GetTracksMetadata`, and the metadata are emitted. -/
  | describe (transport : ℕ) (metadata : Option μ)
  | emit (transport : ℕ)
  /-- The channel of the signals is closed. -/
  | drain (transport : ℕ)
  /-- The broadcast of `hangUp`, and the goroutine unlocks `mu`. -/
  | hungUp
  /-- The websocket ends. -/
  | closeSocket
  | cleanup
  deriving DecidableEq, Repr

def Handler.setTransport (x : Handler μ) (i : ℕ) (t : Transport μ) : Handler μ :=
  { x with transports := x.transports.set i t }

/-- `Close` of the transport that the handler has. -/
def Handler.closeTransport (x : Handler μ) : Handler μ :=
  match x.webRTCTransport with
  | none => x
  | some i =>
    match x.transports[i]? with
    | none => x
    | some t => x.setTransport i { t with closed := true }

def Handler.step (x : Handler μ) : Local μ → Option (Handler μ)
  | .announce success =>
    match x.mu with
    | .read nicknames =>
      some { x with mu := if success then .announced nicknames else .free, said := x.said ++ [.users nicknames] }
    | _ => none
  | .create success =>
    match x.mu with
    | .announced _ =>
      if success then
        some { x with
          mu := .free
          webRTCTransport := some x.transports.length
          transports := x.transports ++ [⟨false, .running, [], []⟩] }
      else some { x with mu := .free }
    | _ => none
  | .hangUp => if x.mu = .free ∧ x.finished = false then some x.closeTransport else none
  | .close i => (x.transports[i]?).map fun t => x.setTransport i { t with closed := true }
  | .take i signal =>
    match x.transports[i]? with
    | some ⟨closed, .running, taken, answers⟩ =>
      -- a sender that is blocked may win against `closeChannel`
      some (x.setTransport i ⟨closed, .taken signal, taken ++ [signal], answers⟩)
    | _ => none
  | .describe i metadata =>
    match x.transports[i]? with
    | some ⟨closed, .taken (.description sdp), taken, answers⟩ =>
      some { x.setTransport i ⟨closed, .described sdp metadata, taken, answers ++ [metadata]⟩ with
        said := x.said ++ metadata.toList.map .metadata }
    | _ => none
  | .emit i =>
    match x.transports[i]? with
    | some ⟨closed, .taken (.other payload), taken, answers⟩ =>
      some { x.setTransport i ⟨closed, .running, taken, answers⟩ with said := x.said ++ [.signal (.other payload)] }
    | some ⟨closed, .described sdp _, taken, answers⟩ =>
      some { x.setTransport i ⟨closed, .running, taken, answers⟩ with said := x.said ++ [.signal (.description sdp)] }
    | _ => none
  | .drain i =>
    match x.transports[i]? with
    | some ⟨true, .running, taken, answers⟩ => some (x.setTransport i ⟨true, .ended, taken, answers⟩)
    | _ => none
  | .hungUp =>
    match x.mu with
    | .finishing _ => some { x with mu := .free, said := x.said ++ [.hangUp] }
    | _ => none
  | .closeSocket => if x.closed then none else some { x with closed := true }
  | .cleanup =>
    -- the goroutine of a transport may have the lock
    if x.closed ∧ x.finished = false ∧ ¬ x.mu.Handling then
      some { x.closeTransport with finished := true, said := x.said ++ [.cleanup] }
    else none

inductive Action (μ : Type*) where
  /-- A websocket connection: `Add`, and the handler is made. -/
  | connect (clientID : String)
  /-- `Remove`. -/
  | remove (k : ℕ)
  /-- `handleReady` until the nickname is set. -/
  | ready (k : ℕ) (payload : Payload)
  /-- `getReadyClients`. -/
  | read (k : ℕ)
  /-- It returns an error, and so does `handleReady`. -/
  | readFails (k : ℕ)
  /-- The goroutine of a transport gets `mu`, and forgets transport and nickname. -/
  | finish (k : ℕ) (transport : ℕ)
  | handler (k : ℕ) (action : Local μ)
  deriving DecidableEq, Repr

/-- `SetMetadata`: nothing is done for a client that the adapter does not have. -/
def setMetadata (clients : AList fun _ : String => String) (clientID metadata : String) :
    AList fun _ : String => String :=
  if clientID ∈ clients then clients.insert clientID metadata else clients

/-- `getReadyClients`: the clients that have a nickname. -/
def readyClients (clients : AList fun _ : String => String) : List (String × String) :=
  (clients.entries.map fun e => (e.1, e.2)).filter fun e => e.2 ≠ ""

def step (s : Server μ) : Action μ → Option (Server μ)
  | .connect clientID => some {
      handlers := s.handlers ++ [⟨clientID, .free, none, [], false, false, [], []⟩]
      clients := s.clients.insert clientID "" }
  | .remove k =>
    match s.handlers[k]? with
    | none => none
    | some x => if x.closed then some { s with clients := s.clients.erase x.clientID } else none
  | .ready k payload =>
    match s.handlers[k]? with
    | none => none
    | some x =>
      if x.mu = .free ∧ x.finished = false then
        -- an error while there is a transport
        if x.webRTCTransport.isSome then some s
        else match payload with
          | .malformed => some s
          | .noNickname => some { s with handlers := s.handlers.set k { x with finished := true } }
          | .nickname nickname => some {
              handlers := s.handlers.set k { x with mu := .registered }
              clients := setMetadata s.clients x.clientID nickname }
      else none
  | .finish k i =>
    match s.handlers[k]? with
    | none => none
    | some x =>
      match x.transports[i]? with
      | some ⟨closed, .ended, taken, answers⟩ =>
        if x.mu = .free then
          some {
            handlers := s.handlers.set k { x.setTransport i ⟨closed, .done, taken, answers⟩ with
              mu := .finishing i
              webRTCTransport := none }
            clients := setMetadata s.clients x.clientID "" }
        else none
      | _ => none
  | .read k =>
    match s.handlers[k]? with
    | none => none
    | some x =>
      if x.mu = .registered then
        some { s with handlers := s.handlers.set k { x with
          mu := .read (readyClients s.clients)
          reads := x.reads ++ [readyClients s.clients] } }
      else none
  | .readFails k =>
    match s.handlers[k]? with
    | none => none
    | some x =>
      if x.mu = .registered then some { s with handlers := s.handlers.set k { x with mu := .free } } else none
  | .handler k a =>
    match s.handlers[k]? with
    | none => none
    | some x => (x.step a).map fun x' => { s with handlers := s.handlers.set k x' }

/-- What a step can do. -/
inductive Stepped (s : Server μ) : Action μ → Server μ → Prop
  | connect {clientID : String} : Stepped s (.connect clientID) {
      handlers := s.handlers ++ [⟨clientID, .free, none, [], false, false, [], []⟩]
      clients := s.clients.insert clientID "" }
  | remove {k : ℕ} {x : Handler μ} : s.handlers[k]? = some x → x.closed = true →
      Stepped s (.remove k) { s with clients := s.clients.erase x.clientID }
  | refuse {k : ℕ} {payload : Payload} : Stepped s (.ready k payload) s
  | panic {k : ℕ} {x : Handler μ} : s.handlers[k]? = some x → x.mu = .free → x.webRTCTransport = none →
      Stepped s (.ready k .noNickname) { s with handlers := s.handlers.set k { x with finished := true } }
  | register {k : ℕ} {x : Handler μ} {nickname : String} : s.handlers[k]? = some x → x.mu = .free → x.finished = false →
      x.webRTCTransport = none → Stepped s (.ready k (.nickname nickname)) {
        handlers := s.handlers.set k { x with mu := .registered }
        clients := setMetadata s.clients x.clientID nickname }
  | read {k : ℕ} {x : Handler μ} : s.handlers[k]? = some x → x.mu = .registered →
      Stepped s (.read k) { s with handlers := s.handlers.set k { x with
        mu := .read (readyClients s.clients)
        reads := x.reads ++ [readyClients s.clients] } }
  | readFails {k : ℕ} {x : Handler μ} : s.handlers[k]? = some x → x.mu = .registered →
      Stepped s (.readFails k) { s with handlers := s.handlers.set k { x with mu := .free } }
  | finish {k i : ℕ} {x : Handler μ} {t : Transport μ} : s.handlers[k]? = some x → x.transports[i]? = some t →
      t.loop = .ended → x.mu = .free → Stepped s (.finish k i) {
        handlers := s.handlers.set k { x.setTransport i { t with loop := .done } with
          mu := .finishing i
          webRTCTransport := none }
        clients := setMetadata s.clients x.clientID "" }
  | handler {k : ℕ} {x x' : Handler μ} {a : Local μ} : s.handlers[k]? = some x → x.step a = some x' →
      Stepped s (.handler k a) { s with handlers := s.handlers.set k x' }

theorem stepped_of_step {s s' : Server μ} {a : Action μ} (hs : step s a = some s') : Stepped s a s' := by
  cases a with
  | connect clientID => exact Option.some.inj hs ▸ .connect
  | remove k =>
    simp only [step] at hs
    split at hs
    · cases hs
    next x hx =>
      split_ifs at hs with hc
      exact Option.some.inj hs ▸ .remove hx hc
  | ready k payload =>
    simp only [step] at hs
    split at hs
    · cases hs
    next x hx =>
      split_ifs at hs with hc ht
      · exact Option.some.inj hs ▸ .refuse
      · rw [Option.not_isSome_iff_eq_none] at ht
        cases payload with
        | malformed => exact Option.some.inj hs ▸ .refuse
        | noNickname => exact Option.some.inj hs ▸ .panic hx hc.1 ht
        | nickname nickname => exact Option.some.inj hs ▸ .register hx hc.1 hc.2 ht
  | read k =>
    simp only [step] at hs
    split at hs
    · cases hs
    next x hx =>
      split_ifs at hs with hmu
      exact Option.some.inj hs ▸ .read hx hmu
  | readFails k =>
    simp only [step] at hs
    split at hs
    · cases hs
    next x hx =>
      split_ifs at hs with hmu
      exact Option.some.inj hs ▸ .readFails hx hmu
  | finish k i =>
    simp only [step] at hs
    split at hs
    · cases hs
    next x hx =>
      split at hs
      next closed taken answers ht =>
        split_ifs at hs with hmu
        exact Option.some.inj hs ▸ .finish hx ht rfl hmu
      · cases hs
  | handler k a =>
    simp only [step] at hs
    split at hs
    · cases hs
    next x hx =>
      obtain ⟨x', hx', rfl⟩ := Option.map_eq_some_iff.mp hs
      exact .handler hx hx'

/-! ### Transports -/

structure Handler.Tidy (x : Handler μ) : Prop where
  /-- A transport that the handler has forgotten is closed and its goroutine has ended. -/
  older : ∀ (i : ℕ) (t : Transport μ), x.transports[i]? = some t → x.webRTCTransport ≠ some i →
    t.loop = .done ∧ t.closed = true
  current : ∀ i, x.webRTCTransport = some i → i + 1 = x.transports.length
  going : ∀ (i : ℕ) (t : Transport μ), x.transports[i]? = some t → x.webRTCTransport = some i → t.loop ≠ .done
  ended : ∀ t ∈ x.transports, t.loop = .ended → t.closed = true
  handling : x.mu.Handling → x.webRTCTransport = none ∧ x.finished = false
  finishing : ∀ i, x.mu = .finishing i → x.webRTCTransport = none ∧ i < x.transports.length
  finished : x.finished = true → ∀ t ∈ x.transports, t.closed = true

section Tidy

variable {x x' : Handler μ} {i : ℕ} {t t' : Transport μ} {a : Local μ}

theorem Handler.Tidy.say (h : x.Tidy) {said : List (Said μ)} : Handler.Tidy { x with said } :=
  ⟨h.older, h.current, h.going, h.ended, h.handling, h.finishing, h.finished⟩

/-- A transport changes, and stays closed if it was. -/
theorem Handler.Tidy.setTransport (h : x.Tidy) (ht : x.transports[i]? = some t) (hd : t'.loop = .done ↔ t.loop = .done)
    (hc : t.closed = true → t'.closed = true) (he : t'.loop = .ended → t'.closed = true) :
    (x.setTransport i t').Tidy where
  older j u hu hj := by
    rcases getElem?_set_cases hu with ⟨rfl, rfl⟩ | ⟨-, hu⟩
    · obtain ⟨hdone, hclosed⟩ := h.older i t ht hj
      exact ⟨hd.mpr hdone, hc hclosed⟩
    · exact h.older j u hu hj
  current j hj := by
    rw [Handler.setTransport, List.length_set]
    exact h.current j hj
  going j u hu hj := by
    rcases getElem?_set_cases hu with ⟨rfl, rfl⟩ | ⟨-, hu⟩
    · exact fun hdone => h.going i t ht hj (hd.mp hdone)
    · exact h.going j u hu hj
  ended u hu := by
    rcases List.mem_or_eq_of_mem_set hu with hu | rfl
    · exact h.ended u hu
    · exact he
  handling := h.handling
  finishing j hj := by
    rw [Handler.setTransport, List.length_set]
    exact h.finishing j hj
  finished ho u hu := by
    rcases List.mem_or_eq_of_mem_set hu with hu | rfl
    · exact h.finished ho u hu
    · exact hc (h.finished ho t (List.mem_of_getElem? ht))

theorem Handler.Tidy.close (h : x.Tidy) (ht : x.transports[i]? = some t) :
    (x.setTransport i { t with closed := true }).Tidy :=
  h.setTransport ht Iff.rfl (fun _ => rfl) fun _ => rfl

theorem Handler.Tidy.closeTransport (h : x.Tidy) :
    x.closeTransport.Tidy ∧ ∀ u ∈ x.closeTransport.transports, u.closed = true := by
  unfold Handler.closeTransport
  split
  next hn =>
    refine ⟨h, fun u hu => ?_⟩
    obtain ⟨j, hj⟩ := List.getElem?_of_mem hu
    exact (h.older j u hj (by simp [hn])).2
  next i hi =>
    have hlt : i < x.transports.length := by
      have := h.current i hi
      omega
    rw [List.getElem?_eq_getElem hlt]
    have ht : x.transports[i]? = some x.transports[i] := List.getElem?_eq_getElem hlt
    refine ⟨h.close ht, fun u hu => ?_⟩
    obtain ⟨j, hj⟩ := List.getElem?_of_mem hu
    rcases getElem?_set_cases hj with ⟨-, rfl⟩ | ⟨hij, hj⟩
    · rfl
    · exact (h.older j u hj (by simpa [hi] using hij)).2

theorem Handler.Tidy.create (h : x.Tidy) {nicknames : List (String × String)} (hmu : x.mu = .announced nicknames) :
    Handler.Tidy { x with
      mu := .free
      webRTCTransport := some x.transports.length
      transports := x.transports ++ [⟨false, .running, [], []⟩] } := by
  obtain ⟨hnone, hover⟩ := h.handling (by rw [hmu]; trivial)
  refine ⟨fun j u hu hj => ?_, fun j hj => ?_, fun j u hu hj => ?_, fun u hu hue => ?_, False.elim,
    fun j hj => (by cases hj), fun ho => by simp [hover] at ho⟩
  · rcases getElem?_concat_cases hu with hu | ⟨rfl, -⟩
    · exact h.older j u hu (by simp [hnone])
    · exact absurd rfl hj
  · obtain rfl := Option.some.inj hj
    simp
  · obtain rfl := Option.some.inj hj
    rcases getElem?_concat_cases hu with hu | ⟨-, rfl⟩
    · simp at hu
    · simp
  · rcases List.mem_append.mp hu with hu | hu
    · exact h.ended u hu hue
    · obtain rfl := List.mem_singleton.mp hu
      cases hue

theorem Handler.Tidy.going_of_loop (h : x.Tidy) (ht : x.transports[i]? = some t) (hl : t.loop ≠ .done) :
    x.webRTCTransport = some i := by
  by_contra hi
  exact hl (h.older i t ht hi).1

theorem Handler.Tidy.finish (h : x.Tidy) (ht : x.transports[i]? = some t) (hl : t.loop = .ended) :
    Handler.Tidy { x.setTransport i { t with loop := .done } with mu := .finishing i, webRTCTransport := none } := by
  have hi := h.going_of_loop ht (by simp [hl])
  have hlt : i < x.transports.length := (List.getElem?_eq_some_iff.mp ht).1
  have hclosed := h.ended t (List.mem_of_getElem? ht) hl
  refine ⟨fun j u hu _ => ?_, fun j hj => (by cases hj), fun j u _ hj => (by cases hj), fun u hu hue => ?_, False.elim,
    fun j hj => ?_, fun ho u hu => ?_⟩
  · rcases getElem?_set_cases hu with ⟨-, rfl⟩ | ⟨hij, hu⟩
    · exact ⟨rfl, hclosed⟩
    · exact h.older j u hu (by simpa [hi] using hij)
  · rcases List.mem_or_eq_of_mem_set hu with hu | rfl
    · exact h.ended u hu hue
    · cases hue
  · cases hj
    exact ⟨rfl, by simpa [Handler.setTransport] using hlt⟩
  · rcases List.mem_or_eq_of_mem_set hu with hu | rfl
    · exact h.finished ho u hu
    · exact hclosed

/-- **Step lemma** for one connection. -/
theorem Handler.Tidy.step (h : x.Tidy) (hs : x.step a = some x') : x'.Tidy := by
  cases a with
  | announce success =>
    simp only [Handler.step] at hs
    split at hs
    next nicknames hmu =>
      obtain rfl := Option.some.inj hs
      have hh := h.handling (by rw [hmu]; trivial)
      refine ⟨h.older, h.current, h.going, h.ended, fun _ => hh, fun j hj => ?_, h.finished⟩
      cases success <;> cases hj
    · cases hs
  | create success =>
    simp only [Handler.step] at hs
    split at hs
    next nicknames hmu =>
      split_ifs at hs
      · exact Option.some.inj hs ▸ h.create hmu
      · exact Option.some.inj hs ▸ ⟨h.older, h.current, h.going, h.ended, False.elim, fun j hj => (by cases hj), h.finished⟩
    · cases hs
  | hangUp =>
    simp only [Handler.step] at hs
    split_ifs at hs
    exact Option.some.inj hs ▸ h.closeTransport.1
  | close i =>
    simp only [Handler.step] at hs
    obtain ⟨t, ht, rfl⟩ := Option.map_eq_some_iff.mp hs
    exact h.close ht
  | take i signal =>
    simp only [Handler.step] at hs
    split at hs
    next ht => exact Option.some.inj hs ▸ h.setTransport ht (by simp) id (by simp)
    · cases hs
  | describe i metadata =>
    simp only [Handler.step] at hs
    split at hs
    next ht =>
      obtain rfl := Option.some.inj hs
      refine (h.setTransport ht ?_ ?_ ?_).say <;> simp
    · cases hs
  | emit i =>
    simp only [Handler.step] at hs
    split at hs
    next ht =>
      obtain rfl := Option.some.inj hs
      refine (h.setTransport ht ?_ ?_ ?_).say <;> simp
    next ht =>
      obtain rfl := Option.some.inj hs
      refine (h.setTransport ht ?_ ?_ ?_).say <;> simp
    · cases hs
  | drain i =>
    simp only [Handler.step] at hs
    split at hs
    next ht => exact Option.some.inj hs ▸ h.setTransport ht (by simp) id fun _ => rfl
    · cases hs
  | hungUp =>
    simp only [Handler.step] at hs
    split at hs
    · exact Option.some.inj hs ▸ ⟨h.older, h.current, h.going, h.ended, False.elim, fun j hj => (by cases hj), h.finished⟩
    · cases hs
  | closeSocket =>
    simp only [Handler.step] at hs
    split_ifs at hs
    exact Option.some.inj hs ▸ ⟨h.older, h.current, h.going, h.ended, h.handling, h.finishing, h.finished⟩
  | cleanup =>
    simp only [Handler.step] at hs
    split_ifs at hs with hc
    obtain ⟨hT, hclosed⟩ := h.closeTransport
    have hmu : x.closeTransport.mu = x.mu := by
      unfold Handler.closeTransport
      split
      · rfl
      · split <;> rfl
    exact Option.some.inj hs ▸ ⟨hT.older, hT.current, hT.going, hT.ended, fun hh => absurd (hmu ▸ hh) hc.2.2, hT.finishing,
      fun _ => hclosed⟩

end Tidy

theorem tidy_of_stepped {s s' : Server μ} {a : Action μ} (h : ∀ x ∈ s.handlers, x.Tidy) (hs : Stepped s a s') :
    ∀ x ∈ s'.handlers, x.Tidy := by
  have hset {k : ℕ} {y : Handler μ} (hy : y.Tidy) : ∀ x ∈ s.handlers.set k y, x.Tidy := fun x hx => by
    rcases List.mem_or_eq_of_mem_set hx with hx | rfl
    · exact h x hx
    · exact hy
  cases hs with
  | connect =>
    intro x hx
    rcases List.mem_append.mp hx with hx | hx
    · exact h x hx
    · obtain rfl := List.mem_singleton.mp hx
      exact ⟨fun _ _ ht => (by simp at ht), fun _ hi => (by cases hi), fun _ _ ht => (by simp at ht),
        fun _ ht => (by cases ht), False.elim, fun _ hi => (by cases hi), fun ho => by cases ho⟩
  | remove | refuse => exact h
  | panic hx hmu hn =>
    have hT := h _ (List.mem_of_getElem? hx)
    refine hset ⟨hT.older, hT.current, hT.going, hT.ended, fun hh => ?_, hT.finishing, fun _ t ht => ?_⟩
    · rw [hmu] at hh
      exact hh.elim
    · obtain ⟨j, hj⟩ := List.getElem?_of_mem ht
      exact (hT.older j t hj (by simp [hn])).2
  | register hx hmu ho hn =>
    have hT := h _ (List.mem_of_getElem? hx)
    exact hset ⟨hT.older, hT.current, hT.going, hT.ended, fun _ => ⟨hn, ho⟩, fun j hj => (by cases hj), hT.finished⟩
  | read hx hmu =>
    have hT := h _ (List.mem_of_getElem? hx)
    exact hset ⟨hT.older, hT.current, hT.going, hT.ended, fun _ => hT.handling (by rw [hmu]; trivial), fun j hj => (by cases hj),
      hT.finished⟩
  | readFails hx =>
    have hT := h _ (List.mem_of_getElem? hx)
    exact hset ⟨hT.older, hT.current, hT.going, hT.ended, False.elim, fun j hj => (by cases hj), hT.finished⟩
  | @finish k i x t hx ht hl hmu =>
    exact hset ((h _ (List.mem_of_getElem? hx)).finish ht hl)
  | handler hx hs => exact hset ((h _ (List.mem_of_getElem? hx)).step hs)

theorem tidy_of_reach {s : Server μ} {ok : Server μ → Action μ → Prop} (h : Reach step ok .new s) :
    ∀ x ∈ s.handlers, x.Tidy :=
  h.invariant (I := fun s => ∀ x ∈ s.handlers, x.Tidy) (fun _ hx => by cases hx)
    fun _ _ _ hI _ hs => tidy_of_stepped hI (stepped_of_step hs)

/-- **Transports do not outlive their connection**: in every interleaving, a transport that is open is the last one
that was made, and the one that the handler has; and when the connection is over, by `Cleanup` or by a panic, none
is open. -/
theorem transports_closed {s : Server μ} (h : Reach step anyStep .new s) {x : Handler μ} (hx : x ∈ s.handlers) :
    (∀ (i : ℕ) (t : Transport μ), x.transports[i]? = some t → t.closed = false →
      x.webRTCTransport = some i ∧ i + 1 = x.transports.length) ∧
    (x.finished = true → ∀ t ∈ x.transports, t.closed = true) := by
  have hT := tidy_of_reach h x hx
  refine ⟨fun i t ht ho => ?_, hT.finished⟩
  have hi : x.webRTCTransport = some i := by
    by_contra hi
    simp [(hT.older i t ht hi).2] at ho
  exact ⟨hi, hT.current i hi⟩

/-- A second call, cut off by the end of the websocket. -/
theorem transports_closed_example : ∃ s : Server ℕ, exec (guarded step anyStep) .new
      [.connect "a", .ready 0 (.nickname "A"), .read 0, .handler 0 (.announce true), .handler 0 (.create true),
        .handler 0 .hangUp, .handler 0 (.drain 0), .ready 0 (.nickname "A"), .finish 0 0, .handler 0 .hungUp,
        .ready 0 (.nickname "A"), .read 0, .handler 0 (.announce true), .handler 0 (.create true),
        .handler 0 .closeSocket, .handler 0 .cleanup] = some s ∧
    (s.handlers.map fun x => (x.finished, x.webRTCTransport, x.transports.length)) = [(true, some 1, 2)] ∧
      ∀ x ∈ s.handlers, x.finished = true → ∀ t ∈ x.transports, t.closed = true :=
  exists_exec (by decide +kernel) fun _ h _ _ hx => (transports_closed h hx).2

/-! ### Sessions -/

/-- What is said of the signals `taken` when `answers` were returned for the descriptions: the signals in their order, and
the metadata, if there are any, right before their description. -/
inductive Dialogue : List Signal → List (Option μ) → List (Said μ) → Prop
  | nil : Dialogue [] [] []
  | other {taken : List Signal} {answers : List (Option μ)} {said : List (Said μ)} (h : Dialogue taken answers said)
      (payload : String) : Dialogue (taken ++ [.other payload]) answers (said ++ [.signal (.other payload)])
  | description {taken : List Signal} {answers : List (Option μ)} {said : List (Said μ)} (h : Dialogue taken answers said)
      (sdp : String) (metadata : Option μ) : Dialogue (taken ++ [.description sdp]) (answers ++ [metadata])
        (said ++ metadata.toList.map .metadata ++ [.signal (.description sdp)])

/-- One session after the other, by the ready clients that were read and the transports that were made; where a `ready`
has failed after it has read them there is only its `users`. -/
inductive InTurn : List (List (String × String)) → List (Transport μ) → List (Said μ) → Prop
  | nil : InTurn [] [] []
  | failed {reads : List (List (String × String))} {ts : List (Transport μ)} {l : List (Said μ)} (h : InTurn reads ts l)
      (nicknames : List (String × String)) : InTurn (reads ++ [nicknames]) ts (l ++ [.users nicknames])
  | session {reads : List (List (String × String))} {ts : List (Transport μ)} {l said : List (Said μ)}
      (h : InTurn reads ts l) (nicknames : List (String × String)) {t : Transport μ} (hdone : t.loop = .done)
      (hsaid : Dialogue t.taken t.answers said) :
      InTurn (reads ++ [nicknames]) (ts ++ [t]) (l ++ (.users nicknames :: said ++ [.hangUp]))

/-- What was said of the signals of a transport; the last one may be taken or described only. -/
def Transport.Begun (t : Transport μ) (said : List (Said μ)) : Prop :=
  match t.loop with
  | .taken signal => ∃ taken, t.taken = taken ++ [signal] ∧ Dialogue taken t.answers said
  | .described sdp metadata => ∃ taken answers before, t.taken = taken ++ [.description sdp] ∧
      t.answers = answers ++ [metadata] ∧ Dialogue taken answers before ∧
      said = before ++ metadata.toList.map .metadata
  | .running | .ended | .done => Dialogue t.taken t.answers said

/-- The session that has not ended: what was read for it, its transport, and what was said. -/
def Handler.Open (x : Handler μ) (reads : List (List (String × String))) (ts : List (Transport μ))
    (new : List (Said μ)) : Prop :=
  match x.webRTCTransport, x.mu with
  | some i, _ | none, .finishing i => ∃ nicknames t said, reads = [nicknames] ∧ ts = [t] ∧
      new = .users nicknames :: said ∧ t.Begun said ∧ x.transports.length = i + 1
  | none, .announced nicknames => reads = [nicknames] ∧ ts = [] ∧ new = [.users nicknames]
  | none, .read nicknames => reads = [nicknames] ∧ ts = [] ∧ new = []
  | none, .free | none, .registered => reads = [] ∧ ts = [] ∧ new = []

def Said.isCleanup : Said μ → Bool
  | .cleanup => true
  | _ => false

/-- What was said but for the `hangUp` of `Cleanup`, which can come at any time. -/
def spoken (said : List (Said μ)) : List (Said μ) := said.filter fun m => !m.isCleanup

/-- Whole sessions, and then the one that has not ended. -/
def Handler.Spoken (x : Handler μ) : Prop :=
  ∃ reads ts l reads' ts' new, InTurn reads ts l ∧ x.Open reads' ts' new ∧
    x.reads = reads ++ reads' ∧ x.transports = ts ++ ts' ∧ spoken x.said = l ++ new

section Spoken

variable {x x' : Handler μ} {i : ℕ} {t t' : Transport μ} {a : Local μ} {new : List (Said μ)}
  {nicknames : List (String × String)}

theorem spoken_append {l : List (Said μ)} (hnew : ∀ m ∈ new, m.isCleanup = false) : spoken (l ++ new) = spoken l ++ new := by
  rw [spoken, List.filter_append]
  congr 1
  exact List.filter_eq_self.mpr fun m hm => by simp [hnew m hm]

/-- Nothing that the sessions are read off changes. -/
theorem Handler.Spoken.congr (h : x.Spoken) (ht : x'.webRTCTransport = x.webRTCTransport) (hmu : x'.mu = x.mu)
    (hts : x'.transports = x.transports) (hreads : x'.reads = x.reads) (hsaid : spoken x'.said = spoken x.said) :
    x'.Spoken := by
  obtain ⟨reads, ts, l, reads', ts', new, hin, hopen, hr, htr, hs⟩ := h
  refine ⟨reads, ts, l, reads', ts', new, hin, ?_, hreads.trans hr, hts.trans htr, hsaid.trans hs⟩
  unfold Handler.Open at hopen ⊢
  rwa [ht, hmu, hts]

/-- The last element of a list is replaced. -/
theorem set_concat {α : Type*} {l l' : List α} {b c d : α} (hl : l = l' ++ [b]) (hi : l.length = i + 1)
    (hc : l[i]? = some c) : b = c ∧ l.set i d = l' ++ [d] := by
  subst hl
  obtain rfl : l'.length = i := by simpa using hi
  rw [List.getElem?_concat_length] at hc
  exact ⟨Option.some.inj hc, by simp⟩

/-- The current transport changes, with what is said of it. -/
theorem Handler.Spoken.setTransport (h : x.Spoken) (hi : x.webRTCTransport = some i) (ht : x.transports[i]? = some t)
    (hb : ∀ said, t.Begun said → t'.Begun (said ++ new)) (hnew : ∀ m ∈ new, m.isCleanup = false) :
    Handler.Spoken { x.setTransport i t' with said := x.said ++ new } := by
  obtain ⟨reads, ts, l, reads', ts', new', hin, hopen, hr, htr, hs⟩ := h
  simp only [Handler.Open, hi] at hopen
  obtain ⟨nicknames, u, said, rfl, rfl, rfl, hu, hlen⟩ := hopen
  obtain ⟨rfl, hset⟩ := set_concat (d := t') htr hlen ht
  refine ⟨reads, ts, l, [nicknames], [t'], .users nicknames :: (said ++ new), hin, ?_, hr, hset, ?_⟩
  · simp only [Handler.Open, Handler.setTransport, hi, List.length_set]
    exact ⟨_, _, _, rfl, rfl, rfl, hb said hu, hlen⟩
  · rw [spoken_append hnew, hs]
    simp

/-- The current transport changes, and nothing is said. -/
theorem Handler.Spoken.setSilent (h : x.Spoken) (hi : x.webRTCTransport = some i) (ht : x.transports[i]? = some t)
    (hb : ∀ said, t.Begun said → t'.Begun said) : (x.setTransport i t').Spoken := by
  have hset : Handler.Spoken { x.setTransport i t' with said := x.said ++ [] } :=
    h.setTransport hi ht (fun said hu => (List.append_nil said).symm ▸ hb said hu) (by simp)
  rwa [List.append_nil] at hset

/-- A transport is closed; an older one was before. -/
theorem Handler.Spoken.close (h : x.Spoken) (hT : x.Tidy) (ht : x.transports[i]? = some t) :
    (x.setTransport i { t with closed := true }).Spoken := by
  by_cases hi : x.webRTCTransport = some i
  · exact h.setSilent hi ht fun _ hu => hu
  · have hclosed := (hT.older i t ht hi).2
    have hsame : x.transports.set i { t with closed := true } = x.transports := by
      refine List.ext_getElem? fun j => ?_
      by_cases hj : i = j
      · subst hj
        rw [getElem?_set_of_some ht, ht, ← hclosed]
      · rw [List.getElem?_set_ne hj]
    exact h.congr rfl rfl hsame rfl rfl

theorem Handler.Spoken.closeTransport (h : x.Spoken) (hT : x.Tidy) : x.closeTransport.Spoken := by
  unfold Handler.closeTransport
  split
  · exact h
  · split
    · exact h
    next ht => exact h.close hT ht

theorem Handler.Spoken.register (h : x.Spoken) (hnone : x.webRTCTransport = none) (hmu : x.mu = .free) :
    Handler.Spoken { x with mu := .registered } := by
  obtain ⟨reads, ts, l, reads', ts', new, hin, hopen, hr, htr, hs⟩ := h
  simp only [Handler.Open, hnone, hmu] at hopen
  exact ⟨reads, ts, l, reads', ts', new, hin, by simpa only [Handler.Open, hnone] using hopen, hr, htr, hs⟩

theorem Handler.Spoken.readFails (h : x.Spoken) (hnone : x.webRTCTransport = none) (hmu : x.mu = .registered) :
    Handler.Spoken { x with mu := .free } := by
  obtain ⟨reads, ts, l, reads', ts', new, hin, hopen, hr, htr, hs⟩ := h
  simp only [Handler.Open, hnone, hmu] at hopen
  exact ⟨reads, ts, l, reads', ts', new, hin, by simpa only [Handler.Open, hnone] using hopen, hr, htr, hs⟩

theorem Handler.Spoken.read (h : x.Spoken) (hnone : x.webRTCTransport = none) (hmu : x.mu = .registered) :
    Handler.Spoken { x with mu := .read nicknames, reads := x.reads ++ [nicknames] } := by
  obtain ⟨reads, ts, l, reads', ts', new, hin, hopen, hr, htr, hs⟩ := h
  simp only [Handler.Open, hnone, hmu] at hopen
  obtain ⟨rfl, rfl, rfl⟩ := hopen
  refine ⟨reads, ts, l, [nicknames], [], [], hin, ?_, by simp [hr], htr, hs⟩
  simp only [Handler.Open, hnone, and_self]

theorem Handler.Spoken.announce (h : x.Spoken) (hnone : x.webRTCTransport = none) (hmu : x.mu = .read nicknames)
    {success : Bool} : Handler.Spoken { x with
      mu := if success then .announced nicknames else .free
      said := x.said ++ [.users nicknames] } := by
  obtain ⟨reads, ts, l, reads', ts', new, hin, hopen, hr, htr, hs⟩ := h
  simp only [Handler.Open, hnone, hmu] at hopen
  obtain ⟨rfl, rfl, rfl⟩ := hopen
  have hspoken : spoken (x.said ++ [.users nicknames]) = l ++ [.users nicknames] := by
    rw [spoken_append (by simp [Said.isCleanup]), hs, List.append_nil]
  cases success with
  | true =>
    refine ⟨reads, ts, l, [nicknames], [], [.users nicknames], hin, ?_, hr, htr, hspoken⟩
    simp [Handler.Open, hnone]
  | false =>
    refine ⟨_, ts, _, [], [], [], hin.failed nicknames, ?_, by simp [hr], htr, by simp [hspoken]⟩
    simp [Handler.Open, hnone]

/-- `NewWebRTCTransport` returns, with a transport or an error. -/
theorem Handler.Spoken.create (h : x.Spoken) (hnone : x.webRTCTransport = none) (hmu : x.mu = .announced nicknames) :
    Handler.Spoken { x with
      mu := .free
      webRTCTransport := some x.transports.length
      transports := x.transports ++ [⟨false, .running, [], []⟩] } ∧ Handler.Spoken { x with mu := .free } := by
  obtain ⟨reads, ts, l, reads', ts', new, hin, hopen, hr, htr, hs⟩ := h
  simp only [Handler.Open, hnone, hmu] at hopen
  obtain ⟨rfl, rfl, rfl⟩ := hopen
  constructor
  · refine ⟨reads, ts, l, [nicknames], [⟨false, .running, [], []⟩], [.users nicknames], hin, ?_, hr, by simp [htr], hs⟩
    simp only [Handler.Open]
    exact ⟨_, _, [], rfl, rfl, rfl, Dialogue.nil, by simp⟩
  · refine ⟨_, ts, _, [], [], [], hin.failed nicknames, ?_, by simp [hr], htr, by simp [hs]⟩
    simp only [Handler.Open, hnone, and_self]

/-- The goroutine of the current transport has the lock. -/
theorem Handler.Spoken.finish (h : x.Spoken) (hi : x.webRTCTransport = some i) (ht : x.transports[i]? = some t)
    (hl : t.loop = .ended) : Handler.Spoken { x.setTransport i { t with loop := .done } with
      mu := .finishing i
      webRTCTransport := none } := by
  obtain ⟨reads, ts, l, reads', ts', new', hin, hopen, hr, htr, hs⟩ := h
  simp only [Handler.Open, hi] at hopen
  obtain ⟨nicknames, u, said, rfl, rfl, rfl, hu, hlen⟩ := hopen
  obtain ⟨rfl, hset⟩ := set_concat (d := { t with loop := .done }) htr hlen ht
  simp only [Transport.Begun, hl] at hu
  refine ⟨reads, ts, l, _, _, _, hin, ?_, hr, hset, hs⟩
  simp only [Handler.Open, Handler.setTransport, List.length_set]
  exact ⟨_, _, _, rfl, rfl, rfl, hu, hlen⟩

/-- The session is whole. -/
theorem Handler.Spoken.hungUp (h : x.Spoken) (hT : x.Tidy) (hmu : x.mu = .finishing i) :
    Handler.Spoken { x with mu := .free, said := x.said ++ [.hangUp] } := by
  have hnone := (hT.finishing i hmu).1
  obtain ⟨reads, ts, l, reads', ts', new', hin, hopen, hr, htr, hs⟩ := h
  simp only [Handler.Open, hnone, hmu] at hopen
  obtain ⟨nicknames, u, said, rfl, rfl, rfl, hu, hlen⟩ := hopen
  have hlast : x.transports[i]? = some u := by
    obtain rfl : ts.length = i := by simpa [htr] using hlen
    rw [htr, List.getElem?_concat_length]
  have hdone := (hT.older i u hlast (by simp [hnone])).1
  simp only [Transport.Begun, hdone] at hu
  refine ⟨_, _, _, [], [], [], hin.session nicknames hdone hu, ?_, by simp [hr], by simp [htr], ?_⟩
  · simp only [Handler.Open, hnone, and_self]
  · rw [spoken_append (by simp [Said.isCleanup]), hs]
    simp

/-- **Step lemma** for one connection. -/
theorem Handler.Spoken.step (h : x.Spoken) (hT : x.Tidy) (hs : x.step a = some x') : x'.Spoken := by
  cases a with
  | announce success =>
    simp only [Handler.step] at hs
    split at hs
    next nicknames hmu => exact Option.some.inj hs ▸ h.announce (hT.handling (by rw [hmu]; trivial)).1 hmu
    · cases hs
  | create success =>
    simp only [Handler.step] at hs
    split at hs
    next nicknames hmu =>
      obtain ⟨hmade, hfailed⟩ := h.create (hT.handling (by rw [hmu]; trivial)).1 hmu
      split_ifs at hs
      · exact Option.some.inj hs ▸ hmade
      · exact Option.some.inj hs ▸ hfailed
    · cases hs
  | hangUp =>
    simp only [Handler.step] at hs
    split_ifs at hs
    exact Option.some.inj hs ▸ h.closeTransport hT
  | close i =>
    simp only [Handler.step] at hs
    obtain ⟨t, ht, rfl⟩ := Option.map_eq_some_iff.mp hs
    exact h.close hT ht
  | take i signal =>
    simp only [Handler.step] at hs
    split at hs
    next ht =>
      refine Option.some.inj hs ▸ h.setSilent (hT.going_of_loop ht (by simp)) ht ?_
      exact fun said hu => ⟨_, rfl, hu⟩
    · cases hs
  | describe i metadata =>
    simp only [Handler.step] at hs
    split at hs
    next ht =>
      refine Option.some.inj hs ▸ h.setTransport (hT.going_of_loop ht (by simp)) ht ?_ (by simp [Said.isCleanup])
      rintro said ⟨taken, htaken, hsaid⟩
      exact ⟨taken, _, said, htaken, rfl, hsaid, rfl⟩
    · cases hs
  | emit i =>
    simp only [Handler.step] at hs
    split at hs
    next ht =>
      refine Option.some.inj hs ▸ h.setTransport (hT.going_of_loop ht (by simp)) ht ?_ (by simp [Said.isCleanup])
      rintro said ⟨taken, rfl, hsaid⟩
      exact hsaid.other _
    next ht =>
      refine Option.some.inj hs ▸ h.setTransport (hT.going_of_loop ht (by simp)) ht ?_ (by simp [Said.isCleanup])
      rintro said ⟨taken, answers, before, rfl, rfl, hsaid, rfl⟩
      exact hsaid.description _ _
    · cases hs
  | drain i =>
    simp only [Handler.step] at hs
    split at hs
    next ht => exact Option.some.inj hs ▸ h.setSilent (hT.going_of_loop ht (by simp)) ht fun _ hu => hu
    · cases hs
  | hungUp =>
    simp only [Handler.step] at hs
    split at hs
    next i hmu => exact Option.some.inj hs ▸ h.hungUp hT hmu
    · cases hs
  | closeSocket =>
    simp only [Handler.step] at hs
    split_ifs at hs
    exact Option.some.inj hs ▸ h.congr rfl rfl rfl rfl rfl
  | cleanup =>
    simp only [Handler.step] at hs
    split_ifs at hs
    refine Option.some.inj hs ▸ (h.closeTransport hT).congr rfl rfl rfl rfl ?_
    have hsaid : x.closeTransport.said = x.said := by
      unfold Handler.closeTransport
      split
      · rfl
      · split <;> rfl
    rw [hsaid, spoken, List.filter_append]
    exact List.append_nil _

end Spoken

theorem spoken_of_stepped {s s' : Server μ} {a : Action μ} (hT : ∀ x ∈ s.handlers, x.Tidy)
    (h : ∀ x ∈ s.handlers, x.Spoken) (hs : Stepped s a s') : ∀ x ∈ s'.handlers, x.Spoken := by
  have hset {k : ℕ} {y : Handler μ} (hy : y.Spoken) : ∀ x ∈ s.handlers.set k y, x.Spoken := fun x hx => by
    rcases List.mem_or_eq_of_mem_set hx with hx | rfl
    · exact h x hx
    · exact hy
  cases hs with
  | connect =>
    intro x hx
    rcases List.mem_append.mp hx with hx | hx
    · exact h x hx
    · obtain rfl := List.mem_singleton.mp hx
      exact ⟨[], [], [], [], [], [], .nil, ⟨rfl, rfl, rfl⟩, rfl, rfl, rfl⟩
  | remove | refuse => exact h
  | panic hx => exact hset ((h _ (List.mem_of_getElem? hx)).congr rfl rfl rfl rfl rfl)
  | register hx hmu _ hn => exact hset ((h _ (List.mem_of_getElem? hx)).register hn hmu)
  | read hx hmu =>
    have hn := ((hT _ (List.mem_of_getElem? hx)).handling (by rw [hmu]; trivial)).1
    exact hset ((h _ (List.mem_of_getElem? hx)).read hn hmu)
  | readFails hx hmu =>
    have hn := ((hT _ (List.mem_of_getElem? hx)).handling (by rw [hmu]; trivial)).1
    exact hset ((h _ (List.mem_of_getElem? hx)).readFails hn hmu)
  | finish hx ht hl =>
    have hi := (hT _ (List.mem_of_getElem? hx)).going_of_loop ht (by simp [hl])
    exact hset ((h _ (List.mem_of_getElem? hx)).finish hi ht hl)
  | handler hx hs => exact hset ((h _ (List.mem_of_getElem? hx)).step (hT _ (List.mem_of_getElem? hx)) hs)

/-- **What a connection says**: in every interleaving of any number of connections, it is one session after the
other.  A session has the `users` that were read for it, exactly the signals that the goroutine of its transport has taken,
in their order and every description right after the metadata that were returned for it, and its `hangUp`; then comes the
session of the transport that the handler has, as far as it is.  Only the `hangUp` of `Cleanup` can come in between. -/
theorem session_messages {s : Server μ} (h : Reach step anyStep .new s) {x : Handler μ} (hx : x ∈ s.handlers) :
    ∃ reads ts l reads' ts' new, InTurn reads ts l ∧ x.Open reads' ts' new ∧
      x.reads = reads ++ reads' ∧ x.transports = ts ++ ts' ∧ spoken x.said = l ++ new := by
  have hinv : (∀ x ∈ s.handlers, x.Tidy) ∧ ∀ x ∈ s.handlers, x.Spoken :=
    h.invariant (I := fun s => (∀ x ∈ s.handlers, x.Tidy) ∧ ∀ x ∈ s.handlers, x.Spoken)
      ⟨fun _ hx => (by cases hx), fun _ hx => by cases hx⟩ fun _ _ _ hI _ hs =>
        ⟨tidy_of_stepped hI.1 (stepped_of_step hs), spoken_of_stepped hI.1 hI.2 (stepped_of_step hs)⟩
  exact hinv.2 x hx

/-- A session without metadata and one that is cut off: its offer goes out with the metadata while the websocket ends. -/
theorem session_messages_example : ∃ s : Server ℕ, exec (guarded step anyStep) .new
      [.connect "a", .ready 0 (.nickname "A"), .read 0, .handler 0 (.announce true), .handler 0 (.create true),
        .handler 0 (.take 0 (.other "candidate")), .handler 0 (.emit 0), .handler 0 .hangUp, .handler 0 (.drain 0),
        .finish 0 0, .handler 0 .hungUp, .ready 0 (.nickname "A"), .read 0, .handler 0 (.announce true),
        .handler 0 (.create true), .handler 0 (.take 1 (.description "offer")), .handler 0 (.describe 1 (some 3)),
        .handler 0 .closeSocket, .handler 0 .cleanup, .handler 0 (.emit 1)] = some s ∧
    (s.handlers.map Handler.said =
      [[.users [("a", "A")], .signal (.other "candidate"), .hangUp, .users [("a", "A")], .metadata 3, .cleanup,
        .signal (.description "offer")]]) ∧
      ∀ x ∈ s.handlers, ∃ reads ts l reads' ts' new, InTurn reads ts l ∧ x.Open reads' ts' new ∧
        x.reads = reads ++ reads' ∧ x.transports = ts ++ ts' ∧ spoken x.said = l ++ new :=
  exists_exec (by decide +kernel) fun _ h _ _ hx => session_messages h hx

/-! ### Nicknames -/

/-- Every connection has a client id of its own, every `ready` has a nickname and goes through. -/
def Succeeds (s : Server μ) : Action μ → Prop
  | .connect clientID => ∀ x ∈ s.handlers, x.clientID ≠ clientID
  | .ready _ (.nickname nickname) => nickname ≠ ""
  | .handler _ (.announce success) | .handler _ (.create success) => success = true
  | .readFails _ => False
  | _ => True

instance : DecidableRel (Succeeds : Server μ → Action μ → Prop)
  | s, .connect clientID => inferInstanceAs (Decidable (∀ x ∈ s.handlers, x.clientID ≠ clientID))
  | _, .ready _ (.nickname nickname) => inferInstanceAs (Decidable (nickname ≠ ""))
  | _, .handler _ (.announce success) | _, .handler _ (.create success) => inferInstanceAs (Decidable (success = true))
  | _, .readFails _ => isFalse id
  | _, .ready _ .malformed | _, .ready _ .noNickname | _, .remove _ | _, .read _ | _, .finish _ _
  | _, .handler _ .hangUp | _, .handler _ (.close _) | _, .handler _ (.take _ _) | _, .handler _ (.describe _ _)
  | _, .handler _ (.emit _) | _, .handler _ (.drain _) | _, .handler _ .hungUp | _, .handler _ .closeSocket
  | _, .handler _ .cleanup => isTrue trivial

/-- The client is in a call, or about to be. -/
def Handler.InCall (x : Handler μ) : Prop := x.webRTCTransport ≠ none ∨ x.mu.Handling

structure Listed (s : Server μ) : Prop where
  ids : ∀ (j k : ℕ) (x y : Handler μ), s.handlers[j]? = some x → s.handlers[k]? = some y → x.clientID = y.clientID → j = k
  listed : ∀ (k : ℕ) (x : Handler μ), s.handlers[k]? = some x → ∀ m ∈ s.clients.lookup x.clientID, m ≠ "" ↔ x.InCall

section Listed

variable {s s' : Server μ} {a : Action μ} {k : ℕ} {x x' : Handler μ} {l : Local μ}

theorem closeTransport_fields : x.closeTransport.clientID = x.clientID ∧ x.closeTransport.mu = x.mu ∧
    x.closeTransport.webRTCTransport = x.webRTCTransport := by
  unfold Handler.closeTransport
  split
  · exact ⟨rfl, rfl, rfl⟩
  · split <;> exact ⟨rfl, rfl, rfl⟩

/-- What a step of a connection leaves as it is: its client id, and whether it is in a call. -/
theorem Handler.inCall_step (hok : Succeeds s (.handler k l)) (hs : x.step l = some x') :
    x'.clientID = x.clientID ∧ (x'.InCall ↔ x.InCall) := by
  cases l with
  | announce success =>
    have hsuccess : success = true := hok
    simp only [Handler.step] at hs
    split at hs
    next nicknames hmu =>
      rw [← Option.some.inj hs]
      simp [Handler.InCall, hmu, hsuccess, Lock.Handling]
    · cases hs
  | create success =>
    have hsuccess : success = true := hok
    simp only [Handler.step] at hs
    split at hs
    next nicknames hmu =>
      rw [if_pos hsuccess] at hs
      rw [← Option.some.inj hs]
      simp [Handler.InCall, hmu, Lock.Handling]
    · cases hs
  | hangUp =>
    simp only [Handler.step] at hs
    split_ifs at hs
    obtain ⟨hid, hmu, ht⟩ := closeTransport_fields (x := x)
    rw [← Option.some.inj hs]
    exact ⟨hid, by rw [Handler.InCall, hmu, ht, Handler.InCall]⟩
  | close i =>
    simp only [Handler.step] at hs
    obtain ⟨t, -, rfl⟩ := Option.map_eq_some_iff.mp hs
    exact ⟨rfl, Iff.rfl⟩
  | hungUp =>
    simp only [Handler.step] at hs
    split at hs
    next hmu =>
      rw [← Option.some.inj hs]
      simp [Handler.InCall, hmu, Lock.Handling]
    · cases hs
  | closeSocket =>
    simp only [Handler.step] at hs
    split_ifs at hs
    rw [← Option.some.inj hs]
    exact ⟨rfl, Iff.rfl⟩
  | cleanup =>
    simp only [Handler.step] at hs
    split_ifs at hs
    obtain ⟨hid, hmu, ht⟩ := closeTransport_fields (x := x)
    rw [← Option.some.inj hs]
    exact ⟨hid, by simp only [Handler.InCall, hmu, ht]⟩
  | emit i =>
    simp only [Handler.step] at hs
    split at hs
    · rw [← Option.some.inj hs]
      exact ⟨rfl, Iff.rfl⟩
    · rw [← Option.some.inj hs]
      exact ⟨rfl, Iff.rfl⟩
    · cases hs
  | take | describe | drain =>
    simp only [Handler.step] at hs
    split at hs
    · rw [← Option.some.inj hs]
      exact ⟨rfl, Iff.rfl⟩
    · cases hs

/-- A connection changes, and at most the nickname of its client. -/
theorem Listed.set (h : Listed s) (hx : s.handlers[k]? = some x) (hid : x'.clientID = x.clientID)
    {clients : AList fun _ : String => String}
    (hother : ∀ id, id ≠ x.clientID → clients.lookup id = s.clients.lookup id)
    (hself : ∀ m ∈ clients.lookup x.clientID, m ≠ "" ↔ x'.InCall) :
    Listed ⟨s.handlers.set k x', clients⟩ := by
  have hold {j : ℕ} {y : Handler μ} (hy : (s.handlers.set k x')[j]? = some y) :
      ∃ y', s.handlers[j]? = some y' ∧ y'.clientID = y.clientID := by
    rcases getElem?_set_cases hy with ⟨rfl, rfl⟩ | ⟨-, hy⟩
    · exact ⟨x, hx, hid.symm⟩
    · exact ⟨y, hy, rfl⟩
  refine ⟨fun j i y z hy hz hyz => ?_, fun j y hy m hm => ?_⟩
  · obtain ⟨y', hy', hyid⟩ := hold hy
    obtain ⟨z', hz', hzid⟩ := hold hz
    exact h.ids j i y' z' hy' hz' (by rw [hyid, hzid, hyz])
  · rcases getElem?_set_cases hy with ⟨rfl, rfl⟩ | ⟨hkj, hy⟩
    · exact hself m (hid ▸ hm)
    · have hne : y.clientID ≠ x.clientID := fun he => hkj (h.ids k j x y hx hy he.symm)
      exact h.listed j y hy m (hother _ hne ▸ hm)

theorem lookup_setMetadata_ne {clients : AList fun _ : String => String} {id id' m : String} (hne : id' ≠ id) :
    (setMetadata clients id m).lookup id' = clients.lookup id' := by
  unfold setMetadata
  split_ifs
  · exact AList.lookup_insert_ne hne
  · rfl

theorem eq_of_lookup_setMetadata {clients : AList fun _ : String => String} {id m m' : String}
    (h : (setMetadata clients id m).lookup id = some m') : m' = m := by
  unfold setMetadata at h
  split_ifs at h with hid
  · rw [AList.lookup_insert] at h
    exact (Option.some.inj h).symm
  · rw [AList.lookup_eq_none.mpr hid] at h
    cases h

theorem Listed.connect (h : Listed s) {clientID : String} (hok : ∀ x ∈ s.handlers, x.clientID ≠ clientID) :
    Listed ⟨s.handlers ++ [⟨clientID, .free, none, [], false, false, [], []⟩], s.clients.insert clientID ""⟩ := by
  refine ⟨fun j i y z hy hz hyz => ?_, fun j y hy m hm => ?_⟩
  · rcases getElem?_concat_cases hy with hy | ⟨rfl, rfl⟩ <;> rcases getElem?_concat_cases hz with hz | ⟨rfl, rfl⟩
    · exact h.ids j i y z hy hz hyz
    · exact absurd hyz (hok y (List.mem_of_getElem? hy))
    · exact absurd hyz.symm (hok z (List.mem_of_getElem? hz))
    · rfl
  · rcases getElem?_concat_cases hy with hy | ⟨rfl, rfl⟩
    · rw [AList.lookup_insert_ne (hok y (List.mem_of_getElem? hy))] at hm
      exact h.listed j y hy m hm
    · rw [AList.lookup_insert] at hm
      obtain rfl := Option.some.inj hm
      simp [Handler.InCall, Lock.Handling]

/-- **Step lemma.** -/
theorem Listed.step (h : Listed s) (hok : Succeeds s a) (hs : Stepped s a s') :
    Listed s' := by
  cases hs with
  | connect => exact h.connect hok
  | remove => exact ⟨h.ids, fun j y hy m hm => h.listed j y hy m (lookup_of_lookup_erase hm).2⟩
  | refuse => exact h
  | @panic k x hx =>
    refine h.set hx ?_ (fun _ _ => rfl) fun m hm => ?_
    · rfl
    · exact h.listed k x hx m hm
  | @register k x nickname hx =>
    have hne : nickname ≠ "" := hok
    refine h.set hx ?_ (fun id hid => lookup_setMetadata_ne hid) fun m hm => ?_
    · rfl
    · rw [eq_of_lookup_setMetadata hm]
      exact ⟨fun _ => Or.inr trivial, fun _ => hne⟩
  | @read k x hx hmu =>
    refine h.set hx ?_ (fun _ _ => rfl) fun m hm => ?_
    · rfl
    · rw [h.listed k x hx m hm]
      simp [Handler.InCall, hmu, Lock.Handling]
  | readFails => exact hok.elim
  | @finish k i x t hx ht hl hmu =>
    refine h.set hx ?_ (fun id hid => lookup_setMetadata_ne hid) fun m hm => ?_
    · rfl
    · rw [eq_of_lookup_setMetadata hm]
      simp [Handler.InCall, Lock.Handling]
  | @handler k x x' l hx hs =>
    obtain ⟨hid, hin⟩ := Handler.inCall_step hok hs
    exact h.set hx hid (fun _ _ => rfl) fun m hm => (h.listed k x hx m hm).trans hin.symm

end Listed

/-- **The clients with a nickname are those in a call**: along every run in which the connections have client ids of
their own and no `ready` fails or has an empty nickname, a client that is still in the adapter has a nickname if and only
if its handler has a transport, whenever no message or goroutine of it has the lock. -/
theorem listed_iff_in_call {s : Server μ} (h : Reach step Succeeds .new s) {x : Handler μ} (hx : x ∈ s.handlers)
    (hmu : x.mu = .free) {m : String} (hm : s.clients.lookup x.clientID = some m) :
    m ≠ "" ↔ x.webRTCTransport ≠ none := by
  have hL : Listed s := h.invariant ⟨fun _ _ _ _ hj => (by simp [Server.new] at hj), fun _ _ hk => by simp [Server.new] at hk⟩
    fun _ _ _ hI hok hs => hI.step hok (stepped_of_step hs)
  obtain ⟨k, hk⟩ := List.getElem?_of_mem hx
  rw [hL.listed k x hk m hm, Handler.InCall, hmu]
  simp [Lock.Handling]

/-- One client is in a call and another one has hung up. -/
theorem listed_iff_in_call_example : ∃ s : Server ℕ, exec (guarded step Succeeds) .new
      [.connect "a", .connect "b", .ready 0 (.nickname "A"), .read 0, .ready 1 (.nickname "B"),
        .handler 0 (.announce true), .handler 0 (.create true), .read 1, .handler 1 (.announce true),
        .handler 1 (.create true), .handler 1 (.close 0), .handler 1 (.drain 0), .finish 1 0,
        .handler 1 .hungUp] = some s ∧
    (s.clients.lookup "a" = some "A" ∧ s.clients.lookup "b" = some "" ∧
      s.handlers.map (fun x => (x.clientID, x.mu)) = [("a", .free), ("b", .free)]) ∧
      ∀ x ∈ s.handlers, x.clientID = "b" → x.mu = .free → ("" ≠ "" ↔ x.webRTCTransport ≠ none) := by
  refine exists_exec (by decide +kernel) fun s h hq x hx hid hmu => ?_
  exact listed_iff_in_call h hx hmu (hid ▸ hq.2.1)

/-- **An old connection takes the nickname of the new one**: the browser has reconnected and is in a call again when
the goroutine of its first transport ends. -/
theorem nickname_of_other : ∃ s : Server ℕ, exec (guarded step anyStep) .new
      [.connect "a", .ready 0 (.nickname "A"), .read 0, .handler 0 (.announce true), .handler 0 (.create true),
        .connect "a", .ready 1 (.nickname "A"), .read 1, .handler 1 (.announce true), .handler 1 (.create true),
        .handler 0 .closeSocket, .handler 0 .cleanup, .handler 0 (.drain 0), .finish 0 0] = some s ∧
    (s.clients.lookup "a" = some "" ∧ s.handlers.map (fun x => x.webRTCTransport) = [none, some 0]) ∧
      Reach step anyStep .new s :=
  exists_exec (by decide +kernel) fun _ h _ => h

end Meeting.Sfu.Sessions
