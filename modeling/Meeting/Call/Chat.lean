import Meeting.Codec.Chunks
import Meeting.Codec.Stream
import Meeting.Lib.Measure

/-!
# Meeting.Call.Chat — chat messages (`messaging.ts`, `ChatActions.ts`, `PeerActions.ts`, `reducers/messages.ts`)

The messaging middleware shows a message that is sent as one of `ME` and gives its JSON to the encoder, whose worker gets
it in a timer and posts its chunks.  Each chunk goes to the peers that are connected when its event is handled; the
other side of a peer puts the chunks together again, and shows the message when it is complete.

A `Link` is a peer of one browser together with the handler on the other side, whose data channel keeps what is sent and
its order until the link is closed.  `send` can throw; the chunk is lost then, and the next ones go out.

* `chat_delivered`: where the peers connect between two messages and messages fit the headers (`Regular`), what comes out of
  a link on which no `send` has thrown are the messages that had not gone to the peers when it was connected, in order and
  without gaps, all of them when nothing is under way;
* `messages_counted`: in every run, the count of a browser is the number of the chat messages that it shows.
-/

namespace Meeting.Call.Chat

open Lib Codec Codec.Stream

/-! ### Messages -/

/-- `TextMessage` and `FileMessage`, but for the user and the time. -/
inductive Content where
  | text (payload : String)
  | file (name : String) (size : ℕ) (type : String) (data : String)
  deriving DecidableEq, Repr

structure MessageType where
  userId : String
  content : Content
  timestamp : String
  deriving DecidableEq, Repr

/-- The `Message` of the reducer. -/
structure Message where
  userId : String
  message : String
  timestamp : String
  data : Option String
  image : Option Bool
  system : Bool
  deriving DecidableEq, Repr

structure MessagesState where
  list : List Message
  count : ℕ
  deriving DecidableEq, Repr

def ME : String := "_me_"

/-- What is not under the sources: the text codec, JSON, the format of times, and the size of the encoder. -/
structure Env where
  textEncode : String → List Byte
  textDecode : List Byte → String
  stringify : MessageType → String
  parse : String → Option MessageType
  toLocaleString : String → String
  maxMessageSizeBytes : ℤ

/-- `imageRegexp`. -/
def isImage (data : String) : Bool :=
  ["png", "jpg", "jpeg", "gif"].any fun format => ("data:image/" ++ format ++ ";base64").toList.isPrefixOf data.toList

/-- The message that `handleMessage` puts into the list. -/
def toMessage (env : Env) (m : MessageType) : Message :=
  match m.content with
  | .text payload => ⟨m.userId, payload, env.toLocaleString m.timestamp, none, none, false⟩
  | .file name _ _ data => ⟨m.userId, name, env.toLocaleString m.timestamp, some data, some (isImage data), false⟩

def handleMessage (env : Env) (state : MessagesState) (m : MessageType) : MessagesState :=
  ⟨state.list ++ [toMessage env m], state.count + 1⟩

/-- `NOTIFY`; the time is the present one. -/
def convertNotificationToMessage (state : MessagesState) (message now : String) : MessagesState :=
  { state with list := state.list ++ [⟨"[PeerCalls]", message, now, none, none, true⟩] }

/-! ### State -/

structure Browser where
  userId : String
  encoder : Encoder
  /-- The payloads that timers will give to the worker. -/
  timers : List WorkerPayload
  /-- What the worker has posted. -/
  events : List EncoderEvent
  messages : MessagesState
  /-- The messages that were sent, with their payloads. -/
  sent : List MessageType
  payloads : List WorkerPayload
  /-- How many messages went to the peers, and how many chunks of the next one. -/
  done : ℕ × ℕ
  deriving DecidableEq, Repr

structure Link where
  src : ℕ
  dst : ℕ
  connected : Bool
  wire : List (List Byte)
  decoder : Decoder
  /-- How many messages had gone to the peers when it was connected. -/
  start : ℕ
  received : List MessageType
  /-- `send` has thrown on it. -/
  threw : Bool

structure Room where
  browsers : List Browser
  links : List Link

def Room.new : Room := ⟨[], []⟩

/-! ### Steps -/

/-- `MESSAGE_SEND`. -/
def Browser.send (env : Env) (b : Browser) (content : Content) (timestamp : String) : Browser :=
  let m : MessageType := ⟨b.userId, content, timestamp⟩
  let (encoder, payload) := b.encoder.encode env.textEncode ⟨b.userId, env.textEncode (env.stringify m)⟩
  { b with
    encoder := encoder
    timers := b.timers ++ [payload]
    messages := handleMessage env b.messages { m with userId := ME }
    sent := b.sent ++ [m]
    payloads := b.payloads ++ [payload] }

/-- A chunk goes into the links that are connected, but for the peers of which `send` throws, which is caught for each. -/
def Link.push (i : ℕ) (chunk : List Byte) (throws : List ℕ) (l : Link) : Link :=
  if l.src = i ∧ l.connected then
    if l.dst ∈ throws then { l with threw := true } else { l with wire := l.wire ++ [chunk] }
  else l

/-- `handleData`: the message, if it is complete, and the decoder. -/
def handleData (env : Env) (decoder : Decoder) (chunk : List Byte) : Decoder × Option MessageType :=
  match decoder.decode env.textDecode chunk with
  | (decoder, .ok (some c)) => (decoder, env.parse (env.textDecode c.data))
  -- there are chunks to come, or an exception
  | (decoder, _) => (decoder, none)

inductive Action where
  | load (userId : String)
  | send (i : ℕ) (content : Content) (timestamp : String)
  /-- The first timer: the worker splits the message. -/
  | post (i : ℕ)
  /-- The first event of the worker is handled, and `send` throws for the peers of the browsers `throws`. -/
  | event (i : ℕ) (now : String) (throws : List ℕ)
  /-- The peer of browser `i` for browser `j` is connected. -/
  | connect (i j : ℕ)
  | close (l : ℕ)
  /-- The `data` event of the peer on the other side. -/
  | deliver (l : ℕ)
  /-- Any other `NOTIFY`. -/
  | notify (i : ℕ) (message now : String)
  deriving DecidableEq, Repr

def step (env : Env) (s : Room) : Action → Option Room
  | .load userId => some { s with
      browsers := s.browsers ++ [⟨userId, ⟨env.maxMessageSizeBytes, 0⟩, [], [], ⟨[], 0⟩, [], [], (0, 0)⟩] }
  | .send i content timestamp =>
    match s.browsers[i]? with
    | none => none
    | some b => some { s with browsers := s.browsers.set i (b.send env content timestamp) }
  | .post i =>
    match s.browsers[i]? with
    | none => none
    | some b =>
      match b.timers with
      | [] => none
      | p :: timers => some { s with browsers := s.browsers.set i { b with
          timers := timers
          events := b.events ++ (onmessage p).getD [] } }
  | .event i now throws =>
    match s.browsers[i]? with
    | none => none
    | some b =>
      match b.events with
      | [] => none
      | .data _ _ _ _ chunk :: events => some
        { browsers := s.browsers.set i { b with events := events, done := next b.payloads b.done.1 b.done.2 }
          links := s.links.map (Link.push i chunk throws) }
      | .done _ _ :: events => some { s with browsers := s.browsers.set i { b with events := events } }
      | .error _ _ error :: events => some { s with browsers := s.browsers.set i { b with
          events := events
          messages := convertNotificationToMessage b.messages ("Error sending file: " ++ error) now } }
  | .connect i j =>
    match s.browsers[i]?, s.browsers[j]? with
    | some b, some _ => some { s with links := s.links ++ [⟨i, j, true, [], ∅, b.done.1, [], false⟩] }
    | _, _ => none
  | .close k =>
    match s.links[k]? with
    | none => none
    | some l => some { s with links := s.links.set k { l with connected := false } }
  | .deliver k =>
    match s.links[k]? with
    | none => none
    | some l =>
      match l.wire, s.browsers[l.dst]? with
      | chunk :: wire, some c =>
        match handleData env l.decoder chunk with
        | (decoder, none) => some { s with links := s.links.set k { l with wire := wire, decoder := decoder } }
        | (decoder, some m) => some
          { browsers := s.browsers.set l.dst { c with messages := handleMessage env c.messages m }
            links := s.links.set k { l with wire := wire, decoder := decoder, received := l.received ++ [m] } }
      | _, _ => none
  | .notify i message now =>
    match s.browsers[i]? with
    | none => none
    | some b => some { s with browsers := s.browsers.set i { b with
        messages := convertNotificationToMessage b.messages message now } }

/-- What a step can do. -/
inductive Stepped (env : Env) (s : Room) : Action → Room → Prop
  | load {userId : String} : Stepped env s (.load userId) { s with
      browsers := s.browsers ++ [⟨userId, ⟨env.maxMessageSizeBytes, 0⟩, [], [], ⟨[], 0⟩, [], [], (0, 0)⟩] }
  | send {i : ℕ} {content : Content} {timestamp : String} {b : Browser} : s.browsers[i]? = some b →
      Stepped env s (.send i content timestamp)
        { s with browsers := s.browsers.set i (b.send env content timestamp) }
  | post {i : ℕ} {b : Browser} {p : WorkerPayload} {timers : List WorkerPayload} : s.browsers[i]? = some b →
      b.timers = p :: timers → Stepped env s (.post i) { s with browsers := s.browsers.set i { b with
        timers := timers
        events := b.events ++ (onmessage p).getD [] } }
  | push {i : ℕ} {now : String} {throws : List ℕ} {b : Browser} {e : EncoderEvent} {events : List EncoderEvent}
      {chunk : List Byte} : s.browsers[i]? = some b → b.events = e :: events → e.chunk? = some chunk →
      Stepped env s (.event i now throws)
        { browsers := s.browsers.set i { b with events := events, done := next b.payloads b.done.1 b.done.2 }
          links := s.links.map (Link.push i chunk throws) }
  | done {i : ℕ} {now : String} {throws : List ℕ} {b : Browser} {e : EncoderEvent} {events : List EncoderEvent} :
      s.browsers[i]? = some b → b.events = e :: events → e.chunk? = none → Stepped env s (.event i now throws)
        { s with browsers := s.browsers.set i { b with events := events } }
  | error {i : ℕ} {now message : String} {throws : List ℕ} {b : Browser} {e : EncoderEvent} {events : List EncoderEvent} :
      s.browsers[i]? = some b → b.events = e :: events → e.chunk? = none → Stepped env s (.event i now throws)
        { s with browsers := s.browsers.set i { b with
          events := events
          messages := convertNotificationToMessage b.messages message now } }
  | connect {i j : ℕ} {b c : Browser} : s.browsers[i]? = some b → s.browsers[j]? = some c →
      Stepped env s (.connect i j) { s with links := s.links ++ [⟨i, j, true, [], ∅, b.done.1, [], false⟩] }
  | close {k : ℕ} {l : Link} : s.links[k]? = some l →
      Stepped env s (.close k) { s with links := s.links.set k { l with connected := false } }
  | gather {k : ℕ} {l : Link} {chunk : List Byte} {wire : List (List Byte)} {decoder : Decoder} :
      s.links[k]? = some l → l.wire = chunk :: wire → handleData env l.decoder chunk = (decoder, none) →
      Stepped env s (.deliver k) { s with links := s.links.set k { l with wire := wire, decoder := decoder } }
  | deliver {k : ℕ} {l : Link} {c : Browser} {chunk : List Byte} {wire : List (List Byte)} {decoder : Decoder}
      {m : MessageType} : s.links[k]? = some l → s.browsers[l.dst]? = some c → l.wire = chunk :: wire →
      handleData env l.decoder chunk = (decoder, some m) → Stepped env s (.deliver k)
        { browsers := s.browsers.set l.dst { c with messages := handleMessage env c.messages m }
          links := s.links.set k { l with wire := wire, decoder := decoder, received := l.received ++ [m] } }
  | notify {i : ℕ} {message now : String} {b : Browser} : s.browsers[i]? = some b →
      Stepped env s (.notify i message now) { s with browsers := s.browsers.set i { b with
        messages := convertNotificationToMessage b.messages message now } }

theorem stepped_of_step {env : Env} {s s' : Room} {act : Action} (hs : step env s act = some s') : Stepped env s act s' := by
  cases act with
  | load userId =>
    cases hs
    exact .load
  | send i content timestamp =>
    simp only [step] at hs
    split at hs
    · cases hs
    · next b hb =>
      cases hs
      exact .send hb
  | post i =>
    simp only [step] at hs
    split at hs
    · cases hs
    · next b hb =>
      split at hs
      · cases hs
      · next p timers ht =>
        cases hs
        exact .post hb ht
  | event i now throws =>
    simp only [step] at hs
    split at hs
    · cases hs
    · next b hb =>
      split at hs
      · cases hs
      · next he =>
        cases hs
        exact .push hb he rfl
      · next he =>
        cases hs
        exact .done hb he rfl
      · next he =>
        cases hs
        exact .error hb he rfl
  | connect i j =>
    simp only [step] at hs
    split at hs
    · next b c hb hc =>
      cases hs
      exact .connect hb hc
    · cases hs
  | close k =>
    simp only [step] at hs
    split at hs
    · cases hs
    · next l hl =>
      cases hs
      exact .close hl
  | deliver k =>
    simp only [step] at hs
    split at hs
    · cases hs
    · next l hl =>
      split at hs
      · next chunk wire c hw hc =>
        split at hs
        · next decoder hd =>
          cases hs
          exact .gather hl hw hd
        · next decoder m hd =>
          cases hs
          exact .deliver hl hc hw hd
      · cases hs
  | notify i message now =>
    simp only [step] at hs
    split at hs
    · cases hs
    · next b hb =>
      cases hs
      exact .notify hb

/-! ### The guard -/

instance : DecidablePred SizesFit := fun p => decidable_of_iff
  (p.senderIdBytes.length < 65536 ∧ (p.data.length : ℤ) ≤ 65535 * (p.maxMessageSizeBytes - 16 - p.senderIdBytes.length) ∧
    p.data.length < 2147483648 ∧
    p.senderIdBytes.length + min (p.maxMessageSizeBytes - 16 - p.senderIdBytes.length) p.data.length < 2147483648)
  ⟨fun ⟨h1, h2, h3, h4⟩ => ⟨h1, h2, h3, h4⟩, fun ⟨h1, h2, h3, h4⟩ => ⟨h1, h2, h3, h4⟩⟩

/-- The payload of a message that is sent. -/
def Browser.payload (env : Env) (b : Browser) (m : MessageType) : WorkerPayload :=
  (b.encoder.encode env.textEncode ⟨b.userId, env.textEncode (env.stringify m)⟩).2

/-- The worker can split the payload, and the text codec and JSON give back what they got. -/
structure Fitting (env : Env) (m : MessageType) (p : WorkerPayload) : Prop where
  room : 0 < p.dataBytesInChunk
  nonempty : p.data ≠ []
  sizes : SizesFit p
  text : env.textDecode p.senderIdBytes = p.senderId
  json : env.parse (env.textDecode p.data) = some m

instance (env : Env) (m : MessageType) (p : WorkerPayload) : Decidable (Fitting env m p) := decidable_of_iff
  (0 < p.dataBytesInChunk ∧ p.data ≠ [] ∧ SizesFit p ∧ env.textDecode p.senderIdBytes = p.senderId ∧
    env.parse (env.textDecode p.data) = some m)
  ⟨fun ⟨h1, h2, h3, h4, h5⟩ => ⟨h1, h2, h3, h4, h5⟩, fun ⟨h1, h2, h3, h4, h5⟩ => ⟨h1, h2, h3, h4, h5⟩⟩

/-- Messages fit, and a peer is connected when no message has been sent in part. -/
def Regular (env : Env) (s : Room) : Action → Prop
  | .send i content timestamp => ∀ b ∈ s.browsers[i]?,
      Fitting env ⟨b.userId, content, timestamp⟩ (b.payload env ⟨b.userId, content, timestamp⟩)
  | .connect i _ => ∀ b ∈ s.browsers[i]?, b.done.2 = 0
  | _ => True

instance (env : Env) : DecidableRel (Regular env)
  | s, .send i content timestamp => inferInstanceAs (Decidable (∀ b ∈ s.browsers[i]?,
      Fitting env ⟨b.userId, content, timestamp⟩ (b.payload env ⟨b.userId, content, timestamp⟩)))
  | s, .connect i _ => inferInstanceAs (Decidable (∀ b ∈ s.browsers[i]?, b.done.2 = 0))
  | _, .load _ | _, .post _ | _, .event _ _ _ | _, .close _ | _, .deliver _ | _, .notify _ _ _ => isTrue trivial

/-! ### The invariant -/

/-- The chunks that have not gone to the peers yet. -/
def Browser.todo (b : Browser) : List (List Byte) := b.events.filterMap EncoderEvent.chunk? ++ b.timers.flatMap chunksOf

/-- A payload that carries a message. -/
structure Carries (env : Env) (m : MessageType) (p : WorkerPayload) : Prop where
  sendable : Sendable env.textDecode p
  json : env.parse (env.textDecode p.data) = some m

structure Browser.Sending (env : Env) (b : Browser) : Prop where
  length : b.payloads.length = b.sent.length
  carries : ∀ {n : ℕ} {m : MessageType} {p : WorkerPayload}, b.sent[n]? = some m → b.payloads[n]? = some p → Carries env m p
  todo : At b.payloads b.todo b.done.1 b.done.2

/-- A link is at chunk `k` of message `n`, and what comes after its wire is `later`. -/
structure Link.Follows (b : Browser) (l : Link) (n k : ℕ) (later : List (List Byte)) : Prop where
  stream : At b.payloads (l.wire ++ later) n k
  decoder : Holds b.payloads n k l.decoder
  connected : l.connected = true → later = b.todo
  start : l.start ≤ n
  received : l.received = (b.sent.drop l.start).take (n - l.start)

/-- A link on which no `send` has thrown is somewhere in the messages. -/
def Link.Intact (b : Browser) (l : Link) : Prop := l.threw = false → ∃ n k later, l.Follows b n k later

structure Good (env : Env) (s : Room) : Prop where
  sending : ∀ {i : ℕ} {b : Browser}, s.browsers[i]? = some b → b.Sending env
  links : ∀ {k : ℕ} {l : Link}, s.links[k]? = some l → ∃ b c, s.browsers[l.src]? = some b ∧ s.browsers[l.dst]? = some c ∧
    l.Intact b ∧ (l.received.map (toMessage env)).Sublist c.messages.list

theorem good_new (env : Env) : Good env .new := ⟨fun h => (by simp [Room.new] at h), fun h => by simp [Room.new] at h⟩

section Good

variable {env : Env} {s s' : Room} {b b' c : Browser} {l l' : Link} {i k n : ℕ} {act : Action}

/-- The message that a payload carries. -/
theorem Browser.Sending.message (h : b.Sending env) {p : WorkerPayload} (hp : b.payloads[n]? = some p) :
    ∃ m, b.sent[n]? = some m ∧ Carries env m p := by
  have hlt : n < b.sent.length := h.length ▸ (List.getElem?_eq_some_iff.mp hp).1
  exact ⟨_, List.getElem?_eq_getElem hlt, h.carries (List.getElem?_eq_getElem hlt) hp⟩

theorem Browser.Sending.sendable (h : b.Sending env) : ∀ p ∈ b.payloads, Sendable env.textDecode p := by
  intro p hp
  obtain ⟨n, hn⟩ := List.getElem?_of_mem hp
  obtain ⟨m, -, hm⟩ := h.message hn
  exact hm.sendable

theorem carries_of_fitting {m : MessageType} (h : Fitting env m (b.payload env m)) : Carries env m (b.payload env m) := by
  refine ⟨⟨h.room, h.nonempty, ?_, h.text⟩, h.json⟩
  exact (fits_iff_sizesFit (encode_messageId_lt _) h.room h.nonempty).mpr h.sizes

/-! Sending a message -/

theorem todo_send (content : Content) (timestamp : String) :
    (b.send env content timestamp).todo = b.todo ++ chunksOf (b.payload env ⟨b.userId, content, timestamp⟩) := by
  simp only [Browser.todo, Browser.send, List.flatMap_append, List.flatMap_singleton, List.append_assoc]
  rfl

theorem Browser.Sending.send (h : b.Sending env) {content : Content} {timestamp : String}
    (hm : Fitting env ⟨b.userId, content, timestamp⟩ (b.payload env ⟨b.userId, content, timestamp⟩)) :
    (b.send env content timestamp).Sending env := by
  refine ⟨?_, fun {n m p} hn hp => ?_, ?_⟩
  · simp only [Browser.send, List.length_append, List.length_singleton, h.length]
  · rcases getElem?_concat_cases hn with hn | ⟨rfl, rfl⟩
    · rcases getElem?_concat_cases hp with hp | ⟨rfl, -⟩
      · exact h.carries hn hp
      · exact absurd (List.getElem?_eq_some_iff.mp hn).1 (by rw [h.length]; omega)
    · rw [← h.length] at hp
      obtain rfl := Option.some.inj (List.getElem?_concat_length.symm.trans hp)
      exact carries_of_fitting hm
  · rw [todo_send]
    exact h.todo.concat h.sendable _

theorem Link.Follows.send {later : List (List Byte)} (h : l.Follows b n k later) (hb : b.Sending env) (content : Content)
    (timestamp : String) : ∃ later, l.Follows (b.send env content timestamp) n k later := by
  have hlen := h.stream.message
  rw [hb.length] at hlen
  have hreceived : l.received = ((b.send env content timestamp).sent.drop l.start).take (n - l.start) := by
    have hstart := h.start
    rw [h.received]
    simp only [Browser.send]
    rw [List.drop_append_of_le_length (by omega), List.take_append_of_le_length]
    rw [List.length_drop]
    omega
  refine ⟨later ++ chunksOf (b.payload env ⟨b.userId, content, timestamp⟩), ?_, ?_, fun hc => ?_, h.start, hreceived⟩
  · rw [← List.append_assoc]
    exact h.stream.concat hb.sendable _
  · exact h.decoder.concat h.stream _
  · rw [h.connected hc, todo_send]

/-! Chunks that go to the peers -/

/-- The next chunk goes to the peers. -/
theorem Browser.Sending.push {chunk : List Byte} (h : b.Sending env) (hp : b'.payloads = b.payloads) (hs : b'.sent = b.sent)
    (ht : b.todo = chunk :: b'.todo) (hd : b'.done = next b.payloads b.done.1 b.done.2) : b'.Sending env := by
  have hat := h.todo
  rw [ht] at hat
  obtain ⟨p, -, -, -, hat⟩ := hat.cons h.sendable
  refine ⟨by rw [hp, hs, h.length], fun {n m p} hn hq => ?_, ?_⟩
  · rw [hs] at hn
    rw [hp] at hq
    exact h.carries hn hq
  · rw [hp, hd]
    exact hat

theorem Link.Follows.push {chunk : List Byte} {later : List (List Byte)} (h : l.Follows b n k later)
    (hp : b'.payloads = b.payloads) (hs : b'.sent = b.sent) (ht : b.todo = chunk :: b'.todo) (hc : l.connected = true) :
    Link.Follows b' { l with wire := l.wire ++ [chunk] } n k b'.todo := by
  refine ⟨?_, ?_, fun _ => rfl, h.start, ?_⟩
  · rw [hp, List.append_assoc, List.singleton_append, ← ht, ← h.connected hc]
    exact h.stream
  · rw [hp]
    exact h.decoder
  · rw [hs]
    exact h.received

/-- A link that is not connected has nothing to do with what the browser sends. -/
theorem Link.Follows.apart {later : List (List Byte)} (h : l.Follows b n k later) (hp : b'.payloads = b.payloads)
    (hs : b'.sent = b.sent) (hc : ¬ l.connected = true) : l.Follows b' n k later := by
  refine ⟨?_, ?_, fun hconn => absurd hconn hc, h.start, ?_⟩
  · rw [hp]
    exact h.stream
  · rw [hp]
    exact h.decoder
  · rw [hs]
    exact h.received

theorem Link.Intact.push {chunk : List Byte} {throws : List ℕ} (h : l.Intact b) (hp : b'.payloads = b.payloads)
    (hs : b'.sent = b.sent) (ht : b.todo = chunk :: b'.todo) : (l.push l.src chunk throws).Intact b' := by
  unfold Link.push
  split_ifs with hc hthrows
  · exact fun hthrew => Bool.noConfusion hthrew
  · intro hthrew
    obtain ⟨n, k, later, hF⟩ := h hthrew
    exact ⟨n, k, _, hF.push hp hs ht hc.2⟩
  · intro hthrew
    obtain ⟨n, k, later, hF⟩ := h hthrew
    exact ⟨n, k, later, hF.apart hp hs fun hconn => hc ⟨rfl, hconn⟩⟩

/-! What arrives -/

theorem handleData_of_ok {decoder : Decoder} {chunk : List Byte} {out : Option DataContainer}
    (h : (decoder.decode env.textDecode chunk).2 = .ok out) : handleData env decoder chunk =
      ((decoder.decode env.textDecode chunk).1, out.bind fun c => env.parse (env.textDecode c.data)) := by
  unfold handleData
  generalize decoder.decode env.textDecode chunk = r at h
  obtain ⟨decoder', r⟩ := r
  obtain rfl : r = .ok out := h
  cases out <;> rfl

/-- One more message of those from `start` on. -/
theorem take_drop_concat {sent : List MessageType} {start : ℕ} {m : MessageType} (hs : start ≤ n) (hm : sent[n]? = some m) :
    (sent.drop start).take (n + 1 - start) = (sent.drop start).take (n - start) ++ [m] := by
  rw [Nat.succ_sub hs, List.take_add_one, List.getElem?_drop, Nat.add_sub_cancel' hs, hm, Option.toList_some]

/-- **One `data` event**: the link is at the next chunk, and the message has come out if it was complete. -/
theorem Link.Follows.deliver {chunk : List Byte} {wire later : List (List Byte)} (h : l.Follows b n k later)
    (hb : b.Sending env) (hw : l.wire = chunk :: wire) :
    ∃ n k, Link.Follows b { l with
      wire := wire
      decoder := (handleData env l.decoder chunk).1
      received := l.received ++ (handleData env l.decoder chunk).2.toList } n k later := by
  have hat := h.stream
  rw [hw, List.cons_append] at hat
  obtain ⟨p, hp, hk, rfl, hat'⟩ := hat.cons hb.sendable
  obtain ⟨m, hm, hcarries⟩ := hb.message hp
  obtain ⟨hholds, hout⟩ := decode_next hcarries.sendable hp hk h.decoder
  have hdata := handleData_of_ok hout
  refine ⟨_, _, hat', ?_, h.connected, ?_, ?_⟩
  · rw [hdata]
    exact hholds
  · rw [next, hp]
    dsimp only
    split_ifs
    · exact Nat.le_succ_of_le h.start
    · exact h.start
  · rw [hdata, next, hp]
    dsimp only
    split_ifs
    · rw [Option.bind_some, hcarries.json, Option.toList_some, take_drop_concat h.start hm, h.received]
    · rw [Option.bind_none, Option.toList_none, List.append_nil, h.received]

theorem Link.Intact.deliver {chunk : List Byte} {wire : List (List Byte)} (h : l.Intact b) (hb : b.Sending env)
    (hw : l.wire = chunk :: wire) : Link.Intact b { l with
      wire := wire
      decoder := (handleData env l.decoder chunk).1
      received := l.received ++ (handleData env l.decoder chunk).2.toList } := by
  intro hthrew
  obtain ⟨n, k, later, hF⟩ := h hthrew
  obtain ⟨n', k', hF'⟩ := hF.deliver hb hw
  exact ⟨n', k', later, hF'⟩

/-! Steps -/

/-- A browser changes, and the links with it. -/
theorem Good.set (h : Good env s) (hb : s.browsers[i]? = some b) (hS : b'.Sending env)
    (hm : b.messages.list <+: b'.messages.list) {f : Link → Link}
    (hf : ∀ l, (f l).src = l.src ∧ (f l).dst = l.dst ∧ (f l).received = l.received)
    (hsrc : ∀ {l}, l.src = i → l.Intact b → (f l).Intact b')
    (hne : ∀ l, l.src ≠ i → f l = l) : Good env ⟨s.browsers.set i b', s.links.map f⟩ := by
  have hget : ∀ {j : ℕ} {c : Browser}, s.browsers[j]? = some c → i ≠ j → (s.browsers.set i b')[j]? = some c :=
    fun hc hij => (List.getElem?_set_ne hij).trans hc
  refine ⟨fun {j c} hc => ?_, fun {k l} hl => ?_⟩
  · rcases getElem?_set_cases hc with ⟨-, rfl⟩ | ⟨-, hc⟩
    · exact hS
    · exact h.sending hc
  · rw [List.getElem?_map] at hl
    obtain ⟨l, hl', rfl⟩ := Option.map_eq_some_iff.mp hl
    obtain ⟨x, c, hx, hc, hI, hsub⟩ := h.links hl'
    obtain ⟨hsrc', hdst, hrec⟩ := hf l
    rw [hsrc', hdst, hrec]
    have hdst' : ∃ c', (s.browsers.set i b')[l.dst]? = some c' ∧
        (l.received.map (toMessage env)).Sublist c'.messages.list := by
      by_cases hi : i = l.dst
      · subst hi
        obtain rfl := Option.some.inj (hb.symm.trans hc)
        exact ⟨b', getElem?_set_of_some hb, hsub.trans hm.sublist⟩
      · exact ⟨c, hget hc hi, hsub⟩
    obtain ⟨c', hc', hsub'⟩ := hdst'
    by_cases hi : i = l.src
    · subst hi
      obtain rfl := Option.some.inj (hb.symm.trans hx)
      exact ⟨b', c', getElem?_set_of_some hb, hc', hsrc rfl hI, hsub'⟩
    · rw [hne l (Ne.symm hi)]
      exact ⟨x, c', hget hx hi, hc', hI, hsub'⟩

theorem Link.Intact.browser (h : l.Intact b)
    (hF : ∀ {n k later}, l.Follows b n k later → ∃ later, l.Follows b' n k later) : l.Intact b' := by
  intro hthrew
  obtain ⟨n, k, later, hold⟩ := h hthrew
  obtain ⟨later, hnew⟩ := hF hold
  exact ⟨n, k, later, hnew⟩

/-- A browser changes, and the links do not. -/
theorem Good.setBrowser (h : Good env s) (hb : s.browsers[i]? = some b) (hS : b'.Sending env)
    (hm : b.messages.list <+: b'.messages.list)
    (hsrc : ∀ {l n k later}, Link.Follows b l n k later → ∃ later, l.Follows b' n k later) :
    Good env { s with browsers := s.browsers.set i b' } := by
  have hset := h.set hb hS hm (f := id) (fun _ => ⟨rfl, rfl, rfl⟩) (fun _ hI => hI.browser hsrc) fun _ _ => rfl
  rwa [List.map_id] at hset

/-- A browser shows more messages. -/
theorem Good.show (h : Good env s) (hb : s.browsers[i]? = some b) {messages : MessagesState}
    (hm : b.messages.list <+: messages.list) :
    Good env { s with browsers := s.browsers.set i { b with messages := messages } } :=
  h.setBrowser hb ⟨(h.sending hb).length, (h.sending hb).carries, (h.sending hb).todo⟩ hm
    fun hF => ⟨_, hF.stream, hF.decoder, hF.connected, hF.start, hF.received⟩

theorem Good.setLink (h : Good env s) (hl : ∃ b c, s.browsers[l'.src]? = some b ∧ s.browsers[l'.dst]? = some c ∧
    l'.Intact b ∧ (l'.received.map (toMessage env)).Sublist c.messages.list) (k : ℕ) :
    Good env { s with links := s.links.set k l' } := by
  refine ⟨h.sending, fun {j x} hx => ?_⟩
  rcases getElem?_set_cases hx with ⟨-, rfl⟩ | ⟨-, hx⟩
  · exact hl
  · exact h.links hx

/-- The chunks of a browser when the worker has posted those of the first timer. -/
theorem todo_post {p : WorkerPayload} {timers : List WorkerPayload} (ht : b.timers = p :: timers) :
    Browser.todo { b with timers := timers, events := b.events ++ (onmessage p).getD [] } = b.todo := by
  simp only [Browser.todo, ht, List.filterMap_append, List.flatMap_cons, List.append_assoc]
  rfl

theorem Good.post {p : WorkerPayload} {timers : List WorkerPayload} (h : Good env s) (hb : s.browsers[i]? = some b)
    (ht : b.timers = p :: timers) : Good env { s with browsers := s.browsers.set i { b with
      timers := timers, events := b.events ++ (onmessage p).getD [] } } := by
  have hS := h.sending hb
  refine h.setBrowser hb ⟨hS.length, hS.carries, ?_⟩ (List.prefix_refl _) fun {l n k later} hF => ?_
  · rw [todo_post ht]
    exact hS.todo
  · refine ⟨later, hF.stream, hF.decoder, fun hc => ?_, hF.start, hF.received⟩
    rw [todo_post ht]
    exact hF.connected hc

/-- An event without a chunk is handled. -/
theorem Good.quiet {e : EncoderEvent} {events : List EncoderEvent} (h : Good env s) (hb : s.browsers[i]? = some b)
    (he : b.events = e :: events) (hq : e.chunk? = none) {messages : MessagesState}
    (hm : b.messages.list <+: messages.list) :
    Good env { s with browsers := s.browsers.set i { b with events := events, messages := messages } } := by
  have htodo : Browser.todo { b with events := events, messages := messages } = b.todo := by
    simp only [Browser.todo, he, List.filterMap_cons, hq]
  have hS := h.sending hb
  refine h.setBrowser hb ⟨hS.length, hS.carries, ?_⟩ hm fun {l n k later} hF => ?_
  · rw [htodo]
    exact hS.todo
  · refine ⟨later, hF.stream, hF.decoder, fun hc => ?_, hF.start, hF.received⟩
    rw [htodo]
    exact hF.connected hc

/-- A chunk goes to the peers. -/
theorem Good.push {e : EncoderEvent} {events : List EncoderEvent} {chunk : List Byte} (h : Good env s) (throws : List ℕ)
    (hb : s.browsers[i]? = some b) (he : b.events = e :: events) (hc : e.chunk? = some chunk) :
    Good env ⟨s.browsers.set i { b with events := events, done := next b.payloads b.done.1 b.done.2 },
      s.links.map (Link.push i chunk throws)⟩ := by
  have htodo : b.todo = chunk ::
      Browser.todo { b with events := events, done := next b.payloads b.done.1 b.done.2 } := by
    simp only [Browser.todo, he, List.filterMap_cons, hc, List.cons_append]
  refine h.set hb ?_ ?_ (fun l => ?_) (fun hi hI => ?_) fun l hi => ?_
  · exact (h.sending hb).push rfl rfl htodo rfl
  · exact List.prefix_refl _
  · unfold Link.push
    split_ifs <;> exact ⟨rfl, rfl, rfl⟩
  · subst hi
    exact hI.push rfl rfl htodo
  · unfold Link.push
    exact if_neg fun hc => hi hc.1

/-- A peer is connected: its link starts with the next message. -/
theorem Good.connect {j : ℕ} (h : Good env s) (hb : s.browsers[i]? = some b) (hc : s.browsers[j]? = some c)
    (hd : b.done.2 = 0) : Good env { s with links := s.links ++ [⟨i, j, true, [], ∅, b.done.1, [], false⟩] } := by
  refine ⟨h.sending, fun {k l} hl => ?_⟩
  rcases getElem?_concat_cases hl with hl | ⟨-, rfl⟩
  · exact h.links hl
  · refine ⟨b, c, hb, hc, fun _ => ⟨b.done.1, 0, b.todo, ?_, ?_, fun _ => rfl, le_refl _, ?_⟩, List.nil_sublist _⟩
    · rw [List.nil_append, ← hd]
      exact (h.sending hb).todo
    · exact holds_zero.mpr fun id => AList.lookup_empty id
    · rw [Nat.sub_self, List.take_zero]

theorem Good.close (h : Good env s) (hl : s.links[k]? = some l) :
    Good env { s with links := s.links.set k { l with connected := false } } := by
  obtain ⟨b, c, hb, hc, hI, hsub⟩ := h.links hl
  refine h.setLink ?_ k
  refine ⟨b, c, hb, hc, fun hthrew => ?_, hsub⟩
  obtain ⟨n, j, later, hF⟩ := hI hthrew
  exact ⟨n, j, later, hF.stream, hF.decoder, fun hconn => Bool.noConfusion hconn, hF.start, hF.received⟩

/-- A new browser. -/
theorem Good.load (h : Good env s) (userId : String) : Good env { s with
    browsers := s.browsers ++ [⟨userId, ⟨env.maxMessageSizeBytes, 0⟩, [], [], ⟨[], 0⟩, [], [], (0, 0)⟩] } := by
  refine ⟨fun {i b} hb => ?_, fun {k l} hl => ?_⟩
  · rcases getElem?_concat_cases hb with hb | ⟨-, rfl⟩
    · exact h.sending hb
    · exact ⟨rfl, fun hn => (by cases hn), rfl, le_refl _, Or.inl rfl⟩
  · obtain ⟨b, c, hb, hc, hlink⟩ := h.links hl
    exact ⟨b, c, getElem?_append_of_some hb, getElem?_append_of_some hc, hlink⟩

/-- A chunk arrives, and its message is not complete. -/
theorem Good.gather {chunk : List Byte} {wire : List (List Byte)} {decoder : Decoder} (h : Good env s)
    (hl : s.links[k]? = some l) (hw : l.wire = chunk :: wire) (hd : handleData env l.decoder chunk = (decoder, none)) :
    Good env { s with links := s.links.set k { l with wire := wire, decoder := decoder } } := by
  obtain ⟨b, c, hb, hc, hI, hsub⟩ := h.links hl
  refine h.setLink ?_ k
  refine ⟨b, c, hb, hc, ?_, hsub⟩
  have hI' := hI.deliver (h.sending hb) hw
  rwa [hd, Option.toList_none, List.append_nil] at hI'

/-- A chunk arrives, and its message is complete and shown. -/
theorem Good.deliver {chunk : List Byte} {wire : List (List Byte)} {decoder : Decoder} {m : MessageType} (h : Good env s)
    (hl : s.links[k]? = some l) (hw : l.wire = chunk :: wire) (hd : handleData env l.decoder chunk = (decoder, some m))
    (hc : s.browsers[l.dst]? = some c) : Good env
      ⟨s.browsers.set l.dst { c with messages := handleMessage env c.messages m },
        s.links.set k { l with wire := wire, decoder := decoder, received := l.received ++ [m] }⟩ := by
  obtain ⟨b, c', hb, hc', hI, hsub⟩ := h.links hl
  obtain rfl := Option.some.inj (hc.symm.trans hc')
  have hI' := hI.deliver (h.sending hb) hw
  rw [hd, Option.toList_some] at hI'
  have hshown : Good env { s with
      browsers := s.browsers.set l.dst { c with messages := handleMessage env c.messages m } } :=
    h.show hc (List.prefix_append _ _)
  refine hshown.setLink ?_ k
  have hsub' : ((l.received ++ [m]).map (toMessage env)).Sublist (handleMessage env c.messages m).list := by
    rw [List.map_append]
    exact hsub.append (List.Sublist.refl _)
  by_cases hi : l.dst = l.src
  · -- a browser that is connected to itself
    obtain rfl := Option.some.inj (hc.symm.trans (hi ▸ hb))
    refine ⟨{ c with messages := handleMessage env c.messages m }, _, ?_, getElem?_set_of_some hc, ?_, hsub'⟩
    · rw [← hi]
      exact getElem?_set_of_some hc
    · exact hI'.browser fun hF => ⟨_, hF.stream, hF.decoder, hF.connected, hF.start, hF.received⟩
  · exact ⟨b, _, (List.getElem?_set_ne hi).trans hb, getElem?_set_of_some hc, hI', hsub'⟩

theorem Good.step (h : Good env s) (hok : Regular env s act) (hs : Stepped env s act s') : Good env s' := by
  cases hs with
  | load => exact h.load _
  | @send i content timestamp b hb =>
    refine h.setBrowser hb ?_ ?_ ?_
    · exact (h.sending hb).send (hok b hb)
    · exact List.prefix_append _ _
    · exact fun hF => hF.send (h.sending hb) content timestamp
  | post hb ht => exact h.post hb ht
  | push hb he hc => exact h.push _ hb he hc
  | done hb he hq => exact h.quiet hb he hq (List.prefix_refl _)
  | error hb he hq => exact h.quiet hb he hq (List.prefix_append _ _)
  | @connect i j b c hb hc => exact h.connect hb hc (hok b hb)
  | close hl => exact h.close hl
  | gather hl hw hd => exact h.gather hl hw hd
  | deliver hl hc hw hd => exact h.deliver hl hw hd hc
  | notify hb => exact h.show hb (List.prefix_append _ _)

theorem good_of_reach (h : Reach (step env) (Regular env) .new s) : Good env s :=
  h.invariant (good_new env) fun _ _ _ hI hok hs => hI.step hok (stepped_of_step hs)

end Good

/-- **Chat messages arrive in order**: along every run in which messages fit and peers are connected between two messages,
what has come out of a link on which no `send` has thrown are the first of the messages that had not gone to the peers when
it was connected, and all of them when the link is still connected and nothing is under way; and what has come out of any
link is shown in this order on the other side. -/
theorem chat_delivered {env : Env} {s : Room} (h : Reach (step env) (Regular env) .new s) {k : ℕ} {l : Link}
    (hl : s.links[k]? = some l) :
    ∃ b c, s.browsers[l.src]? = some b ∧ s.browsers[l.dst]? = some c ∧
      (l.threw = false → (∃ n, l.received = (b.sent.drop l.start).take n) ∧
        (l.connected = true → l.wire = [] → b.events = [] → b.timers = [] → l.received = b.sent.drop l.start)) ∧
      (l.received.map (toMessage env)).Sublist c.messages.list := by
  have hG := good_of_reach h
  obtain ⟨b, c, hb, hc, hI, hsub⟩ := hG.links hl
  have hS := hG.sending hb
  refine ⟨b, c, hb, hc, fun hthrew => ?_, hsub⟩
  obtain ⟨n, j, later, hF⟩ := hI hthrew
  refine ⟨⟨_, hF.received⟩, fun hconn hwire hev hti => ?_⟩
  have hlater : later = [] := by
    rw [hF.connected hconn, Browser.todo, hev, hti]
    rfl
  have hn : n = b.payloads.length := by
    have hat := hF.stream
    rw [hwire, hlater] at hat
    exact hat.nil hS.sendable
  rw [hF.received, hn, hS.length]
  exact List.take_of_length_le (by rw [List.length_drop])

def hello : MessageType := ⟨"a", .text "hello", "1"⟩

def bye : MessageType := ⟨"a", .text "bye", "2"⟩

/-- The JSON of text messages, as far as two of them are concerned, and an encoder with small chunks. -/
def smallEnv : Env where
  textEncode := asciiEncode
  textDecode := asciiDecode
  stringify m := match m.content with
    | .text payload => "\x7b\"payload\":\"" ++ payload ++ "\",\"timestamp\":\"" ++ m.timestamp ++
        "\",\"type\":\"text\",\"userId\":\"" ++ m.userId ++ "\"\x7d"
    | .file name _ _ _ => name
  parse text :=
    if text = "\x7b\"payload\":\"hello\",\"timestamp\":\"1\",\"type\":\"text\",\"userId\":\"a\"\x7d" then some hello
    else if text = "\x7b\"payload\":\"bye\",\"timestamp\":\"2\",\"type\":\"text\",\"userId\":\"a\"\x7d" then some bye
    else none
  toLocaleString := id
  maxMessageSizeBytes := 60

/-- A link that is connected after the first of two messages, both in two chunks, one before them, and one on which the
first `send` throws. -/
theorem chat_delivered_example : ∃ s : Room, exec (guarded (step smallEnv) (Regular smallEnv)) .new
      [.load "a", .load "b", .load "c", .load "d", .connect 0 1, .connect 0 3, .send 0 (.text "hello") "1",
        .send 0 (.text "bye") "2", .post 0, .event 0 "" [3], .event 0 "" [], .event 0 "" [], .deliver 0, .connect 0 2,
        .post 0, .event 0 "" [], .deliver 0, .event 0 "" [], .event 0 "" [], .deliver 0, .deliver 0, .deliver 1, .deliver 1,
        .deliver 1, .deliver 2, .deliver 2] = some s ∧
    (s.links.map (fun l => (l.received, l.threw)) = [([hello, bye], false), ([bye], true), ([bye], false)] ∧
      s.browsers.map (fun b => b.messages.count) = [2, 2, 1, 1]) ∧
      ∀ l, s.links[2]? = some l → l.threw = false → ∃ b c, s.browsers[l.src]? = some b ∧ s.browsers[l.dst]? = some c ∧
        (∃ n, l.received = (b.sent.drop l.start).take n) ∧ (l.received.map (toMessage smallEnv)).Sublist c.messages.list := by
  refine exists_exec (by decide +kernel) fun s h _ l hl hthrew => ?_
  obtain ⟨b, c, hb, hc, hreceived, hsub⟩ := chat_delivered h hl
  exact ⟨b, c, hb, hc, (hreceived hthrew).1, hsub⟩

/-! ### Messages that are shown -/

/-- The messages that have come out of the links to browser `i`. -/
def arrived (i : ℕ) (links : List Link) : ℕ := (links.map fun l => if l.dst = i then l.received.length else 0).sum

/-- The count is the number of chat messages, those that were sent and `n` others. -/
def Browser.Counts (n : ℕ) (b : Browser) : Prop :=
  b.messages.count = (b.messages.list.filter fun m => !m.system).length ∧ b.messages.count = b.sent.length + n

structure Shown (s : Room) : Prop where
  dst : ∀ l ∈ s.links, l.dst < s.browsers.length
  counts : ∀ {i : ℕ} {b : Browser}, s.browsers[i]? = some b → b.Counts (arrived i s.links)

theorem shown_new : Shown .new := ⟨fun _ hl => (by cases hl), fun hb => by simp [Room.new] at hb⟩

section Shown

variable {env : Env} {s s' : Room} {b b' c : Browser} {l : Link} {i k n : ℕ} {act : Action}

theorem toMessage_system (m : MessageType) : (toMessage env m).system = false := by
  unfold toMessage
  split <;> rfl

theorem filter_handleMessage (messages : MessagesState) (m : MessageType) :
    ((handleMessage env messages m).list.filter fun m => !m.system).length =
      (messages.list.filter fun m => !m.system).length + 1 := by
  rw [handleMessage, List.filter_append, List.length_append, List.filter_singleton, toMessage_system]
  rfl

theorem filter_notification (messages : MessagesState) (message now : String) :
    (convertNotificationToMessage messages message now).list.filter (fun m => !m.system) =
      messages.list.filter fun m => !m.system := by
  rw [convertNotificationToMessage, List.filter_append, List.filter_singleton]
  exact List.append_nil _

theorem Browser.Counts.notify (h : b.Counts n) (hs : b'.sent = b.sent) {message now : String}
    (hm : b'.messages = convertNotificationToMessage b.messages message now) : b'.Counts n := by
  rw [Browser.Counts, hm, hs, filter_notification]
  exact h

/-- A browser changes, and the links only in what is under way. -/
theorem Shown.set (h : Shown s) (hb : s.browsers[i]? = some b) (hc : b.Counts (arrived i s.links) → b'.Counts (arrived i s.links))
    {f : Link → Link} (hf : ∀ l, (f l).dst = l.dst ∧ (f l).received = l.received) :
    Shown ⟨s.browsers.set i b', s.links.map f⟩ := by
  have harrived : ∀ j, arrived j (s.links.map f) = arrived j s.links := by
    intro j
    rw [arrived, List.map_map, arrived]
    refine congrArg List.sum (List.map_congr_left fun l _ => ?_)
    rw [Function.comp_apply, (hf l).1, (hf l).2]
  refine ⟨fun l hl => ?_, fun {j x} hx => ?_⟩
  · obtain ⟨l, hl', rfl⟩ := List.mem_map.mp hl
    rw [List.length_set, (hf l).1]
    exact h.dst l hl'
  · rw [harrived]
    rcases getElem?_set_cases hx with ⟨rfl, rfl⟩ | ⟨-, hx⟩
    · exact hc (h.counts hb)
    · exact h.counts hx

theorem Shown.setBrowser (h : Shown s) (hb : s.browsers[i]? = some b)
    (hc : b.Counts (arrived i s.links) → b'.Counts (arrived i s.links)) :
    Shown { s with browsers := s.browsers.set i b' } := by
  have hset := h.set hb hc (f := id) fun _ => ⟨rfl, rfl⟩
  rwa [List.map_id] at hset

/-- A link changes, after `m` has come out of it. -/
theorem arrived_set {l' : Link} (hl : s.links[k]? = some l) (hd : l'.dst = l.dst) {m : ℕ}
    (hr : l'.received.length = l.received.length + m) (i : ℕ) :
    arrived i (s.links.set k l') = arrived i s.links + if l.dst = i then m else 0 := by
  have hsum := sum_set (f := fun l => if l.dst = i then l.received.length else 0) (y := l') hl
  simp only [hd, hr] at hsum
  unfold arrived
  split_ifs at hsum ⊢ <;> omega

theorem Shown.setLink {l' : Link} (h : Shown s) (hl : s.links[k]? = some l) (hd : l'.dst = l.dst)
    (hr : l'.received = l.received) : Shown { s with links := s.links.set k l' } := by
  refine ⟨fun x hx => ?_, fun {i b} hb => ?_⟩
  · rcases List.mem_or_eq_of_mem_set hx with hx | rfl
    · exact h.dst x hx
    · rw [hd]
      exact h.dst l (List.mem_of_getElem? hl)
  · have harrived := arrived_set (m := 0) hl hd (congrArg List.length hr) i
    rw [ite_self, Nat.add_zero] at harrived
    rw [harrived]
    exact h.counts hb

/-- A message comes out of a link and is shown. -/
theorem Shown.deliver {l' : Link} {m : MessageType} (h : Shown s) (hl : s.links[k]? = some l) (hd : l'.dst = l.dst)
    (hr : l'.received = l.received ++ [m]) (hc : s.browsers[l.dst]? = some c) :
    Shown ⟨s.browsers.set l.dst { c with messages := handleMessage env c.messages m }, s.links.set k l'⟩ := by
  have hlen : l'.received.length = l.received.length + 1 := by
    rw [hr, List.length_append, List.length_singleton]
  refine ⟨fun x hx => ?_, fun {i b} hb => ?_⟩
  · rw [List.length_set]
    rcases List.mem_or_eq_of_mem_set hx with hx | rfl
    · exact h.dst x hx
    · rw [hd]
      exact h.dst l (List.mem_of_getElem? hl)
  · rw [arrived_set hl hd hlen]
    rcases getElem?_set_cases hb with ⟨rfl, rfl⟩ | ⟨hi, hb⟩
    · obtain ⟨hcount, hsent⟩ := h.counts hc
      rw [if_pos rfl]
      refine ⟨?_, ?_⟩
      · rw [filter_handleMessage, ← hcount]
        rfl
      · rw [← Nat.add_assoc, ← hsent]
        rfl
    · rw [if_neg hi]
      exact h.counts hb

/-- No link leads to a new browser. -/
theorem Shown.arrived_length (h : Shown s) : arrived s.browsers.length s.links = 0 := by
  refine List.sum_eq_zero fun n hn => ?_
  obtain ⟨l, hl, rfl⟩ := List.mem_map.mp hn
  exact if_neg (h.dst l hl).ne

theorem Shown.step (h : Shown s) (hs : Stepped env s act s') : Shown s' := by
  cases hs with
  | load =>
    refine ⟨fun l hl => ?_, fun {i b} hb => ?_⟩
    · rw [List.length_append]
      exact Nat.lt_add_right _ (h.dst l hl)
    · rcases getElem?_concat_cases hb with hb | ⟨rfl, rfl⟩
      · exact h.counts hb
      · rw [h.arrived_length]
        exact ⟨rfl, rfl⟩
  | send hb =>
    refine h.setBrowser hb fun ⟨hcount, hsent⟩ => ⟨?_, ?_⟩
    · simp only [Browser.send]
      rw [filter_handleMessage, ← hcount]
      rfl
    · simp only [Browser.send, handleMessage, List.length_append, List.length_singleton]
      omega
  | post hb ht => exact h.setBrowser hb fun hcounts => hcounts
  | push hb he hc =>
    refine h.set hb ?_ fun l => ?_
    · exact fun hcounts => hcounts
    · unfold Link.push
      split_ifs <;> exact ⟨rfl, rfl⟩
  | done hb he hq => exact h.setBrowser hb fun hcounts => hcounts
  | error hb he hq => exact h.setBrowser hb fun hcounts => hcounts.notify rfl rfl
  | @connect i j b c hb hc =>
    refine ⟨fun l hl => ?_, fun {k x} hx => ?_⟩
    · rcases List.mem_append.mp hl with hl | hl
      · exact h.dst l hl
      · obtain rfl := List.mem_singleton.mp hl
        exact (List.getElem?_eq_some_iff.mp hc).1
    · have hsame : arrived k (s.links ++ [⟨i, j, true, [], ∅, b.done.1, [], false⟩]) = arrived k s.links := by
        simp [arrived]
      rw [hsame]
      exact h.counts hx
  | close hl => exact h.setLink hl rfl rfl
  | gather hl hw hd => exact h.setLink hl rfl rfl
  | deliver hl hc hw hd => exact h.deliver hl rfl rfl hc
  | notify hb => exact h.setBrowser hb fun hcounts => hcounts.notify rfl rfl

end Shown

/-- **The count of a browser** is, in every run, the number of chat messages that it shows, and these are as many as it has
sent and as have come out of the links to it. -/
theorem messages_counted {env : Env} {s : Room} (h : Reach (step env) anyStep .new s) {i : ℕ} {b : Browser}
    (hb : s.browsers[i]? = some b) :
    b.messages.count = (b.messages.list.filter fun m => !m.system).length ∧
      b.messages.count = b.sent.length + arrived i s.links :=
  (h.invariant shown_new fun _ _ _ hI _ hs => hI.step (stepped_of_step hs) : Shown s).counts hb

/-- A message that is sent, one that arrives and a notification. -/
theorem messages_counted_example : ∃ s : Room, exec (guarded (step smallEnv) anyStep) .new
      [.load "a", .load "b", .connect 0 1, .send 0 (.text "hello") "1", .send 1 (.text "hello") "1", .post 0, .event 0 "" [],
        .event 0 "" [], .deliver 0, .deliver 0, .notify 1 "Dial timed out!" "2"] = some s ∧
    s.browsers.map (fun b => b.messages.list.map fun m => m.userId) = [["_me_"], ["_me_", "a", "[PeerCalls]"]] ∧
      ∀ b, s.browsers[1]? = some b → b.messages.count = b.sent.length + arrived 1 s.links :=
  exists_exec (by decide +kernel) fun _ h _ _ hb => (messages_counted h hb).2

end Meeting.Call.Chat
