import Meeting.Lib.Lists

/-!
# Meeting.Redis.Channels — addressing clients through Redis channels (`redisadapter.go`)

`Emit` publishes in a channel whose name is made of the prefix, the room and the client id.  Every adapter
subscribes to two glob patterns made of such names, and Redis hands it a message once for each of
them that matches.  `handleMessage` compares the channel or the pattern with the adapter's own, and takes the
client id from the channel by splitting at `:`.  How Redis matches is a parameter, `glob`.

* `emit_exact_iff`: exactly when a message is written to the addressed client and to no other
  (`Addressed`);
* `addressed_of_plain`: ids and rooms without `:` are addressed exactly;
* `emit_wrong_client`: an id with a `:` is not.
-/

namespace Meeting.Redis.Channels

open Lib

/-! ### Names -/

def getRoomChannelName (pre room : String) : String := pre ++ ":room:" ++ room ++ ":broadcast"

def getClientChannelName (pre room clientID : String) : String :=
  pre ++ ":room:" ++ room ++ ":client:" ++ clientID

/-- `params[len(params)-1]` of `params := strings.Split(channel, ":")`. -/
def lastParam (channel : String) : String := String.ofList ((channel.toList.splitOn ':').getLastD [])

/-! ### Adapters -/

/-- A message as `handleMessage` looks at it. -/
structure Message where
  type : String
  /-- The payload is a `map[string]interface{}`. -/
  payloadIsMap : Bool
  deriving DecidableEq, Repr

def MessageTypeRoomJoin : String := "ws_room_join"

def MessageTypeRoomLeave : String := "ws_room_leave"

/-- The room of an adapter and its local clients. -/
structure RedisAdapter where
  room : String
  clients : List String
  deriving DecidableEq, Repr

/-- The clients that a broadcast is written to. -/
def localBroadcast (a : RedisAdapter) : List String := a.clients

def localEmit (a : RedisAdapter) (clientID : String) : List String :=
  if clientID ∈ a.clients then [clientID] else []

/-- The clients a received message is written to. -/
def handleMessage (pre : String) (a : RedisAdapter) (pattern channel : String) (msg : Message) :
    List String :=
  if channel = getRoomChannelName pre a.room then
    if msg.type = MessageTypeRoomJoin then
      if msg.payloadIsMap then localBroadcast a else []
    else if msg.type = MessageTypeRoomLeave then localBroadcast a
    else localBroadcast a
  else if pattern = getClientChannelName pre a.room "*" then localEmit a (lastParam channel)
  else []

/-- The patterns of `subscribe`. -/
def patterns (pre : String) (a : RedisAdapter) : List String :=
  [getRoomChannelName pre a.room, getClientChannelName pre a.room "*"]

/-- The clients an adapter writes a published message to: it receives it once for each of its patterns
that matches the channel. -/
def writes (glob : String → String → Bool) (pre : String) (a : RedisAdapter) (channel : String)
    (msg : Message) : List String :=
  ((patterns pre a).filter fun pattern => glob pattern channel).flatMap fun pattern =>
    handleMessage pre a pattern channel msg

/-- `Emit` of a message to a client of a room: it is published in the client's channel. -/
def emit (glob : String → String → Bool) (pre room clientID : String) (a : RedisAdapter) (msg : Message) :
    List String :=
  writes glob pre a (getClientChannelName pre room clientID) msg

/-! ### Splitting -/

theorem toList_getClientChannelName (pre room clientID : String) :
    (getClientChannelName pre room clientID).toList =
      (pre ++ ":room:" ++ room ++ ":client").toList ++ ':' :: clientID.toList := by
  simp [getClientChannelName, String.toList_append]

theorem lastParam_of_append {channel z : String} {x : List Char}
    (h : channel.toList = x ++ ':' :: z.toList) : lastParam channel = lastParam z := by
  unfold lastParam
  rw [h, List.splitOn_append_cons_self, List.getLastD_eq_getLast?, List.getLastD_eq_getLast?,
    List.getLast?_append_of_ne_nil _ (List.splitOn_ne_nil _ _)]

theorem lastParam_eq_self {z : String} (h : ':' ∉ z.toList) : lastParam z = z := by
  unfold lastParam
  rw [List.splitOn_eq_singleton h]
  simp

/-- The last part has no separator. -/
theorem colon_notMem_lastParam (z : String) : ':' ∉ (lastParam z).toList := by
  by_cases hz : ':' ∈ z.toList
  · obtain ⟨as, bs, hrev, has⟩ := List.eq_append_cons_of_mem (List.mem_reverse.mpr hz)
    have hsplit : z.toList = bs.reverse ++ ':' :: as.reverse := by
      have := congrArg List.reverse hrev
      simpa using this
    have htail : ':' ∉ (String.ofList as.reverse).toList := by simpa using has
    rw [lastParam_of_append (z := String.ofList as.reverse) (by simpa using hsplit), lastParam_eq_self htail]
    exact htail
  · rw [lastParam_eq_self hz]
    exact hz

theorem lastParam_eq_self_iff {z : String} : lastParam z = z ↔ ':' ∉ z.toList := by
  refine ⟨fun h => ?_, lastParam_eq_self⟩
  rw [← h]
  exact colon_notMem_lastParam z

theorem lastParam_client (pre room clientID : String) :
    lastParam (getClientChannelName pre room clientID) = lastParam clientID :=
  lastParam_of_append (toList_getClientChannelName pre room clientID)

/-- A room channel is not a client pattern: they end in different characters. -/
theorem roomChannel_ne_clientPattern (pre room room' : String) :
    getRoomChannelName pre room ≠ getClientChannelName pre room' "*" := by
  intro h
  have hl := congrArg (fun s => s.toList.reverse.head?) h
  simp [getRoomChannelName, getClientChannelName, String.toList_append] at hl

/-- A client channel is not the channel of its own room. -/
theorem clientChannel_ne_roomChannel (pre room clientID : String) :
    getClientChannelName pre room clientID ≠ getRoomChannelName pre room := by
  intro h
  have hl := congrArg String.toList h
  simp [getRoomChannelName, getClientChannelName, String.toList_append] at hl

/-! ### What is written -/

section Writes

variable {glob : String → String → Bool} {pre room clientID channel : String} {a : RedisAdapter}
  {msg : Message}

/-- In another channel than that of its room, an adapter writes to the client it reads off the channel. -/
theorem writes_of_ne (h : channel ≠ getRoomChannelName pre a.room) : writes glob pre a channel msg =
    if glob (getClientChannelName pre a.room "*") channel then localEmit a (lastParam channel) else [] := by
  unfold writes patterns
  have h1 : handleMessage pre a (getRoomChannelName pre a.room) channel msg = [] := by
    rw [handleMessage, if_neg h, if_neg (roomChannel_ne_clientPattern _ _ _)]
  have h2 : handleMessage pre a (getClientChannelName pre a.room "*") channel msg =
      localEmit a (lastParam channel) := by
    rw [handleMessage, if_neg h, if_pos rfl]
  rw [List.filter_cons, List.filter_cons, List.filter_nil]
  split_ifs <;> simp [h1, h2]

/-- In the channel of its room it writes to all its clients, if it receives the message. -/
theorem writes_roomChannel (hmsg : msg.type ≠ MessageTypeRoomJoin) :
    writes glob pre a (getRoomChannelName pre a.room) msg = [] ↔
      a.clients = [] ∨ glob (getRoomChannelName pre a.room) (getRoomChannelName pre a.room) = false ∧
        glob (getClientChannelName pre a.room "*") (getRoomChannelName pre a.room) = false := by
  have h : ∀ pattern, handleMessage pre a pattern (getRoomChannelName pre a.room) msg = a.clients := by
    intro pattern
    rw [handleMessage, if_pos rfl, if_neg hmsg, ite_self]
    rfl
  unfold writes patterns
  rw [List.filter_cons, List.filter_cons, List.filter_nil]
  split_ifs with h1 h2 h2 <;> simp [h, h1, h2]

theorem writes_eq_nil_of_not_received
    (h1 : glob (getRoomChannelName pre a.room) channel = false)
    (h2 : glob (getClientChannelName pre a.room "*") channel = false) : writes glob pre a channel msg = [] := by
  simp [writes, patterns, h1, h2]

theorem writes_eq_nil_of_no_clients (h : a.clients = []) : writes glob pre a channel msg = [] := by
  have hm : ∀ pattern, handleMessage pre a pattern channel msg = [] := by
    intro pattern
    unfold handleMessage localBroadcast localEmit
    simp [h]
  simp [writes, hm]

end Writes

/-! ### Exact addressing -/

/-- The condition on the names for one adapter.  In the room of the client: the client is found by its id if
it is there, and no other client is found if it is not.  In another room: the channel is not that of the
room, and the adapter has no client of the id that is found, unless it does not receive the message. -/
def Addressed (glob : String → String → Bool) (pre room clientID : String) (a : RedisAdapter) : Prop :=
  let channel := getClientChannelName pre room clientID
  let received := glob (getClientChannelName pre a.room "*") channel
  if a.room = room then
    (clientID ∈ a.clients → ':' ∉ clientID.toList ∧ received = true) ∧
      (clientID ∉ a.clients → lastParam clientID ∈ a.clients → received = false)
  else if channel = getRoomChannelName pre a.room then
    a.clients = [] ∨ glob (getRoomChannelName pre a.room) channel = false ∧ received = false
  else lastParam clientID ∈ a.clients → received = false

section Exact

variable {glob : String → String → Bool} {pre room clientID : String} {a : RedisAdapter}

theorem emit_own_room (hroom : a.room = room) (msg : Message) :
    (emit glob pre room clientID a msg = if clientID ∈ a.clients then [clientID] else []) ↔
      Addressed glob pre room clientID a := by
  subst hroom
  simp only [emit, Addressed, if_true,
    writes_of_ne (clientChannel_ne_roomChannel pre a.room clientID), lastParam_client, localEmit]
  by_cases hmem : clientID ∈ a.clients
  · cases glob (getClientChannelName pre a.room "*") (getClientChannelName pre a.room clientID) with
    | false => simp [hmem]
    | true =>
      rw [if_pos rfl, if_pos hmem]
      constructor
      · intro h
        split_ifs at h
        exact ⟨fun _ => ⟨lastParam_eq_self_iff.mp (List.cons.inj h).1, rfl⟩, fun hn => absurd hmem hn⟩
      · intro h
        rw [lastParam_eq_self (h.1 hmem).1, if_pos hmem]
  · cases glob (getClientChannelName pre a.room "*") (getClientChannelName pre a.room clientID) with
    | false => simp [hmem]
    | true => simp [hmem]

theorem emit_other_room (hroom : a.room ≠ room) :
    (∀ msg, emit glob pre room clientID a msg = []) ↔ Addressed glob pre room clientID a := by
  simp only [Addressed, if_neg hroom]
  by_cases hch : getClientChannelName pre room clientID = getRoomChannelName pre a.room
  · rw [if_pos hch]
    constructor
    · intro h
      have hw := h ⟨"", false⟩
      rw [emit, hch, writes_roomChannel (by decide)] at hw
      rw [hch]
      exact hw
    · rintro (h | ⟨h1, h2⟩) msg
      · exact writes_eq_nil_of_no_clients h
      · exact writes_eq_nil_of_not_received h1 h2
  · rw [if_neg hch]
    simp only [emit, writes_of_ne hch, lastParam_client, localEmit]
    constructor
    · intro h hmem
      have hw := h ⟨"", false⟩
      rw [if_pos hmem] at hw
      split_ifs at hw with hg
      simpa using hg
    · intro h msg
      split_ifs with hg hmem
      · rw [h hmem] at hg
        cases hg
      · rfl
      · rfl

/-- **Exact addressing**: for any adapters, a message emitted to a client of a room is written to that client
in the adapters of the room that have it, and nowhere else, if and only if the names meet `Addressed`. -/
theorem emit_exact_iff (glob : String → String → Bool) (pre room clientID : String)
    (adapters : List RedisAdapter) :
    (∀ a ∈ adapters, ∀ msg, emit glob pre room clientID a msg =
      if a.room = room ∧ clientID ∈ a.clients then [clientID] else []) ↔
    ∀ a ∈ adapters, Addressed glob pre room clientID a := by
  refine forall_congr' fun a => forall_congr' fun _ => ?_
  by_cases hroom : a.room = room
  · simp only [hroom, true_and]
    exact ⟨fun h => (emit_own_room hroom ⟨"", false⟩).mp (h _), fun h msg => (emit_own_room hroom msg).mpr h⟩
  · simp only [hroom, false_and, if_false]
    exact emit_other_room hroom

end Exact

/-! ### Plain names -/

/-- No character that is special in a glob pattern. -/
def Plain (s : String) : Prop := ∀ c ∈ s.toList, c ∉ ['*', '?', '[', '\\']

instance : DecidablePred Plain := fun s => List.decidableBAll (fun c => c ∉ ['*', '?', '[', '\\']) s.toList

/-- Without special characters, a pattern that ends in a star matches what starts with the rest of it. -/
def StarMatchesPrefix (glob : String → String → Bool) : Prop :=
  ∀ p s : String, Plain p → (glob (p ++ "*") s = true ↔ p.toList <+: s.toList)

theorem plain_append {s t : String} (hs : Plain s) (ht : Plain t) : Plain (s ++ t) := by
  intro c hc
  rw [String.toList_append, List.mem_append] at hc
  exact hc.elim (hs c) (ht c)

section Plain

variable {glob : String → String → Bool} {pre room clientID : String} {a : RedisAdapter}

/-- The client pattern of a plain room matches the client channels of that room only. -/
theorem received_iff (hglob : StarMatchesPrefix glob) (hpre : Plain pre) (ha : Plain a.room)
    (hcolon : ':' ∉ a.room.toList) (hroom : ':' ∉ room.toList) (clientID : String) :
    glob (getClientChannelName pre a.room "*") (getClientChannelName pre room clientID) = true ↔
      a.room = room := by
  have hplain : Plain (pre ++ ":room:" ++ a.room ++ ":client:") :=
    plain_append (plain_append (plain_append hpre (by decide)) ha) (by decide)
  rw [getClientChannelName, hglob _ _ hplain]
  constructor
  · rintro ⟨rest, hrest⟩
    have hl : a.room.toList ++ ':' :: ("client:".toList ++ rest) =
        room.toList ++ ':' :: ("client:".toList ++ clientID.toList) := by
      simpa [getClientChannelName, String.toList_append] using hrest
    exact String.toList_injective (append_cons_inj_left hcolon hroom hl).1
  · rintro rfl
    exact ⟨clientID.toList, by simp [getClientChannelName, String.toList_append]⟩

/-- **Plain names are addressed exactly**: ids and rooms without `:`, and no special characters in the rooms
and the prefix. -/
theorem addressed_of_plain (hglob : StarMatchesPrefix glob) (hpre : Plain pre) (ha : Plain a.room)
    (hcolon : ':' ∉ a.room.toList) (hroom : ':' ∉ room.toList) (hid : ':' ∉ clientID.toList) :
    Addressed glob pre room clientID a := by
  have hrec := received_iff hglob hpre ha hcolon hroom clientID
  simp only [Addressed, lastParam_eq_self hid]
  split_ifs with h1 h2
  · exact ⟨fun _ => ⟨hid, hrec.mpr h1⟩, fun hn hm => absurd hm hn⟩
  · have hl : room.toList ++ ':' :: ("client:".toList ++ clientID.toList) =
        a.room.toList ++ ':' :: "broadcast".toList := by
      have := congrArg String.toList h2
      simpa [getClientChannelName, getRoomChannelName, String.toList_append] using this
    exact absurd (String.toList_injective (append_cons_inj_left hroom hcolon hl).1).symm h1
  · exact fun _ => Bool.eq_false_iff.mpr fun hg => h1 (hrec.mp hg)

end Plain

/-! ### Names with separators -/

/-- Glob matching of patterns that have no special character but a star at the end. -/
def literalGlob (pattern channel : String) : Bool :=
  match pattern.toList.reverse with
  | '*' :: literal => literal.reverse.isPrefixOf channel.toList
  | _ => pattern = channel

theorem literalGlob_star : StarMatchesPrefix literalGlob := by
  intro p s _
  have hrev : (p ++ "*").toList.reverse = '*' :: p.toList.reverse := by simp [String.toList_append]
  unfold literalGlob
  rw [hrev]
  simp only [List.reverse_reverse, List.isPrefixOf_iff_prefix]

/-- A client id with a separator: the message goes to another client of the room. -/
theorem emit_wrong_client : ¬ ∀ a ∈ [RedisAdapter.mk "room" ["alice:1", "1"]], ∀ msg,
    emit literalGlob "peercalls" "room" "alice:1" a msg =
      if a.room = "room" ∧ "alice:1" ∈ a.clients then ["alice:1"] else [] := by
  intro h
  have hw := h ⟨"room", ["alice:1", "1"]⟩ (List.mem_singleton_self _) ⟨"signal", true⟩
  revert hw
  decide

-- A room name with a separator: the message goes to all clients of another room.
example : emit literalGlob "peercalls" "room" "x:broadcast" ⟨"room:client:x", ["eve", "mallory"]⟩
    ⟨"signal", true⟩ = ["eve", "mallory"] := by
  decide

end Meeting.Redis.Channels
