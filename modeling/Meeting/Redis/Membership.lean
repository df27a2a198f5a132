import Meeting.Lib.Lists
import Meeting.Lib.Runs

/-!
# Meeting.Redis.Membership — the clients of a room in Redis (`redisadapter.go`)

Several `RedisAdapter` instances serve one room.  They share a hash, `roomClients`, of the metadata of the
room's clients, and a channel: every instance receives what is published after it subscribed, in order, and
handles it at its own pace (`cursor`).  Redis commands succeed; writes to client sockets may fail.

`clientsMu` of an instance is held while it adds or removes a client or handles a message.  A step of the
model is one such section, except that `remove` uses Redis twice: it deletes the client and publishes the leave
message in two steps, between which the instance does nothing else (`removing`).

* `nickname_kept`: along the runs in which no instance handles a join after newer metadata was set
  (`JoinsInTime`), the hash has the metadata that was set last;
* `nickname_lost`: a late join brings the old metadata back.
-/

namespace Meeting.Redis

open Lib

/-! ### State -/

/-- What is published in the room channel. -/
inductive RoomMessage where
  /-- `NewMessageRoomJoin`, with the metadata of the client as it is when it is added. -/
  | roomJoin (clientID metadata : String)
  | roomLeave (clientID : String)
  deriving DecidableEq, Repr

structure RedisAdapter where
  /-- The local clients. -/
  clients : List String
  /-- How many of the published messages it has handled, or missed before it subscribed. -/
  cursor : ℕ
  /-- The client that `remove` has deleted, but whose leave message it has not published. -/
  removing : Option String
  deriving DecidableEq, Repr

/-- Redis and the adapters of one room, and what was asked of them. -/
structure Room where
  roomClients : AList fun _ : String => String
  published : List RoomMessage
  adapters : AList fun _ : ℕ => RedisAdapter
  /-- The clients that were added, and those that were removed. -/
  added : List String
  removed : List String
  /-- The last metadata set of each client. -/
  lastSet : AList fun _ : String => String

def Room.empty : Room := ⟨∅, [], ∅, [], [], ∅⟩

/-! ### Operations -/

/-- `Metadata`. -/
def Room.metadata (r : Room) (clientID : String) : Option String := r.roomClients.lookup clientID

/-- The message an adapter handles next. -/
def Room.next (r : Room) (a : RedisAdapter) : Option RoomMessage := r.published[a.cursor]?

/-- `localBroadcast` returns an error when a write to a local client fails. -/
def localBroadcast (a : RedisAdapter) (failing : List String) : Bool :=
  a.clients.all fun clientID => clientID ∉ failing

/-- `handleMessage`, of the room channel. -/
def handleMessage (r : Room) (a : RedisAdapter) (failing : List String) :
    RoomMessage → AList fun _ : String => String
  | .roomJoin clientID metadata => r.roomClients.insert clientID metadata
  | .roomLeave clientID =>
    if localBroadcast a failing then r.roomClients.erase clientID else r.roomClients

inductive Action where
  /-- `NewRedisAdapter`: instance `i` subscribes. -/
  | subscribe (i : ℕ)
  /-- `Add` of a new client. -/
  | add (i : ℕ) (clientID metadata : String)
  /-- `SetMetadata`, of any instance. -/
  | setMetadata (clientID metadata : String)
  /-- `Remove` of a local client, up to its deletion from the hash. -/
  | remove (i : ℕ) (clientID : String)
  /-- The rest of `Remove`: the leave message is published. -/
  | publishLeave (i : ℕ)
  /-- Instance `i` handles its next message; writes to the clients `failing` fail. -/
  | handle (i : ℕ) (failing : List String)
  deriving DecidableEq, Repr

def step (r : Room) : Action → Option Room
  | .subscribe i =>
    match r.adapters.lookup i with
    | some _ => none
    | none => some { r with adapters := r.adapters.insert i ⟨[], r.published.length, none⟩ }
  | .add i clientID metadata =>
    match r.adapters.lookup i with
    | none => none
    | some a =>
      if a.removing = none ∧ clientID ∉ r.added then
        some { r with
          published := r.published ++ [.roomJoin clientID metadata]
          adapters := r.adapters.insert i { a with clients := clientID :: a.clients }
          added := clientID :: r.added }
      else none
  | .setMetadata clientID metadata =>
    some { r with
      roomClients := r.roomClients.insert clientID metadata
      lastSet := r.lastSet.insert clientID metadata }
  | .remove i clientID =>
    match r.adapters.lookup i with
    | none => none
    | some a =>
      if a.removing = none ∧ clientID ∈ a.clients then
        some { r with
          roomClients := r.roomClients.erase clientID
          adapters := r.adapters.insert i
            { a with clients := a.clients.erase clientID, removing := some clientID }
          removed := clientID :: r.removed }
      else none
  | .publishLeave i =>
    match r.adapters.lookup i with
    | none => none
    | some a =>
      match a.removing with
      | none => none
      | some clientID =>
        some { r with
          published := r.published ++ [.roomLeave clientID]
          adapters := r.adapters.insert i { a with removing := none } }
  | .handle i failing =>
    match r.adapters.lookup i with
    | none => none
    | some a =>
      match r.next a with
      | none => none
      | some message =>
        if a.removing = none then
          some { r with
            roomClients := handleMessage r a failing message
            adapters := r.adapters.insert i { a with cursor := a.cursor + 1 } }
        else none

/-- No published message is left unhandled. -/
def AllHandled (r : Room) : Prop := ∀ x ∈ r.adapters.entries, x.2.cursor = r.published.length

instance (r : Room) : Decidable (AllHandled r) := inferInstanceAs (Decidable (∀ _ ∈ _, _))

/-- What a step can do. -/
inductive Stepped (r : Room) : Action → Room → Prop
  | subscribe {i : ℕ} : r.adapters.lookup i = none →
      Stepped r (.subscribe i) { r with adapters := r.adapters.insert i ⟨[], r.published.length, none⟩ }
  | add {i : ℕ} {c m : String} {a : RedisAdapter} : r.adapters.lookup i = some a → a.removing = none →
      c ∉ r.added → Stepped r (.add i c m)
        { r with
          published := r.published ++ [.roomJoin c m]
          adapters := r.adapters.insert i { a with clients := c :: a.clients }
          added := c :: r.added }
  | setMetadata {c m : String} : Stepped r (.setMetadata c m)
      { r with roomClients := r.roomClients.insert c m, lastSet := r.lastSet.insert c m }
  | remove {i : ℕ} {c : String} {a : RedisAdapter} : r.adapters.lookup i = some a → a.removing = none →
      c ∈ a.clients → Stepped r (.remove i c)
        { r with
          roomClients := r.roomClients.erase c
          adapters := r.adapters.insert i { a with clients := a.clients.erase c, removing := some c }
          removed := c :: r.removed }
  | publishLeave {i : ℕ} {c : String} {a : RedisAdapter} : r.adapters.lookup i = some a →
      a.removing = some c → Stepped r (.publishLeave i)
        { r with
          published := r.published ++ [.roomLeave c]
          adapters := r.adapters.insert i { a with removing := none } }
  | handle {i : ℕ} {failing : List String} {a : RedisAdapter} {message : RoomMessage} :
      r.adapters.lookup i = some a → r.next a = some message → a.removing = none →
        Stepped r (.handle i failing)
          { r with
            roomClients := handleMessage r a failing message
            adapters := r.adapters.insert i { a with cursor := a.cursor + 1 } }

theorem stepped_of_step {r r' : Room} {x : Action} (hs : step r x = some r') : Stepped r x r' := by
  cases x with
  | setMetadata c m =>
    obtain rfl := Option.some.inj hs
    exact .setMetadata
  | subscribe i =>
    simp only [step] at hs
    cases ha : r.adapters.lookup i with
    | some a => simp [ha] at hs
    | none =>
      rw [ha] at hs
      obtain rfl := Option.some.inj hs
      exact .subscribe ha
  | add i c m =>
    simp only [step] at hs
    cases ha : r.adapters.lookup i with
    | none => simp [ha] at hs
    | some a =>
      simp only [ha] at hs
      split_ifs at hs with h
      obtain rfl := Option.some.inj hs
      exact .add ha h.1 h.2
  | remove i c =>
    simp only [step] at hs
    cases ha : r.adapters.lookup i with
    | none => simp [ha] at hs
    | some a =>
      simp only [ha] at hs
      split_ifs at hs with h
      obtain rfl := Option.some.inj hs
      exact .remove ha h.1 h.2
  | publishLeave i =>
    simp only [step] at hs
    cases ha : r.adapters.lookup i with
    | none => simp [ha] at hs
    | some a =>
      cases hc : a.removing with
      | none => simp [ha, hc] at hs
      | some c =>
        simp only [ha, hc] at hs
        obtain rfl := Option.some.inj hs
        exact .publishLeave ha hc
  | handle i failing =>
    simp only [step] at hs
    cases ha : r.adapters.lookup i with
    | none => simp [ha] at hs
    | some a =>
      cases hm : r.next a with
      | none => simp [ha, hm] at hs
      | some message =>
        simp only [ha, hm] at hs
        split_ifs at hs with h
        obtain rfl := Option.some.inj hs
        exact .handle ha hm h

/-! ### Leave messages -/

/-- Leave messages are of clients that were removed. -/
structure LeavesRemoved (r : Room) : Prop where
  published : ∀ c, .roomLeave c ∈ r.published → c ∈ r.removed
  removing : ∀ i a c, r.adapters.lookup i = some a → a.removing = some c → c ∈ r.removed

theorem leavesRemoved_empty : LeavesRemoved Room.empty := by
  refine ⟨?_, ?_⟩
  · intro c h
    cases h
  · intro i a c h
    cases h

theorem LeavesRemoved.step {r r' : Room} {x : Action} (h : LeavesRemoved r) (hs : Stepped r x r') :
    LeavesRemoved r' := by
  cases hs with
  | subscribe =>
    refine ⟨h.published, fun j b c hl hb => ?_⟩
    rcases lookup_insert_cases hl with ⟨-, rfl⟩ | ⟨-, hl⟩
    · cases hb
    · exact h.removing j b c hl hb
  | add ha hfree =>
    refine ⟨fun c' hc' => h.published c' (by simpa using hc'), fun j b c hl hb => ?_⟩
    rcases lookup_insert_cases hl with ⟨-, rfl⟩ | ⟨-, hl⟩
    · exact h.removing _ _ c ha hb
    · exact h.removing j b c hl hb
  | setMetadata => exact ⟨h.published, h.removing⟩
  | remove ha =>
    refine ⟨fun c' hc' => List.mem_cons_of_mem _ (h.published c' hc'), fun j b c hl hb => ?_⟩
    rcases lookup_insert_cases hl with ⟨-, rfl⟩ | ⟨-, hl⟩
    · exact Option.some.inj hb ▸ List.mem_cons_self
    · exact List.mem_cons_of_mem _ (h.removing j b c hl hb)
  | publishLeave ha hc =>
    refine ⟨fun c' hc' => ?_, fun j b c hl hb => ?_⟩
    · rcases List.mem_append.mp hc' with hc' | hc'
      · exact h.published c' hc'
      · rw [RoomMessage.roomLeave.inj (List.mem_singleton.mp hc')]
        exact h.removing _ _ _ ha hc
    · rcases lookup_insert_cases hl with ⟨-, rfl⟩ | ⟨-, hl⟩
      · cases hb
      · exact h.removing j b c hl hb
  | handle ha =>
    refine ⟨h.published, fun j b c hl hb => ?_⟩
    rcases lookup_insert_cases hl with ⟨-, rfl⟩ | ⟨-, hl⟩
    · exact h.removing _ _ c ha hb
    · exact h.removing j b c hl hb

/-! ### Metadata -/

/-- A message is not a join that carries other metadata than was set in the meantime. -/
def InTime (lastSet : AList fun _ : String => String) : Option RoomMessage → Prop
  | some (.roomJoin c m) => lastSet.lookup c = none ∨ lastSet.lookup c = some m
  | _ => True

/-- No instance handles the join of a client after other metadata was set than the join carries. -/
def JoinsInTime (r : Room) : Action → Prop
  | .handle i _ => InTime r.lastSet ((r.adapters.lookup i).bind r.next)
  | _ => True

instance {lastSet : AList fun _ : String => String} : DecidablePred (InTime lastSet)
  | some (.roomJoin c m) =>
    inferInstanceAs (Decidable (lastSet.lookup c = none ∨ lastSet.lookup c = some m))
  | some (.roomLeave _) | none => isTrue trivial

instance : DecidableRel JoinsInTime
  | r, .handle i _ => inferInstanceAs (Decidable (InTime r.lastSet ((r.adapters.lookup i).bind r.next)))
  | _, .subscribe _ | _, .add _ _ _ | _, .setMetadata _ _ | _, .remove _ _ | _, .publishLeave _ =>
    isTrue trivial

/-- The hash has what was set last, of the clients that were not removed. -/
structure Keeps (r : Room) : Prop extends LeavesRemoved r where
  kept : ∀ c v, r.lastSet.lookup c = some v → c ∉ r.removed → r.roomClients.lookup c = some v

theorem keeps_empty : Keeps Room.empty := by
  refine ⟨leavesRemoved_empty, ?_⟩
  intro c v h
  cases h

/-- **Step lemma.** -/
theorem Keeps.step {r r' : Room} {x : Action} (h : Keeps r) (hok : JoinsInTime r x)
    (hs : Stepped r x r') : Keeps r' := by
  refine ⟨h.toLeavesRemoved.step hs, ?_⟩
  cases hs with
  | subscribe => exact h.kept
  | add => exact h.kept
  | publishLeave => exact h.kept
  | @setMetadata c₀ m =>
    intro c v hv hr
    by_cases hc : c = c₀
    · subst hc
      rw [AList.lookup_insert] at hv ⊢
      exact hv
    · rw [AList.lookup_insert_ne hc] at hv ⊢
      exact h.kept c v hv hr
  | @remove i c₀ =>
    intro c v hv hr
    rw [List.mem_cons, not_or] at hr
    rw [AList.lookup_erase_ne hr.1]
    exact h.kept c v hv hr.2
  | @handle i failing a message ha hm =>
    intro c v hv hr
    have hkept := h.kept c v hv hr
    cases message with
    | roomJoin c₀ m =>
      simp only [handleMessage]
      by_cases hc : c = c₀
      · subst hc
        simp only [JoinsInTime, ha, Option.bind_some, hm, InTime] at hok
        have hvm : v = m := by
          rcases hok with hnone | hsome
          · rw [hnone] at hv
            cases hv
          · exact Option.some.inj (hv.symm.trans hsome)
        rw [AList.lookup_insert, hvm]
      · rw [AList.lookup_insert_ne hc]
        exact hkept
    | roomLeave c₀ =>
      -- the leave message of a client that is still there was never published
      have hc : c ≠ c₀ := by
        rintro rfl
        exact hr (h.published c (List.mem_of_getElem? hm))
      simp only [handleMessage]
      split_ifs
      · rw [AList.lookup_erase_ne hc]
        exact hkept
      · exact hkept

/-- **No lost nickname**: along every run in which joins are handled in time, `Metadata` of a client that was
not removed is what was set last. -/
theorem nickname_kept {r : Room} (h : Reach step JoinsInTime Room.empty r) {c v : String}
    (hset : r.lastSet.lookup c = some v) (hr : c ∉ r.removed) : r.metadata c = some v := by
  have hK := Reach.invariant (I := Keeps) keeps_empty
    (fun _ _ _ hI hok hs => hI.step hok (stepped_of_step hs)) h
  exact hK.kept c v hset hr

/-- Two instances that have both handled the join before the nickname is set. -/
theorem nickname_kept_example : ∃ r, exec (guarded step JoinsInTime) Room.empty
    [.subscribe 0, .subscribe 1, .add 0 "c" "", .handle 0 [], .handle 1 [], .setMetadata "c" "bob",
      .add 1 "d" "", .handle 0 ["c"], .handle 1 [], .remove 1 "d", .publishLeave 1, .handle 0 ["c"],
      .handle 1 []] = some r ∧
    (AllHandled r ∧ r.lastSet.lookup "c" = some "bob" ∧ "c" ∈ r.added ∧ "c" ∉ r.removed) ∧
    r.metadata "c" = some "bob" :=
  exists_exec (by decide) fun _ hs hq => nickname_kept hs hq.2.1 hq.2.2.2

/-- The nickname is set before the only instance handles the join, which brings the old one back. -/
theorem nickname_lost : ∃ r, exec (guarded step anyStep) Room.empty
    [.subscribe 0, .add 0 "c" "", .setMetadata "c" "bob", .handle 0 []] = some r ∧
    (AllHandled r ∧ r.lastSet.lookup "c" = some "bob" ∧ "c" ∈ r.added ∧ "c" ∉ r.removed ∧
      r.metadata "c" ≠ some "bob") ∧ Reach step anyStep Room.empty r :=
  exists_exec (by decide) fun _ hs _ => hs

end Meeting.Redis
