import Meeting.Lib.Lists
import Meeting.Lib.Runs
import Meeting.Redis.Channels

/-!
# Meeting.Redis.Order — the order in which clients of a Redis room get messages (`redisadapter.go`)

The adapters of a room publish broadcasts and messages to single clients in Redis, which puts them in one order;
every adapter has one subscription for both and handles what was published after it subscribed, in this order, one
message at a time.  `Add`, `Remove`, `removeAll` and `handleMessage` run under `clientsMu`.  The client that a message
is for is read off the end of its channel (`lastParam`), so that `emit` also stands for what is published in a channel
that merely looks like one of the room; that the room's own channel matches itself as a pattern is taken for granted
(`Meeting.Redis.Channels` says when it does).

Commands and writes can fail, and the subscription can be cut.  A client then misses messages, which are counted.

* `messages_in_order`: what is written to a client is the stretch of what was published that its adapter handles while
  it has the client, without what is for others and but for the messages missed; it starts before its own join.
-/

namespace Meeting.Redis.Order

open Lib
open Channels (lastParam)

variable {μ : Type*}

/-! ### State -/

/-- What is published in the channels of a room. -/
inductive Message (μ : Type*) where
  | roomJoin (clientID : String)
  | roomLeave (clientID : String)
  | broadcast (message : μ)
  | emit (clientID : String) (message : μ)
  deriving DecidableEq, Repr

structure Adapter where
  /-- How many of the published messages it has handled, or missed before it subscribed. -/
  cursor : ℕ
  stopped : Bool
  deriving DecidableEq, Repr

/-- A client that was added to an adapter. -/
structure Member (μ : Type*) where
  clientID : String
  adapter : ℕ
  /-- The cursor of the adapter when the client was added, and when it was removed. -/
  first : ℕ
  last : Option ℕ
  /-- Where its join was published. -/
  join : ℕ
  written : List (Message μ)
  /-- How many messages were for it and not written. -/
  missed : ℕ
  deriving DecidableEq, Repr

structure Room (μ : Type*) where
  published : List (Message μ)
  adapters : List Adapter
  members : List (Member μ)
  deriving DecidableEq, Repr

def Room.new : Room μ := ⟨[], [], []⟩

/-! ### Steps -/

/-- The message is to be written to the client: `Emit` publishes it in a channel that ends in `c`. -/
def Message.isFor (clientID : String) : Message μ → Bool
  | .emit c _ => lastParam c = clientID
  | _ => true

def Message.isJoin : Message μ → Bool
  | .roomJoin _ => true
  | _ => false

/-- The client is in the `clients` of adapter `i`. -/
def Member.In (x : Member μ) (i : ℕ) : Prop := x.adapter = i ∧ x.last = none

instance (x : Member μ) (i : ℕ) : Decidable (x.In i) := inferInstanceAs (Decidable (x.adapter = i ∧ x.last = none))

/-- Clients leave `clients` of adapter `i`, whose cursor is `cursor`. -/
def depart (i cursor : ℕ) (who : String → Bool) (members : List (Member μ)) : List (Member μ) :=
  members.map fun x => if x.In i ∧ who x.clientID then { x with last := some cursor } else x

/-- `localBroadcast` and `localEmit`: a write that fails does not keep the others from theirs. -/
def write (i : ℕ) (m : Message μ) (fails : String → Bool) (members : List (Member μ)) : List (Member μ) :=
  members.map fun x =>
    if x.In i ∧ m.isFor x.clientID then
      if fails x.clientID then { x with missed := x.missed + 1 } else { x with written := x.written ++ [m] }
    else x

/-- Whose writes fail in `handleMessage`: of a join all, for it is not broadcast, if `HSet` fails. -/
def handleFails (m : Message μ) (hset : Bool) (failing : List String) (clientID : String) : Bool :=
  m.isJoin && !hset || failing.contains clientID

/-- The leave that `remove` broadcasts, if Redis takes it. -/
def leave (clientID : String) (published : Bool) : List (Message μ) := if published then [.roomLeave clientID] else []

inductive Action (μ : Type*) where
  /-- `NewRedisAdapter`, until the subscription is ready. -/
  | subscribe
  | add (i : ℕ) (clientID : String)
  /-- `Add` returns an error, but Redis has published the join. -/
  | addFails (i : ℕ) (clientID : String)
  /-- `remove`, whether the leave is published or not. -/
  | remove (i : ℕ) (clientID : String) (published : Bool)
  /-- `Broadcast` of a message, by whatever adapter. -/
  | broadcast (message : μ)
  | emit (clientID : String) (message : μ)
  /-- `handleMessage`: `HSet` succeeds or not, and the writes to the clients `failing` fail. -/
  | handle (i : ℕ) (hset : Bool) (failing : List String)
  /-- The next message does not come through the subscription. -/
  | cut (i : ℕ)
  /-- `stop`, at the start of `Close`; what `removeAll` does then are `remove`s. -/
  | stop (i : ℕ)
  deriving DecidableEq, Repr

/-- Adapter `i` gets to the next message, and the writes to some clients fail. -/
def receive (r : Room μ) (i : ℕ) (fails : Message μ → String → Bool) : Option (Room μ) :=
  match r.adapters[i]? with
  | none => none
  | some a =>
    match r.published[a.cursor]? with
    | none => none
    | some m =>
      if a.stopped then none
      else some { r with
        adapters := r.adapters.set i { a with cursor := a.cursor + 1 }
        members := write i m (fails m) r.members }

def step (r : Room μ) : Action μ → Option (Room μ)
  | .subscribe => some { r with adapters := r.adapters ++ [⟨r.published.length, false⟩] }
  | .add i c =>
    match r.adapters[i]? with
    | none => none
    | some a =>
      some { r with
        published := r.published ++ [.roomJoin c]
        -- a client of the same id is replaced
        members := depart i a.cursor (· = c) r.members ++ [⟨c, i, a.cursor, none, r.published.length, [], 0⟩] }
  | .addFails _ c => some { r with published := r.published ++ [.roomJoin c] }
  | .remove i c published =>
    match r.adapters[i]? with
    | none => none
    | some a =>
      if ∃ x ∈ r.members, x.In i ∧ x.clientID = c then
        some { r with
          published := r.published ++ leave c published
          members := depart i a.cursor (· = c) r.members }
      else some r
  | .broadcast m => some { r with published := r.published ++ [.broadcast m] }
  | .emit c m => some { r with published := r.published ++ [.emit c m] }
  | .handle i hset failing => receive r i fun m => handleFails m hset failing
  | .cut i => receive r i fun _ _ => true
  | .stop i =>
    match r.adapters[i]? with
    | none => none
    | some a => some { r with adapters := r.adapters.set i { a with stopped := true } }

/-! ### Stretches of what was published -/

def stretch (l : List (Message μ)) (first last : ℕ) : List (Message μ) := (l.take last).drop first

section Stretch

variable {l l' : List (Message μ)} {first last : ℕ} {m : Message μ}

theorem stretch_self : stretch l first first = [] :=
  List.drop_eq_nil_of_le (by rw [List.length_take]; omega)

theorem stretch_append (h : last ≤ l.length) : stretch (l ++ l') first last = stretch l first last := by
  rw [stretch, List.take_append_of_le_length h, stretch]

theorem stretch_succ (hf : first ≤ last) (hm : l[last]? = some m) :
    stretch l first (last + 1) = stretch l first last ++ [m] := by
  obtain ⟨hlt, -⟩ := List.getElem?_eq_some_iff.mp hm
  rw [stretch, List.take_add_one, hm, Option.toList_some, List.drop_append_of_le_length, stretch]
  rw [List.length_take]
  omega

/-- What there is for a client grows by the message if it is for the client. -/
theorem filter_stretch_succ (c : String) (hf : first ≤ last) (hm : l[last]? = some m) :
    (stretch l first (last + 1)).filter (Message.isFor c) =
      (stretch l first last).filter (Message.isFor c) ++ if m.isFor c then [m] else [] := by
  rw [stretch_succ hf hm, List.filter_append]
  by_cases hfor : m.isFor c
  · simp [hfor]
  · simp [hfor]

end Stretch

/-- All of `due` was written but for `missed` messages. -/
structure AllBut (missed : ℕ) (due written : List (Message μ)) : Prop where
  sublist : written.Sublist due
  length : written.length + missed = due.length

section AllBut

variable {missed : ℕ} {due written : List (Message μ)}

theorem AllBut.write (h : AllBut missed due written) (m : Message μ) : AllBut missed (due ++ [m]) (written ++ [m]) := by
  refine ⟨h.sublist.append (List.Sublist.refl _), ?_⟩
  rw [List.length_append, List.length_append, ← h.length]
  omega

theorem AllBut.miss (h : AllBut missed due written) (m : Message μ) : AllBut (missed + 1) (due ++ [m]) written := by
  refine ⟨h.sublist.trans (List.sublist_append_left _ _), ?_⟩
  rw [List.length_append, List.length_singleton, ← h.length]
  rfl

theorem AllBut.eq (h : AllBut 0 due written) : written = due := h.sublist.eq_of_length h.length

end AllBut

/-- What a client has got is a stretch of what was published, but for what it has missed. -/
structure Member.Fits (r : Room μ) (x : Member μ) : Prop where
  adapter : ∃ a, r.adapters[x.adapter]? = some a ∧ x.first ≤ x.last.getD a.cursor ∧ x.last.getD a.cursor ≤ a.cursor ∧
    AllBut x.missed ((stretch r.published x.first (x.last.getD a.cursor)).filter (Message.isFor x.clientID)) x.written
  join : r.published[x.join]? = some (.roomJoin x.clientID)
  before : x.first ≤ x.join

structure InOrder (r : Room μ) : Prop where
  cursors : ∀ a ∈ r.adapters, a.cursor ≤ r.published.length
  members : ∀ x ∈ r.members, x.Fits r

theorem inOrder_new : InOrder (.new : Room μ) := ⟨fun _ ha => (by cases ha), fun _ hx => by cases hx⟩

section InOrder

variable {r r' : Room μ} {a : Adapter} {x : Member μ} {i : ℕ} {c : String} {m : Message μ} {act : Action μ}

/-- More is published. -/
theorem Member.Fits.publish (h : x.Fits r) (hr : InOrder r) (l : List (Message μ)) :
    x.Fits { r with published := r.published ++ l } := by
  obtain ⟨a, ha, hf, hl, hw⟩ := h.adapter
  have hle := hr.cursors a (List.mem_of_getElem? ha)
  refine ⟨⟨a, ha, hf, hl, ?_⟩, getElem?_append_of_some h.join, h.before⟩
  rwa [stretch_append (by omega)]

/-- A client leaves an adapter. -/
theorem Member.Fits.depart (h : x.Fits r) (ha : r.adapters[i]? = some a) (hx : x.In i) :
    Member.Fits r { x with last := some a.cursor } := by
  obtain ⟨b, hb, hf, hl, hw⟩ := h.adapter
  obtain rfl : a = b := by
    rw [hx.1, ha] at hb
    exact Option.some.inj hb
  rw [hx.2] at hf hl hw
  exact ⟨⟨a, hb, hf, le_refl _, hw⟩, h.join, h.before⟩

theorem fits_depart (h : ∀ x ∈ r.members, x.Fits r) (ha : r.adapters[i]? = some a) {who : String → Bool}
    (hx : x ∈ depart i a.cursor who r.members) : x.Fits r := by
  obtain ⟨y, hy, rfl⟩ := List.mem_map.mp hx
  split_ifs with hin
  · exact (h y hy).depart ha hin.1
  · exact h y hy

/-- An adapter gets to a message: the stretch of a client grows by it if it is for the client, and so does what the client
has got or missed. -/
theorem Member.Fits.receive (h : x.Fits r) (ha : r.adapters[i]? = some a) (hm : r.published[a.cursor]? = some m)
    (fails : String → Bool) (members : List (Member μ)) :
    Member.Fits { r with adapters := r.adapters.set i { a with cursor := a.cursor + 1 }, members := members }
      (if x.In i ∧ m.isFor x.clientID then
        if fails x.clientID then { x with missed := x.missed + 1 } else { x with written := x.written ++ [m] }
      else x) := by
  obtain ⟨b, hb, hf, hl, hw⟩ := h.adapter
  by_cases hi : i = x.adapter
  · subst hi
    obtain rfl : a = b := Option.some.inj (ha.symm.trans hb)
    have ha' := getElem?_set_of_some (a := { a with cursor := a.cursor + 1 }) ha
    cases hlast : x.last with
    | some n =>
      -- the client has left: its stretch is complete
      rw [hlast] at hf hl hw
      rw [if_neg fun hin => by simp [Member.In, hlast] at hin]
      refine ⟨⟨_, ha', ?_, ?_, ?_⟩, h.join, h.before⟩
      · rwa [hlast]
      · rw [hlast]
        exact Nat.le_succ_of_le hl
      · rwa [hlast]
    | none =>
      rw [hlast, Option.getD_none] at hf hw
      have hs := filter_stretch_succ x.clientID hf hm
      by_cases hfor : m.isFor x.clientID
      · rw [if_pos ⟨⟨rfl, hlast⟩, hfor⟩]
        rw [if_pos hfor] at hs
        by_cases hfails : fails x.clientID
        · rw [if_pos hfails]
          exact ⟨⟨_, ha', Nat.le_succ_of_le hf, le_refl _, hs ▸ hw.miss m⟩, h.join, h.before⟩
        · rw [if_neg hfails]
          exact ⟨⟨_, ha', Nat.le_succ_of_le hf, le_refl _, hs ▸ hw.write m⟩, h.join, h.before⟩
      · rw [if_neg fun hc => hfor hc.2]
        rw [if_neg hfor, List.append_nil] at hs
        refine ⟨⟨_, ha', ?_, ?_, ?_⟩, h.join, h.before⟩
        · rw [hlast]
          exact Nat.le_succ_of_le hf
        · rw [hlast]
          exact le_refl _
        · rw [hlast]
          exact hs ▸ hw
  · rw [if_neg fun hin => hi hin.1.1.symm]
    refine ⟨⟨b, ?_, hf, hl, hw⟩, h.join, h.before⟩
    rw [List.getElem?_set_ne hi, hb]

/-- The subscription of an adapter is stopped. -/
theorem Member.Fits.stop (h : x.Fits r) (ha : r.adapters[i]? = some a) :
    Member.Fits { r with adapters := r.adapters.set i { a with stopped := true } } x := by
  obtain ⟨b, hb, hfits⟩ := h.adapter
  by_cases hi : i = x.adapter
  · subst hi
    obtain rfl : a = b := Option.some.inj (ha.symm.trans hb)
    exact ⟨⟨_, getElem?_set_of_some ha, hfits⟩, h.join, h.before⟩
  · refine ⟨⟨b, ?_, hfits⟩, h.join, h.before⟩
    rw [List.getElem?_set_ne hi, hb]

theorem InOrder.publish (h : InOrder r) (l : List (Message μ)) : InOrder { r with published := r.published ++ l } := by
  refine ⟨fun b hb => ?_, fun x hx => (h.members x hx).publish h l⟩
  have := h.cursors b hb
  simp only [List.length_append]
  omega

theorem InOrder.depart (h : InOrder r) (ha : r.adapters[i]? = some a) (who : String → Bool) :
    InOrder { r with members := Order.depart i a.cursor who r.members } := by
  refine ⟨h.cursors, fun x hx => ?_⟩
  obtain ⟨hadapter, hjoin, hbefore⟩ := fits_depart h.members ha hx
  exact ⟨hadapter, hjoin, hbefore⟩

/-- A client is added: its stretch is empty, and its join is published after it. -/
theorem InOrder.add (h : InOrder r) (ha : r.adapters[i]? = some a) (c : String) :
    InOrder { r with
      published := r.published ++ [.roomJoin c]
      members := Order.depart i a.cursor (· = c) r.members ++ [⟨c, i, a.cursor, none, r.published.length, [], 0⟩] } := by
  have h' := (h.depart ha (· = c)).publish [.roomJoin c]
  refine ⟨h'.cursors, fun x hx => ?_⟩
  rcases List.mem_append.mp hx with hx | hx
  · obtain ⟨hadapter, hjoin, hbefore⟩ := h'.members x hx
    exact ⟨hadapter, hjoin, hbefore⟩
  · obtain rfl := List.mem_singleton.mp hx
    refine ⟨⟨a, ha, le_refl _, le_refl _, ?_⟩, List.getElem?_concat_length, h.cursors a (List.mem_of_getElem? ha)⟩
    rw [Option.getD_none, stretch_self, List.filter_nil]
    exact ⟨List.Sublist.refl _, rfl⟩

theorem InOrder.receive (h : InOrder r) {fails : Message μ → String → Bool}
    (hs : Order.receive r i fails = some r') : InOrder r' := by
  unfold Order.receive at hs
  split at hs
  · cases hs
  · next a ha =>
    split at hs
    · cases hs
    · next m hm =>
      split_ifs at hs
      cases hs
      refine ⟨fun b hb => ?_, fun x hx => ?_⟩
      · rcases List.mem_or_eq_of_mem_set hb with hb | rfl
        · exact h.cursors b hb
        · exact (List.getElem?_eq_some_iff.mp hm).1
      · obtain ⟨y, hy, rfl⟩ := List.mem_map.mp hx
        exact (h.members y hy).receive ha hm (fails m) _

theorem InOrder.stop (h : InOrder r) (ha : r.adapters[i]? = some a) :
    InOrder { r with adapters := r.adapters.set i { a with stopped := true } } := by
  refine ⟨fun b hb => ?_, fun x hx => (h.members x hx).stop ha⟩
  rcases List.mem_or_eq_of_mem_set hb with hb | rfl
  · exact h.cursors b hb
  · exact h.cursors a (List.mem_of_getElem? ha)

/-- An adapter subscribes: it will handle what is published from now on. -/
theorem InOrder.subscribe (h : InOrder r) :
    InOrder { r with adapters := r.adapters ++ [⟨r.published.length, false⟩] } := by
  refine ⟨fun b hb => ?_, fun x hx => ?_⟩
  · rcases List.mem_append.mp hb with hb | hb
    · exact h.cursors b hb
    · obtain rfl := List.mem_singleton.mp hb
      exact le_refl _
  · obtain ⟨⟨a, ha, hfits⟩, hjoin, hbefore⟩ := h.members x hx
    exact ⟨⟨a, getElem?_append_of_some ha, hfits⟩, hjoin, hbefore⟩

theorem InOrder.step (h : InOrder r) (hs : Order.step r act = some r') : InOrder r' := by
  cases act with
  | subscribe =>
    cases hs
    exact h.subscribe
  | add i c =>
    simp only [Order.step] at hs
    split at hs
    · cases hs
    · next a ha =>
      cases hs
      exact h.add ha c
  | addFails i c =>
    cases hs
    exact h.publish _
  | remove i c published =>
    simp only [Order.step] at hs
    split at hs
    · cases hs
    · next a ha =>
      split_ifs at hs with hin
      · cases hs
        exact (h.depart ha (· = c)).publish _
      · cases hs
        exact h
  | broadcast m =>
    cases hs
    exact h.publish _
  | emit c m =>
    cases hs
    exact h.publish _
  | handle i hset failing => exact h.receive hs
  | cut i => exact h.receive hs
  | stop i =>
    simp only [Order.step] at hs
    split at hs
    · cases hs
    · next a ha =>
      cases hs
      exact h.stop ha

theorem inOrder_of_reach (h : Reach step anyStep .new r) : InOrder r :=
  h.invariant inOrder_new fun _ _ _ hI _ hs => hI.step hs

end InOrder

/-! ### What a client gets -/

/-- The message is for all clients of the room. -/
def Message.toAll : Message μ → Bool
  | .emit _ _ => false
  | _ => true

/-- What is for all is for every client. -/
theorem Message.filter_toAll_isFor (clientID : String) (l : List (Message μ)) :
    (l.filter (Message.isFor clientID)).filter Message.toAll = l.filter Message.toAll := by
  rw [List.filter_filter]
  refine List.filter_congr fun m _ => ?_
  cases m <;> simp [Message.toAll, Message.isFor]

theorem isInfix_stretch (l : List (Message μ)) (first last : ℕ) : stretch l first last <:+: l := by
  have hdrop : stretch l first last <:+ l.take last := List.drop_suffix _ _
  have htake : l.take last <+: l := List.take_prefix _ _
  exact hdrop.isInfix.trans htake.isInfix

end Meeting.Redis.Order
