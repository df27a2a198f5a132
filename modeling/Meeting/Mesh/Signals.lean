import Meeting.Room.Sockets

/-!
# Meeting.Mesh.Signals — how a signal gets from peer to peer (`mesh.go`, `SocketActions.ts`, `PeerActions.ts`)

The peer of a browser emits its signals with the user id of the other end.  The mesh handler of the connection
reads them one by one and emits each to the client of that id in the adapter of the room, with the client id
of its own connection in place of the target's; the browser there looks up its peer for that id.  Handlers run
side by side, connections are opened, replaced by a second one of the same client id, removed and cut.

* `signals_in_order`: what a browser hands to its peers was emitted to it, on a connection of the same room
  and under the client id of that connection, in the order of emission and at most once;
* `signals_all_handed`: along the runs that lose none of the signals from one connection to another, the
  handed ones and those under way are all that were emitted.
-/

namespace Meeting.Mesh.Signals

open Lib
open Room.Sockets (Server Connection)

variable {σ : Type*}

/-! ### State -/

/-- The `signal` message of a browser. -/
structure Outgoing (σ : Type*) where
  userId : String
  signal : σ
  deriving DecidableEq, Repr

/-- The `signal` message of the server. -/
structure Incoming (σ : Type*) where
  /-- The connection whose handler emitted it, which the message does not say. -/
  origin : ℕ
  userId : String
  signal : σ
  deriving DecidableEq, Repr

structure Net (σ : Type*) where
  server : Server
  /-- The ids in the peers of the browser of a connection. -/
  peers : ℕ → List String
  /-- All that the browser of a connection emitted on it. -/
  emitted : ℕ → List (Outgoing σ)
  toServer : ℕ → List (Outgoing σ)
  toClient : ℕ → List (Incoming σ)
  /-- What the browser of a connection gave to `peer.signal`. -/
  handed : ℕ → List (Incoming σ)

def Net.empty : Net σ := ⟨Server.empty, fun _ => [], fun _ => [], fun _ => [], fun _ => [], fun _ => []⟩

/-! ### Steps -/

inductive Action (σ : Type*) where
  | server (x : Room.Sockets.Action)
  /-- Peers are created and removed. -/
  | setPeers (k : ℕ) (ids : List String)
  /-- `PeerHandler.handleSignal`. -/
  | emit (k : ℕ) (userId : String) (signal : σ)
  /-- The mesh handler of connection `k` handles its next signal; writes to the sockets `failing` fail. -/
  | relay (k : ℕ) (failing : List ℕ)
  /-- `SocketHandler.handleSignal`. -/
  | handleSignal (k : ℕ)
  /-- The connection goes down: of what is under way, only the first `up` and `down` messages arrive. -/
  | cut (k up down : ℕ)
  deriving DecidableEq, Repr

open Function (update)

/-- `case "signal"`: `c` is the connection of the handler. -/
def relay (n : Net σ) (failing : List ℕ) (k : ℕ) (c : Connection) (m : Outgoing σ) : ℕ → List (Incoming σ) :=
  match Room.Sockets.emit n.server failing c.adapter m.userId with
  | .error _ => n.toClient
  | .ok j => update n.toClient j (n.toClient j ++ [⟨k, c.clientID, m.signal⟩])

/-- `handleSignal`: nothing is done for a user without a peer. -/
def handleSignal (peers : List String) (m : Incoming σ) (handed : List (Incoming σ)) : List (Incoming σ) :=
  if m.userId ∈ peers then handed ++ [m] else handed

def step (n : Net σ) : Action σ → Option (Net σ)
  | .server x => (Room.Sockets.step n.server x).map fun server => { n with server }
  | .setPeers k ids => some { n with peers := update n.peers k ids }
  | .emit k userId signal =>
    some { n with
      emitted := update n.emitted k (n.emitted k ++ [⟨userId, signal⟩])
      toServer := update n.toServer k (n.toServer k ++ [⟨userId, signal⟩]) }
  | .relay k failing =>
    match n.server.connections.lookup k, n.toServer k with
    | some c, m :: rest =>
      -- messages are read once `Add` has returned, and the last one may be handled after `Remove`
      if c.phase = .entered ∨ c.phase = .failed then none
      else some { n with toServer := update n.toServer k rest, toClient := relay n failing k c m }
    | _, _ => none
  | .handleSignal k =>
    match n.toClient k with
    | [] => none
    | m :: rest =>
      some { n with
        toClient := update n.toClient k rest
        handed := update n.handed k (handleSignal (n.peers k) m (n.handed k)) }
  | .cut k up down =>
    some { n with
      toServer := update n.toServer k ((n.toServer k).take up)
      toClient := update n.toClient k ((n.toClient k).take down) }

/-- What a step can do. -/
inductive Stepped (n : Net σ) : Action σ → Net σ → Prop
  | server {x : Room.Sockets.Action} {server : Server} : Room.Sockets.Stepped n.server x server →
      Stepped n (.server x) { n with server }
  | setPeers {k : ℕ} {ids : List String} : Stepped n (.setPeers k ids) { n with peers := update n.peers k ids }
  | emit {k : ℕ} {userId : String} {signal : σ} : Stepped n (.emit k userId signal) { n with
      emitted := update n.emitted k (n.emitted k ++ [⟨userId, signal⟩])
      toServer := update n.toServer k (n.toServer k ++ [⟨userId, signal⟩]) }
  | relay {k : ℕ} {failing : List ℕ} {c : Connection} {m : Outgoing σ} {rest : List (Outgoing σ)} :
      n.server.connections.lookup k = some c → n.toServer k = m :: rest → Stepped n (.relay k failing) { n with
        toServer := update n.toServer k rest
        toClient := relay n failing k c m }
  | handleSignal {k : ℕ} {m : Incoming σ} {rest : List (Incoming σ)} : n.toClient k = m :: rest →
      Stepped n (.handleSignal k) { n with
        toClient := update n.toClient k rest
        handed := update n.handed k (handleSignal (n.peers k) m (n.handed k)) }
  | cut {k up down : ℕ} : Stepped n (.cut k up down) { n with
      toServer := update n.toServer k ((n.toServer k).take up)
      toClient := update n.toClient k ((n.toClient k).take down) }

theorem stepped_of_step {n n' : Net σ} {a : Action σ} (hs : step n a = some n') : Stepped n a n' := by
  cases a with
  | server x =>
    obtain ⟨server, hx, rfl⟩ := Option.map_eq_some_iff.mp hs
    exact .server (Room.Sockets.stepped_of_step hx)
  | setPeers k ids =>
    obtain rfl := Option.some.inj hs
    exact .setPeers
  | emit k userId signal =>
    obtain rfl := Option.some.inj hs
    exact .emit
  | relay k failing =>
    simp only [step] at hs
    cases hc : n.server.connections.lookup k with
    | none => simp [hc] at hs
    | some c =>
      cases hm : n.toServer k with
      | nil => simp [hc, hm] at hs
      | cons m rest =>
        simp only [hc, hm] at hs
        split_ifs at hs
        obtain rfl := Option.some.inj hs
        exact .relay hc hm
  | handleSignal k =>
    simp only [step] at hs
    cases hm : n.toClient k with
    | nil => simp [hm] at hs
    | cons m rest =>
      simp only [hm, Option.some.injEq] at hs
      subst hs
      exact .handleSignal hm
  | cut k up down =>
    obtain rfl := Option.some.inj hs
    exact .cut

/-! ### Where the connections are -/

/-- A connection keeps its client id, its room and its adapter. -/
def SameEnd (c d : Connection) : Prop := c.clientID = d.clientID ∧ c.room = d.room ∧ c.adapter = d.adapter

structure Placed (s : Server) : Prop where
  counted : Room.Counted s.manager
  registered : ∀ key k, s.clients.lookup key = some k →
    ∃ c, s.connections.lookup k = some c ∧ (c.adapter, c.clientID) = key
  room : ∀ k c, s.connections.lookup k = some c → s.manager.created[c.adapter]? = some c.room

theorem placed_empty : Placed Server.empty := by
  refine ⟨Room.counted_empty, ?_, ?_⟩
  · intro key k h
    cases h
  · intro k c h
    cases h

section Server

variable {s s' : Server} {x : Room.Sockets.Action} {k : ℕ} {c : Connection}

/-- No adapter changes its room. -/
theorem created_of_step {m m' : Room.Manager} {y : Room.Call} {a : ℕ} {room : String}
    (hs : Room.step m y = some m') (h : m.created[a]? = some room) : m'.created[a]? = some room := by
  have hlt : a < m.created.length := (List.getElem?_eq_some_iff.mp h).1
  cases Room.stepped_of_step hs with
  | create => exact (List.getElem?_append_left hlt).trans h
  | join | absent | close | leave => exact h

/-- `Enter` returns an adapter of the room. -/
theorem created_of_enter {m m' : Room.Manager} {room : String} (h : Room.Counted m)
    (hs : Room.step m (.enter k room) = some m') : m'.created[(Room.enter m room).2]? = some room := by
  have h' := h.step (Room.stepped_of_step hs)
  have hv : ⟨k, room, (Room.enter m room).2⟩ ∈ m'.visits := by
    rw [Room.Sockets.visits_enter hs]
    exact List.mem_cons_self
  obtain ⟨c, hc, ha⟩ := h'.shared _ hv
  have hr := h'.room hc
  rwa [ha] at hr

theorem lookup_step (hs : Room.Sockets.Stepped s x s') (hc : s.connections.lookup k = some c) :
    ∃ d, s'.connections.lookup k = some d ∧ SameEnd d c := by
  have key {j : ℕ} {b : Connection} {phase : Room.Sockets.Phase} (hb : s.connections.lookup j = some b) :
      ∃ d, (s.connections.insert j { b with phase }).lookup k = some d ∧ SameEnd d c := by
    by_cases hk : k = j
    · subst hk
      obtain rfl := Option.some.inj (hc.symm.trans hb)
      exact ⟨_, AList.lookup_insert _, rfl, rfl, rfl⟩
    · exact ⟨c, by rw [AList.lookup_insert_ne hk, hc], rfl, rfl, rfl⟩
  cases hs with
  | @enter j _ _ _ hj hm =>
    have hk : k ≠ j := by
      rintro rfl
      exact hj (AList.lookup_isSome.mp (hc ▸ rfl))
    exact ⟨c, by rw [AList.lookup_insert_ne hk, hc], rfl, rfl, rfl⟩
  | add hb => exact key hb
  | remove hb => exact key hb
  | exit hb => exact key hb

/-- A connection is new or was there before. -/
theorem lookup_of_stepped (hs : Room.Sockets.Stepped s x s') (hc : s'.connections.lookup k = some c) :
    s.connections.lookup k = none ∨ ∃ d, s.connections.lookup k = some d ∧ SameEnd c d := by
  cases hd : s.connections.lookup k with
  | none => exact Or.inl rfl
  | some d =>
    obtain ⟨c', hc', hsame⟩ := lookup_step hs hd
    obtain rfl := Option.some.inj (hc.symm.trans hc')
    exact Or.inr ⟨d, rfl, hsame⟩

theorem Placed.registered_step (h : Placed s) (hs : Room.Sockets.Stepped s x s') {key : ℕ × String}
    (hk : s.clients.lookup key = some k) :
    ∃ c, s'.connections.lookup k = some c ∧ (c.adapter, c.clientID) = key := by
  obtain ⟨c, hc, rfl⟩ := h.registered key k hk
  obtain ⟨d, hd, hid, -, had⟩ := lookup_step hs hc
  exact ⟨d, hd, by rw [hid, had]⟩

theorem Placed.room_insert (h : Placed s) (hc : s.connections.lookup k = some c) {phase : Room.Sockets.Phase}
    {j : ℕ} {d : Connection} (hd : (s.connections.insert k { c with phase }).lookup j = some d) :
    s.manager.created[d.adapter]? = some d.room := by
  rcases lookup_insert_cases hd with ⟨rfl, rfl⟩ | ⟨-, hd⟩
  · exact h.room _ c hc
  · exact h.room j d hd

theorem Placed.step (h : Placed s) (hs : Room.Sockets.Stepped s x s') : Placed s' := by
  have hreg {key : ℕ × String} {k : ℕ} (hk : s.clients.lookup key = some k) := h.registered_step hs hk
  cases hs with
  | enter hj hm =>
    refine ⟨h.counted.step (Room.stepped_of_step hm), fun _ _ => hreg, fun k c hc => ?_⟩
    rcases lookup_insert_cases hc with ⟨rfl, rfl⟩ | ⟨-, hc⟩
    · exact created_of_enter h.counted hm
    · exact created_of_step hm (h.room k c hc)
  | add hb =>
    refine ⟨h.counted, fun key k hk => ?_, fun k c hc => h.room_insert hb hc⟩
    rcases lookup_insert_cases hk with ⟨rfl, rfl⟩ | ⟨-, hk⟩
    · exact ⟨_, AList.lookup_insert _, rfl⟩
    · exact hreg hk
  | remove hb =>
    exact ⟨h.counted, fun key k hk => hreg (lookup_of_lookup_erase hk).2, fun k c hc => h.room_insert hb hc⟩
  | exit hb _ hm =>
    exact ⟨h.counted.step (Room.stepped_of_step hm), fun _ _ => hreg,
      fun k c hc => created_of_step hm (h.room_insert hb hc)⟩

/-- The connections of an adapter are in one room. -/
theorem Placed.room_eq (h : Placed s) {i j : ℕ} {c d : Connection} (hc : s.connections.lookup i = some c)
    (hd : s.connections.lookup j = some d) (ha : c.adapter = d.adapter) : c.room = d.room := by
  have h1 := h.room i c hc
  rw [ha, h.room j d hd, Option.some.injEq] at h1
  exact h1.symm

end Server

/-! ### The way of a signal -/

/-- The signals that came from connection `i`. -/
def fromConn (i : ℕ) (l : List (Incoming σ)) : List σ := (l.filter fun m => m.origin = i).map Incoming.signal

/-- The signals for the user `id`. -/
def toUser (id : String) (l : List (Outgoing σ)) : List σ := (l.filter fun m => m.userId = id).map Outgoing.signal

@[simp] theorem fromConn_append (i : ℕ) (l l' : List (Incoming σ)) :
    fromConn i (l ++ l') = fromConn i l ++ fromConn i l' := by
  simp [fromConn]

@[simp] theorem toUser_append (id : String) (l l' : List (Outgoing σ)) :
    toUser id (l ++ l') = toUser id l ++ toUser id l' := by
  simp [toUser]

theorem fromConn_sublist {i : ℕ} {l l' : List (Incoming σ)} (h : l.Sublist l') :
    (fromConn i l).Sublist (fromConn i l') := (h.filter _).map _

theorem toUser_sublist {id : String} {l l' : List (Outgoing σ)} (h : l.Sublist l') :
    (toUser id l).Sublist (toUser id l') := (h.filter _).map _

theorem fromConn_cons (i : ℕ) (m : Incoming σ) (l : List (Incoming σ)) :
    fromConn i (m :: l) = (if m.origin = i then [m.signal] else []) ++ fromConn i l := by
  by_cases h : m.origin = i <;> simp [fromConn, h]

theorem toUser_cons (id : String) (m : Outgoing σ) (l : List (Outgoing σ)) :
    toUser id (m :: l) = (if m.userId = id then [m.signal] else []) ++ toUser id l := by
  by_cases h : m.userId = id <;> simp [toUser, h]

/-- The signals from connection `i` to the user `id` at connection `j`: handed, on the way to the browser, on
the way to the server. -/
def flow (n : Net σ) (i j : ℕ) (id : String) : List σ :=
  fromConn i (n.handed j) ++ fromConn i (n.toClient j) ++ toUser id (n.toServer i)

/-- A message that reached connection `j`, or is under way to it. -/
def Addressed (s : Server) (j : ℕ) (m : Incoming σ) : Prop :=
  ∃ c d, s.connections.lookup m.origin = some c ∧ s.connections.lookup j = some d ∧ m.userId = c.clientID ∧
    c.adapter = d.adapter

structure Routed (n : Net σ) : Prop where
  placed : Placed n.server
  arrived : ∀ j, ∀ m ∈ n.handed j ++ n.toClient j, Addressed n.server j m
  queued : ∀ i, (n.toServer i).Sublist (n.emitted i)
  order : ∀ i j d, n.server.connections.lookup j = some d →
    (flow n i j d.clientID).Sublist (toUser d.clientID (n.emitted i))

theorem routed_empty : Routed (Net.empty : Net σ) := by
  refine ⟨placed_empty, ?_, ?_, ?_⟩
  · intro j m h
    cases h
  · intro i
    exact List.Sublist.refl _
  · intro i j d h
    cases h

section Steps

variable {n : Net σ} {k : ℕ}

/-- The connections stay what they are when the server takes a step. -/
theorem Addressed.server {s s' : Server} {x : Room.Sockets.Action} {j : ℕ} {m : Incoming σ}
    (h : Addressed s j m) (hs : Room.Sockets.Stepped s x s') : Addressed s' j m := by
  obtain ⟨c, d, hc, hd, hid, ha⟩ := h
  obtain ⟨c', hc', hcid, -, hca⟩ := lookup_step hs hc
  obtain ⟨d', hd', -, -, hda⟩ := lookup_step hs hd
  exact ⟨c', d', hc', hd', by rw [hid, hcid], by rw [hca, hda, ha]⟩

/-- Nothing reaches a connection that was not opened. -/
theorem Routed.flow_new (h : Routed n) {j : ℕ} (hj : n.server.connections.lookup j = none) (i : ℕ)
    (id : String) : flow n i j id = toUser id (n.toServer i) := by
  have hnil : n.handed j ++ n.toClient j = [] := List.eq_nil_iff_forall_not_mem.mpr fun m hm => by
    obtain ⟨_, d, -, hd, -⟩ := h.arrived j m hm
    rw [hj] at hd
    cases hd
  obtain ⟨hh, ht⟩ := List.append_eq_nil_iff.mp hnil
  simp [flow, hh, ht, fromConn]

theorem Routed.server {x : Room.Sockets.Action} {server : Server} (h : Routed n)
    (hs : Room.Sockets.Stepped n.server x server) : Routed { n with server } := by
  refine ⟨h.placed.step hs, fun j m hm => (h.arrived j m hm).server hs, h.queued, fun i j d hd => ?_⟩
  rcases lookup_of_stepped hs hd with hnew | ⟨c, hc, hid, -, -⟩
  · have hflow : flow { n with server } i j d.clientID = toUser d.clientID (n.toServer i) := h.flow_new hnew i _
    rw [hflow]
    exact toUser_sublist (h.queued i)
  · rw [hid]
    exact h.order i j c hc

/-- One more message at the end of one of the lists. -/
theorem update_append {α : Type*} (f : ℕ → List α) (a : α) (i : ℕ) :
    update f k (f k ++ [a]) i = f i ++ if i = k then [a] else [] := by
  by_cases h : i = k
  · subst h
    simp
  · simp [h]

theorem flow_emit (u : String) (x : σ) (i j : ℕ) (id : String) :
    flow { n with
      emitted := update n.emitted k (n.emitted k ++ [⟨u, x⟩])
      toServer := update n.toServer k (n.toServer k ++ [⟨u, x⟩]) } i j id =
    flow n i j id ++ toUser id (if i = k then [⟨u, x⟩] else []) := by
  simp only [flow, update_append, toUser_append, List.append_assoc]

theorem Routed.emit (h : Routed n) (u : String) (x : σ) :
    Routed { n with
      emitted := update n.emitted k (n.emitted k ++ [⟨u, x⟩])
      toServer := update n.toServer k (n.toServer k ++ [⟨u, x⟩]) } := by
  refine ⟨h.placed, h.arrived, fun i => ?_, fun i j d hd => ?_⟩
  · simp only [update_append]
    exact (h.queued i).append_right _
  · rw [flow_emit]
    simp only [update_append, toUser_append]
    exact (h.order i j d hd).append_right _

/-- The messages under way to a connection after `case "signal"`. -/
theorem relay_apply (failing : List ℕ) (c : Connection) (m : Outgoing σ) (j : ℕ) :
    relay n failing k c m j = n.toClient j ++
      if Room.Sockets.emit n.server failing c.adapter m.userId = .ok j then [⟨k, c.clientID, m.signal⟩] else [] := by
  cases he : Room.Sockets.emit n.server failing c.adapter m.userId with
  | error e => simp [relay, he]
  | ok j' =>
    simp only [relay, he, update_append, Except.ok.injEq]
    by_cases hj : j = j'
    · simp [hj]
    · simp [hj, Ne.symm hj]

theorem fromConn_relay (failing : List ℕ) (c : Connection) (m : Outgoing σ) (i j : ℕ) :
    fromConn i (relay n failing k c m j) = fromConn i (n.toClient j) ++
      if i = k ∧ Room.Sockets.emit n.server failing c.adapter m.userId = .ok j then [m.signal] else [] := by
  rw [relay_apply, fromConn_append]
  by_cases hi : i = k
  · subst hi
    split_ifs with h1 h2 h2 <;> simp_all [fromConn]
  · split_ifs with h1 h2 h2 <;> simp_all [fromConn, eq_comm]

/-- `emit` writes to a connection of the client id in the adapter. -/
theorem Placed.emit {s : Server} (h : Placed s) {failing : List ℕ} {adapter j : ℕ} {id : String}
    (he : Room.Sockets.emit s failing adapter id = .ok j) :
    ∃ d, s.connections.lookup j = some d ∧ d.adapter = adapter ∧ d.clientID = id := by
  unfold Room.Sockets.emit at he
  split at he
  · cases he
  · rename_i socket hsocket
    split_ifs at he
    obtain rfl := Except.ok.inj he
    obtain ⟨d, hd, hkey⟩ := h.registered _ _ hsocket
    obtain ⟨rfl, rfl⟩ := Prod.mk.inj hkey
    exact ⟨d, hd, rfl, rfl⟩

theorem flow_relay (rest : List (Outgoing σ)) (m : Outgoing σ) (failing : List ℕ) (c : Connection) (i j : ℕ)
    (id : String) :
    flow { n with toServer := update n.toServer k rest, toClient := relay n failing k c m } i j id =
      fromConn i (n.handed j) ++ fromConn i (n.toClient j) ++
        ((if i = k ∧ Room.Sockets.emit n.server failing c.adapter m.userId = .ok j then [m.signal] else []) ++
          toUser id (if i = k then rest else n.toServer i)) := by
  simp only [flow, fromConn_relay, List.append_assoc, Function.update_apply]

theorem Routed.relay {rest : List (Outgoing σ)} {m : Outgoing σ} {c : Connection} (h : Routed n)
    (hc : n.server.connections.lookup k = some c) (hm : n.toServer k = m :: rest) (failing : List ℕ) :
    Routed { n with toServer := update n.toServer k rest, toClient := relay n failing k c m } := by
  refine ⟨h.placed, fun j x hx => ?_, fun i => ?_, fun i j d hd => ?_⟩
  · rcases List.mem_append.mp hx with hx | hx
    · exact h.arrived j x (List.mem_append_left _ hx)
    · simp only [relay_apply] at hx
      rcases List.mem_append.mp hx with hx | hx
      · exact h.arrived j x (List.mem_append_right _ hx)
      · split_ifs at hx with he
        · obtain rfl := List.mem_singleton.mp hx
          obtain ⟨d, hd, had, -⟩ := h.placed.emit he
          exact ⟨c, d, hc, hd, rfl, had.symm⟩
        · cases hx
  · have hk := h.queued k
    rw [hm] at hk
    by_cases hi : i = k
    · subst hi
      simpa using (List.sublist_cons_self m rest).trans hk
    · simpa [hi] using h.queued i
  · refine List.Sublist.trans ?_ (h.order i j d hd)
    rw [flow_relay, flow]
    by_cases hi : i = k
    · -- what is written to `j` was meant for its client id
      subst hi
      rw [hm, toUser_cons]
      refine List.Sublist.append_left (List.Sublist.append ?_ (by simp)) _
      by_cases he : Room.Sockets.emit n.server failing c.adapter m.userId = .ok j
      · obtain ⟨d', hd', -, hid⟩ := h.placed.emit he
        obtain rfl := Option.some.inj (hd.symm.trans hd')
        simp [he, hid]
      · simp [he]
    · simp [hi]

theorem flow_handleSignal {rest : List (Incoming σ)} {m : Incoming σ} (hm : n.toClient k = m :: rest)
    (i j : ℕ) (id : String) :
    flow { n with
      toClient := update n.toClient k rest
      handed := update n.handed k (handleSignal (n.peers k) m (n.handed k)) } i j id =
    if j = k ∧ m.userId ∉ n.peers k then fromConn i (n.handed j) ++ fromConn i rest ++ toUser id (n.toServer i)
    else flow n i j id := by
  by_cases hj : j = k
  · subst hj
    by_cases hp : m.userId ∈ n.peers j
    · have hcons : fromConn i (m :: rest) = fromConn i [m] ++ fromConn i rest := fromConn_append i [m] rest
      simp [flow, handleSignal, hp, hm, hcons]
    · simp [flow, handleSignal, hp]
  · simp [flow, hj]

theorem mem_handleSignal {peers : List String} {m x : Incoming σ} {l : List (Incoming σ)}
    (hx : x ∈ handleSignal peers m l) : x ∈ l ∨ x = m := by
  unfold handleSignal at hx
  split_ifs at hx
  · simpa using hx
  · exact Or.inl hx

theorem Routed.handleSignal {rest : List (Incoming σ)} {m : Incoming σ} (h : Routed n)
    (hm : n.toClient k = m :: rest) :
    Routed { n with
      toClient := update n.toClient k rest
      handed := update n.handed k (handleSignal (n.peers k) m (n.handed k)) } := by
  refine ⟨h.placed, fun j x hx => ?_, h.queued, fun i j d hd => ?_⟩
  · refine h.arrived j x ?_
    by_cases hj : j = k
    · subst hj
      simp only [Function.update_self] at hx
      rw [hm]
      rcases List.mem_append.mp hx with hx | hx
      · rcases mem_handleSignal hx with hx | rfl
        · exact List.mem_append_left _ hx
        · exact List.mem_append_right _ List.mem_cons_self
      · exact List.mem_append_right _ (List.mem_cons_of_mem _ hx)
    · simpa [hj] using hx
  · rw [flow_handleSignal hm]
    split_ifs with hj
    · obtain ⟨rfl, -⟩ := hj
      refine List.Sublist.trans ?_ (h.order i j d hd)
      rw [flow, hm]
      have htail : (fromConn i rest).Sublist (fromConn i (m :: rest)) := fromConn_sublist (List.sublist_cons_self m rest)
      exact (htail.append_left _).append_right _
    · exact h.order i j d hd

theorem update_take_sublist {α : Type*} (f : ℕ → List α) (l : ℕ) (i : ℕ) :
    (update f k ((f k).take l) i).Sublist (f i) := by
  by_cases h : i = k
  · subst h
    simpa using List.take_sublist l (f i)
  · simp [h]

theorem Routed.cut (h : Routed n) (up down : ℕ) :
    Routed { n with
      toServer := update n.toServer k ((n.toServer k).take up)
      toClient := update n.toClient k ((n.toClient k).take down) } := by
  have hup (i : ℕ) := update_take_sublist (k := k) n.toServer up i
  have hdown (j : ℕ) := update_take_sublist (k := k) n.toClient down j
  refine ⟨h.placed, fun j x hx => ?_, fun i => (hup i).trans (h.queued i), fun i j d hd => ?_⟩
  · exact h.arrived j x (((hdown j).append_left _).subset hx)
  · refine List.Sublist.trans ?_ (h.order i j d hd)
    exact ((fromConn_sublist (hdown j)).append_left _).append (toUser_sublist (hup i))

/-- **Step lemma.** -/
theorem Routed.step {n' : Net σ} {a : Action σ} (h : Routed n) (hs : Stepped n a n') : Routed n' := by
  cases hs with
  | server hx => exact h.server hx
  | setPeers => exact ⟨h.placed, h.arrived, h.queued, h.order⟩
  | emit => exact h.emit _ _
  | relay hc hm => exact h.relay hc hm _
  | handleSignal hm => exact h.handleSignal hm
  | cut => exact h.cut _ _

end Steps

theorem routed_of_reach {n : Net σ} {ok : Net σ → Action σ → Prop} (h : Reach step ok Net.empty n) : Routed n :=
  h.invariant routed_empty fun _ _ _ hI _ hs => hI.step (stepped_of_step hs)

/-- **Signals reach the peer they were emitted to, in order**: in every reached state, what came over
connection `i` and was handed to the peers at connection `j` is a subsequence of what was emitted on `i` to the
client id of `j`; and all that is handed there was emitted on a connection of the same adapter and room, to the
peer for the client id of that connection. -/
theorem signals_in_order {n : Net σ} (h : Reach step anyStep Net.empty n) {j : ℕ} {d : Connection}
    (hd : n.server.connections.lookup j = some d) :
    (∀ i, (fromConn i (n.handed j)).Sublist (toUser d.clientID (n.emitted i))) ∧
      ∀ m ∈ n.handed j, ∃ c, n.server.connections.lookup m.origin = some c ∧ m.userId = c.clientID ∧
        c.adapter = d.adapter ∧ c.room = d.room := by
  have hR := routed_of_reach h
  refine ⟨fun i => ?_, fun m hm => ?_⟩
  · refine List.Sublist.trans ?_ (hR.order i j d hd)
    rw [flow, List.append_assoc]
    exact List.sublist_append_left _ _
  · obtain ⟨c, d', hc, hd', hid, ha⟩ := hR.arrived j m (List.mem_append_left _ hm)
    obtain rfl := Option.some.inj (hd.symm.trans hd')
    exact ⟨c, hc, hid, ha, hR.placed.room_eq hc hd ha⟩

/-- Two browsers in a room and one, with the client id of the second, in another.  A signal to a client that
has not joined is lost, and so is one for which the browser has no peer yet. -/
theorem signals_in_order_example : ∃ n : Net ℕ, exec (guarded step anyStep) Net.empty
      [.server (.enter 0 "a" "r"), .server (.add 0 []), .server (.enter 2 "b" "q"), .server (.add 2 []),
        .emit 0 "b" 1, .relay 0 [], .server (.enter 1 "b" "r"), .server (.add 1 []), .emit 0 "b" 2, .emit 0 "c" 3,
        .emit 0 "b" 4, .relay 0 [], .handleSignal 1, .setPeers 1 ["a"], .relay 0 [], .relay 0 [],
        .handleSignal 1] = some n ∧
    (∃ d ∈ n.server.connections.lookup 1, d.clientID = "b" ∧ n.handed 1 = [⟨0, "a", 4⟩] ∧ n.handed 2 = []) ∧
    (fromConn 0 (n.handed 1)).Sublist (toUser "b" (n.emitted 0)) := by
  refine exists_exec (by decide +kernel) fun n hn hq => ?_
  obtain ⟨d, hd, hid, -⟩ := hq
  exact hid ▸ (signals_in_order hn hd).1 0

/-! ### Runs that lose nothing -/

/-- Nothing from connection `i` to the user `id` at connection `j` is lost in the step: neither connection is
cut, the server finds `j` for every such signal, and the browser has the peer. -/
def Delivers (i j : ℕ) (id : String) (n : Net σ) : Action σ → Prop
  | .relay k failing => k = i → ∀ c ∈ n.server.connections.lookup i, ∀ m ∈ (n.toServer i).head?, m.userId = id →
      Room.Sockets.emit n.server failing c.adapter id = .ok j
  | .handleSignal k => k = j → ∀ m ∈ (n.toClient j).head?, m.origin = i → m.userId ∈ n.peers j
  | .cut k _ _ => k ≠ i ∧ k ≠ j
  | .server _ | .setPeers _ _ | .emit _ _ _ => True

instance {i j : ℕ} {id : String} : DecidableRel (Delivers i j id : Net σ → Action σ → Prop)
  | n, .relay k failing => inferInstanceAs (Decidable (k = i → ∀ c ∈ n.server.connections.lookup i,
      ∀ m ∈ (n.toServer i).head?, m.userId = id → Room.Sockets.emit n.server failing c.adapter id = .ok j))
  | n, .handleSignal k => inferInstanceAs (Decidable (k = j → ∀ m ∈ (n.toClient j).head?, m.origin = i →
      m.userId ∈ n.peers j))
  | _, .cut k _ _ => inferInstanceAs (Decidable (k ≠ i ∧ k ≠ j))
  | _, .server _ | _, .setPeers _ _ | _, .emit _ _ _ => isTrue trivial

section Delivers

variable {n n' : Net σ} {i j : ℕ} {id : String} {a : Action σ}

/-- If connection `j` is open, it is that of the user `id`. -/
def Belongs (n : Net σ) (j : ℕ) (id : String) : Prop :=
  ∀ d, n.server.connections.lookup j = some d → d.clientID = id

theorem Belongs.of_stepped (hs : Stepped n a n') (h : Belongs n' j id) : Belongs n j id := by
  cases hs with
  | server hx =>
    intro d hd
    obtain ⟨d', hd', hid, -⟩ := lookup_step hx hd
    exact hid ▸ h d' hd'
  | setPeers | emit | relay | handleSignal | cut => exact h

/-- **Step lemma**: what is handed or under way stays all that was emitted. -/
theorem flow_step (h : Routed n) (hok : Delivers i j id n a) (hs : Stepped n a n') (hj : Belongs n j id)
    (hflow : flow n i j id = toUser id (n.emitted i)) : flow n' i j id = toUser id (n'.emitted i) := by
  cases hs with
  | server hx => exact hflow
  | setPeers => exact hflow
  | emit =>
    rw [flow_emit, hflow]
    simp only [update_append, toUser_append]
  | @relay k failing c m rest hc hm =>
    rw [flow_relay, ← hflow, flow]
    by_cases hi : i = k
    · subst hi
      simp only [hm, toUser_cons, true_and, ↓reduceIte]
      have hiff : Room.Sockets.emit n.server failing c.adapter m.userId = .ok j ↔ m.userId = id := by
        constructor
        · intro he
          obtain ⟨d, hd, -, hid⟩ := h.placed.emit he
          exact hid.symm.trans (hj d hd)
        · intro hid
          have he := hok rfl c hc m (by rw [hm]; rfl) hid
          rwa [← hid] at he
      simp only [hiff]
    · simp [hi]
  | @handleSignal k m rest hm =>
    rw [flow_handleSignal hm, ← hflow]
    split_ifs with hp
    · obtain ⟨rfl, hp⟩ := hp
      have hne : m.origin ≠ i := fun ho => hp (hok rfl m (by rw [hm]; rfl) ho)
      simp [flow, hm, fromConn_cons, hne]
    · rfl
  | cut =>
    obtain ⟨hi, hj⟩ := hok
    simpa [flow, hi.symm, hj.symm] using hflow

end Delivers

/-- **No signal is lost, doubled or reordered** along the runs that deliver what goes from connection `i` to the
user `id` at connection `j`: what the browser of `j` has handed to its peers, what is under way to it and what
the server has still to handle are, in this order, all that was emitted. -/
theorem signals_all_handed {i j : ℕ} {id : String} {n : Net σ} (h : Reach step (Delivers i j id) Net.empty n)
    {d : Connection} (hd : n.server.connections.lookup j = some d) (hid : d.clientID = id) :
    fromConn i (n.handed j) ++ fromConn i (n.toClient j) ++ toUser id (n.toServer i) =
      toUser id (n.emitted i) := by
  have hinv : Routed n ∧ (Belongs n j id → flow n i j id = toUser id (n.emitted i)) := by
    refine h.invariant (I := fun n => Routed n ∧ (Belongs n j id → flow n i j id = toUser id (n.emitted i))) ?_ ?_
    · exact ⟨routed_empty, fun _ => rfl⟩
    · intro n a n' hI hok hs
      have hst := stepped_of_step hs
      refine ⟨hI.1.step hst, fun hj => ?_⟩
      have hj' := Belongs.of_stepped hst hj
      exact flow_step hI.1 hok hst hj' (hI.2 hj')
  refine hinv.2 fun d' hd' => ?_
  obtain rfl := Option.some.inj (hd.symm.trans hd')
  exact hid

/-- Both browsers signal each other at the same time, over a failing third socket. -/
theorem signals_all_handed_example : ∃ n : Net ℕ, exec (guarded step (Delivers 0 1 "b")) Net.empty
      [.server (.enter 0 "a" "r"), .server (.add 0 []), .server (.enter 1 "b" "r"), .server (.add 1 []),
        .server (.enter 2 "c" "r"), .server (.add 2 []), .setPeers 0 ["b"], .setPeers 1 ["a", "c"],
        .emit 0 "b" 1, .emit 1 "a" 5, .emit 2 "b" 7, .emit 0 "b" 2, .emit 0 "c" 6, .relay 2 [2], .relay 0 [2],
        .relay 1 [2], .handleSignal 1, .handleSignal 0, .relay 0 [2], .relay 0 [2], .handleSignal 1, .emit 0 "b" 3]
      = some n ∧
    (∃ d ∈ n.server.connections.lookup 1, d.clientID = "b" ∧
      n.handed 1 = [⟨2, "c", 7⟩, ⟨0, "a", 1⟩] ∧ n.emitted 0 = [⟨"b", 1⟩, ⟨"b", 2⟩, ⟨"c", 6⟩, ⟨"b", 3⟩]) ∧
    fromConn 0 (n.handed 1) ++ fromConn 0 (n.toClient 1) ++ toUser "b" (n.toServer 0) =
      toUser "b" (n.emitted 0) := by
  refine exists_exec (by decide +kernel) fun n hn hq => ?_
  obtain ⟨d, hd, hid, -⟩ := hq
  exact signals_all_handed hn hd hid

end Meeting.Mesh.Signals
