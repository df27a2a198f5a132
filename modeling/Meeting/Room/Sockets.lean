import Meeting.Room.Manager

/-!
# Meeting.Room.Sockets — websocket connections of memory-backed rooms (`wssub.go`, `memoryadapter.go`)

The goroutine of `WSS.Subscribe` enters the room of its URL, adds the client to the adapter it got, later
removes it and exits the room; when `Add` returns an error it exits without removing.  `MemoryAdapter` keeps
one client for each client id.  The id comes from the URL, so that two connections can have the same one.
`Add` and `Remove` run under `clientsMu` and are steps.

* `live_registered`: along the runs in which no connection is removed while another one of its client id is
  live in the same adapter (`RemovesAlone`), every live connection can be reached by its client id;
* `live_unregistered`: the clean-up of an old connection unregisters the one that replaced it.
-/

namespace Meeting.Room.Sockets

open Lib

/-! ### State -/

/-- How far the goroutine of a connection is. -/
inductive Phase where
  /-- `Enter` has returned. -/
  | entered
  /-- `Add` has returned no error: messages are forwarded. -/
  | added
  /-- `Add` has returned an error: only `Exit` is left. -/
  | failed
  /-- `Remove` has run: only `Exit` is left. -/
  | removed
  | exited
  deriving DecidableEq, Repr

structure Connection where
  clientID : String
  room : String
  adapter : ℕ
  phase : Phase
  deriving DecidableEq, Repr

structure Server where
  manager : Manager
  connections : AList fun _ : ℕ => Connection
  /-- The `clients` of every adapter: the connection whose socket a client id stands for. -/
  clients : AList fun _ : ℕ × String => ℕ

def Server.empty : Server := ⟨Manager.empty, ∅, ∅⟩

/-! ### Operations -/

inductive EmitError where
  /-- Client not found. -/
  | notFound (clientID : String)
  /-- The write to the socket failed. -/
  | write (socket : ℕ)
  deriving DecidableEq, Repr

/-- `emit`, with the socket it has written to; writes to the sockets `failing` fail. -/
def emit (s : Server) (failing : List ℕ) (adapter : ℕ) (clientID : String) : Except EmitError ℕ :=
  match s.clients.lookup (adapter, clientID) with
  | none => .error (.notFound clientID)
  | some socket => if socket ∈ failing then .error (.write socket) else .ok socket

/-- What `emit` returns to `broadcast`, for every client of the adapter. -/
def broadcast (s : Server) (failing : List ℕ) (adapter : ℕ) : List (Except EmitError ℕ) :=
  (s.clients.keys.filter fun key => key.1 = adapter).map fun key => emit s failing adapter key.2

/-- The socket that `emit` wrote to, with or without success. -/
def written : Except EmitError ℕ → Option ℕ
  | .ok socket | .error (.write socket) => some socket
  | .error (.notFound _) => none

/-- `Add`: the client is registered before the broadcast, which decides what it returns. -/
def add (s : Server) (failing : List ℕ) (k : ℕ) (c : Connection) : Server :=
  let s' := { s with clients := s.clients.insert (c.adapter, c.clientID) k }
  let ok := (broadcast s' failing c.adapter).all Except.toBool
  { s' with connections := s.connections.insert k { c with phase := if ok then .added else .failed } }

/-- `Remove`: its error is only logged. -/
def remove (s : Server) (k : ℕ) (c : Connection) : Server :=
  { s with
    clients := s.clients.erase (c.adapter, c.clientID)
    connections := s.connections.insert k { c with phase := .removed } }

inductive Action where
  /-- `Subscribe` accepts connection `k`. -/
  | enter (k : ℕ) (clientID room : String)
  | add (k : ℕ) (failing : List ℕ)
  | remove (k : ℕ)
  | exit (k : ℕ)
  deriving DecidableEq, Repr

def step (s : Server) : Action → Option Server
  | .enter k clientID room =>
    if k ∈ s.connections then none
    else
      (Room.step s.manager (.enter k room)).map fun manager =>
        let c := ⟨clientID, room, (Room.enter s.manager room).2, .entered⟩
        { s with manager, connections := s.connections.insert k c }
  | .add k failing =>
    match s.connections.lookup k with
    | none => none
    | some c => if c.phase = .entered then some (add s failing k c) else none
  | .remove k =>
    match s.connections.lookup k with
    | none => none
    | some c => if c.phase = .added then some (remove s k c) else none
  | .exit k =>
    match s.connections.lookup k with
    | none => none
    | some c =>
      if c.phase = .removed ∨ c.phase = .failed then
        (Room.step s.manager (.exit k)).map fun manager =>
          { s with manager, connections := s.connections.insert k { c with phase := .exited } }
      else none

/-- What a step can do. -/
inductive Stepped (s : Server) : Action → Server → Prop
  | enter {k : ℕ} {clientID room : String} {manager : Manager} : k ∉ s.connections →
      Room.step s.manager (.enter k room) = some manager → Stepped s (.enter k clientID room) { s with
        manager
        connections := s.connections.insert k ⟨clientID, room, (Room.enter s.manager room).2, .entered⟩ }
  | add {k : ℕ} {failing : List ℕ} {c : Connection} {phase : Phase} : s.connections.lookup k = some c →
      c.phase = .entered → phase = .added ∨ phase = .failed → Stepped s (.add k failing) { s with
        clients := s.clients.insert (c.adapter, c.clientID) k
        connections := s.connections.insert k { c with phase } }
  | remove {k : ℕ} {c : Connection} : s.connections.lookup k = some c → c.phase = .added →
      Stepped s (.remove k) { s with
        clients := s.clients.erase (c.adapter, c.clientID)
        connections := s.connections.insert k { c with phase := .removed } }
  | exit {k : ℕ} {c : Connection} {manager : Manager} : s.connections.lookup k = some c →
      c.phase = .removed ∨ c.phase = .failed → Room.step s.manager (.exit k) = some manager →
        Stepped s (.exit k) { s with
          manager
          connections := s.connections.insert k { c with phase := .exited } }

theorem stepped_of_step {s s' : Server} {x : Action} (hs : step s x = some s') : Stepped s x s' := by
  cases x with
  | enter k clientID room =>
    simp only [step] at hs
    split_ifs at hs with hk
    obtain ⟨manager, hm, rfl⟩ := Option.map_eq_some_iff.mp hs
    exact .enter hk hm
  | add k failing =>
    simp only [step] at hs
    cases hc : s.connections.lookup k with
    | none => simp [hc] at hs
    | some c =>
      simp only [hc] at hs
      split_ifs at hs with hp
      obtain rfl := Option.some.inj hs
      refine .add hc hp ?_
      split_ifs
      · exact Or.inl rfl
      · exact Or.inr rfl
  | remove k =>
    simp only [step] at hs
    cases hc : s.connections.lookup k with
    | none => simp [hc] at hs
    | some c =>
      simp only [hc] at hs
      split_ifs at hs with hp
      obtain rfl := Option.some.inj hs
      exact .remove hc hp
  | exit k =>
    simp only [step] at hs
    cases hc : s.connections.lookup k with
    | none => simp [hc] at hs
    | some c =>
      simp only [hc] at hs
      split_ifs at hs with hp
      obtain ⟨manager, hm, rfl⟩ := Option.map_eq_some_iff.mp hs
      exact .exit hc hp hm

/-! ### The invariant -/

theorem visits_enter {m m' : Manager} {k : ℕ} {room : String} (h : Room.step m (.enter k room) = some m') :
    m'.visits = ⟨k, room, (Room.enter m room).2⟩ :: m.visits := by
  simp only [Room.step] at h
  split_ifs at h
  obtain rfl := Option.some.inj h
  rfl

/-- Those who do not exit stay inside. -/
theorem mem_visits_exit {m m' : Manager} {k : ℕ} {v : Visit} (h : Room.step m (.exit k) = some m')
    (hv : v ∈ m.visits) (hk : v.client ≠ k) : v ∈ m'.visits := by
  obtain ⟨w, hw, rfl⟩ := Option.map_eq_some_iff.mp h
  have hwk : w.client = k := by simpa using List.find?_some hw
  have hne : v ≠ w := by
    rintro rfl
    exact hk hwk
  exact (List.mem_erase_of_ne hne).mpr hv

/-- `Add` has completed and `Remove` has not started. -/
def Connection.Live (c : Connection) : Prop := c.phase = .added ∨ c.phase = .failed

instance : DecidablePred Connection.Live := fun c =>
  inferInstanceAs (Decidable (c.phase = .added ∨ c.phase = .failed))

/-- No connection is removed while another one of its client id is live in the same adapter. -/
def RemovesAlone (s : Server) : Action → Prop
  | .remove k => ∀ c ∈ s.connections.lookup k, ∀ e ∈ s.connections.entries, e.1 ≠ k → e.2.Live →
      (e.2.adapter, e.2.clientID) ≠ (c.adapter, c.clientID)
  | _ => True

instance : DecidableRel RemovesAlone
  | s, .remove k => inferInstanceAs (Decidable (∀ c ∈ s.connections.lookup k, ∀ e ∈ s.connections.entries,
      e.1 ≠ k → e.2.Live → (e.2.adapter, e.2.clientID) ≠ (c.adapter, c.clientID)))
  | _, .enter _ _ _ | _, .add _ _ | _, .exit _ => isTrue trivial

structure Kept (s : Server) : Prop where
  /-- The connections use the manager as its clients do. -/
  manager : Reach Room.step anyStep Manager.empty s.manager
  visits : ∀ k c, s.connections.lookup k = some c → c.phase ≠ .exited →
    ⟨k, c.room, c.adapter⟩ ∈ s.manager.visits
  sockets : ∀ key k, s.clients.lookup key = some k →
    ∃ c, s.connections.lookup k = some c ∧ c.clientID = key.2
  live : ∀ k c, s.connections.lookup k = some c → c.Live → (c.adapter, c.clientID) ∈ s.clients

theorem kept_empty : Kept Server.empty := by
  refine ⟨.refl, ?_, ?_, ?_⟩
  · intro k c h
    cases h
  · intro key k h
    cases h
  · intro k c h
    cases h

section Steps

variable {s : Server} {k : ℕ} {c : Connection}

/-- The connection of a socket keeps its client id when the phase changes. -/
theorem Kept.sockets_insert (h : Kept s) (hc : s.connections.lookup k = some c) (phase : Phase)
    {key : ℕ × String} {j : ℕ} (hj : s.clients.lookup key = some j) :
    ∃ d, (s.connections.insert k { c with phase }).lookup j = some d ∧ d.clientID = key.2 := by
  obtain ⟨d, hd, hid⟩ := h.sockets key j hj
  by_cases hjk : j = k
  · subst hjk
    obtain rfl := Option.some.inj (hc.symm.trans hd)
    exact ⟨_, AList.lookup_insert _, hid⟩
  · exact ⟨d, by rw [AList.lookup_insert_ne hjk, hd], hid⟩

theorem Kept.visits_insert (h : Kept s) (hc : s.connections.lookup k = some c) (hp : c.phase ≠ .exited)
    {phase : Phase} {j : ℕ} {d : Connection}
    (hd : (s.connections.insert k { c with phase }).lookup j = some d) (hdp : d.phase ≠ .exited) :
    ⟨j, d.room, d.adapter⟩ ∈ s.manager.visits := by
  rcases lookup_insert_cases hd with ⟨rfl, rfl⟩ | ⟨-, hd⟩
  · exact h.visits j c hc hp
  · exact h.visits j d hd hdp

theorem Kept.enter {clientID room : String} {manager : Manager} (h : Kept s) (hk : k ∉ s.connections)
    (hm : Room.step s.manager (.enter k room) = some manager) :
    Kept { s with
      manager
      connections := s.connections.insert k ⟨clientID, room, (Room.enter s.manager room).2, .entered⟩ } := by
  refine ⟨h.manager.tail trivial hm, ?_, ?_, ?_⟩
  · intro j d hd hdp
    rw [visits_enter hm]
    rcases lookup_insert_cases hd with ⟨rfl, rfl⟩ | ⟨-, hd⟩
    · exact List.mem_cons_self
    · exact List.mem_cons_of_mem _ (h.visits j d hd hdp)
  · intro key j hj
    obtain ⟨d, hd, hid⟩ := h.sockets key j hj
    have hjk : j ≠ k := by
      rintro rfl
      exact hk (AList.lookup_isSome.mp (hd ▸ rfl))
    exact ⟨d, by rw [AList.lookup_insert_ne hjk, hd], hid⟩
  · intro j d hd hlive
    rcases lookup_insert_cases hd with ⟨-, rfl⟩ | ⟨-, hd⟩
    · rcases hlive with hp | hp <;> cases hp
    · exact h.live j d hd hlive

theorem Kept.add {phase : Phase} (h : Kept s) (hc : s.connections.lookup k = some c)
    (hp : c.phase = .entered) :
    Kept { s with
      clients := s.clients.insert (c.adapter, c.clientID) k
      connections := s.connections.insert k { c with phase } } := by
  refine ⟨h.manager, ?_, ?_, ?_⟩
  · intro j d hd hdp
    exact h.visits_insert hc (by simp [hp]) hd hdp
  · intro key j hj
    rcases lookup_insert_cases hj with ⟨rfl, rfl⟩ | ⟨-, hj⟩
    · exact ⟨_, AList.lookup_insert _, rfl⟩
    · exact h.sockets_insert hc phase hj
  · intro j d hd hlive
    refine (AList.mem_insert _).mpr ?_
    rcases lookup_insert_cases hd with ⟨-, rfl⟩ | ⟨-, hd⟩
    · exact Or.inl rfl
    · exact Or.inr (h.live j d hd hlive)

theorem Kept.remove (h : Kept s) (hok : RemovesAlone s (.remove k)) (hc : s.connections.lookup k = some c)
    (hp : c.phase = .added) :
    Kept { s with
      clients := s.clients.erase (c.adapter, c.clientID)
      connections := s.connections.insert k { c with phase := .removed } } := by
  refine ⟨h.manager, ?_, ?_, ?_⟩
  · intro j d hd hdp
    exact h.visits_insert hc (by simp [hp]) hd hdp
  · intro key j hj
    exact h.sockets_insert hc _ (lookup_of_lookup_erase hj).2
  · intro j d hd hlive
    rcases lookup_insert_cases hd with ⟨-, rfl⟩ | ⟨hjk, hd⟩
    · rcases hlive with hp | hp <;> cases hp
    · -- the key that is deleted is not that of another live connection
      refine AList.mem_erase.mpr ⟨?_, h.live j d hd hlive⟩
      exact hok c hc ⟨j, d⟩ (AList.mem_lookup_iff.mp hd) hjk hlive

theorem Kept.exit {manager : Manager} (h : Kept s) (hc : s.connections.lookup k = some c)
    (hm : Room.step s.manager (.exit k) = some manager) :
    Kept { s with manager, connections := s.connections.insert k { c with phase := .exited } } := by
  refine ⟨h.manager.tail trivial hm, ?_, ?_, ?_⟩
  · intro j d hd hdp
    rcases lookup_insert_cases hd with ⟨-, rfl⟩ | ⟨hjk, hd⟩
    · exact absurd rfl hdp
    · exact mem_visits_exit hm (h.visits j d hd hdp) hjk
  · intro key j hj
    exact h.sockets_insert hc _ hj
  · intro j d hd hlive
    rcases lookup_insert_cases hd with ⟨-, rfl⟩ | ⟨-, hd⟩
    · rcases hlive with hp | hp <;> cases hp
    · exact h.live j d hd hlive

end Steps

/-- **Step lemma.** -/
theorem Kept.step {s s' : Server} {x : Action} (h : Kept s) (hok : RemovesAlone s x) (hs : Stepped s x s') :
    Kept s' := by
  cases hs with
  | enter hk hm => exact h.enter hk hm
  | add hc hp => exact h.add hc hp
  | remove hc hp => exact h.remove hok hc hp
  | exit hc _ hm => exact h.exit hc hm

/-! ### Reaching a client -/

/-- A connection is reached by its client id through the adapter of its room. -/
structure Registered (s : Server) (c : Connection) : Prop where
  adapter : ∃ count, s.manager.rooms.lookup c.room = some ⟨count, c.adapter⟩
  key : (c.adapter, c.clientID) ∈ s.clients
  broadcast : ∀ failing, ∃ r ∈ broadcast s failing c.adapter, ∃ k d, written r = some k ∧
    s.connections.lookup k = some d ∧ d.clientID = c.clientID
  emit : ∀ failing, emit s failing c.adapter c.clientID ≠ .error (.notFound c.clientID)

/-- A registered client id is written to. -/
theorem written_emit {s : Server} {adapter k : ℕ} {clientID : String}
    (h : s.clients.lookup (adapter, clientID) = some k) (failing : List ℕ) :
    written (emit s failing adapter clientID) = some k := by
  rw [emit, h]
  simp only
  split_ifs <;> rfl

/-- **A live connection stays registered**: along every run in which connections are removed alone, a client
whose `Add` has completed and whose `Remove` has not started is reached by its client id. -/
theorem live_registered {s : Server} (h : Reach step RemovesAlone Server.empty s) {k : ℕ} {c : Connection}
    (hc : s.connections.lookup k = some c) (hlive : c.Live) : Registered s c := by
  have hK := Reach.invariant (I := Kept) kept_empty
    (fun _ _ _ hI hok hs => hI.step hok (stepped_of_step hs)) h
  have hkey := hK.live k c hc hlive
  obtain ⟨j, hj⟩ := Option.isSome_iff_exists.mp (AList.lookup_isSome.mpr hkey)
  obtain ⟨d, hd, hid⟩ := hK.sockets _ j hj
  refine ⟨?_, hkey, fun failing => ?_, fun failing he => ?_⟩
  · have hin : c.phase ≠ .exited := by
      rcases hlive with hp | hp <;> simp [hp]
    obtain ⟨⟨count, adapter⟩, hr, rfl⟩ := (counted_of_reach hK.manager).shared _ (hK.visits k c hc hin)
    exact ⟨count, hr⟩
  · refine ⟨_, List.mem_map.mpr ⟨(c.adapter, c.clientID), ?_, rfl⟩, j, d, written_emit hj failing, hd, hid⟩
    exact List.mem_filter.mpr ⟨hkey, by simp⟩
  · have hw := written_emit hj failing
    rw [he] at hw
    cases hw

/-- A client reconnects, with a failing socket in the room, after its old connection was removed. -/
theorem live_registered_example : ∃ s, exec (guarded step RemovesAlone) Server.empty
      [.enter 0 "a" "r", .add 0 [], .enter 1 "b" "r", .add 1 [0], .enter 2 "a" "r", .remove 0, .exit 0,
        .add 2 [], .exit 1] = some s ∧
    (∃ c ∈ s.connections.lookup 2, c.Live ∧ c.clientID = "a") ∧
    ∃ c, c.clientID = "a" ∧ Registered s c := by
  refine exists_exec (by decide) fun s hs hq => ?_
  obtain ⟨c, hc, hlive, hid⟩ := hq
  exact ⟨c, hid, live_registered hs hc hlive⟩

/-- A client reconnects before its old connection is removed. -/
theorem live_unregistered : ∃ s, exec (guarded step anyStep) Server.empty
      [.enter 0 "a" "r", .add 0 [], .enter 1 "a" "r", .add 1 [], .remove 0] = some s ∧
    (∃ c ∈ s.connections.lookup 1, c.phase = .added ∧ (c.adapter, c.clientID) ∉ s.clients ∧
      broadcast s [] c.adapter = [] ∧ emit s [] c.adapter c.clientID = .error (.notFound "a")) ∧
    Reach step anyStep Server.empty s :=
  exists_exec (by decide) fun _ hs _ => hs

end Meeting.Room.Sockets
