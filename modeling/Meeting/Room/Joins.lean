import Meeting.Room.Sockets

/-!
# Meeting.Room.Joins — joins that fail (`memoryadapter.go`, `wssub.go`)

`MemoryAdapter.Add` registers the client and then broadcasts the join; it returns the first error of a write, to
whichever member.  `WSS.Subscribe` takes an error for a client that was not added and closes the connection
without `Remove`, so that the client stays registered.  (`RedisAdapter.Add` registers only after the broadcast.)

All connections have different client ids here (`Distinct`); the case of equal ones is in `Meeting.Room.Sockets`.

* `delivered_iff`: when `Add` returns no error;
* `failed_join_no_trace`: along the runs in which every join is delivered to all members (`Delivered`), the
  clients of the adapters are exactly the connections between `Add` and `Remove`, and this condition on a step
  is exactly that the step itself leaves no trace of a failed join;
* `failed_join_leaves_client`: one broken socket in the room, and the join of another client leaves a ghost.
-/

namespace Meeting.Room.Sockets

open Lib

/-! ### What an adapter answers -/

/-- The client ids that `Clients` of an adapter returns. -/
def clients (s : Server) (adapter : ℕ) : List String :=
  (s.clients.keys.filter fun key => key.1 = adapter).map Prod.snd

/-- `Size` of an adapter. -/
def size (s : Server) (adapter : ℕ) : ℕ := (clients s adapter).length

theorem mem_clients {s : Server} {adapter : ℕ} {clientID : String} :
    clientID ∈ clients s adapter ↔ (adapter, clientID) ∈ s.clients := by
  unfold clients
  constructor
  · intro h
    obtain ⟨⟨a, id⟩, hfilter, rfl⟩ := List.mem_map.mp h
    obtain ⟨hkey, ha⟩ := List.mem_filter.mp hfilter
    obtain rfl : a = adapter := by simpa using ha
    exact hkey
  · intro h
    exact List.mem_map.mpr ⟨(adapter, clientID), List.mem_filter.mpr ⟨h, by simp⟩, rfl⟩

theorem nodup_clients (s : Server) (adapter : ℕ) : (clients s adapter).Nodup := by
  refine List.Nodup.map_on ?_ ((AList.keys_nodup _).filter _)
  rintro ⟨a, id⟩ hx ⟨b, id'⟩ hy rfl
  have ha : a = adapter := by simpa using (List.mem_filter.mp hx).2
  have hb : b = adapter := by simpa using (List.mem_filter.mp hy).2
  rw [ha, hb]

/-! ### Runs -/

/-- Every connection has a client id of its own. -/
def Distinct (s : Server) : Action → Prop
  | .enter _ clientID _ => ∀ e ∈ s.connections.entries, e.2.clientID ≠ clientID
  | _ => True

instance : DecidableRel Distinct
  | s, .enter _ clientID _ =>
    inferInstanceAs (Decidable (∀ e ∈ s.connections.entries, e.2.clientID ≠ clientID))
  | _, .remove _ | _, .add _ _ | _, .exit _ => isTrue trivial

/-- The join is written to the new client and to every member of its adapter. -/
def Delivered (s : Server) : Action → Prop
  | .add k failing => ∀ c ∈ s.connections.lookup k,
      k ∉ failing ∧ ∀ e ∈ s.clients.entries, e.1.1 = c.adapter → e.2 ∉ failing
  | _ => True

instance : DecidableRel Delivered
  | s, .add k failing => inferInstanceAs (Decidable (∀ c ∈ s.connections.lookup k,
      k ∉ failing ∧ ∀ e ∈ s.clients.entries, e.1.1 = c.adapter → e.2 ∉ failing))
  | _, .remove _ | _, .enter _ _ _ | _, .exit _ => isTrue trivial

/-- The steps of different clients whose joins are delivered. -/
def DistinctDelivered (s : Server) (x : Action) : Prop := Distinct s x ∧ Delivered s x

instance : DecidableRel DistinctDelivered := fun s x =>
  inferInstanceAs (Decidable (Distinct s x ∧ Delivered s x))

/-! ### The invariant -/

/-- The clients of the adapters are exactly the connections whose `Add` has succeeded and whose `Remove` has
not run. -/
def Exact (s : Server) : Prop :=
  ∀ key k, s.clients.lookup key = some k ↔
    ∃ c, s.connections.lookup k = some c ∧ c.phase = .added ∧ (c.adapter, c.clientID) = key

structure Joined (s : Server) : Prop where
  ids : ∀ j k c d, s.connections.lookup j = some c → s.connections.lookup k = some d →
    c.clientID = d.clientID → j = k
  exact : Exact s

theorem joined_empty : Joined Server.empty := by
  refine ⟨?_, ?_⟩
  · intro j k c d h
    cases h
  · intro key k
    constructor
    · intro h
      cases h
    · rintro ⟨c, h, -⟩
      cases h

section Steps

variable {s : Server} {k : ℕ} {c : Connection}

/-- A connection that has not been added is not registered. -/
theorem Joined.not_mem (h : Joined s) (hc : s.connections.lookup k = some c) (hp : c.phase ≠ .added) :
    (c.adapter, c.clientID) ∉ s.clients := by
  intro hmem
  obtain ⟨j, hj⟩ := Option.isSome_iff_exists.mp (AList.lookup_isSome.mpr hmem)
  obtain ⟨d, hd, hdp, hkey⟩ := (h.exact _ j).mp hj
  have hid : d.clientID = c.clientID := (Prod.mk.inj hkey).2
  obtain rfl := h.ids j k d c hd hc hid
  obtain rfl := Option.some.inj (hd.symm.trans hc)
  exact hp hdp

/-- The client ids stay different when a connection changes its phase. -/
theorem Joined.ids_insert (h : Joined s) (hc : s.connections.lookup k = some c) (phase : Phase) {i j : ℕ}
    {d e : Connection} (hd : (s.connections.insert k { c with phase }).lookup i = some d)
    (he : (s.connections.insert k { c with phase }).lookup j = some e) (hid : d.clientID = e.clientID) :
    i = j := by
  have old : ∀ {i : ℕ} {d : Connection}, (s.connections.insert k { c with phase }).lookup i = some d →
      ∃ d', s.connections.lookup i = some d' ∧ d'.clientID = d.clientID := by
    intro i d hd
    rcases lookup_insert_cases hd with ⟨rfl, rfl⟩ | ⟨-, hd⟩
    · exact ⟨c, hc, rfl⟩
    · exact ⟨d, hd, rfl⟩
  obtain ⟨d', hd', hdid⟩ := old hd
  obtain ⟨e', he', heid⟩ := old he
  exact h.ids i j d' e' hd' he' (hdid.trans (hid.trans heid.symm))

/-- **When `Add` returns no error**: the writes to the new client and to all members succeed. -/
theorem delivered_iff {failing : List ℕ} (hnew : (c.adapter, c.clientID) ∉ s.clients) :
    (broadcast { s with clients := s.clients.insert (c.adapter, c.clientID) k } failing c.adapter).all
        Except.toBool = true ↔
      k ∉ failing ∧ ∀ e ∈ s.clients.entries, e.1.1 = c.adapter → e.2 ∉ failing := by
  have hself : (s.clients.insert (c.adapter, c.clientID) k).lookup (c.adapter, c.clientID) = some k :=
    AList.lookup_insert _
  have hold : ∀ e ∈ s.clients.entries,
      (s.clients.insert (c.adapter, c.clientID) k).lookup e.1 = some e.2 := by
    intro e he
    have hl : s.clients.lookup e.1 = some e.2 := AList.mem_lookup_iff.mpr he
    have hne : e.1 ≠ (c.adapter, c.clientID) := by
      intro heq
      exact hnew (heq ▸ AList.lookup_isSome.mp (hl ▸ rfl))
    rw [AList.lookup_insert_ne hne, hl]
  rw [broadcast, List.all_map, List.all_eq_true]
  constructor
  · intro h
    have hkey : ∀ key j, (s.clients.insert (c.adapter, c.clientID) k).lookup key = some j →
        key.1 = c.adapter → j ∉ failing := by
      rintro ⟨a, id⟩ j hj rfl hfail
      have hmem : (c.adapter, id) ∈ (s.clients.insert (c.adapter, c.clientID) k).keys :=
        AList.lookup_isSome.mp (hj ▸ rfl)
      have hok := h (c.adapter, id) (List.mem_filter.mpr ⟨hmem, by simp⟩)
      simp [emit, hj, hfail, Except.toBool] at hok
    exact ⟨hkey _ k hself rfl, fun e he ha => hkey e.1 e.2 (hold e he) ha⟩
  · rintro ⟨hk, hall⟩ ⟨a, id⟩ hmem
    obtain ⟨hmem, ha⟩ := List.mem_filter.mp hmem
    obtain rfl : a = c.adapter := by simpa using ha
    obtain ⟨j, hj⟩ := Option.isSome_iff_exists.mp (AList.lookup_isSome.mpr hmem)
    have hok : j ∉ failing := by
      rcases lookup_insert_cases hj with ⟨-, rfl⟩ | ⟨-, hj⟩
      · exact hk
      · exact hall ⟨(c.adapter, id), j⟩ (AList.mem_lookup_iff.mp hj) rfl
    simp [emit, hj, hok, Except.toBool]

theorem Joined.enter {clientID room : String} {manager : Manager} (h : Joined s) (hk : k ∉ s.connections)
    (hid : ∀ e ∈ s.connections.entries, e.2.clientID ≠ clientID) :
    Joined { s with
      manager
      connections := s.connections.insert k ⟨clientID, room, (Room.enter s.manager room).2, .entered⟩ } := by
  have hother : ∀ j d, s.connections.lookup j = some d → d.clientID ≠ clientID := fun j d hd =>
    hid ⟨j, d⟩ (AList.mem_lookup_iff.mp hd)
  refine ⟨?_, ?_⟩
  · intro i j d e hd he hde
    rcases lookup_insert_cases hd with ⟨rfl, rfl⟩ | ⟨-, hd⟩
    · rcases lookup_insert_cases he with ⟨hj, -⟩ | ⟨-, he⟩
      · exact hj.symm
      · exact absurd hde.symm (hother j e he)
    · rcases lookup_insert_cases he with ⟨-, rfl⟩ | ⟨-, he⟩
      · exact absurd hde (hother i d hd)
      · exact h.ids i j d e hd he hde
  · intro key j
    refine (h.exact key j).trans ?_
    constructor
    · rintro ⟨d, hd, hdp, hkey⟩
      have hne : j ≠ k := by
        rintro rfl
        exact hk (AList.lookup_isSome.mp (hd ▸ rfl))
      exact ⟨d, by rw [AList.lookup_insert_ne hne, hd], hdp, hkey⟩
    · rintro ⟨d, hd, hdp, hkey⟩
      rcases lookup_insert_cases hd with ⟨-, rfl⟩ | ⟨-, hd⟩
      · cases hdp
      · exact ⟨d, hd, hdp, hkey⟩

/-- An `Add` without an error. -/
theorem Joined.added (h : Joined s) (hc : s.connections.lookup k = some c) (hp : c.phase = .entered) :
    Joined { s with
      clients := s.clients.insert (c.adapter, c.clientID) k
      connections := s.connections.insert k { c with phase := .added } } := by
  have hnew := h.not_mem hc (by simp [hp])
  refine ⟨fun _ _ _ _ => h.ids_insert hc _, fun key j => ?_⟩
  constructor
  · intro hj
    rcases lookup_insert_cases hj with ⟨rfl, rfl⟩ | ⟨-, hj⟩
    · exact ⟨_, AList.lookup_insert _, rfl, rfl⟩
    · obtain ⟨d, hd, hdp, hkey⟩ := (h.exact key j).mp hj
      have hne : j ≠ k := by
        rintro rfl
        obtain rfl := Option.some.inj (hc.symm.trans hd)
        rw [hp] at hdp
        cases hdp
      exact ⟨d, by rw [AList.lookup_insert_ne hne, hd], hdp, hkey⟩
  · rintro ⟨d, hd, hdp, rfl⟩
    rcases lookup_insert_cases hd with ⟨rfl, rfl⟩ | ⟨-, hd⟩
    · exact AList.lookup_insert _
    · have hj := (h.exact _ j).mpr ⟨d, hd, hdp, rfl⟩
      have hne : (d.adapter, d.clientID) ≠ (c.adapter, c.clientID) := by
        intro heq
        exact hnew (heq ▸ AList.lookup_isSome.mp (hj ▸ rfl))
      rw [AList.lookup_insert_ne hne, hj]

theorem Joined.remove (h : Joined s) (hc : s.connections.lookup k = some c) :
    Joined { s with
      clients := s.clients.erase (c.adapter, c.clientID)
      connections := s.connections.insert k { c with phase := .removed } } := by
  refine ⟨fun _ _ _ _ => h.ids_insert hc _, fun key j => ?_⟩
  constructor
  · intro hj
    obtain ⟨hkey', hj⟩ := lookup_of_lookup_erase hj
    obtain ⟨d, hd, hdp, hkey⟩ := (h.exact key j).mp hj
    have hne : j ≠ k := by
      rintro rfl
      obtain rfl := Option.some.inj (hc.symm.trans hd)
      exact hkey' hkey.symm
    exact ⟨d, by rw [AList.lookup_insert_ne hne, hd], hdp, hkey⟩
  · rintro ⟨d, hd, hdp, rfl⟩
    rcases lookup_insert_cases hd with ⟨-, rfl⟩ | ⟨hne, hd⟩
    · cases hdp
    · have hid : (d.adapter, d.clientID) ≠ (c.adapter, c.clientID) := fun heq =>
        hne (h.ids j k d c hd hc (Prod.mk.inj heq).2)
      rw [AList.lookup_erase_ne hid]
      exact (h.exact _ j).mpr ⟨d, hd, hdp, rfl⟩

theorem Joined.exit {manager : Manager} (h : Joined s) (hc : s.connections.lookup k = some c)
    (hp : c.phase ≠ .added) :
    Joined { s with manager, connections := s.connections.insert k { c with phase := .exited } } := by
  refine ⟨fun _ _ _ _ => h.ids_insert hc _, fun key j => ?_⟩
  refine (h.exact key j).trans ?_
  constructor
  · rintro ⟨d, hd, hdp, hkey⟩
    have hne : j ≠ k := by
      rintro rfl
      obtain rfl := Option.some.inj (hc.symm.trans hd)
      exact hp hdp
    exact ⟨d, by rw [AList.lookup_insert_ne hne, hd], hdp, hkey⟩
  · rintro ⟨d, hd, hdp, hkey⟩
    rcases lookup_insert_cases hd with ⟨-, rfl⟩ | ⟨-, hd⟩
    · cases hdp
    · exact ⟨d, hd, hdp, hkey⟩

end Steps

/-- `add` with its outcome spelled out, for a client that is not registered yet. -/
theorem add_eq {s : Server} {k : ℕ} {c : Connection} {failing : List ℕ}
    (hc : s.connections.lookup k = some c) (hnew : (c.adapter, c.clientID) ∉ s.clients) :
    add s failing k c = { s with
      clients := s.clients.insert (c.adapter, c.clientID) k
      connections := s.connections.insert k
        { c with phase := if Delivered s (.add k failing) then .added else .failed } } := by
  have hiff : Delivered s (.add k failing) ↔
      k ∉ failing ∧ ∀ e ∈ s.clients.entries, e.1.1 = c.adapter → e.2 ∉ failing := by
    show (∀ d ∈ s.connections.lookup k, _) ↔ _
    simp only [hc, Option.mem_some_iff, forall_eq']
  unfold add
  simp only [delivered_iff hnew, hiff]

/-- **Step lemma.** -/
theorem Joined.step {s s' : Server} {x : Action} (h : Joined s) (hok : DistinctDelivered s x)
    (hs : step s x = some s') : Joined s' := by
  cases x with
  | add k failing =>
    obtain ⟨c, hc, hp, rfl⟩ : ∃ c, s.connections.lookup k = some c ∧ c.phase = .entered ∧
        add s failing k c = s' := by
      simp only [Sockets.step] at hs
      cases hc : s.connections.lookup k with
      | none => simp [hc] at hs
      | some c =>
        simp only [hc] at hs
        split_ifs at hs with hp
        exact ⟨c, rfl, hp, Option.some.inj hs⟩
    rw [add_eq hc (h.not_mem hc (by simp [hp])), if_pos hok.2]
    exact h.added hc hp
  | enter k clientID room =>
    cases stepped_of_step hs with
    | enter hk _ => exact h.enter hk hok.1
  | remove k =>
    cases stepped_of_step hs with
    | remove hc _ => exact h.remove hc
  | exit k =>
    cases stepped_of_step hs with
    | exit hc hp _ => exact h.exit hc (by rcases hp with hp | hp <;> simp [hp])

/-! ### No trace of a failed join -/

/-- The connections that an adapter is to know: `Add` has succeeded and `Remove` has not run. -/
def joined (s : Server) (adapter : ℕ) : List String :=
  (s.connections.entries.filter fun e => e.2.phase = .added ∧ e.2.adapter = adapter).map (·.2.clientID)

structure NoTrace (s : Server) : Prop where
  exact : Exact s
  clients : ∀ adapter, (clients s adapter).Perm (joined s adapter)
  size : ∀ adapter, size s adapter = (joined s adapter).length
  /-- Nobody else is listed, nor written to by a broadcast. -/
  others : ∀ k c, s.connections.lookup k = some c → c.phase ≠ .added → ∀ adapter,
    c.clientID ∉ Sockets.clients s adapter ∧ ∀ failing, ∀ r ∈ broadcast s failing adapter, written r ≠ some k

/-- A broadcast writes to the sockets of registered clients. -/
theorem lookup_of_written {s : Server} {failing : List ℕ} {adapter k : ℕ} {r : Except EmitError ℕ}
    (hr : r ∈ broadcast s failing adapter) (hw : written r = some k) :
    ∃ clientID, s.clients.lookup (adapter, clientID) = some k := by
  obtain ⟨key, -, rfl⟩ := List.mem_map.mp hr
  refine ⟨key.2, ?_⟩
  unfold emit at hw
  cases hl : s.clients.lookup (adapter, key.2) with
  | none =>
    rw [hl] at hw
    cases hw
  | some socket =>
    rw [hl] at hw
    simp only at hw
    split_ifs at hw <;> exact hw

theorem Joined.perm_joined {s : Server} (h : Joined s) (adapter : ℕ) :
    (clients s adapter).Perm (joined s adapter) := by
  have hjoined : ∀ clientID, clientID ∈ joined s adapter ↔ ∃ k c, s.connections.lookup k = some c ∧
      c.phase = .added ∧ c.adapter = adapter ∧ c.clientID = clientID := by
    intro clientID
    unfold joined
    constructor
    · intro hmem
      obtain ⟨e, he, rfl⟩ := List.mem_map.mp hmem
      obtain ⟨he, hp⟩ := List.mem_filter.mp he
      have hp : e.2.phase = .added ∧ e.2.adapter = adapter := by simpa using hp
      exact ⟨e.1, e.2, AList.mem_lookup_iff.mpr he, hp.1, hp.2, rfl⟩
    · rintro ⟨k, c, hc, hp, ha, rfl⟩
      refine List.mem_map.mpr ⟨⟨k, c⟩, List.mem_filter.mpr ⟨AList.mem_lookup_iff.mp hc, ?_⟩, rfl⟩
      simp [hp, ha]
  have hnodup : (joined s adapter).Nodup := by
    refine List.Nodup.map_on ?_ (List.Nodup.filter _ (List.NodupKeys.nodup s.connections.nodupKeys))
    intro x hx y hy hxy
    have hx' : s.connections.lookup x.1 = some x.2 :=
      AList.mem_lookup_iff.mpr (List.mem_filter.mp hx).1
    have hy' : s.connections.lookup y.1 = some y.2 :=
      AList.mem_lookup_iff.mpr (List.mem_filter.mp hy).1
    have hk : x.1 = y.1 := h.ids x.1 y.1 x.2 y.2 hx' hy' hxy
    rw [hk, hy', Option.some.injEq] at hx'
    exact Sigma.ext hk (heq_of_eq hx'.symm)
  refine (List.perm_ext_iff_of_nodup (nodup_clients s adapter) hnodup).mpr fun clientID => ?_
  rw [mem_clients, hjoined]
  constructor
  · intro hmem
    obtain ⟨k, hk⟩ := Option.isSome_iff_exists.mp (AList.lookup_isSome.mpr hmem)
    obtain ⟨c, hc, hp, hkey⟩ := (h.exact _ k).mp hk
    obtain ⟨ha, hid⟩ := Prod.mk.inj hkey
    exact ⟨k, c, hc, hp, ha, hid⟩
  · rintro ⟨k, c, hc, hp, rfl, rfl⟩
    have hk := (h.exact _ k).mpr ⟨c, hc, hp, rfl⟩
    exact AList.lookup_isSome.mp (hk ▸ rfl)

theorem Joined.noTrace {s : Server} (h : Joined s) : NoTrace s := by
  refine ⟨h.exact, h.perm_joined, fun adapter => (h.perm_joined adapter).length_eq, ?_⟩
  intro k c hc hp adapter
  have hnot : ∀ clientID, s.clients.lookup (adapter, clientID) ≠ some k := by
    intro clientID hk
    obtain ⟨d, hd, hdp, -⟩ := (h.exact _ k).mp hk
    obtain rfl := Option.some.inj (hc.symm.trans hd)
    exact hp hdp
  refine ⟨fun hmem => ?_, fun failing r hr hw => ?_⟩
  · obtain ⟨j, hj⟩ := Option.isSome_iff_exists.mp (AList.lookup_isSome.mpr (mem_clients.mp hmem))
    obtain ⟨d, hd, -, hkey⟩ := (h.exact _ j).mp hj
    obtain rfl := h.ids j k d c hd hc (Prod.mk.inj hkey).2
    exact hnot c.clientID hj
  · obtain ⟨clientID, hk⟩ := lookup_of_written hr hw
    exact hnot clientID hk

/-- An `Add` that returns an error has left the clients as they were. -/
def FailsClean (s s' : Server) (k : ℕ) : Prop :=
  ∀ c ∈ s'.connections.lookup k, c.phase = .failed → s'.clients = s.clients

theorem Joined.failsClean_iff {s s' : Server} {k : ℕ} {failing : List ℕ} (h : Joined s)
    (hs : Sockets.step s (.add k failing) = some s') :
    FailsClean s s' k ↔ Delivered s (.add k failing) := by
  simp only [Sockets.step] at hs
  cases hc : s.connections.lookup k with
  | none => simp [hc] at hs
  | some c =>
    simp only [hc] at hs
    split_ifs at hs with hp
    have hnew := h.not_mem hc (by simp [hp])
    obtain rfl := Option.some.inj hs
    rw [add_eq hc hnew]
    unfold FailsClean
    simp only [AList.lookup_insert, Option.mem_some_iff, forall_eq']
    constructor
    · -- A failing `Add` has registered a client that was not registered before.
      intro hclean
      by_contra hdel
      have hsame := hclean (if_neg hdel)
      exact hnew (hsame ▸ (AList.mem_insert _).mpr (Or.inl rfl))
    · intro hdel hfailed
      rw [if_pos hdel] at hfailed
      cases hfailed

/-- **No trace of a failed join, where the joins are delivered**: along every run of different clients in which
every join is written to all members, the clients of the adapters are exactly the connections between `Add` and
`Remove`, and that an `Add` leaves no trace in the case of an error holds of the next one exactly if it is
delivered, too. -/
theorem failed_join_no_trace {s : Server} (h : Reach step DistinctDelivered Server.empty s) :
    NoTrace s ∧ ∀ k failing s', step s (.add k failing) = some s' →
      (FailsClean s s' k ↔ Delivered s (.add k failing)) := by
  have hJ := Reach.invariant (I := Joined) joined_empty (fun _ _ _ hI hok hs => hI.step hok hs) h
  exact ⟨hJ.noTrace, fun _ _ _ hs => hJ.failsClean_iff hs⟩

/-- Two clients join, one of them leaves; the broadcast of a third one would fail. -/
theorem failed_join_no_trace_example : ∃ s, exec (guarded step DistinctDelivered) Server.empty
      [.enter 0 "a" "r", .enter 1 "b" "r", .add 1 [0], .add 0 [], .remove 1, .exit 1, .enter 2 "c" "r"] =
        some s ∧
    (clients s 0 = ["a"] ∧ ¬ Delivered s (.add 2 [0])) ∧ NoTrace s :=
  exists_exec (by decide) fun _ hs _ => (failed_join_no_trace hs).1

/-- The socket of `a` is broken when `b` joins: `b` is closed, and stays in the room. -/
theorem failed_join_leaves_client : ∃ s, exec (guarded step Distinct) Server.empty
      [.enter 0 "a" "r", .add 0 [], .enter 1 "b" "r", .add 1 [0], .exit 1] = some s ∧
    ((∃ c ∈ s.connections.lookup 1, c.phase = .exited ∧ c.clientID = "b") ∧
      clients s 0 = ["b", "a"] ∧ size s 0 = 2 ∧ .ok 1 ∈ broadcast s [0] 0) ∧
    ¬ NoTrace s := by
  refine exists_exec (by decide) fun s _ hq h => ?_
  obtain ⟨⟨c, hc, hp, hid⟩, hclients, -⟩ := hq
  refine (h.others 1 c hc (by simp [hp]) 0).1 ?_
  rw [hclients, hid]
  decide

end Meeting.Room.Sockets
