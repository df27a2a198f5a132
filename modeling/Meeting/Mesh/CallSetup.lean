import Meeting.Lib.Lists
import Meeting.Lib.Runs

/-!
# Meeting.Mesh.CallSetup — who calls whom in a mesh room (`mesh.go`, `SocketActions.ts`)

A client dials: it attaches its listeners and sends `ready`.  The server handles this message in three
steps (set the nickname, read the ready clients, broadcast `users`), which interleave with those of other
clients.  Everyone in the room receives the broadcasts in the order they are made, at its own pace, and creates a
peer for every listed client it has none for; it is the initiator if the message was made for it.

Two clients agree on their roles when both create the peer at the same broadcast, made for one of them:

* `roles_agree`: along the runs in which no client creates a peer at any other broadcast (`InTurn`), once
  everything is handled every two ready clients have a peer for each other and one of them is
  the initiator;
* `roles_deadlock`: two clients that dial at the same time both wait for the other.
-/

namespace Meeting.Mesh.CallSetup

open Lib

/-! ### State -/

/-- The `users` message. -/
structure Users where
  initiator : String
  peerIds : List String
  deriving DecidableEq, Repr

/-- Where the server is with the `ready` message of a client. -/
inductive Phase where
  | idle
  | sent (nickname : String)
  /-- The nickname is set. -/
  | marked
  /-- The ready clients are read. -/
  | read (clients : List String)
  | done
  deriving DecidableEq, Repr

/-- A client in the room: what the server and the browser know of it. -/
structure Client where
  /-- The metadata in the adapter. -/
  nickname : String
  phase : Phase
  attached : Bool
  /-- How many of the broadcasts it has received, or missed before it connected. -/
  handled : ℕ
  /-- The peers it has created, and whether as the initiator. -/
  peers : AList fun _ : String => Bool

structure Room where
  clients : AList fun _ : String => Client
  broadcasts : List Users

def Room.empty : Room := ⟨∅, []⟩

/-! ### Steps -/

/-- `getReadyClients`, the ids of the clients with a nickname. -/
def getReadyClients (r : Room) : List String :=
  (r.clients.entries.filter fun x => x.2.nickname ≠ "").map fun x => x.1

/-- `handleUsers`: a peer for every listed client that has none. -/
def handleUsers (userId : String) (m : Users) (peers : AList fun _ : String => Bool) :
    AList fun _ : String => Bool :=
  let isInitiator : Bool := m.initiator = userId
  (m.peerIds.filter fun peerId => peers.lookup peerId = none ∧ peerId ≠ userId).foldl
    (fun peers peerId => peers.insert peerId isInitiator) peers

inductive Action where
  | connect (clientID : String)
  /-- `handshake`: attach the listeners and send `ready`. -/
  | dial (clientID nickname : String)
  | setMetadata (clientID : String)
  | readClients (clientID : String)
  | broadcast (clientID : String)
  /-- The client receives its next broadcast. -/
  | deliver (clientID : String)
  deriving DecidableEq, Repr

def step (r : Room) : Action → Option Room
  | .connect clientID =>
    match r.clients.lookup clientID with
    | some _ => none
    | none => some { r with clients := r.clients.insert clientID ⟨"", .idle, false, r.broadcasts.length, ∅⟩ }
  | .dial clientID nickname => (r.clients.lookup clientID).bind fun x =>
    match x.phase with
    | .idle =>
      some { r with clients := r.clients.insert clientID { x with phase := .sent nickname, attached := true } }
    | _ => none
  | .setMetadata clientID => (r.clients.lookup clientID).bind fun x =>
    match x.phase with
    | .sent nickname => some { r with clients := r.clients.insert clientID { x with nickname, phase := .marked } }
    | _ => none
  | .readClients clientID => (r.clients.lookup clientID).bind fun x =>
    match x.phase with
    | .marked =>
      some { r with clients := r.clients.insert clientID { x with phase := .read (getReadyClients r) } }
    | _ => none
  | .broadcast clientID => (r.clients.lookup clientID).bind fun x =>
    match x.phase with
    | .read clients =>
      some ⟨r.clients.insert clientID { x with phase := .done }, r.broadcasts ++ [⟨clientID, clients⟩]⟩
    | _ => none
  | .deliver clientID => (r.clients.lookup clientID).bind fun x =>
    match r.broadcasts[x.handled]? with
    | none => none
    | some m =>
      let peers := if x.attached then handleUsers clientID m x.peers else x.peers
      some { r with clients := r.clients.insert clientID { x with handled := x.handled + 1, peers } }

/-- What a step can do. -/
inductive Stepped (r : Room) : Action → Room → Prop
  | connect {c : String} : r.clients.lookup c = none → Stepped r (.connect c)
      { r with clients := r.clients.insert c ⟨"", .idle, false, r.broadcasts.length, ∅⟩ }
  | dial {c n : String} {x : Client} : r.clients.lookup c = some x → x.phase = .idle → Stepped r (.dial c n)
      { r with clients := r.clients.insert c { x with phase := .sent n, attached := true } }
  | setMetadata {c n : String} {x : Client} : r.clients.lookup c = some x → x.phase = .sent n →
      Stepped r (.setMetadata c)
        { r with clients := r.clients.insert c { x with nickname := n, phase := .marked } }
  | readClients {c : String} {x : Client} : r.clients.lookup c = some x → x.phase = .marked →
      Stepped r (.readClients c)
        { r with clients := r.clients.insert c { x with phase := .read (getReadyClients r) } }
  | broadcast {c : String} {x : Client} {l : List String} : r.clients.lookup c = some x →
      x.phase = .read l → Stepped r (.broadcast c)
        ⟨r.clients.insert c { x with phase := .done }, r.broadcasts ++ [⟨c, l⟩]⟩
  | deliver {c : String} {x : Client} {m : Users} : r.clients.lookup c = some x →
      r.broadcasts[x.handled]? = some m → Stepped r (.deliver c)
        { r with clients := r.clients.insert c { x with
          handled := x.handled + 1
          peers := if x.attached then handleUsers c m x.peers else x.peers } }

theorem stepped_of_step {r r' : Room} {a : Action} (hs : step r a = some r') : Stepped r a r' := by
  cases a with
  | connect c =>
    simp only [step] at hs
    cases hx : r.clients.lookup c with
    | some x => simp [hx] at hs
    | none =>
      rw [hx] at hs
      obtain rfl := Option.some.inj hs
      exact .connect hx
  | dial c n =>
    obtain ⟨x, hx, hs⟩ := Option.bind_eq_some_iff.mp hs
    cases hp : x.phase <;> simp only [hp, reduceCtorEq, Option.some.injEq] at hs
    exact hs ▸ .dial hx hp
  | setMetadata c =>
    obtain ⟨x, hx, hs⟩ := Option.bind_eq_some_iff.mp hs
    cases hp : x.phase <;> simp only [hp, reduceCtorEq, Option.some.injEq] at hs
    exact hs ▸ .setMetadata hx hp
  | readClients c =>
    obtain ⟨x, hx, hs⟩ := Option.bind_eq_some_iff.mp hs
    cases hp : x.phase <;> simp only [hp, reduceCtorEq, Option.some.injEq] at hs
    exact hs ▸ .readClients hx hp
  | broadcast c =>
    obtain ⟨x, hx, hs⟩ := Option.bind_eq_some_iff.mp hs
    cases hp : x.phase <;> simp only [hp, reduceCtorEq, Option.some.injEq] at hs
    exact hs ▸ .broadcast hx hp
  | deliver c =>
    obtain ⟨x, hx, hs⟩ := Option.bind_eq_some_iff.mp hs
    cases hm : r.broadcasts[x.handled]? with
    | none => simp [hm] at hs
    | some m =>
      simp only [hm, Option.some.injEq] at hs
      exact hs ▸ .deliver hx hm

/-! ### Peers after a message -/

theorem lookup_foldl_insert (ids : List String) (b : Bool) : ∀ (peers : AList fun _ : String => Bool)
    (y : String), (ids.foldl (fun peers peerId => peers.insert peerId b) peers).lookup y =
      if y ∈ ids then some b else peers.lookup y := by
  induction ids with
  | nil => exact fun _ _ => by simp
  | cons id ids ih =>
    intro peers y
    rw [List.foldl_cons, ih]
    by_cases hy : y = id
    · subst hy
      simp
    · simp [hy, AList.lookup_insert_ne hy]

/-- `handleUsers` keeps the peers there are, and creates those that are listed. -/
theorem lookup_handleUsers (c : String) (m : Users) (peers : AList fun _ : String => Bool) (y : String) :
    (handleUsers c m peers).lookup y = if peers.lookup y = none ∧ y ≠ c ∧ y ∈ m.peerIds then
      some (decide (m.initiator = c)) else peers.lookup y := by
  unfold handleUsers
  rw [lookup_foldl_insert]
  simp only [List.mem_filter, decide_eq_true_eq]
  by_cases h1 : peers.lookup y = none <;> by_cases h2 : y = c <;> by_cases h3 : y ∈ m.peerIds <;>
    simp [h1, h2, h3]

/-! ### Ready clients -/

/-- The client has a nickname. -/
def Named (r : Room) (c : String) : Prop := ∃ x, r.clients.lookup c = some x ∧ x.nickname ≠ ""

theorem mem_getReadyClients {r : Room} {c : String} : c ∈ getReadyClients r ↔ Named r c := by
  simp only [getReadyClients, List.mem_map, List.mem_filter, decide_eq_true_eq]
  constructor
  · rintro ⟨⟨c, x⟩, ⟨hmem, hn⟩, rfl⟩
    exact ⟨x, AList.mem_lookup_iff.mpr hmem, hn⟩
  · rintro ⟨x, hx, hn⟩
    exact ⟨⟨c, x⟩, ⟨AList.mem_lookup_iff.mp hx, hn⟩, rfl⟩

/-- The `ready` message of a client has not been handled at all. -/
def Phase.Early : Phase → Prop
  | .idle | .sent _ => True
  | _ => False

/-- The server is about to broadcast a message for `c` that lists `c` and `d`. -/
def Pending (r : Room) (c d : String) : Prop :=
  ∃ x, r.clients.lookup c = some x ∧ (x.phase = .marked ∨ ∃ l, x.phase = .read l ∧ c ∈ l ∧ d ∈ l)

/-- A message that lists both clients. -/
def Users.Lists (m : Users) (c d : String) : Prop := c ∈ m.peerIds ∧ d ∈ m.peerIds

/-- What the server has told and is about to tell. -/
structure Told (r : Room) : Prop where
  early : ∀ {c x}, r.clients.lookup c = some x → x.phase.Early → x.nickname = ""
  attached : ∀ {c x}, r.clients.lookup c = some x → x.phase ≠ .idle → x.attached = true
  listed : ∀ {m c}, m ∈ r.broadcasts → c ∈ m.peerIds → Named r c
  sender : ∀ {m}, m ∈ r.broadcasts → ∃ x, r.clients.lookup m.initiator = some x ∧ x.phase = .done ∧
    (x.nickname ≠ "" → m.initiator ∈ m.peerIds)
  reading : ∀ {c x l}, r.clients.lookup c = some x → x.phase = .read l →
    (∀ d ∈ l, Named r d) ∧ (x.nickname ≠ "" → c ∈ l)
  covered : ∀ {c d}, Named r c → Named r d → c ≠ d →
    (∃ m ∈ r.broadcasts, m.Lists c d) ∨ Pending r c d ∨ Pending r d c

theorem told_empty : Told Room.empty := by
  refine ⟨?_, ?_, ?_, ?_, ?_, ?_⟩
  · intro c x h
    cases h
  · intro c x h
    cases h
  · intro m c h
    cases h
  · intro m h
    cases h
  · intro c x l h
    cases h
  · rintro c d ⟨x, hx, -⟩
    cases hx

section Told

variable {r r' : Room} {a : Action} {c : String} {x x' : Client}

/-- Nicknames stay. -/
theorem Named.insert {d : String} {l : List Users} (h : Named r d) (hx : r.clients.lookup c = some x)
    (hn : x.nickname ≠ "" → x'.nickname ≠ "") : Named ⟨r.clients.insert c x', l⟩ d := by
  obtain ⟨y, hy, hne⟩ := h
  by_cases hd : d = c
  · subst hd
    rw [hx, Option.some.injEq] at hy
    exact ⟨x', AList.lookup_insert _, hn (hy ▸ hne)⟩
  · exact ⟨y, by rw [AList.lookup_insert_ne hd, hy], hne⟩

theorem Named.of_insert {d : String} {l : List Users} (h : Named ⟨r.clients.insert c x', l⟩ d)
    (hx : r.clients.lookup c = some x) (hn : x'.nickname = x.nickname) : Named r d := by
  obtain ⟨y, hy, hne⟩ := h
  rcases lookup_insert_cases hy with ⟨rfl, rfl⟩ | ⟨-, hy⟩
  · exact ⟨x, hx, hn ▸ hne⟩
  · exact ⟨y, hy, hne⟩

/-- What is pending for other clients than the one that moves stays so. -/
theorem Pending.insert {d e : String} {l : List Users} (h : Pending r d e) (hd : d ≠ c) :
    Pending ⟨r.clients.insert c x', l⟩ d e := by
  obtain ⟨y, hy, hp⟩ := h
  exact ⟨y, by rw [AList.lookup_insert_ne hd, hy], hp⟩

theorem Told.early_insert (h : Told r) (hx' : x'.phase.Early → x'.nickname = "") {d : String} {y : Client}
    (hy : (r.clients.insert c x').lookup d = some y) (hearly : y.phase.Early) : y.nickname = "" := by
  rcases lookup_insert_cases hy with ⟨-, rfl⟩ | ⟨-, hy⟩
  · exact hx' hearly
  · exact h.early hy hearly

theorem Told.attached_insert (h : Told r) (hx' : x'.phase ≠ .idle → x'.attached = true) {d : String}
    {y : Client} (hy : (r.clients.insert c x').lookup d = some y) (hne : y.phase ≠ .idle) :
    y.attached = true := by
  rcases lookup_insert_cases hy with ⟨-, rfl⟩ | ⟨-, hy⟩
  · exact hx' hne
  · exact h.attached hy hne

/-- A client that is not done has sent no message. -/
theorem Told.sender_insert (h : Told r) (hc : ∀ y, r.clients.lookup c = some y → y.phase ≠ .done) {m : Users}
    (hm : m ∈ r.broadcasts) : ∃ y, (r.clients.insert c x').lookup m.initiator = some y ∧ y.phase = .done ∧
      (y.nickname ≠ "" → m.initiator ∈ m.peerIds) := by
  obtain ⟨y, hy, hdone, hself⟩ := h.sender hm
  have hne : m.initiator ≠ c := fun hinit => hc y (hinit ▸ hy) hdone
  exact ⟨y, by rw [AList.lookup_insert_ne hne, hy], hdone, hself⟩

theorem Told.reading_insert (h : Told r) {new : List Users} (hx' : ∀ l, x'.phase ≠ .read l)
    (hnamed : ∀ {d}, Named r d → Named ⟨r.clients.insert c x', new⟩ d) {d : String} {y : Client}
    {l : List String} (hy : (r.clients.insert c x').lookup d = some y) (hl : y.phase = .read l) :
    (∀ e ∈ l, Named ⟨r.clients.insert c x', new⟩ e) ∧ (y.nickname ≠ "" → d ∈ l) := by
  rcases lookup_insert_cases hy with ⟨-, rfl⟩ | ⟨-, hy⟩
  · exact absurd hl (hx' l)
  · obtain ⟨h1, h2⟩ := h.reading hy hl
    exact ⟨fun e he => hnamed (h1 e he), h2⟩

/-- Moves of one client that tell nothing new: dialling, reading the ready clients, receiving. -/
theorem Told.move (h : Told r) (hx : r.clients.lookup c = some x) (hn : x'.nickname = x.nickname)
    (hearly : x'.phase.Early → x.phase.Early) (hatt : x'.phase ≠ .idle → x'.attached = true)
    (hdone : x.phase = .done → x'.phase = .done)
    (hread : ∀ l, x'.phase = .read l → x.phase = .read l ∨ l = getReadyClients r)
    (hmarked : x.phase = .marked → x'.phase = .marked ∨ x'.phase = .read (getReadyClients r))
    (hkeep : ∀ l, x.phase = .read l → x'.phase = .read l) :
    Told ⟨r.clients.insert c x', r.broadcasts⟩ := by
  have hnamed : ∀ {d}, Named r d → Named ⟨r.clients.insert c x', r.broadcasts⟩ d :=
    fun hd => hd.insert hx (by rw [hn]; exact id)
  have hpend : ∀ {d e}, Named r d → Named r e → Pending r d e →
      Pending ⟨r.clients.insert c x', r.broadcasts⟩ d e := by
    intro d e hd he hp
    by_cases hdc : d = c
    · subst hdc
      obtain ⟨y, hy, hphase⟩ := hp
      rw [hx, Option.some.injEq] at hy
      subst hy
      refine ⟨x', AList.lookup_insert _, ?_⟩
      rcases hphase with hphase | ⟨l, hphase, hl⟩
      · exact (hmarked hphase).imp_right fun hr =>
          ⟨_, hr, mem_getReadyClients.mpr hd, mem_getReadyClients.mpr he⟩
      · exact Or.inr ⟨l, hkeep l hphase, hl⟩
    · exact hp.insert hdc
  refine ⟨h.early_insert fun hp => hn.trans (h.early hx (hearly hp)), h.attached_insert hatt,
    fun hm hc => hnamed (h.listed hm hc), ?_, ?_, ?_⟩
  · intro m hm
    obtain ⟨y, hy, hphase, hself⟩ := h.sender hm
    by_cases hc : m.initiator = c
    · rw [hc, hx, Option.some.injEq] at hy
      subst hy
      exact ⟨x', by rw [hc]; exact AList.lookup_insert _, hdone hphase, by rw [hn]; exact hself⟩
    · exact ⟨y, by rw [AList.lookup_insert_ne hc, hy], hphase, hself⟩
  · intro d y l hy hphase
    rcases lookup_insert_cases hy with ⟨rfl, rfl⟩ | ⟨-, hy⟩
    · rcases hread l hphase with hold | rfl
      · obtain ⟨h1, h2⟩ := h.reading hx hold
        exact ⟨fun e he => hnamed (h1 e he), by rw [hn]; exact h2⟩
      · exact ⟨fun e he => hnamed (mem_getReadyClients.mp he),
          fun hne => mem_getReadyClients.mpr ⟨x, hx, hn ▸ hne⟩⟩
    · obtain ⟨h1, h2⟩ := h.reading hy hphase
      exact ⟨fun e he => hnamed (h1 e he), h2⟩
  · intro d e hd he hne
    have hd' := hd.of_insert hx hn
    have he' := he.of_insert hx hn
    rcases h.covered hd' he' hne with hm | hp | hp
    · exact Or.inl hm
    · exact Or.inr (Or.inl (hpend hd' he' hp))
    · exact Or.inr (Or.inr (hpend he' hd' hp))

theorem Told.setMetadata (h : Told r) {n : String} (hx : r.clients.lookup c = some x)
    (hphase : x.phase = .sent n) :
    Told ⟨r.clients.insert c { x with nickname := n, phase := .marked }, r.broadcasts⟩ := by
  have hnick : x.nickname = "" := h.early hx (by rw [hphase]; trivial)
  have hatt : x.attached = true := h.attached hx (by simp [hphase])
  have hc : ∀ y, r.clients.lookup c = some y → y.phase ≠ .done := by
    intro y hy
    rw [hx, Option.some.injEq] at hy
    simp [← hy, hphase]
  have hnamed : ∀ {d}, Named r d →
      Named ⟨r.clients.insert c { x with nickname := n, phase := .marked }, r.broadcasts⟩ d :=
    fun hd => hd.insert hx fun hne => absurd hnick hne
  refine ⟨h.early_insert ?_, h.attached_insert ?_, fun hm hc => hnamed (h.listed hm hc), h.sender_insert hc,
    h.reading_insert (by simp) hnamed, ?_⟩
  · exact False.elim
  · exact fun _ => hatt
  -- the new client reads the ready clients after all others have their nicknames
  have hnew : ∀ e, Pending ⟨r.clients.insert c { x with nickname := n, phase := .marked }, r.broadcasts⟩ c e :=
    fun e => ⟨_, AList.lookup_insert _, Or.inl rfl⟩
  have hold : ∀ {d}, Named ⟨r.clients.insert c { x with nickname := n, phase := .marked }, r.broadcasts⟩ d →
      d ≠ c → Named r d := by
    rintro d ⟨y, hy, hne⟩ hd
    exact ⟨y, ((lookup_insert_cases hy).resolve_left fun h' => hd h'.1).2, hne⟩
  intro d e hd he hne
  by_cases hdc : d = c
  · subst hdc
    exact Or.inr (Or.inl (hnew e))
  · by_cases hec : e = c
    · subst hec
      exact Or.inr (Or.inr (hnew d))
    · rcases h.covered (hold hd hdc) (hold he hec) hne with hm | hp | hp
      · exact Or.inl hm
      · exact Or.inr (Or.inl (hp.insert hdc))
      · exact Or.inr (Or.inr (hp.insert hec))

theorem Told.broadcast (h : Told r) {l : List String} (hx : r.clients.lookup c = some x)
    (hphase : x.phase = .read l) :
    Told ⟨r.clients.insert c { x with phase := .done }, r.broadcasts ++ [⟨c, l⟩]⟩ := by
  obtain ⟨hl, hself⟩ := h.reading hx hphase
  have hatt : x.attached = true := h.attached hx (by simp [hphase])
  have hnamed : ∀ {d}, Named r d →
      Named ⟨r.clients.insert c { x with phase := .done }, r.broadcasts ++ [⟨c, l⟩]⟩ d :=
    fun hd => hd.insert hx id
  have hc : ∀ y, r.clients.lookup c = some y → y.phase ≠ .done := by
    intro y hy
    rw [hx, Option.some.injEq] at hy
    simp [← hy, hphase]
  refine ⟨h.early_insert ?_, h.attached_insert ?_, ?_, ?_, h.reading_insert (by simp) hnamed, ?_⟩
  · exact False.elim
  · exact fun _ => hatt
  · intro m d hm hd
    rcases List.mem_append.mp hm with hm | hm
    · exact hnamed (h.listed hm hd)
    · obtain rfl := List.mem_singleton.mp hm
      exact hnamed (hl d hd)
  · intro m hm
    rcases List.mem_append.mp hm with hm | hm
    · exact h.sender_insert hc hm
    · obtain rfl := List.mem_singleton.mp hm
      exact ⟨_, AList.lookup_insert _, rfl, hself⟩
  · -- what was pending for `c` is in the new message
    have hpend : ∀ {d e}, Pending r d e → (Users.mk c l).Lists d e ∨
        Pending ⟨r.clients.insert c { x with phase := .done }, r.broadcasts ++ [⟨c, l⟩]⟩ d e := by
      intro d e hp
      by_cases hdc : d = c
      · subst hdc
        obtain ⟨y, hy, hp⟩ := hp
        rw [hx, Option.some.injEq] at hy
        subst hy
        rw [hphase] at hp
        rcases hp with hp | ⟨l', hp, hmem⟩
        · cases hp
        · obtain rfl := Phase.read.inj hp
          exact Or.inl hmem
      · exact Or.inr (hp.insert hdc)
    intro d e hd he hne
    rcases h.covered (hd.of_insert hx rfl) (he.of_insert hx rfl) hne with ⟨m, hm, hlists⟩ | hp | hp
    · exact Or.inl ⟨m, List.mem_append_left _ hm, hlists⟩
    · rcases hpend hp with hlists | hp
      · exact Or.inl ⟨_, List.mem_append_right _ (List.mem_singleton_self _), hlists⟩
      · exact Or.inr (Or.inl hp)
    · rcases hpend hp with hlists | hp
      · exact Or.inl ⟨_, List.mem_append_right _ (List.mem_singleton_self _), hlists.2, hlists.1⟩
      · exact Or.inr (Or.inr hp)

theorem Told.connect (h : Told r) (hx : r.clients.lookup c = none) :
    Told ⟨r.clients.insert c ⟨"", .idle, false, r.broadcasts.length, ∅⟩, r.broadcasts⟩ := by
  have hne : ∀ {d y}, r.clients.lookup d = some y → d ≠ c := by
    rintro d y hy rfl
    rw [hx] at hy
    cases hy
  have hnamed : ∀ {d}, Named r d →
      Named ⟨r.clients.insert c ⟨"", .idle, false, r.broadcasts.length, ∅⟩, r.broadcasts⟩ d :=
    fun ⟨y, hy, hn⟩ => ⟨y, by rw [AList.lookup_insert_ne (hne hy), hy], hn⟩
  have hold : ∀ {d}, Named ⟨r.clients.insert c ⟨"", .idle, false, r.broadcasts.length, ∅⟩, r.broadcasts⟩ d →
      Named r d := by
    rintro d ⟨y, hy, hn⟩
    rcases lookup_insert_cases hy with ⟨-, rfl⟩ | ⟨-, hy⟩
    · exact absurd rfl hn
    · exact ⟨y, hy, hn⟩
  have hpend : ∀ {d e}, Pending r d e →
      Pending ⟨r.clients.insert c ⟨"", .idle, false, r.broadcasts.length, ∅⟩, r.broadcasts⟩ d e :=
    fun hp => hp.insert (hne hp.choose_spec.1)
  refine ⟨h.early_insert fun _ => rfl, h.attached_insert fun hphase => absurd rfl hphase,
    fun hm hc => hnamed (h.listed hm hc), h.sender_insert fun y hy => absurd rfl (hne hy),
    h.reading_insert (by simp) hnamed, ?_⟩
  intro d e hd he hde
  rcases h.covered (hold hd) (hold he) hde with hm | hp | hp
  · exact Or.inl hm
  · exact Or.inr (Or.inl (hpend hp))
  · exact Or.inr (Or.inr (hpend hp))

/-- **Step lemma** for the server. -/
theorem Told.step (h : Told r) (hs : Stepped r a r') : Told r' := by
  cases hs with
  | connect hx => exact h.connect hx
  | dial hx hphase =>
    exact h.move hx rfl (fun _ => by rw [hphase]; trivial) (fun _ => rfl) (by simp [hphase]) (by simp)
      (by simp [hphase]) (by simp [hphase])
  | setMetadata hx hphase => exact h.setMetadata hx hphase
  | readClients hx hphase =>
    have hatt := h.attached hx (by simp [hphase])
    exact h.move hx rfl (fun hearly => hearly.elim) (fun _ => hatt) (by simp [hphase])
      (fun l hl => Or.inr (Phase.read.inj hl).symm) (fun _ => Or.inr rfl) (by simp [hphase])
  | broadcast hx hphase => exact h.broadcast hx hphase
  | deliver hx =>
    have hatt := h.attached hx
    exact h.move hx rfl id (fun hne => hatt hne) id (fun _ => Or.inl) Or.inl (fun _ => id)

end Told

/-! ### Roles -/

/-- The first broadcast that lists two clients. -/
def FirstListing (broadcasts : List Users) (c d : String) (i : ℕ) (m : Users) : Prop :=
  broadcasts[i]? = some m ∧ m.Lists c d ∧
    ∀ j < i, ∀ m', broadcasts[j]? = some m' → ¬ m'.Lists c d

/-- A client creates a peer at the first broadcast that lists the two, which was made for one of them. -/
structure Roles (r : Room) : Prop extends Told r where
  handled_le : ∀ {c x}, r.clients.lookup c = some x → x.handled ≤ r.broadcasts.length
  known : ∀ {c x d i m}, r.clients.lookup c = some x → i < x.handled → r.broadcasts[i]? = some m →
    m.Lists c d → d ≠ c → x.peers.lookup d ≠ none
  created : ∀ {c x d b}, r.clients.lookup c = some x → x.phase.Early ∨ x.nickname ≠ "" →
    x.peers.lookup d = some b → ∃ i m, i < x.handled ∧ FirstListing r.broadcasts c d i m ∧
      b = decide (m.initiator = c) ∧ (m.initiator = c ∨ m.initiator = d)

/-- The steps at which a client creates a peer at its turn only: at a message for another client, the
clients it has no peer for are that client alone, and the message lists them both. -/
def InTurn (r : Room) : Action → Prop
  | .deliver c => ∀ x ∈ r.clients.lookup c, x.attached = true → ∀ m ∈ r.broadcasts[x.handled]?,
      m.initiator ≠ c → ∀ d ∈ m.peerIds, d ≠ c → x.peers.lookup d = none →
        d = m.initiator ∧ c ∈ m.peerIds
  | _ => True

instance : DecidableRel InTurn
  | r, .deliver c => inferInstanceAs (Decidable (∀ x ∈ r.clients.lookup c, x.attached = true →
      ∀ m ∈ r.broadcasts[x.handled]?, m.initiator ≠ c → ∀ d ∈ m.peerIds, d ≠ c → x.peers.lookup d = none →
        d = m.initiator ∧ c ∈ m.peerIds))
  | _, .connect _ | _, .dial _ _ | _, .setMetadata _ | _, .readClients _ | _, .broadcast _ => instDecidableTrue

theorem roles_empty : Roles Room.empty := by
  refine ⟨told_empty, ?_, ?_, ?_⟩
  · intro c x h
    cases h
  · intro c x d i m h
    cases h
  · intro c x d b h
    cases h

section Roles

variable {r r' : Room} {a : Action} {c : String} {x x' : Client}

theorem FirstListing.append {l new : List Users} {c d : String} {i : ℕ} {m : Users}
    (h : FirstListing l c d i m) : FirstListing (l ++ new) c d i m := by
  obtain ⟨hm, hlists, hfirst⟩ := h
  have hi : i < l.length := (List.getElem?_eq_some_iff.mp hm).1
  refine ⟨by rw [List.getElem?_append_left hi, hm], hlists, fun j hj m' hm' => ?_⟩
  rw [List.getElem?_append_left (by omega)] at hm'
  exact hfirst j hj m' hm'

/-- Steps at which nobody receives anything. -/
theorem Roles.quiet (h : Roles r) {new : List Users} (hx : r.clients.lookup c = some x)
    (hT : Told ⟨r.clients.insert c x', r.broadcasts ++ new⟩) (hp : x'.peers = x.peers)
    (hh : x'.handled = x.handled)
    (hnamed : x'.phase.Early ∨ x'.nickname ≠ "" → x.phase.Early ∨ x.nickname ≠ "") :
    Roles ⟨r.clients.insert c x', r.broadcasts ++ new⟩ := by
  refine ⟨hT, ?_, ?_, ?_⟩
  · intro d y hy
    rw [List.length_append]
    rcases lookup_insert_cases hy with ⟨rfl, rfl⟩ | ⟨-, hy⟩
    · have := h.handled_le hx
      omega
    · have := h.handled_le hy
      omega
  · intro d y e i m hy hi hm hlists hne
    have hold : ∀ {z}, r.clients.lookup d = some z → i < z.handled → z.peers.lookup e ≠ none := by
      intro z hz hi
      have := h.handled_le hz
      rw [List.getElem?_append_left (by omega)] at hm
      exact h.known hz hi hm hlists hne
    rcases lookup_insert_cases hy with ⟨rfl, rfl⟩ | ⟨-, hy⟩
    · rw [hp]
      exact hold hx (hh ▸ hi)
    · exact hold hy hi
  · intro d y e b hy hnm hb
    rcases lookup_insert_cases hy with ⟨rfl, rfl⟩ | ⟨-, hy⟩
    · rw [hp] at hb
      obtain ⟨i, m, hi, hfirst, hrole⟩ := h.created hx (hnamed hnm) hb
      exact ⟨i, m, hh ▸ hi, hfirst.append, hrole⟩
    · obtain ⟨i, m, hi, hfirst, hrole⟩ := h.created hy hnm hb
      exact ⟨i, m, hi, hfirst.append, hrole⟩

theorem Roles.connect (h : Roles r) (hx : r.clients.lookup c = none) :
    Roles ⟨r.clients.insert c ⟨"", .idle, false, r.broadcasts.length, ∅⟩, r.broadcasts⟩ := by
  refine ⟨h.toTold.connect hx, ?_, ?_, ?_⟩
  · intro d y hy
    rcases lookup_insert_cases hy with ⟨-, rfl⟩ | ⟨-, hy⟩
    · exact le_rfl
    · exact h.handled_le hy
  · intro d y e i m hy hi hm hlists hne
    rcases lookup_insert_cases hy with ⟨rfl, -⟩ | ⟨-, hy⟩
    · -- nobody has listed the new client
      obtain ⟨z, hz, -⟩ := h.listed (List.mem_of_getElem? hm) hlists.1
      rw [hx] at hz
      cases hz
    · exact h.known hy hi hm hlists hne
  · intro d y e b hy hnm hb
    rcases lookup_insert_cases hy with ⟨-, rfl⟩ | ⟨-, hy⟩
    · cases hb
    · exact h.created hy hnm hb

/-- A client that a broadcast lists has its listeners attached. -/
theorem Told.attached_of_listed (h : Told r) {m : Users} (hm : m ∈ r.broadcasts) (hc : c ∈ m.peerIds)
    (hx : r.clients.lookup c = some x) : x.attached = true := by
  obtain ⟨y, hy, hne⟩ := h.listed hm hc
  rw [hx, Option.some.injEq] at hy
  subst hy
  refine h.attached hx fun hidle => hne (h.early hx ?_)
  rw [hidle]
  trivial

/-- A peer that a client creates in turn: the message lists both, and no earlier one does. -/
theorem Roles.first_listing (h : Roles r) {m : Users} (hok : InTurn r (.deliver c))
    (hx : r.clients.lookup c = some x) (hm : r.broadcasts[x.handled]? = some m) (hatt : x.attached = true)
    (hnm : x.phase.Early ∨ x.nickname ≠ "") {d : String} (hnone : x.peers.lookup d = none) (hne : d ≠ c)
    (hd : d ∈ m.peerIds) :
    FirstListing r.broadcasts c d x.handled m ∧ (m.initiator = c ∨ m.initiator = d) := by
  have hc : c ∈ m.peerIds ∧ (m.initiator = c ∨ m.initiator = d) := by
    by_cases hinit : m.initiator = c
    · obtain ⟨z, hz, hdone, hself⟩ := h.sender (List.mem_of_getElem? hm)
      rw [hinit, hx, Option.some.injEq] at hz
      subst hz
      rw [hdone] at hnm
      exact ⟨hinit ▸ hself (hnm.resolve_left id), Or.inl hinit⟩
    · obtain ⟨h1, h2⟩ := hok x hx hatt m hm hinit d hd hne hnone
      exact ⟨h2, Or.inr h1.symm⟩
  refine ⟨⟨hm, ⟨hc.1, hd⟩, fun j hj m' hm' hlists => ?_⟩, hc.2⟩
  exact h.known hx hj hm' hlists hne hnone

theorem Roles.deliver (h : Roles r) {m : Users} (hok : InTurn r (.deliver c))
    (hx : r.clients.lookup c = some x) (hm : r.broadcasts[x.handled]? = some m)
    (hT : Told ⟨r.clients.insert c { x with
      handled := x.handled + 1, peers := if x.attached then handleUsers c m x.peers else x.peers },
      r.broadcasts⟩) :
    Roles ⟨r.clients.insert c { x with
      handled := x.handled + 1, peers := if x.attached then handleUsers c m x.peers else x.peers },
      r.broadcasts⟩ := by
  have hmem : m ∈ r.broadcasts := List.mem_of_getElem? hm
  refine ⟨hT, ?_, ?_, ?_⟩
  · intro d y hy
    rcases lookup_insert_cases hy with ⟨-, rfl⟩ | ⟨-, hy⟩
    · exact (List.getElem?_eq_some_iff.mp hm).1
    · exact h.handled_le hy
  · intro d y e i m' hy hi hm' hlists hne
    rcases lookup_insert_cases hy with ⟨rfl, rfl⟩ | ⟨-, hy⟩
    · rcases Nat.lt_succ_iff_lt_or_eq.mp hi with hi | rfl
      · have hold := h.known hx hi hm' hlists hne
        simp only
        split_ifs
        · rw [lookup_handleUsers, if_neg fun hc => hold hc.1]
          exact hold
        · exact hold
      · -- the message it receives now
        rw [hm, Option.some.injEq] at hm'
        subst hm'
        simp only [h.attached_of_listed hmem hlists.1 hx, if_true]
        rw [lookup_handleUsers]
        split_ifs with hcond
        · simp
        · exact fun hnone => hcond ⟨hnone, hne, hlists.2⟩
    · exact h.known hy hi hm' hlists hne
  · intro d y e b hy hnm hb
    rcases lookup_insert_cases hy with ⟨rfl, rfl⟩ | ⟨-, hy⟩
    · have hold : x.peers.lookup e = some b → ∃ i m, i < x.handled + 1 ∧ FirstListing r.broadcasts d e i m ∧
          b = decide (m.initiator = d) ∧ (m.initiator = d ∨ m.initiator = e) := by
        intro hb
        obtain ⟨i, m', hi, hrest⟩ := h.created hx hnm hb
        exact ⟨i, m', Nat.lt_succ_of_lt hi, hrest⟩
      simp only at hb
      split_ifs at hb with hatt
      · rw [lookup_handleUsers] at hb
        split_ifs at hb with hcond
        · obtain ⟨hnone, hne, he⟩ := hcond
          obtain ⟨hfirst, hinit⟩ := h.first_listing hok hx hm hatt hnm hnone hne he
          exact ⟨x.handled, m, Nat.lt_succ_self _, hfirst, (Option.some.inj hb).symm, hinit⟩
        · exact hold hb
      · exact hold hb
    · exact h.created hy hnm hb

/-- **Step lemma.** -/
theorem Roles.step (h : Roles r) (hok : InTurn r a) (hs : Stepped r a r') : Roles r' := by
  have hT := h.toTold.step hs
  cases hs with
  | connect hx => exact h.connect hx
  | dial hx hphase =>
    rw [← List.append_nil r.broadcasts] at hT ⊢
    exact h.quiet hx hT rfl rfl fun _ => Or.inl (by rw [hphase]; trivial)
  | setMetadata hx hphase =>
    rw [← List.append_nil r.broadcasts] at hT ⊢
    exact h.quiet hx hT rfl rfl fun _ => Or.inl (by rw [hphase]; trivial)
  | readClients hx hphase =>
    rw [← List.append_nil r.broadcasts] at hT ⊢
    exact h.quiet hx hT rfl rfl fun hnm => Or.inr (hnm.resolve_left id)
  | broadcast hx hphase => exact h.quiet hx hT rfl rfl fun hnm => Or.inr (hnm.resolve_left id)
  | deliver hx hm => exact h.deliver hok hx hm hT

end Roles

theorem roles_of_reach {r : Room} (h : Reach step InTurn Room.empty r) : Roles r :=
  h.invariant roles_empty fun _ _ _ hi hok hs => hi.step hok (stepped_of_step hs)

/-! ### Settled rooms -/

/-- Every `ready` message is handled and every broadcast received. -/
def Settled (r : Room) : Prop :=
  ∀ e ∈ r.clients.entries, (e.2.phase = .idle ∨ e.2.phase = .done) ∧ e.2.handled = r.broadcasts.length

instance (r : Room) : Decidable (Settled r) :=
  inferInstanceAs (Decidable (∀ e ∈ r.clients.entries, _))

theorem Settled.of_lookup {r : Room} (h : Settled r) {c : String} {x : Client}
    (hx : r.clients.lookup c = some x) :
    (x.phase = .idle ∨ x.phase = .done) ∧ x.handled = r.broadcasts.length :=
  h ⟨c, x⟩ (AList.mem_lookup_iff.mp hx)

theorem Settled.not_pending {r : Room} (h : Settled r) (c d : String) : ¬ Pending r c d := by
  rintro ⟨x, hx, hp⟩
  rcases (h.of_lookup hx).1 with hphase | hphase <;> simp [hphase] at hp

/-- Both clients have a peer for the other, and exactly one of them is the initiator. -/
def Agree (x y : Client) (c d : String) : Prop :=
  (x.peers.lookup d = some true ∧ y.peers.lookup c = some false) ∨
    (x.peers.lookup d = some false ∧ y.peers.lookup c = some true)

theorem Users.Lists.symm {m : Users} {c d : String} (h : m.Lists c d) : m.Lists d c := ⟨h.2, h.1⟩

/-- There is one first listing of a pair, whichever way it is named. -/
theorem FirstListing.unique {l : List Users} {c d : String} {i j : ℕ} {m m' : Users}
    (h : FirstListing l c d i m) (h' : FirstListing l d c j m') : m = m' := by
  rcases Nat.lt_trichotomy i j with hij | rfl | hij
  · exact absurd h.2.1.symm (h'.2.2 i hij m h.1)
  · exact Option.some.inj (h.1.symm.trans h'.1)
  · exact absurd h'.2.1.symm (h.2.2 j hij m' h'.1)

/-- A ready client of a settled room has a peer for every other one. -/
theorem Roles.peer_of_settled {r : Room} (h : Roles r) (hset : Settled r) {c d : String} {x y : Client}
    (hx : r.clients.lookup c = some x) (hy : r.clients.lookup d = some y) (hcx : x.nickname ≠ "")
    (hdy : y.nickname ≠ "") (hne : c ≠ d) : ∃ b, x.peers.lookup d = some b := by
  have hcov := h.covered ⟨x, hx, hcx⟩ ⟨y, hy, hdy⟩ hne
  obtain ⟨m, hm, hlists⟩ := hcov.resolve_right fun hp =>
    hp.elim (hset.not_pending c d) (hset.not_pending d c)
  obtain ⟨i, hi, hget⟩ := List.mem_iff_getElem.mp hm
  have hhandled := (hset.of_lookup hx).2
  exact Option.ne_none_iff_exists'.mp
    (h.known hx (by omega) (List.getElem?_eq_some_iff.mpr ⟨hi, hget⟩) hlists hne.symm)

/-- **Role agreement.**  When everything is handled, every two ready clients have a peer for each
other and exactly one of them is the initiator, along the runs in which peers are created in turn. -/
theorem roles_agree {r : Room} (h : Reach step InTurn Room.empty r) (hset : Settled r) {c d : String}
    {x y : Client} (hx : r.clients.lookup c = some x) (hy : r.clients.lookup d = some y)
    (hcx : x.nickname ≠ "") (hdy : y.nickname ≠ "") (hne : c ≠ d) : Agree x y c d := by
  have hR := roles_of_reach h
  obtain ⟨b, hb⟩ := hR.peer_of_settled hset hx hy hcx hdy hne
  obtain ⟨b', hb'⟩ := hR.peer_of_settled hset hy hx hdy hcx hne.symm
  obtain ⟨i, m, -, hfirst, rfl, hinit⟩ := hR.created hx (Or.inr hcx) hb
  obtain ⟨j, m', -, hfirst', rfl, -⟩ := hR.created hy (Or.inr hdy) hb'
  obtain rfl := hfirst.unique hfirst'
  -- one message decides both roles, and it was made for one of the two
  rcases hinit with hinit | hinit
  · exact Or.inl ⟨by simpa [hinit] using hb, by simpa [hinit, hne] using hb'⟩
  · exact Or.inr ⟨by simpa [hinit, hne.symm] using hb, by simpa [hinit] using hb'⟩

/-- The server handles the `ready` message of a client. -/
def handleReady (c : String) : List Action := [.setMetadata c, .readClients c, .broadcast c]

/-- Three clients dial one after the other; `c` receives the first two broadcasts before it dials. -/
theorem roles_agree_example : ∃ r, exec (guarded step InTurn) Room.empty
      ([.connect "a", .connect "b", .connect "c", .dial "a" "A"] ++ handleReady "a" ++
        [.deliver "c", .deliver "b", .dial "b" "B"] ++ handleReady "b" ++
        [.deliver "a", .deliver "a", .deliver "c", .dial "c" "C"] ++ handleReady "c" ++
        [.deliver "c", .deliver "b", .deliver "b", .deliver "a"]) = some r ∧
    (Settled r ∧ ∃ x ∈ r.clients.lookup "b", ∃ y ∈ r.clients.lookup "c", x.nickname = "B" ∧ y.nickname = "C") ∧
    ∃ x ∈ r.clients.lookup "b", ∃ y ∈ r.clients.lookup "c", Agree x y "b" "c" := by
  refine exists_exec (by decide) fun r h hq => ?_
  obtain ⟨hset, x, hx, y, hy, hcx, hdy⟩ := hq
  exact ⟨x, hx, y, hy, roles_agree h hset hx hy (by rw [hcx]; decide) (by rw [hdy]; decide) (by decide)⟩

/-- **Deadlock.**  Two clients dial before the server handles either: the second receives the broadcast made
for the first, which does not list it, and creates its peer then; both wait for the other's offer. -/
theorem roles_deadlock : ∃ r, exec (guarded step anyStep) Room.empty
      ([.connect "a", .connect "b", .dial "a" "A", .dial "b" "B"] ++ handleReady "a" ++
        [.deliver "a", .deliver "b"] ++ handleReady "b" ++ [.deliver "a", .deliver "b"]) = some r ∧
    (Settled r ∧ ∃ x ∈ r.clients.lookup "a", ∃ y ∈ r.clients.lookup "b", x.nickname = "A" ∧ y.nickname = "B" ∧
      x.peers.lookup "b" = some false ∧ y.peers.lookup "a" = some false) ∧ Reach step anyStep Room.empty r :=
  exists_exec (by decide) fun _ h _ => h

end Meeting.Mesh.CallSetup
