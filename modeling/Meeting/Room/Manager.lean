import Meeting.Lib.Lists
import Meeting.Lib.Runs

/-!
# Meeting.Room.Manager — reference counting of room adapters (`room.go`)

`AdapterRoomManager` keeps one adapter for each room that has clients: `Enter` creates it for the first client
and `Exit` of the last one closes it.  Both run under `roomsMu`, so that each call is a step.  An adapter is
named by its position among all adapters created.

* `reference_counting`: in every run in which each client that entered a room exits it once, rooms, counts,
  adapters and clients inside agree, and every adapter is closed once, when its last client exits.
-/

namespace Meeting.Room

open Lib

/-! ### State -/

/-- `adapterCounter`. -/
structure AdapterCounter where
  /-- A `uint64` in the source.  It counts live connections, of which there are never 2^64, so that it does not wrap. -/
  count : ℕ
  adapter : ℕ
  deriving DecidableEq, Repr

/-- A client inside a room, with the adapter that `Enter` returned to it. -/
structure Visit where
  client : ℕ
  room : String
  adapter : ℕ
  deriving DecidableEq, Repr

/-- `AdapterRoomManager`, with what was asked of it. -/
structure Manager where
  rooms : AList fun _ : String => AdapterCounter
  /-- The rooms that `newAdapter` was called for. -/
  created : List String
  /-- The adapters that were closed. -/
  closed : List ℕ
  visits : List Visit

def Manager.empty : Manager := ⟨∅, [], [], []⟩

/-! ### Operations -/

/-- `Enter`, with the adapter it returns. -/
def enter (m : Manager) (room : String) : Manager × ℕ :=
  match m.rooms.lookup room with
  | some c => ({ m with rooms := m.rooms.insert room { c with count := c.count + 1 } }, c.adapter)
  | none =>
    let adapter := m.created.length
    ({ m with rooms := m.rooms.insert room ⟨1, adapter⟩, created := m.created ++ [room] }, adapter)

/-- `Exit`. -/
def exit (m : Manager) (room : String) : Manager :=
  match m.rooms.lookup room with
  | none => m
  | some c =>
    let count := c.count - 1
    if count = 0 then
      { m with rooms := m.rooms.erase room, closed := c.adapter :: m.closed }
    else { m with rooms := m.rooms.insert room { c with count } }

inductive Call where
  | enter (client : ℕ) (room : String)
  | exit (client : ℕ)
  deriving DecidableEq, Repr

/-- A client that is inside exits the room it entered. -/
def step (m : Manager) : Call → Option Manager
  | .enter client room =>
    if client ∈ m.visits.map Visit.client then none
    else
      let (m', adapter) := enter m room
      some { m' with visits := ⟨client, room, adapter⟩ :: m.visits }
  | .exit client =>
    (m.visits.find? fun v => v.client = client).map fun v =>
      { exit m v.room with visits := m.visits.erase v }

/-- What a call can do. -/
inductive Stepped (m : Manager) : Call → Manager → Prop
  | join {k : ℕ} {room : String} {c : AdapterCounter} : m.rooms.lookup room = some c →
      Stepped m (.enter k room) { m with
        rooms := m.rooms.insert room { c with count := c.count + 1 }
        visits := ⟨k, room, c.adapter⟩ :: m.visits }
  | create {k : ℕ} {room : String} : m.rooms.lookup room = none →
      Stepped m (.enter k room) { m with
        rooms := m.rooms.insert room ⟨1, m.created.length⟩
        created := m.created ++ [room]
        visits := ⟨k, room, m.created.length⟩ :: m.visits }
  | absent {k : ℕ} {v : Visit} : v ∈ m.visits → m.rooms.lookup v.room = none →
      Stepped m (.exit k) { m with visits := m.visits.erase v }
  | close {k : ℕ} {v : Visit} {c : AdapterCounter} : v ∈ m.visits → m.rooms.lookup v.room = some c →
      c.count - 1 = 0 → Stepped m (.exit k) { m with
        rooms := m.rooms.erase v.room
        closed := c.adapter :: m.closed
        visits := m.visits.erase v }
  | leave {k : ℕ} {v : Visit} {c : AdapterCounter} : v ∈ m.visits → m.rooms.lookup v.room = some c →
      c.count - 1 ≠ 0 → Stepped m (.exit k) { m with
        rooms := m.rooms.insert v.room { c with count := c.count - 1 }
        visits := m.visits.erase v }

theorem stepped_of_step {m m' : Manager} {x : Call} (hs : step m x = some m') : Stepped m x m' := by
  cases x with
  | enter k room =>
    simp only [step, enter] at hs
    split_ifs at hs
    cases hc : m.rooms.lookup room with
    | some c =>
      simp only [hc, Option.some.injEq] at hs
      exact hs ▸ .join hc
    | none =>
      simp only [hc, Option.some.injEq] at hs
      exact hs ▸ .create hc
  | exit k =>
    obtain ⟨v, hv, hs⟩ := Option.map_eq_some_iff.mp hs
    have hmem : v ∈ m.visits := List.mem_of_find?_eq_some hv
    subst hs
    unfold exit
    cases hc : m.rooms.lookup v.room with
    | none => exact .absent hmem hc
    | some c =>
      simp only
      split_ifs with h0
      · exact .close hmem hc h0
      · exact .leave hmem hc h0

/-! ### The invariant -/

/-- The clients inside a room. -/
def inside (m : Manager) (room : String) : ℕ := m.visits.countP fun v => v.room = room

/-- The adapter is that of a room. -/
def Open (m : Manager) (adapter : ℕ) : Prop := ∃ room c, m.rooms.lookup room = some c ∧ c.adapter = adapter

structure Counted (m : Manager) : Prop where
  shared : ∀ v ∈ m.visits, ∃ c, m.rooms.lookup v.room = some c ∧ c.adapter = v.adapter
  count : ∀ {room c}, m.rooms.lookup room = some c → c.count = inside m room ∧ 0 < c.count
  room : ∀ {room c}, m.rooms.lookup room = some c → m.created[c.adapter]? = some room
  known : ∀ a ∈ m.closed, a < m.created.length
  opened : ∀ {room c}, m.rooms.lookup room = some c → m.closed.count c.adapter = 0
  closed_once : ∀ a < m.created.length, ¬ Open m a → m.closed.count a = 1

theorem counted_empty : Counted Manager.empty := by
  refine ⟨?_, ?_, ?_, ?_, ?_, ?_⟩
  · intro v h
    cases h
  · intro room c h
    cases h
  · intro room c h
    cases h
  · intro a h
    cases h
  · intro room c h
    cases h
  · intro a h
    cases h

section Counted

variable {m m' : Manager} {k : ℕ} {room : String} {v : Visit} {c : AdapterCounter}

/-- Rooms have adapters of their own. -/
theorem Counted.room_unique (h : Counted m) {room' : String} {c' : AdapterCounter}
    (hc : m.rooms.lookup room = some c) (hc' : m.rooms.lookup room' = some c')
    (ha : c.adapter = c'.adapter) : room = room' := by
  have h1 := h.room hc
  rw [ha, h.room hc', Option.some.injEq] at h1
  exact h1.symm

theorem Counted.adapter_lt (h : Counted m) (hc : m.rooms.lookup room = some c) :
    c.adapter < m.created.length :=
  (List.getElem?_eq_some_iff.mp (h.room hc)).1

theorem inside_erase (hv : v ∈ m.visits) (room : String) :
    inside m room = (m.visits.erase v).countP (fun x => x.room = room) + if v.room = room then 1 else 0 := by
  rw [inside, (List.perm_cons_erase hv).countP_eq, List.countP_cons]
  simp

/-- Calls that only change the count of a room. -/
theorem Counted.recount (h : Counted m) {n : ℕ} {visits : List Visit} (hc : m.rooms.lookup room = some c)
    (hn : 0 < n) (hcount : ∀ r, visits.countP (fun v => v.room = r) = if r = room then n else inside m r)
    (hmem : ∀ v ∈ visits, v ∈ m.visits ∨ v.room = room ∧ v.adapter = c.adapter) :
    Counted { m with rooms := m.rooms.insert room { c with count := n }, visits } := by
  -- every room has the adapter it had
  have hsame : ∀ {r c'}, (m.rooms.insert room { c with count := n }).lookup r = some c' →
      ∃ c₀, m.rooms.lookup r = some c₀ ∧ c'.adapter = c₀.adapter := by
    intro r c' hr
    rcases lookup_insert_cases hr with ⟨rfl, rfl⟩ | ⟨-, hr⟩
    · exact ⟨c, hc, rfl⟩
    · exact ⟨c', hr, rfl⟩
  have hkeep : ∀ {r c'}, m.rooms.lookup r = some c' →
      ∃ c₁, (m.rooms.insert room { c with count := n }).lookup r = some c₁ ∧ c₁.adapter = c'.adapter := by
    intro r c' hr
    by_cases hrr : r = room
    · subst hrr
      rw [hc, Option.some.injEq] at hr
      exact ⟨_, AList.lookup_insert _, hr ▸ rfl⟩
    · exact ⟨c', by rw [AList.lookup_insert_ne hrr, hr], rfl⟩
  refine ⟨?_, ?_, ?_, h.known, ?_, ?_⟩
  · intro v hv
    rcases hmem v hv with hv | ⟨hr, ha⟩
    · obtain ⟨c', hc', ha⟩ := h.shared v hv
      obtain ⟨c₁, h1, h2⟩ := hkeep hc'
      exact ⟨c₁, h1, h2.trans ha⟩
    · obtain ⟨c₁, h1, h2⟩ := hkeep hc
      exact ⟨c₁, hr ▸ h1, h2.trans ha.symm⟩
  · intro r c' hr
    show c'.count = visits.countP (fun v => v.room = r) ∧ 0 < c'.count
    rw [hcount]
    rcases lookup_insert_cases hr with ⟨rfl, rfl⟩ | ⟨hne, hr⟩
    · exact ⟨(if_pos rfl).symm, hn⟩
    · rw [if_neg hne]
      exact h.count hr
  · intro r c' hr
    obtain ⟨c₀, h0, ha⟩ := hsame hr
    rw [ha]
    exact h.room h0
  · intro r c' hr
    obtain ⟨c₀, h0, ha⟩ := hsame hr
    rw [ha]
    exact h.opened h0
  · intro a ha hopen
    refine h.closed_once a ha ?_
    rintro ⟨r, c', hr, rfl⟩
    obtain ⟨c₁, h1, h2⟩ := hkeep hr
    exact hopen ⟨r, c₁, h1, h2⟩

theorem Counted.join (h : Counted m) (hc : m.rooms.lookup room = some c) :
    Counted { m with
      rooms := m.rooms.insert room { c with count := c.count + 1 }
      visits := ⟨k, room, c.adapter⟩ :: m.visits } := by
  refine h.recount hc (Nat.succ_pos _) (fun r => ?_) fun v hv => ?_
  · rw [List.countP_cons]
    by_cases hr : r = room
    · subst hr
      simp [(h.count hc).1, inside]
    · simp [hr, Ne.symm hr, inside]
  · rcases List.mem_cons.mp hv with rfl | hv
    · exact Or.inr ⟨rfl, rfl⟩
    · exact Or.inl hv

theorem Counted.leave (h : Counted m) (hv : v ∈ m.visits) (hc : m.rooms.lookup v.room = some c)
    (h0 : c.count - 1 ≠ 0) :
    Counted { m with
      rooms := m.rooms.insert v.room { c with count := c.count - 1 }
      visits := m.visits.erase v } := by
  refine h.recount hc (Nat.pos_of_ne_zero h0) (fun r => ?_) fun v' hv' => Or.inl (List.mem_of_mem_erase hv')
  have hin := inside_erase hv r
  split_ifs with hr
  · subst hr
    rw [if_pos rfl, ← (h.count hc).1] at hin
    omega
  · rw [if_neg (Ne.symm hr)] at hin
    omega

theorem Counted.create (h : Counted m) (hc : m.rooms.lookup room = none) :
    Counted { m with
      rooms := m.rooms.insert room ⟨1, m.created.length⟩
      created := m.created ++ [room]
      visits := ⟨k, room, m.created.length⟩ :: m.visits } := by
  have hold : ∀ {r c'}, m.rooms.lookup r = some c' → r ≠ room := by
    rintro r c' hr rfl
    rw [hc] at hr
    cases hr
  have hvisit : ∀ v ∈ m.visits, v.room ≠ room := fun v hv => hold (h.shared v hv).choose_spec.1
  have hnew : m.created.length ∉ m.closed := fun ha => lt_irrefl _ (h.known _ ha)
  refine ⟨?_, ?_, ?_, fun a ha => ?_, ?_, ?_⟩
  · intro v hv
    rcases List.mem_cons.mp hv with rfl | hv
    · exact ⟨_, AList.lookup_insert _, rfl⟩
    · obtain ⟨c', hc', ha⟩ := h.shared v hv
      exact ⟨c', by rw [AList.lookup_insert_ne (hold hc'), hc'], ha⟩
  · intro r c' hr
    show c'.count = (Visit.mk k room m.created.length :: m.visits).countP (fun v => v.room = r) ∧ 0 < c'.count
    rw [List.countP_cons]
    rcases lookup_insert_cases hr with ⟨rfl, rfl⟩ | ⟨hne, hr⟩
    · -- nobody was inside
      rw [List.countP_eq_zero.mpr fun v hv => by simpa using hvisit v hv]
      simp
    · simpa [Ne.symm hne, inside] using h.count hr
  · intro r c' hr
    rcases lookup_insert_cases hr with ⟨rfl, rfl⟩ | ⟨-, hr⟩
    · simp
    · rw [List.getElem?_append_left (h.adapter_lt hr)]
      exact h.room hr
  · rw [List.length_append]
    exact Nat.lt_succ_of_lt (h.known a ha)
  · intro r c' hr
    rcases lookup_insert_cases hr with ⟨-, rfl⟩ | ⟨-, hr⟩
    · exact List.count_eq_zero.mpr hnew
    · exact h.opened hr
  · intro a ha hopen
    rw [List.length_append, List.length_singleton] at ha
    have hne : a ≠ m.created.length := by
      rintro rfl
      exact hopen ⟨room, _, AList.lookup_insert _, rfl⟩
    refine h.closed_once a (by omega) ?_
    rintro ⟨r, c', hr, hca⟩
    exact hopen ⟨r, c', by rw [AList.lookup_insert_ne (hold hr), hr], hca⟩

theorem Counted.close (h : Counted m) (hv : v ∈ m.visits) (hc : m.rooms.lookup v.room = some c)
    (h0 : c.count - 1 = 0) :
    Counted { m with
      rooms := m.rooms.erase v.room
      closed := c.adapter :: m.closed
      visits := m.visits.erase v } := by
  have hcount := h.count hc
  -- the visit was the only one of its room
  have hempty : ∀ v' ∈ m.visits.erase v, v'.room ≠ v.room := by
    have hin := inside_erase hv v.room
    rw [if_pos rfl] at hin
    have hzero : (m.visits.erase v).countP (fun x => x.room = v.room) = 0 := by omega
    intro v' hv'
    simpa using List.countP_eq_zero.mp hzero v' hv'
  have hne : ∀ {r c'}, r ≠ v.room → m.rooms.lookup r = some c' → c'.adapter ≠ c.adapter :=
    fun hr hl ha => hr (h.room_unique hl hc ha)
  refine ⟨?_, ?_, ?_, ?_, ?_, ?_⟩
  · intro v' hv'
    obtain ⟨c', hc', ha⟩ := h.shared v' (List.mem_of_mem_erase hv')
    exact ⟨c', by rw [AList.lookup_erase_ne (hempty v' hv'), hc'], ha⟩
  · intro r c' hr
    obtain ⟨hne, hr⟩ := lookup_of_lookup_erase hr
    have hin := inside_erase hv r
    rw [if_neg (Ne.symm hne), Nat.add_zero] at hin
    show c'.count = (m.visits.erase v).countP (fun v => v.room = r) ∧ 0 < c'.count
    rw [← hin]
    exact h.count hr
  · intro r c' hr
    exact h.room (lookup_of_lookup_erase hr).2
  · intro a ha
    rcases List.mem_cons.mp ha with rfl | ha
    · exact h.adapter_lt hc
    · exact h.known a ha
  · intro r c' hr
    obtain ⟨hrne, hr⟩ := lookup_of_lookup_erase hr
    rw [List.count_cons_of_ne (hne hrne hr).symm]
    exact h.opened hr
  · intro a ha hopen
    by_cases hac : c.adapter = a
    · subst hac
      rw [List.count_cons_self, h.opened hc]
    · rw [List.count_cons_of_ne hac]
      refine h.closed_once a ha ?_
      rintro ⟨r, c', hr, rfl⟩
      have hrr : r ≠ v.room := by
        rintro rfl
        rw [hc, Option.some.injEq] at hr
        exact hac (hr ▸ rfl)
      exact hopen ⟨r, c', by rw [AList.lookup_erase_ne hrr, hr], rfl⟩

/-- **Step lemma.** -/
theorem Counted.step {x : Call} (h : Counted m) (hs : Stepped m x m') : Counted m' := by
  cases hs with
  | join hc => exact h.join hc
  | create hc => exact h.create hc
  | absent hv hc =>
    obtain ⟨c, hc', -⟩ := h.shared _ hv
    rw [hc] at hc'
    cases hc'
  | close hv hc h0 => exact h.close hv hc h0
  | leave hv hc h0 => exact h.leave hv hc h0

end Counted

theorem counted_of_reach {m : Manager} (h : Reach step anyStep Manager.empty m) : Counted m :=
  h.invariant counted_empty fun _ _ _ hi _ hs => hi.step (stepped_of_step hs)

/-! ### Reference counting -/

structure RefCounted (m : Manager) : Prop where
  exists_iff : ∀ room, (∃ c, m.rooms.lookup room = some c) ↔ ∃ v ∈ m.visits, v.room = room
  count : ∀ room c, m.rooms.lookup room = some c → c.count = inside m room
  shared : ∀ v ∈ m.visits, ∃ c, m.rooms.lookup v.room = some c ∧ c.adapter = v.adapter
  live : ∀ v ∈ m.visits, v.adapter ∉ m.closed
  /-- An adapter is closed once when nobody shares it any more, and not before. -/
  closes : ∀ a < m.created.length, m.closed.count a = if ∃ v ∈ m.visits, v.adapter = a then 0 else 1
  known : ∀ a ∈ m.closed, a < m.created.length

theorem Counted.exists_visit {m : Manager} (h : Counted m) {room : String} {c : AdapterCounter}
    (hc : m.rooms.lookup room = some c) : ∃ v ∈ m.visits, v.room = room := by
  have hcount := h.count hc
  rw [inside] at hcount
  have hpos : 0 < m.visits.countP fun v => v.room = room := by omega
  obtain ⟨v, hv, hr⟩ := List.countP_pos_iff.mp hpos
  exact ⟨v, hv, by simpa using hr⟩

/-- The open adapters are those that clients share. -/
theorem Counted.open_iff {m : Manager} (h : Counted m) {a : ℕ} :
    Open m a ↔ ∃ v ∈ m.visits, v.adapter = a := by
  constructor
  · rintro ⟨room, c, hc, rfl⟩
    obtain ⟨v, hv, rfl⟩ := h.exists_visit hc
    obtain ⟨c', hc', ha⟩ := h.shared v hv
    rw [hc, Option.some.injEq] at hc'
    exact ⟨v, hv, hc' ▸ ha.symm⟩
  · rintro ⟨v, hv, rfl⟩
    obtain ⟨c, hc, ha⟩ := h.shared v hv
    exact ⟨v.room, c, hc, ha⟩

theorem Counted.closes {m : Manager} (h : Counted m) {a : ℕ} (ha : a < m.created.length) :
    m.closed.count a = if ∃ v ∈ m.visits, v.adapter = a then 0 else 1 := by
  split_ifs with hheld
  · obtain ⟨room, c, hc, rfl⟩ := h.open_iff.mpr hheld
    exact h.opened hc
  · exact h.closed_once a ha fun hopen => hheld (h.open_iff.mp hopen)

theorem Counted.refCounted {m : Manager} (h : Counted m) : RefCounted m := by
  refine ⟨fun room => ⟨?_, ?_⟩, fun room c hc => (h.count hc).1, h.shared, ?_, fun a => h.closes, h.known⟩
  · rintro ⟨c, hc⟩
    exact h.exists_visit hc
  · rintro ⟨v, hv, rfl⟩
    obtain ⟨c, hc, -⟩ := h.shared v hv
    exact ⟨c, hc⟩
  · intro v hv
    obtain ⟨c, hc, ha⟩ := h.shared v hv
    rw [← ha]
    exact List.count_eq_zero.mp (h.opened hc)

/-- An adapter is created for a room only when all earlier ones of the room are closed. -/
theorem Counted.create_closed {m m' : Manager} {k a : ℕ} {room : String} (h : Counted m)
    (hs : Stepped m (.enter k room) m') (hnew : m'.created ≠ m.created) (ha : m.created[a]? = some room) :
    m.closed.count a = 1 := by
  cases hs with
  | join => exact absurd rfl hnew
  | create hc =>
    refine h.closed_once a (List.getElem?_eq_some_iff.mp ha).1 ?_
    rintro ⟨r, c, hr, rfl⟩
    rw [h.room hr, Option.some.injEq] at ha
    rw [ha, hc] at hr
    cases hr

/-- **Reference counting.**  In every reachable state rooms, counts, adapters and the clients inside agree,
and `newAdapter` is called for a room only when every adapter it had is closed. -/
theorem reference_counting {m : Manager} (h : Reach step anyStep Manager.empty m) :
    RefCounted m ∧ ∀ k room m', step m (.enter k room) = some m' → m'.created ≠ m.created →
      ∀ a, m.created[a]? = some room → m.closed.count a = 1 := by
  have hC := counted_of_reach h
  exact ⟨hC.refCounted, fun k room m' hs hnew a ha => hC.create_closed (stepped_of_step hs) hnew ha⟩

/-- A room is emptied and entered again. -/
theorem reference_counting_example : ∃ m, exec (guarded step anyStep) Manager.empty
      [.enter 0 "r", .enter 1 "r", .enter 2 "s", .exit 0, .exit 1, .enter 3 "r"] = some m ∧
    (m.closed = [0] ∧ m.created = ["r", "s", "r"]) ∧ RefCounted m :=
  exists_exec (by decide) fun _ h _ => (reference_counting h).1

end Meeting.Room
