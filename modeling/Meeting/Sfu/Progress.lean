import Meeting.Lib.Measure
import Meeting.Sfu.Broadcast

/-!
# Meeting.Sfu.Progress — the goroutines that broadcast messages come to rest (`datatransceiver.go`)

A goroutine that broadcasts holds the lock of the room and waits for the read locks of the other transceivers.  Such a
lock is kept by a writer that has announced itself and waits for a reader, and the reader by the goroutine of its
client, which may wait for the lock of the room.  `Close` breaks the circle, as it closes `closeChannel` before it
announces itself; `handleDataChannel` does not.

* `messages_progress`: along the runs in which no data channel is set while a message of the client holds the read
  lock (`Opened`), some goroutine can go on until all are at rest, after a bounded number of steps;
* `broadcast_deadlock`: a second data channel can stop the whole room.
-/

namespace Meeting.Sfu.Broadcast

open Lib

variable {μ : Type*}

/-! ### Steps of the goroutines -/

/-- The steps of the goroutines, which need nothing from outside. -/
def Internal : Action μ → Prop
  | .lock _ | .write _ | .rlock _ _ | .take _ _ | .drop _ _ | .lockRoom _ | .send _ | .unlockRoom _ => True
  | _ => False

/-- The internal steps that there could be. -/
def internal (r : Room μ) : List (Action μ) :=
  r.clients.flatMap fun c => [.lock c, .write c, .lockRoom c, .send c, .unlockRoom c] ++
    (List.range (r.peer c).calls.length).flatMap fun i => [.rlock c i, .take c i, .drop c i]

/-- No goroutine has anything to do. -/
def AtRest (r : Room μ) : Prop := ∀ c ∈ r.clients, (r.peer c).calls = [] ∧ (r.peer c).goroutine = .idle ∧
  (r.peer c).writer = none ∧ (r.peer c).closing = false

/-- The writer that sets a data channel announces itself while no message of the client holds the read lock. -/
def Opened (r : Room μ) : Action μ → Prop
  | .openChannel c => (r.peer c).Writable
  | _ => True

instance : DecidableRel (Opened : Room μ → Action μ → Prop)
  | r, .openChannel c => inferInstanceAs (Decidable (r.peer c).Writable)
  | _, .create _ | _, .join _ | _, .leave _ | _, .message _ _ | _, .close _ | _, .lock _ | _, .write _
  | _, .rlock _ _ | _, .take _ _ | _, .drop _ _ | _, .lockRoom _ | _, .send _ | _, .unlockRoom _ => isTrue trivial

/-- A data channel that is to be set waits for no reader that does not leave by itself. -/
def Transceiver.Free (p : Transceiver μ) : Prop :=
  p.writer = some .setChannel → p.Writable ∨ p.closeChannel = true

section Free

variable {r r' : Room μ} {a : Action μ} {c : String} {p : Transceiver μ}

theorem free_setPeer (h : ∀ d, (r.peer d).Free) (hp : p.Free) (d : String) : ((r.setPeer c p).peer d).Free := by
  by_cases hd : d = c
  · subst hd
    rwa [setPeer_self]
  · rw [setPeer_ne hd]
    exact h d

theorem Transceiver.Writable.endCall {i : ℕ} (h : p.Writable) : (p.endCall i).Writable :=
  fun x hx => h x (List.mem_of_mem_eraseIdx hx)

theorem Transceiver.Free.endCall {i : ℕ} (h : p.Free) : (p.endCall i).Free :=
  fun hm => (h hm).imp_left fun hw => hw.endCall

theorem free_step (h : ∀ d, (r.peer d).Free) (hok : Opened r a) (hs : Stepped r a r') (d : String) :
    (r'.peer d).Free := by
  cases hs with
  | create | join | leave | panic => exact h d
  | @message c m _ =>
    refine free_setPeer h ?_ d
    intro hm
    refine (h c hm).imp_left fun hw x hx => ?_
    rcases List.mem_append.mp hx with hx | hx
    · exact hw x hx
    · exact List.mem_singleton.mp hx ▸ id
  | openChannel =>
    refine free_setPeer h ?_ d
    exact fun _ => Or.inl hok
  | close => exact free_setPeer h (fun _ => Or.inr rfl) d
  | @lock c _ =>
    refine free_setPeer h ?_ d
    exact nofun
  | @write c w hw hfree =>
    refine free_setPeer h (fun _ => Or.inl ?_) d
    cases w <;> exact hfree
  | @rlock c i m hi hq =>
    refine free_setPeer h ?_ d
    intro hm
    have : (r.peer c).writer = some .setChannel := hm
    rw [hq] at this
    cases this
  | @take c i m =>
    refine free_setPeer h ?_ d
    exact (h c).endCall
  | @drop c i m b =>
    refine free_setPeer h ?_ d
    exact (h c).endCall
  | @lockRoom c m =>
    refine free_setPeer h ?_ d
    exact h c
  | @send c other m rest sent =>
    have h' := free_setPeer (c := c) (p := { r.peer c with goroutine := .broadcasting m rest }) h (h c)
    refine free_setPeer h' ?_ d
    exact h' other
  | @unlockRoom c m =>
    refine free_setPeer h ?_ d
    exact h c

end Free

/-- Some goroutine can go on. -/
def Enabled (r : Room μ) : Prop := ∃ a ∈ internal r, (step r a).isSome = true

section Progress

variable {r : Room μ} {c : String} {a : Action μ}

theorem enabled_of (hc : c ∈ r.clients) (ha : a ∈ [.lock c, .write c, .lockRoom c, .send c, .unlockRoom c])
    (hs : (step r a).isSome = true) : Enabled r :=
  ⟨a, List.mem_flatMap.mpr ⟨c, hc, List.mem_append_left _ ha⟩, hs⟩

theorem enabled_of_call {i : ℕ} {x : Call μ} (hc : c ∈ r.clients) (hi : (r.peer c).calls[i]? = some x)
    (ha : a ∈ [.rlock c i, .take c i, .drop c i]) (hs : (step r a).isSome = true) : Enabled r := by
  refine ⟨a, List.mem_flatMap.mpr ⟨c, hc, List.mem_append_right _ (List.mem_flatMap.mpr ⟨i, ?_, ha⟩)⟩, hs⟩
  exact List.mem_range.mpr (List.getElem?_eq_some_iff.mp hi).1

/-- A call at the `select` of a closed transceiver can end. -/
theorem enabled_drop {i : ℕ} {m : μ} {b : Bool} (hc : c ∈ r.clients)
    (hi : (r.peer c).calls[i]? = some (.selecting m b)) (hclose : (r.peer c).closeChannel = true) : Enabled r :=
  enabled_of_call hc hi (a := .drop c i) (by simp) (by simp [step, hi, hclose])

/-- A read lock can be had, or what keeps it can go on. -/
theorem Sound.readable_or (h : Sound r) (hfree : (r.peer c).Free) (hc : c ∈ r.clients) :
    (r.peer c).Readable ∨ Enabled r := by
  cases hw : (r.peer c).writer with
  | none => exact Or.inl hw
  | some w =>
    right
    by_cases hfr : (r.peer c).Writable
    · exact enabled_of hc (a := .write c) (by simp) (by simp [Broadcast.step, hw, hfr])
    · -- the reader leaves, because `closeChannel` is closed
      have hclose : (r.peer c).closeChannel = true := by
        cases w with
        | close => exact (h.peers c).closer hw
        | setChannel => exact (hfree hw).resolve_left hfr
      simp only [Transceiver.Writable, not_forall, not_not] at hfr
      obtain ⟨x, hx, hin⟩ := hfr
      obtain ⟨i, hi⟩ := List.mem_iff_getElem?.mp hx
      cases x with
      | waiting m => exact hin.elim
      | selecting m b => exact enabled_drop hc hi hclose

theorem Sound.progress_locked {A : String} (h : Sound r) (hfree : ∀ d, (r.peer d).Free) (hmu : r.mu = some A) :
    Enabled r := by
  obtain ⟨m, rest, hg⟩ := (h.mu A).mpr hmu
  have hA : A ∈ r.clients := h.mem_clients fun hnew => by simp [hnew, Transceiver.new] at hg
  cases rest with
  | nil => exact enabled_of hA (a := .unlockRoom A) (by simp) (by simp [Broadcast.step, hg])
  | cons d rest =>
    rcases h.readable_or (hfree d) ((h.rest A m _ hg).2.2 d List.mem_cons_self) with hq | he
    · exact enabled_of hA (a := .send A) (by simp) (by simp [Broadcast.step, hg, hq])
    · exact he

/-- A client whose goroutine is idle, when nothing else holds it up. -/
theorem Sound.progress_idle (h : Sound r) (hfree : (r.peer c).Free) (hc : c ∈ r.clients)
    (hg : (r.peer c).goroutine = .idle)
    (hbusy : (r.peer c).calls ≠ [] ∨ (r.peer c).writer ≠ none ∨ (r.peer c).closing = true) : Enabled r := by
  rcases h.readable_or hfree hc with hq | he
  · rcases hbusy with hcalls | hw | hclosing
    · obtain ⟨x, l, hl⟩ := List.exists_cons_of_ne_nil hcalls
      have hi : (r.peer c).calls[0]? = some x := by rw [hl]; rfl
      match x, hi with
      | .waiting m, hi => exact enabled_of_call hc hi (a := .rlock c 0) (by simp) (by simp [Broadcast.step, hi, hq])
      | .selecting m true, hi =>
        refine enabled_of_call hc hi (a := .take c 0) (by simp) ?_
        simp only [Broadcast.step, hi, hg]
        split_ifs <;> rfl
      | .selecting m false, hi => exact enabled_drop hc hi ((h.peers c).stale m (List.mem_of_getElem? hi))
    · exact absurd hq hw
    · exact enabled_of hc (a := .lock c) (by simp) (by simp [Broadcast.step, hclosing, hq])
  · exact he

theorem Sound.progress (h : Sound r) (hfree : ∀ d, (r.peer d).Free) : AtRest r ∨ Enabled r := by
  cases hmu : r.mu with
  | some A => exact Or.inr (h.progress_locked hfree hmu)
  | none =>
    by_cases htaken : ∃ c ∈ r.clients, ∃ m, (r.peer c).goroutine = .taken m
    · obtain ⟨c, hc, m, hg⟩ := htaken
      exact Or.inr (enabled_of hc (a := .lockRoom c) (by simp) (by simp [Broadcast.step, hg, hmu]))
    · by_cases hrest : AtRest r
      · exact Or.inl hrest
      · simp only [AtRest, not_forall] at hrest
        obtain ⟨c, hc, hbusy⟩ := hrest
        have hg : (r.peer c).goroutine = .idle := by
          cases hg : (r.peer c).goroutine with
          | idle => rfl
          | taken m => exact absurd ⟨c, hc, m, hg⟩ htaken
          | broadcasting m rest =>
            have := (h.mu c).mp ⟨m, rest, hg⟩
            rw [hmu] at this
            cases this
        refine Or.inr (h.progress_idle (hfree c) hc hg ?_)
        by_contra hnot
        simp only [not_or, not_not, Bool.not_eq_true] at hnot
        exact hbusy ⟨hnot.1, hg, hnot.2⟩

end Progress

/-! ### The work that is left -/

/-- The steps that are left to a call, in a room of `n` clients. -/
def Call.work (n : ℕ) : Call μ → ℕ
  | .waiting _ => n + 4
  | .selecting _ _ => n + 3

def Goroutine.work (n : ℕ) : Goroutine μ → ℕ
  | .idle => 0
  | .taken _ => n + 2
  | .broadcasting _ rest => rest.length + 1

def Transceiver.work (n : ℕ) (p : Transceiver μ) : ℕ :=
  (p.calls.map (Call.work n)).sum + p.goroutine.work n + (if p.writer.isSome then 1 else 0) +
    if p.closing then 2 else 0

def work (r : Room μ) : ℕ := (r.clients.map fun c => (r.peer c).work r.transports.length).sum

section Work

variable {r r' : Room μ} {c : String} {p : Transceiver μ} {a : Action μ} {n : ℕ}

/-- One client has less to do. -/
theorem work_setPeer (hc : c ∈ r.clients) (hp : p.work r.transports.length < (r.peer c).work r.transports.length) :
    work (r.setPeer c p) < work r := by
  refine List.sum_lt_sum _ _ (fun d _ => ?_) ⟨c, hc, ?_⟩
  · by_cases hd : d = c
    · subst hd
      rw [setPeer_self]
      exact hp.le
    · rw [setPeer_ne hd]
      exact Nat.le_refl _
  · rw [setPeer_self]
    exact hp

theorem work_mu (mu : Option String) : work { r with mu } = work r := rfl

theorem work_setPeer_eq (hp : p.work r.transports.length = (r.peer c).work r.transports.length) :
    work (r.setPeer c p) = work r := by
  refine congrArg List.sum (List.map_congr_left fun d _ => ?_)
  by_cases hd : d = c
  · subst hd
    rw [setPeer_self]
    exact hp
  · rw [setPeer_ne hd]
    rfl

theorem work_endCall {i : ℕ} {m : μ} {b : Bool} {q : Transceiver μ} (hi : p.calls[i]? = some (.selecting m b))
    (hcalls : q.calls = p.calls.eraseIdx i) (hw : q.writer = p.writer) (hclosing : q.closing = p.closing)
    (hg : q.goroutine.work n < p.goroutine.work n + (n + 3)) : q.work n < p.work n := by
  have hsum := sum_eraseIdx (f := Call.work n) hi
  simp only [Transceiver.work, hcalls, hw, hclosing]
  simp only [Call.work] at hsum
  omega

theorem work_rlock {i : ℕ} {m : μ} {b : Bool} (hi : p.calls[i]? = some (.waiting m)) :
    { p with calls := p.calls.set i (.selecting m b) }.work n < p.work n := by
  have hsum := sum_set (f := Call.work n) (y := .selecting m b) hi
  simp only [Transceiver.work]
  simp only [Call.work] at hsum
  omega

theorem work_goroutine {g : Goroutine μ} (hg : g.work n < p.goroutine.work n) :
    { p with goroutine := g }.work n < p.work n := by
  simp only [Transceiver.work]
  omega

theorem work_write {w : Writer} (hw : p.writer = some w) : ({ p with writer := none }.written w).work n < p.work n := by
  have hwritten : ({ p with writer := none }.written w).work n = { p with writer := none }.work n := by cases w <;> rfl
  rw [hwritten]
  simp [Transceiver.work, hw]

/-- **Step lemma**: every internal step leaves less to do. -/
theorem Sound.work_step (h : Sound r) (ha : Internal a) (hs : Stepped r a r') : work r' < work r := by
  have hin {c : String} (hne : r.peer c ≠ .new) : c ∈ r.clients := h.mem_clients hne
  cases hs with
  | create | join | leave | message | openChannel | close => exact ha.elim
  | @panic c i m hi hclosed =>
    have := (h.peers c).opened m (List.mem_of_getElem? hi)
    rw [hclosed] at this
    cases this
  | @lock c hclosing hq =>
    refine work_setPeer (hin fun hnew => by simp [hnew, Transceiver.new] at hclosing) ?_
    have hq' : (r.peer c).writer = none := hq
    simp [Transceiver.work, hclosing, hq']
  | @write c w hw hfree =>
    refine work_setPeer (hin fun hnew => by simp [hnew, Transceiver.new] at hw) ?_
    exact work_write hw
  | @rlock c i m hi =>
    exact work_setPeer (hin fun hnew => by simp [hnew, Transceiver.new] at hi) (work_rlock hi)
  | @take c i m hi hg =>
    refine work_setPeer (hin fun hnew => by simp [hnew, Transceiver.new] at hi) (work_endCall hi rfl rfl rfl ?_)
    simp only [hg, Goroutine.work]
    omega
  | @drop c i m b hi =>
    refine work_setPeer (hin fun hnew => by simp [hnew, Transceiver.new] at hi) (work_endCall hi rfl rfl rfl ?_)
    show (r.peer c).goroutine.work _ < _
    omega
  | @lockRoom c m hg =>
    rw [work_mu]
    refine work_setPeer (hin fun hnew => by simp [hnew, Transceiver.new] at hg) (work_goroutine ?_)
    have hlen := List.length_filter_le (fun other => decide (other ≠ c)) r.transports
    simp only [hg, Goroutine.work]
    omega
  | @send c other m rest sent hg =>
    have hc : c ∈ r.clients := hin fun hnew => by simp [hnew, Transceiver.new] at hg
    have hlt : work (r.setPeer c { r.peer c with goroutine := .broadcasting m rest }) < work r := by
      refine work_setPeer hc (work_goroutine ?_)
      simp only [hg, Goroutine.work, List.length_cons]
      omega
    -- what was sent is not counted
    rwa [work_setPeer_eq]
    rfl
  | @unlockRoom c m hg =>
    rw [work_mu]
    refine work_setPeer (hin fun hnew => by simp [hnew, Transceiver.new] at hg) (work_goroutine ?_)
    simp [hg, Goroutine.work]

end Work

theorem opened_of_internal {r : Room μ} {a : Action μ} (ha : Internal a) : Opened r a := by
  cases a <;> trivial

theorem free_of_reach {r : Room μ} (h : Reach step Opened Room.empty r) : ∀ d, (r.peer d).Free :=
  h.invariant (I := fun r => ∀ d, (r.peer d).Free) (fun d hm => by cases hm)
    fun _ _ _ hI hok hs => free_step hI hok (stepped_of_step hs)

/-- **The goroutines come to rest**: along every run in which no data channel is set while a message of the client
holds the read lock, whatever internal steps are taken from there on are at most `work r`, and after them all
goroutines are at rest or one can go on. -/
theorem messages_progress {r r' : Room μ} {as : List (Action μ)} (h : Reach step Opened Room.empty r)
    (ha : ∀ a ∈ as, Internal a) (he : exec step r as = some r') :
    as.length ≤ work r ∧ (AtRest r' ∨ Enabled r') := by
  have hrun := exec_measure (I := Reach step Opened Room.empty) (m := work) (fun r a r' hr ha hs =>
    ⟨hr.tail (opened_of_internal ha) hs, (sound_of_reach hr).work_step ha (stepped_of_step hs)⟩) as h ha he
  obtain ⟨h', hle⟩ := hrun
  exact ⟨by omega, (sound_of_reach h').progress (free_of_reach h')⟩

/-- Two clients send at the same time while one of them closes. -/
theorem messages_progress_example : ∃ r : Room ℕ, exec (guarded step Opened) Room.empty
      [.create "a", .create "b", .openChannel "b", .write "b", .join "a", .join "b", .message "a" 1, .rlock "a" 0,
        .take "a" 0, .message "b" 2, .rlock "b" 0, .take "b" 0, .message "a" 3, .rlock "a" 0, .lockRoom "b",
        .close "a", .lock "a"] = some r ∧
    (work r = 12 ∧ (r.peer "a").calls ≠ []) ∧ (AtRest r ∨ Enabled r) :=
  exists_exec (by decide +kernel) fun _ h _ => (messages_progress h (List.forall_mem_nil _) rfl).2

/-- **A second data channel stops the room**: the goroutine of one client holds the lock of the room and waits for
the read lock of another, whose data channel waits for a message that waits for the lock of the room. -/
theorem broadcast_deadlock : ∃ r : Room ℕ, exec (guarded step anyStep) Room.empty
      [.create "a", .create "b", .openChannel "b", .write "b", .join "a", .join "b", .message "b" 1, .rlock "b" 0,
        .take "b" 0, .message "b" 2, .rlock "b" 0, .message "a" 3, .rlock "a" 0, .take "a" 0, .lockRoom "a",
        .openChannel "b"] = some r ∧
    ((∀ a ∈ internal r, (step r a).isNone = true) ∧ (r.peer "a").goroutine = .broadcasting 3 ["b"]) ∧
    Reach step anyStep Room.empty r :=
  exists_exec (by decide +kernel) fun _ h _ => h

end Meeting.Sfu.Broadcast
