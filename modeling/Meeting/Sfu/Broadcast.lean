import Mathlib.Data.List.Perm.Basic
import Meeting.Lib.Runs

/-!
# Meeting.Sfu.Broadcast — messages over the data channels (`datatransceiver.go`, `tracksmanager.go`)

`handleMessage` offers a message of a client to the goroutine that `RoomPeersManager.Add` starts, and holds the
read lock of the `DataTransceiver` until it is taken or `closeChannel` is closed.  The goroutine takes the lock of
the room and sends the message to the other clients, under the read locks of their transceivers.  `Close` and
`handleDataChannel` take the write lock of the `sync.RWMutex`: a writer announces itself when the one before it is
done, and from then on it keeps new readers out; those that were kept out may get in before the next writer.

The order in which the locks are taken is the subject of `Meeting.Sfu.Progress`.

* `messages_sent`: nothing is sent on a closed channel; what a client is sent are messages of other clients, in
  the order that they were taken; every message is taken once, or dropped after `Close`, or still under way.
-/

namespace Meeting.Sfu.Broadcast

open Lib

variable {μ : Type*}

/-! ### State -/

/-- A call of `handleMessage`. -/
inductive Call (μ : Type*) where
  /-- It waits for the read lock. -/
  | waiting (message : μ)
  /-- It has the lock and is at the `select`; `ch` is not nil if `opened`. -/
  | selecting (message : μ) (opened : Bool)
  deriving DecidableEq, Repr

def Call.message : Call μ → μ
  | .waiting m | .selecting m _ => m

def Call.Inside : Call μ → Prop
  | .waiting _ => False
  | .selecting _ _ => True

instance : DecidablePred (Call.Inside : Call μ → Prop)
  | .waiting _ => isFalse id
  | .selecting _ _ => isTrue trivial

/-- What takes the write lock. -/
inductive Writer where
  | close
  /-- `handleDataChannel`. -/
  | setChannel
  deriving DecidableEq, Repr

/-- The goroutine that broadcasts the messages of a client. -/
inductive Goroutine (μ : Type*) where
  | idle
  /-- It has taken a message, and waits for the lock of the room. -/
  | taken (message : μ)
  | broadcasting (message : μ) (rest : List String)
  deriving DecidableEq, Repr

structure Transceiver (μ : Type*) where
  hasChannel : Bool
  /-- `closeChannel` is closed. -/
  closeChannel : Bool
  /-- `Close` has closed it and not yet announced itself as a writer. -/
  closing : Bool
  dataChanClosed : Bool
  calls : List (Call μ)
  /-- The writer that has announced itself. -/
  writer : Option Writer
  goroutine : Goroutine μ
  /-- The messages that `handleMessage` was called with, that were taken from `messagesChan`, and that were
  dropped. -/
  handled : List μ
  taken : List μ
  dropped : List μ
  /-- What was sent to the client, and from whom. -/
  sent : List (String × μ)
  deriving DecidableEq, Repr

def Transceiver.new : Transceiver μ := ⟨false, false, false, false, [], none, .idle, [], [], [], []⟩

/-- A read lock can be had, and a writer can announce itself. -/
def Transceiver.Readable (p : Transceiver μ) : Prop := p.writer = none

instance : DecidablePred (Transceiver.Readable : Transceiver μ → Prop) := fun p =>
  inferInstanceAs (Decidable (p.writer = none))

/-- The write lock can be had: no reader holds it. -/
def Transceiver.Writable (p : Transceiver μ) : Prop := ∀ x ∈ p.calls, ¬ x.Inside

instance : DecidablePred (Transceiver.Writable : Transceiver μ → Prop) := fun p =>
  inferInstanceAs (Decidable (∀ x ∈ p.calls, ¬ x.Inside))

structure Room (μ : Type*) where
  /-- The clients that have a transceiver. -/
  clients : List String
  transports : List String
  peer : String → Transceiver μ
  /-- The client whose goroutine holds the lock of the room. -/
  mu : Option String
  /-- Sends on a closed channel. -/
  panics : ℕ

def Room.empty : Room μ := ⟨[], [], fun _ => .new, none, 0⟩

def Room.setPeer (r : Room μ) (c : String) (p : Transceiver μ) : Room μ :=
  { r with peer := Function.update r.peer c p }

/-! ### Steps -/

inductive Action (μ : Type*) where
  | create (clientID : String)
  /-- `Add` and `Remove`, under the lock of the room. -/
  | join (clientID : String)
  | leave (clientID : String)
  /-- A message arrives: `handleMessage` is called. -/
  | message (clientID : String) (m : μ)
  /-- `handleDataChannel` announces itself as a writer. -/
  | openChannel (clientID : String)
  /-- `Close` closes `closeChannel`. -/
  | close (clientID : String)
  /-- `Close` announces itself. -/
  | lock (clientID : String)
  /-- The writer gets the lock. -/
  | write (clientID : String)
  | rlock (clientID : String) (call : ℕ)
  /-- The goroutine takes the message of a call. -/
  | take (clientID : String) (call : ℕ)
  /-- A call ends because `closeChannel` is closed. -/
  | drop (clientID : String) (call : ℕ)
  | lockRoom (clientID : String)
  /-- The message is sent to the next client. -/
  | send (clientID : String)
  | unlockRoom (clientID : String)
  deriving DecidableEq, Repr

/-- What a writer does with the lock. -/
def Transceiver.written (p : Transceiver μ) : Writer → Transceiver μ
  | .close => { p with dataChanClosed := true }
  | .setChannel => { p with hasChannel := true }

/-- The call `i` has ended. -/
def Transceiver.endCall (p : Transceiver μ) (i : ℕ) : Transceiver μ := { p with calls := p.calls.eraseIdx i }

def step (r : Room μ) : Action μ → Option (Room μ)
  | .create c => if c ∈ r.clients then none else some { r with clients := c :: r.clients }
  | .join c =>
    if c ∈ r.clients ∧ c ∉ r.transports ∧ r.mu = none then some { r with transports := c :: r.transports } else none
  | .leave c => if r.mu = none then some { r with transports := r.transports.erase c } else none
  | .message c m =>
    let p := r.peer c
    if c ∈ r.clients then
      some (r.setPeer c { p with calls := p.calls ++ [.waiting m], handled := p.handled ++ [m] })
    else none
  | .openChannel c =>
    let p := r.peer c
    if c ∈ r.clients ∧ p.Readable then some (r.setPeer c { p with writer := some .setChannel }) else none
  | .close c =>
    let p := r.peer c
    -- `dataChanOnce`
    if c ∈ r.clients ∧ p.closeChannel = false then
      some (r.setPeer c { p with closeChannel := true, closing := true })
    else none
  | .lock c =>
    let p := r.peer c
    if p.closing ∧ p.Readable then some (r.setPeer c { p with closing := false, writer := some .close }) else none
  | .write c =>
    let p := r.peer c
    match p.writer with
    | none => none
    | some w => if p.Writable then some (r.setPeer c ({ p with writer := none }.written w)) else none
  | .rlock c i =>
    let p := r.peer c
    match p.calls[i]? with
    | some (.waiting m) =>
      if p.Readable then some (r.setPeer c { p with calls := p.calls.set i (.selecting m !p.dataChanClosed) })
      else none
    | _ => none
  | .take c i =>
    let p := r.peer c
    match p.calls[i]?, p.goroutine with
    | some (.selecting m true), .idle =>
      if p.dataChanClosed then some { r with panics := r.panics + 1 }
      else some (r.setPeer c { p.endCall i with goroutine := .taken m, taken := p.taken ++ [m] })
    | _, _ => none
  | .drop c i =>
    let p := r.peer c
    match p.calls[i]? with
    | some (.selecting m _) =>
      if p.closeChannel then some (r.setPeer c { p.endCall i with dropped := p.dropped ++ [m] }) else none
    | _ => none
  | .lockRoom c =>
    let p := r.peer c
    match p.goroutine, r.mu with
    | .taken m, none =>
      let rest := r.transports.filter fun other => other ≠ c
      some { r.setPeer c { p with goroutine := .broadcasting m rest } with mu := some c }
    | _, _ => none
  | .send c =>
    let p := r.peer c
    match p.goroutine with
    | .broadcasting m (other :: rest) =>
      let q := r.peer other
      if q.Readable then
        let r' := r.setPeer c { p with goroutine := .broadcasting m rest }
        -- without a data channel there is only an error
        let sent := if q.hasChannel then q.sent ++ [(c, m)] else q.sent
        some (r'.setPeer other { r'.peer other with sent })
      else none
    | _ => none
  | .unlockRoom c =>
    let p := r.peer c
    match p.goroutine with
    | .broadcasting _ [] => some { r.setPeer c { p with goroutine := .idle } with mu := none }
    | _ => none

/-- What a step can do. -/
inductive Stepped (r : Room μ) : Action μ → Room μ → Prop
  | create {c : String} : c ∉ r.clients → Stepped r (.create c) { r with clients := c :: r.clients }
  | join {c : String} : c ∈ r.clients → c ∉ r.transports → r.mu = none →
      Stepped r (.join c) { r with transports := c :: r.transports }
  | leave {c : String} : Stepped r (.leave c) { r with transports := r.transports.erase c }
  | message {c : String} {m : μ} : c ∈ r.clients → Stepped r (.message c m) (r.setPeer c { r.peer c with
      calls := (r.peer c).calls ++ [.waiting m]
      handled := (r.peer c).handled ++ [m] })
  | openChannel {c : String} : c ∈ r.clients → Stepped r (.openChannel c)
      (r.setPeer c { r.peer c with writer := some .setChannel })
  | close {c : String} : c ∈ r.clients → Stepped r (.close c)
      (r.setPeer c { r.peer c with closeChannel := true, closing := true })
  | lock {c : String} : (r.peer c).closing = true → (r.peer c).Readable → Stepped r (.lock c)
      (r.setPeer c { r.peer c with closing := false, writer := some .close })
  | write {c : String} {w : Writer} : (r.peer c).writer = some w → (r.peer c).Writable →
      Stepped r (.write c) (r.setPeer c ({ r.peer c with writer := none }.written w))
  | rlock {c : String} {i : ℕ} {m : μ} : (r.peer c).calls[i]? = some (.waiting m) → (r.peer c).Readable →
      Stepped r (.rlock c i) (r.setPeer c { r.peer c with
        calls := (r.peer c).calls.set i (.selecting m !(r.peer c).dataChanClosed) })
  | panic {c : String} {i : ℕ} {m : μ} : (r.peer c).calls[i]? = some (.selecting m true) →
      (r.peer c).dataChanClosed = true → Stepped r (.take c i) { r with panics := r.panics + 1 }
  | take {c : String} {i : ℕ} {m : μ} : (r.peer c).calls[i]? = some (.selecting m true) →
      (r.peer c).goroutine = .idle → Stepped r (.take c i) (r.setPeer c { (r.peer c).endCall i with
        goroutine := .taken m
        taken := (r.peer c).taken ++ [m] })
  | drop {c : String} {i : ℕ} {m : μ} {b : Bool} : (r.peer c).calls[i]? = some (.selecting m b) →
      (r.peer c).closeChannel = true → Stepped r (.drop c i) (r.setPeer c { (r.peer c).endCall i with
        dropped := (r.peer c).dropped ++ [m] })
  | lockRoom {c : String} {m : μ} : (r.peer c).goroutine = .taken m → r.mu = none →
      Stepped r (.lockRoom c) { r.setPeer c { r.peer c with
        goroutine := .broadcasting m (r.transports.filter fun other => other ≠ c) } with mu := some c }
  | send {c other : String} {m : μ} {rest : List String} {sent : List (String × μ)} :
      (r.peer c).goroutine = .broadcasting m (other :: rest) → (r.peer other).Readable →
      sent = (r.peer other).sent ++ [(c, m)] ∨ sent = (r.peer other).sent → Stepped r (.send c)
        ((r.setPeer c { r.peer c with goroutine := .broadcasting m rest }).setPeer other
          { (r.setPeer c { r.peer c with goroutine := .broadcasting m rest }).peer other with sent })
  | unlockRoom {c : String} {m : μ} : (r.peer c).goroutine = .broadcasting m [] → Stepped r (.unlockRoom c)
      { r.setPeer c { r.peer c with goroutine := .idle } with mu := none }

theorem stepped_of_step {r r' : Room μ} {a : Action μ} (hs : step r a = some r') : Stepped r a r' := by
  cases a with
  | create c =>
    simp only [step] at hs
    split_ifs at hs with h
    exact Option.some.inj hs ▸ .create h
  | join c =>
    simp only [step] at hs
    split_ifs at hs with h
    exact Option.some.inj hs ▸ .join h.1 h.2.1 h.2.2
  | leave c =>
    simp only [step] at hs
    split_ifs at hs
    exact Option.some.inj hs ▸ .leave
  | message c m =>
    simp only [step] at hs
    split_ifs at hs with h
    exact Option.some.inj hs ▸ .message h
  | openChannel c =>
    simp only [step] at hs
    split_ifs at hs with h
    exact Option.some.inj hs ▸ .openChannel h.1
  | close c =>
    simp only [step] at hs
    split_ifs at hs with h
    exact Option.some.inj hs ▸ .close h.1
  | lock c =>
    simp only [step] at hs
    split_ifs at hs with h
    exact Option.some.inj hs ▸ .lock h.1 h.2
  | write c =>
    simp only [step] at hs
    cases hw : (r.peer c).writer with
    | none => simp [hw] at hs
    | some w =>
      simp only [hw] at hs
      split_ifs at hs with h
      exact Option.some.inj hs ▸ .write hw h
  | rlock c i =>
    simp only [step] at hs
    split at hs
    · rename_i m hm
      split_ifs at hs with h
      exact Option.some.inj hs ▸ .rlock hm h
    · cases hs
  | take c i =>
    simp only [step] at hs
    split at hs
    · rename_i m hm hg
      split_ifs at hs with h
      · exact Option.some.inj hs ▸ .panic hm h
      · exact Option.some.inj hs ▸ .take hm hg
    · cases hs
  | drop c i =>
    simp only [step] at hs
    split at hs
    · rename_i m b hm
      split_ifs at hs with h
      exact Option.some.inj hs ▸ .drop hm h
    · cases hs
  | lockRoom c =>
    simp only [step] at hs
    split at hs
    · rename_i m hg hmu
      exact Option.some.inj hs ▸ .lockRoom hg hmu
    · cases hs
  | send c =>
    simp only [step] at hs
    split at hs
    · rename_i m other rest hg
      split_ifs at hs with hq hchannel
      · exact Option.some.inj hs ▸ .send hg hq (Or.inl rfl)
      · exact Option.some.inj hs ▸ .send hg hq (Or.inr rfl)
    · cases hs
  | unlockRoom c =>
    simp only [step] at hs
    split at hs
    · rename_i m hg
      exact Option.some.inj hs ▸ .unlockRoom hg
    · cases hs

/-! ### One transceiver -/

structure Transceiver.Sane (p : Transceiver μ) : Prop where
  closing : p.closing = true → p.closeChannel = true
  closer : p.writer = some .close → p.closeChannel = true
  closed : p.dataChanClosed = true → p.closeChannel = true
  /-- While a call is at the `select` with the channel, the channel is not closed. -/
  opened : ∀ m, .selecting m true ∈ p.calls → p.dataChanClosed = false
  stale : ∀ m, .selecting m false ∈ p.calls → p.closeChannel = true
  conserved : p.handled.Perm (p.taken ++ p.calls.map Call.message ++ p.dropped)
  dropped : p.dropped ≠ [] → p.closeChannel = true

section Transceiver

variable {p : Transceiver μ} {i : ℕ} {m : μ}

theorem Transceiver.sane_new : (Transceiver.new : Transceiver μ).Sane := by
  refine ⟨?_, ?_, ?_, ?_, ?_, List.Perm.refl _, ?_⟩ <;> simp [Transceiver.new]

theorem Transceiver.Sane.message (h : p.Sane) (m : μ) :
    { p with calls := p.calls ++ [Call.waiting m], handled := p.handled ++ [m] }.Sane := by
  refine ⟨h.closing, h.closer, h.closed, fun m' hm' => ?_, fun m' hm' => ?_, ?_, h.dropped⟩
  · exact h.opened m' (by simpa using hm')
  · exact h.stale m' (by simpa using hm')
  · simp only [List.map_append, List.map_cons, List.map_nil, Call.message]
    refine (h.conserved.append_right [m]).trans ?_
    simp only [List.append_assoc]
    exact (List.perm_append_comm.append_left _).append_left _

theorem Transceiver.Sane.rlock (h : p.Sane) (hi : p.calls[i]? = some (.waiting m)) :
    { p with calls := p.calls.set i (.selecting m !p.dataChanClosed) }.Sane := by
  have hmem {m' : μ} {b : Bool} (hm : Call.selecting m' b ∈ p.calls.set i (.selecting m !p.dataChanClosed)) :
      .selecting m' b ∈ p.calls ∨ b = !p.dataChanClosed := by
    rcases List.mem_or_eq_of_mem_set hm with hm | hm
    · exact Or.inl hm
    · exact Or.inr (Call.selecting.inj hm).2
  refine ⟨h.closing, h.closer, h.closed, fun m' hm' => ?_, fun m' hm' => ?_, ?_, h.dropped⟩
  · rcases hmem hm' with hm' | hb
    · exact h.opened m' hm'
    · simpa using hb
  · rcases hmem hm' with hm' | hb
    · exact h.stale m' hm'
    · exact h.closed (by simpa using hb)
  · have hmap : (p.calls.set i (.selecting m !p.dataChanClosed)).map Call.message = p.calls.map Call.message := by
      have hm : (p.calls.map Call.message)[i]? = some m := by simp [hi, Call.message]
      obtain ⟨hlt, hm⟩ := List.getElem?_eq_some_iff.mp hm
      rw [List.map_set]
      conv_lhs => rw [Call.message, ← hm]
      exact List.set_getElem_self hlt
    simp only [hmap]
    exact h.conserved

theorem Transceiver.Sane.write {w : Writer} (h : p.Sane) (hw : p.writer = some w) (hfree : p.Writable) :
    ({ p with writer := none }.written w).Sane := by
  cases w with
  | close =>
    refine ⟨h.closing, fun _ => h.closer hw, fun _ => h.closer hw, fun m hm => ?_, h.stale, h.conserved, h.dropped⟩
    exact absurd trivial (hfree _ hm)
  | setChannel => exact ⟨h.closing, nofun, h.closed, h.opened, h.stale, h.conserved, h.dropped⟩

/-- The message of the call that ends. -/
theorem perm_eraseIdx {l : List (Call μ)} {x : Call μ} (hi : l[i]? = some x) :
    (l.map Call.message).Perm (x.message :: (l.eraseIdx i).map Call.message) := by
  obtain ⟨hlt, rfl⟩ := List.getElem?_eq_some_iff.mp hi
  exact ((List.getElem_cons_eraseIdx_perm hlt).symm.map Call.message)

theorem Transceiver.Sane.mem_of_endCall {x : Call μ} (hx : x ∈ (p.endCall i).calls) : x ∈ p.calls :=
  List.mem_of_mem_eraseIdx hx

theorem Transceiver.Sane.take {g : Goroutine μ} {b : Bool} (h : p.Sane) (hi : p.calls[i]? = some (.selecting m b)) :
    { p.endCall i with goroutine := g, taken := p.taken ++ [m] }.Sane := by
  refine ⟨h.closing, h.closer, h.closed, fun m' hm' => h.opened m' (mem_of_endCall hm'),
    fun m' hm' => h.stale m' (mem_of_endCall hm'), h.conserved.trans ?_, h.dropped⟩
  refine List.Perm.append_right p.dropped ?_
  rw [List.append_assoc]
  exact (perm_eraseIdx hi).append_left _

theorem Transceiver.Sane.drop {b : Bool} (h : p.Sane) (hi : p.calls[i]? = some (.selecting m b))
    (hclose : p.closeChannel = true) : { p.endCall i with dropped := p.dropped ++ [m] }.Sane := by
  refine ⟨h.closing, h.closer, h.closed, fun m' hm' => h.opened m' (mem_of_endCall hm'),
    fun m' hm' => h.stale m' (mem_of_endCall hm'), h.conserved.trans ?_, fun _ => hclose⟩
  show List.Perm (p.taken ++ p.calls.map Call.message ++ p.dropped)
    (p.taken ++ (p.calls.eraseIdx i).map Call.message ++ (p.dropped ++ [m]))
  rw [List.append_assoc, List.append_assoc]
  refine List.Perm.append_left _ (((perm_eraseIdx hi).append_right _).trans ?_)
  rw [← List.append_assoc]
  exact (List.perm_append_singleton m _).symm

end Transceiver

/-! ### The room -/

/-- The messages of `source` among those that were sent to a client. -/
def sentFrom (source : String) (sent : List (String × μ)) : List μ :=
  (sent.filter fun x => x.1 = source).map Prod.snd

/-- The message that a goroutine has still to send to `dest`. -/
def pending (dest : String) : Goroutine μ → List μ
  | .idle => []
  | .taken m => [m]
  | .broadcasting m rest => if dest ∈ rest then [m] else []

def Broadcasting (p : Transceiver μ) : Prop := ∃ m rest, p.goroutine = .broadcasting m rest

structure Sound (r : Room μ) : Prop where
  peers : ∀ c, (r.peer c).Sane
  mu : ∀ c, Broadcasting (r.peer c) ↔ r.mu = some c
  rest : ∀ c m rest, (r.peer c).goroutine = .broadcasting m rest →
    rest.Nodup ∧ c ∉ rest ∧ ∀ d ∈ rest, d ∈ r.clients
  order : ∀ A B, (sentFrom A (r.peer B).sent ++ pending B (r.peer A).goroutine).Sublist (r.peer A).taken
  echo : ∀ A B m, (A, m) ∈ (r.peer B).sent → A ≠ B
  transports : r.transports.Nodup ∧ ∀ c ∈ r.transports, c ∈ r.clients
  outside : ∀ c, c ∉ r.clients → r.peer c = .new
  panics : r.panics = 0

theorem sound_empty : Sound (Room.empty : Room μ) := by
  refine ⟨fun _ => Transceiver.sane_new, fun c => ?_, ?_, fun A B => List.Sublist.refl _, ?_, ?_, fun _ _ => rfl, rfl⟩
  · simp [Broadcasting, Room.empty, Transceiver.new]
  · intro c m rest h
    cases h
  · intro A B m h
    cases h
  · simp [Room.empty]

section Steps

variable {r : Room μ} {c : String} {p : Transceiver μ}

@[simp] theorem setPeer_self : (r.setPeer c p).peer c = p := Function.update_self ..

theorem setPeer_ne {d : String} (h : d ≠ c) : (r.setPeer c p).peer d = r.peer d := Function.update_of_ne h ..

/-- Something that a client still has and nobody else has. -/
theorem Sound.mem_clients (h : Sound r) (hc : r.peer c ≠ .new) : c ∈ r.clients := by
  by_contra hnot
  exact hc (h.outside c hnot)

/-- Steps of one transceiver that leave its goroutine and what was sent. -/
theorem Sound.setPeer (h : Sound r) (hc : c ∈ r.clients) (hp : p.Sane)
    (hg : p.goroutine = (r.peer c).goroutine) (ht : p.taken = (r.peer c).taken) (hsent : p.sent = (r.peer c).sent) :
    Sound (r.setPeer c p) := by
  have hpeer (d : String) : ((r.setPeer c p).peer d).goroutine = (r.peer d).goroutine ∧
      ((r.setPeer c p).peer d).taken = (r.peer d).taken ∧ ((r.setPeer c p).peer d).sent = (r.peer d).sent := by
    by_cases hd : d = c
    · subst hd
      rw [setPeer_self]
      exact ⟨hg, ht, hsent⟩
    · rw [setPeer_ne hd]
      exact ⟨rfl, rfl, rfl⟩
  refine ⟨fun d => ?_, fun d => ?_, fun d m rest hr => ?_, fun A B => ?_, fun A B m hm => ?_, h.transports,
    fun d hd => ?_, h.panics⟩
  · by_cases hd : d = c
    · subst hd
      rwa [setPeer_self]
    · rw [setPeer_ne hd]
      exact h.peers d
  · rw [Broadcasting, (hpeer d).1]
    exact h.mu d
  · rw [(hpeer d).1] at hr
    exact h.rest d m rest hr
  · rw [(hpeer A).1, (hpeer A).2.1, (hpeer B).2.2]
    exact h.order A B
  · rw [(hpeer B).2.2] at hm
    exact h.echo A B m hm
  · have hne : d ≠ c := by
      rintro rfl
      exact hd hc
    rw [setPeer_ne hne]
    exact h.outside d hd

/-- A goroutine goes on, with the room locked for it or not. -/
theorem Sound.goOn (h : Sound r) (mu : Option String) (hc : c ∈ r.clients) {g : Goroutine μ} (hp : p.Sane)
    (hg : p.goroutine = g) (hsent : p.sent = (r.peer c).sent)
    (hmu : ∀ d, (if d = c then ∃ m rest, g = .broadcasting m rest else Broadcasting (r.peer d)) ↔ mu = some d)
    (hrest : ∀ m rest, g = .broadcasting m rest → rest.Nodup ∧ c ∉ rest ∧ ∀ d ∈ rest, d ∈ r.clients)
    (horder : ∀ B, (sentFrom c (r.peer B).sent ++ pending B g).Sublist p.taken) :
    Sound { r.setPeer c p with mu } := by
  have hsent' (d : String) : ((r.setPeer c p).peer d).sent = (r.peer d).sent := by
    by_cases hd : d = c
    · subst hd
      rw [setPeer_self, hsent]
    · rw [setPeer_ne hd]
  refine ⟨fun d => ?_, fun d => ?_, fun d m rest hr => ?_, fun A B => ?_, fun A B m hm => ?_, h.transports,
    fun d hd => ?_, h.panics⟩
  · by_cases hd : d = c
    · subst hd
      simpa using hp
    · simp only [setPeer_ne hd]
      exact h.peers d
  · refine Iff.trans ?_ (hmu d)
    by_cases hd : d = c
    · subst hd
      simp [Broadcasting, hg]
    · simp [setPeer_ne hd, hd]
  · by_cases hd : d = c
    · subst hd
      simp only [setPeer_self, hg] at hr
      exact hrest m rest hr
    · simp only [setPeer_ne hd] at hr
      exact h.rest d m rest hr
  · simp only [hsent']
    by_cases hA : A = c
    · subst hA
      simp only [setPeer_self, hg]
      exact horder B
    · simp only [setPeer_ne hA]
      exact h.order A B
  · simp only [hsent'] at hm
    exact h.echo A B m hm
  · have hne : d ≠ c := by
      rintro rfl
      exact hd hc
    simp only [setPeer_ne hne]
    exact h.outside d hd

theorem Sound.take {i : ℕ} {m : μ} (h : Sound r) (hi : (r.peer c).calls[i]? = some (.selecting m true))
    (hg : (r.peer c).goroutine = .idle) :
    Sound (r.setPeer c { (r.peer c).endCall i with goroutine := .taken m, taken := (r.peer c).taken ++ [m] }) := by
  have hc : c ∈ r.clients := h.mem_clients fun hnew => by simp [hnew, Transceiver.new] at hi
  refine h.goOn r.mu hc ((h.peers c).take hi) rfl rfl (fun d => ?_) (fun m' rest hr => ?_) fun B => ?_
  · split_ifs with hd
    · subst hd
      rw [← h.mu d]
      simp [Broadcasting, hg]
    · exact h.mu d
  · cases hr
  · have hold := h.order c B
    rw [hg] at hold
    simp only [pending, List.append_nil] at hold
    exact hold.append_right [m]

theorem Sound.lockRoom {m : μ} (h : Sound r) (hg : (r.peer c).goroutine = .taken m) (hmu : r.mu = none) :
    Sound { r.setPeer c { r.peer c with
      goroutine := .broadcasting m (r.transports.filter fun other => other ≠ c) } with mu := some c } := by
  have hc : c ∈ r.clients := h.mem_clients fun hnew => by simp [hnew, Transceiver.new] at hg
  have hsane : { r.peer c with
      goroutine := .broadcasting m (r.transports.filter fun other => other ≠ c) }.Sane :=
    ⟨(h.peers c).closing, (h.peers c).closer, (h.peers c).closed, (h.peers c).opened, (h.peers c).stale,
      (h.peers c).conserved, (h.peers c).dropped⟩
  refine h.goOn (some c) hc hsane rfl rfl (fun d => ?_) (fun m' rest hr => ?_) fun B => ?_
  · split_ifs with hd
    · simp [hd]
    · rw [h.mu d, hmu]
      simp [Ne.symm hd]
  · obtain ⟨-, rfl⟩ := Goroutine.broadcasting.inj hr
    refine ⟨h.transports.1.filter _, by simp, fun d hd => h.transports.2 d (List.mem_filter.mp hd).1⟩
  · have hold := h.order c B
    rw [hg] at hold
    refine List.Sublist.trans (List.Sublist.append_left ?_ _) hold
    simp only [pending]
    split_ifs
    · exact List.Sublist.refl _
    · exact List.nil_sublist _

theorem Sound.unlockRoom {m : μ} (h : Sound r) (hg : (r.peer c).goroutine = .broadcasting m []) :
    Sound { r.setPeer c { r.peer c with goroutine := .idle } with mu := none } := by
  have hc : c ∈ r.clients := h.mem_clients fun hnew => by simp [hnew, Transceiver.new] at hg
  have hmu : r.mu = some c := (h.mu c).mp ⟨m, [], hg⟩
  have hsane : { r.peer c with goroutine := .idle }.Sane :=
    ⟨(h.peers c).closing, (h.peers c).closer, (h.peers c).closed, (h.peers c).opened, (h.peers c).stale,
      (h.peers c).conserved, (h.peers c).dropped⟩
  refine h.goOn none hc hsane rfl rfl (fun d => ?_) (fun m' rest hr => ?_) fun B => ?_
  · split_ifs with hd
    · simp
    · rw [h.mu d, hmu]
      simp [Ne.symm hd]
  · cases hr
  · have hold := h.order c B
    rw [hg] at hold
    simpa [pending] using hold

/-- The goroutine has sent its message to the first of the others. -/
theorem Sound.advance {m : μ} {other : String} {rest : List String} (h : Sound r)
    (hg : (r.peer c).goroutine = .broadcasting m (other :: rest)) :
    Sound (r.setPeer c { r.peer c with goroutine := .broadcasting m rest }) := by
  have hc : c ∈ r.clients := h.mem_clients fun hnew => by simp [hnew, Transceiver.new] at hg
  have hsane : { r.peer c with goroutine := .broadcasting m rest }.Sane :=
    ⟨(h.peers c).closing, (h.peers c).closer, (h.peers c).closed, (h.peers c).opened, (h.peers c).stale,
      (h.peers c).conserved, (h.peers c).dropped⟩
  have hmu : r.mu = some c := (h.mu c).mp ⟨m, _, hg⟩
  obtain ⟨hnodup, hself, hin⟩ := h.rest c m _ hg
  refine h.goOn r.mu hc hsane rfl rfl (fun d => ?_) (fun m' rest' hr => ?_) fun B => ?_
  · split_ifs with hd
    · simp [hd, hmu]
    · exact h.mu d
  · obtain ⟨-, rfl⟩ := Goroutine.broadcasting.inj hr
    exact ⟨(List.nodup_cons.mp hnodup).2, fun hm => hself (List.mem_cons_of_mem _ hm),
      fun d hd => hin d (List.mem_cons_of_mem _ hd)⟩
  · refine List.Sublist.trans (List.Sublist.append_left ?_ _) (h.order c B)
    rw [hg]
    simp only [pending]
    split_ifs with h1 h2 h2
    · exact List.Sublist.refl _
    · exact absurd (List.mem_cons_of_mem _ h1) h2
    · exact List.nil_sublist _
    · exact List.Sublist.refl _

theorem sentFrom_append (A : String) (l l' : List (String × μ)) :
    sentFrom A (l ++ l') = sentFrom A l ++ sentFrom A l' := by
  simp [sentFrom]

/-- A message is sent to a client that had it still to come. -/
theorem Sound.sent {m : μ} {other : String} {rest : List String} (h : Sound r)
    (hg : (r.peer c).goroutine = .broadcasting m (other :: rest)) :
    Sound ((r.setPeer c { r.peer c with goroutine := .broadcasting m rest }).setPeer other
      { (r.setPeer c { r.peer c with goroutine := .broadcasting m rest }).peer other with
        sent := (r.peer other).sent ++ [(c, m)] }) := by
  have h' := h.advance hg
  obtain ⟨hnodup, hself, hin⟩ := h.rest c m _ hg
  obtain ⟨hother, -⟩ := List.nodup_cons.mp hnodup
  have hne : other ≠ c := fun ho => hself (ho ▸ List.mem_cons_self)
  have hpeer : (r.setPeer c { r.peer c with goroutine := .broadcasting m rest }).peer other = r.peer other :=
    setPeer_ne hne
  generalize hr' : r.setPeer c { r.peer c with goroutine := .broadcasting m rest } = r' at h' hpeer ⊢
  have hg' : (r'.peer c).goroutine = .broadcasting m rest := by rw [← hr', setPeer_self]
  have ht' : (r'.peer c).taken = (r.peer c).taken := by rw [← hr', setPeer_self]
  have hframe (d : String) : ((r'.setPeer other { r'.peer other with sent := (r.peer other).sent ++ [(c, m)] }).peer
      d).goroutine = (r'.peer d).goroutine ∧ ((r'.setPeer other { r'.peer other with
        sent := (r.peer other).sent ++ [(c, m)] }).peer d).taken = (r'.peer d).taken := by
    by_cases hd : d = other
    · subst hd
      rw [setPeer_self]
      exact ⟨rfl, rfl⟩
    · rw [setPeer_ne hd]
      exact ⟨rfl, rfl⟩
  have hclients : other ∈ r'.clients := by
    rw [← hr']
    exact hin other List.mem_cons_self
  refine ⟨fun d => ?_, fun d => ?_, fun d m' rest' hr => ?_, fun A B => ?_, fun A B m' hm => ?_, h'.transports,
    fun d hd => ?_, h'.panics⟩
  · by_cases hd : d = other
    · subst hd
      rw [setPeer_self]
      have hp := h'.peers d
      exact ⟨hp.closing, hp.closer, hp.closed, hp.opened, hp.stale, hp.conserved, hp.dropped⟩
    · rw [setPeer_ne hd]
      exact h'.peers d
  · rw [Broadcasting, (hframe d).1]
    exact h'.mu d
  · rw [(hframe d).1] at hr
    exact h'.rest d m' rest' hr
  · rw [(hframe A).1, (hframe A).2]
    by_cases hB : B = other
    · subst hB
      rw [setPeer_self, sentFrom_append]
      by_cases hA : A = c
      · -- the message that was pending is now the last one sent
        subst hA
        have hold := h.order A B
        rw [hg] at hold
        simp only [pending, List.mem_cons_self, if_true] at hold
        simpa [hg', pending, hother, sentFrom, ht'] using hold
      · have hold := h'.order A B
        rw [hpeer] at hold
        simpa [sentFrom, Ne.symm hA] using hold
    · rw [setPeer_ne hB]
      exact h'.order A B
  · by_cases hB : B = other
    · subst hB
      rw [setPeer_self] at hm
      rcases List.mem_append.mp hm with hm | hm
      · rw [← hpeer] at hm
        exact h'.echo A B m' hm
      · obtain ⟨rfl, rfl⟩ := Prod.mk.inj (List.mem_singleton.mp hm)
        exact hne.symm
    · rw [setPeer_ne hB] at hm
      exact h'.echo A B m' hm
  · have hne' : d ≠ other := by
      rintro rfl
      exact hd hclients
    rw [setPeer_ne hne']
    exact h'.outside d hd

/-- **Step lemma.** -/
theorem Sound.step {r' : Room μ} {a : Action μ} (h : Sound r) (hs : Stepped r a r') : Sound r' := by
  cases hs with
  | create hc =>
    refine ⟨h.peers, h.mu, fun d m rest hr => ?_, h.order, h.echo, ⟨h.transports.1, fun d hd => ?_⟩, fun d hd => ?_,
      h.panics⟩
    · obtain ⟨h1, h2, h3⟩ := h.rest d m rest hr
      exact ⟨h1, h2, fun e he => List.mem_cons_of_mem _ (h3 e he)⟩
    · exact List.mem_cons_of_mem _ (h.transports.2 d hd)
    · exact h.outside d fun hm => hd (List.mem_cons_of_mem _ hm)
  | join hc hnew =>
    refine ⟨h.peers, h.mu, h.rest, h.order, h.echo, ⟨List.nodup_cons.mpr ⟨hnew, h.transports.1⟩, fun d hd => ?_⟩,
      h.outside, h.panics⟩
    rcases List.mem_cons.mp hd with rfl | hd
    · exact hc
    · exact h.transports.2 d hd
  | leave =>
    exact ⟨h.peers, h.mu, h.rest, h.order, h.echo, ⟨h.transports.1.erase _, fun d hd =>
      h.transports.2 d (List.mem_of_mem_erase hd)⟩, h.outside, h.panics⟩
  | message hc => exact h.setPeer hc ((h.peers _).message _) rfl rfl rfl
  | @openChannel c hc =>
    have hp := h.peers c
    refine h.setPeer hc ?_ rfl rfl rfl
    exact ⟨hp.closing, nofun, hp.closed, hp.opened, hp.stale, hp.conserved, hp.dropped⟩
  | @close c hc =>
    have hp := h.peers c
    refine h.setPeer hc ?_ rfl rfl rfl
    exact ⟨fun _ => rfl, fun _ => rfl, fun _ => rfl, hp.opened, fun _ _ => rfl, hp.conserved, fun _ => rfl⟩
  | @lock c hclosing =>
    have hp := h.peers c
    refine h.setPeer (h.mem_clients fun hnew => by simp [hnew, Transceiver.new] at hclosing) ?_ rfl rfl rfl
    refine ⟨?_, fun _ => hp.closing hclosing, hp.closed, hp.opened, hp.stale, hp.conserved, hp.dropped⟩
    intro hf
    cases hf
  | @write c w hw hfree =>
    refine h.setPeer (h.mem_clients fun hnew => by simp [hnew, Transceiver.new] at hw)
      ((h.peers c).write hw hfree) ?_ ?_ ?_ <;> cases w <;> rfl
  | @rlock c i m hi =>
    exact h.setPeer (h.mem_clients fun hnew => by simp [hnew, Transceiver.new] at hi) ((h.peers c).rlock hi) rfl rfl rfl
  | @panic c i m hi hclosed =>
    have := (h.peers c).opened m (List.mem_of_getElem? hi)
    rw [hclosed] at this
    cases this
  | take hi hg => exact h.take hi hg
  | @drop c i m b hi hclose =>
    exact h.setPeer (h.mem_clients fun hnew => by simp [hnew, Transceiver.new] at hi)
      ((h.peers c).drop hi hclose) rfl rfl rfl
  | lockRoom hg hmu => exact h.lockRoom hg hmu
  | @send c other m rest sent hg hq hsent =>
    rcases hsent with rfl | rfl
    · exact h.sent hg
    · have hne : other ≠ c := fun ho => (h.rest c m _ hg).2.1 (ho ▸ List.mem_cons_self)
      have h' := h.advance hg
      refine h'.setPeer ((h.rest c m _ hg).2.2 other List.mem_cons_self) ?_ rfl rfl ?_
      · have hp := h'.peers other
        exact ⟨hp.closing, hp.closer, hp.closed, hp.opened, hp.stale, hp.conserved, hp.dropped⟩
      · rw [setPeer_ne hne]
  | unlockRoom hg => exact h.unlockRoom hg

end Steps

theorem sound_of_reach {r : Room μ} {ok : Room μ → Action μ → Prop} (h : Reach step ok Room.empty r) : Sound r :=
  h.invariant sound_empty fun _ _ _ hI _ hs => hI.step (stepped_of_step hs)

/-- **What the clients are sent**: in every interleaving, nothing was sent on a closed channel; the messages of one
client that another was sent are a subsequence of those taken from `messagesChan`, and none is the client's own;
and every message that came in was taken once, or dropped after `Close`, or is still being offered. -/
theorem messages_sent {r : Room μ} (h : Reach step anyStep Room.empty r) :
    r.panics = 0 ∧
      (∀ A B, (sentFrom A (r.peer B).sent).Sublist (r.peer A).taken ∧ (A = B → sentFrom A (r.peer B).sent = [])) ∧
      ∀ A, (r.peer A).handled.Perm
          ((r.peer A).taken ++ (r.peer A).calls.map Call.message ++ (r.peer A).dropped) ∧
        ((r.peer A).dropped ≠ [] → (r.peer A).closeChannel = true) := by
  have hS := sound_of_reach h
  refine ⟨hS.panics, fun A B => ⟨?_, fun hAB => ?_⟩, fun A => ⟨(hS.peers A).conserved, (hS.peers A).dropped⟩⟩
  · exact (List.sublist_append_left _ _).trans (hS.order A B)
  · subst hAB
    have hnone : ((r.peer A).sent.filter fun x => x.1 = A) = [] := List.filter_eq_nil_iff.mpr fun x hx => by
      have := hS.echo x.1 A x.2 hx
      simpa using this
    rw [sentFrom, hnone, List.map_nil]

/-- One client closes while a message of it is offered. -/
theorem messages_sent_example : ∃ r : Room ℕ, exec (guarded step anyStep) Room.empty
      [.create "a", .create "b", .openChannel "b", .write "b", .join "a", .join "b", .message "a" 1, .rlock "a" 0,
        .take "a" 0, .lockRoom "a", .message "a" 2, .rlock "a" 0, .close "a", .send "a", .drop "a" 0, .unlockRoom "a",
        .lock "a", .write "a", .message "a" 3] = some r ∧
    ((r.peer "b").sent = [("a", 1)] ∧ (r.peer "a").handled = [1, 2, 3] ∧ (r.peer "a").dropped = [2]) ∧
    (sentFrom "a" (r.peer "b").sent).Sublist (r.peer "a").taken :=
  exists_exec (by decide +kernel) fun _ h _ => ((messages_sent h).2.1 "a" "b").1

end Meeting.Sfu.Broadcast
