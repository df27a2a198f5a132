import Meeting.Lib.Runs
import Meeting.Rtc.Negotiator

/-!
# Meeting.Rtc.Signaller — delivery of signals (`wrtcsignaller.go`)

`onSignal` takes `signalMu` and starts a goroutine that sends the payload on `signalChannel`, or gives up when
`closeChannel` is closed, and then releases the mutex.  ICE candidates wait for `descriptionSent`, which is closed
after `onSignal` of a session description has returned.  `Close` closes `closeChannel`, takes the mutex, closes
`signalChannel` and sets `closed`, once, however often it is called; then it closes `descriptionSent`.  A step is
what a goroutine does between two of these operations.

* `delivery_order`: in every reachable state nothing was sent on a closed channel and no channel was closed twice;
  and until `Close` is called, what was received is a prefix of what was accepted, with no candidate before the
  first session description.
-/

namespace Meeting.Rtc.Signals

open Lib

/-! ### State -/

inductive Payload where
  /-- A session description. -/
  | sdp (sdp : String)
  | candidate (candidate : String)
  | renegotiate
  | transceiverRequest (request : TransceiverRequest)
  deriving DecidableEq, Repr

/-- Who holds `signalMu`, and how far it is. -/
inductive Holder where
  /-- The goroutine of `onSignal`, before it looks at `closed`. -/
  | spawned (payload : Payload)
  /-- At the `select`, with the channel or with a nil channel. -/
  | selecting (payload : Payload) (channel : Bool)
  /-- After the `select`. -/
  | finished
  /-- `Close`. -/
  | closer
  deriving DecidableEq, Repr

/-- How far the function is that `closeOnce` runs. -/
inductive Once where
  | idle
  /-- Before `close(closeChannel)`. -/
  | started
  /-- Before `signalMu.Lock()`. -/
  | waiting
  /-- Before `close(signalChannel)`. -/
  | locked
  /-- Before `closed = true`. -/
  | unset
  /-- Before `signalMu.Unlock()`. -/
  | set
  | done
  deriving DecidableEq, Repr

structure Signaller where
  signalMu : Option Holder
  closed : Bool
  /-- The channels that are closed. -/
  signalClosed : Bool
  closeClosed : Bool
  descriptionSent : Bool
  closeOnce : Once
  /-- How often `Close` was called. -/
  closes : ℕ
  /-- How many callers with a session description have returned from `onSignal` and not closed
  `descriptionSent`. -/
  described : ℕ
  /-- The payloads whose `onSignal` has taken the mutex, and those that the reader has received. -/
  accepted : List Payload
  received : List Payload
  /-- A value was sent on a closed channel, or a closed channel was closed. -/
  panicked : Bool
  deriving DecidableEq, Repr

/-- `NewSignaller`. -/
def Signaller.new : Signaller := ⟨none, false, false, false, false, .idle, 0, 0, [], [], false⟩

/-! ### Steps -/

inductive Action where
  /-- `onSignal` takes the mutex and starts its goroutine. -/
  | onSignal (payload : Payload)
  /-- The goroutine reads `closed`. -/
  | look
  /-- The goroutine sends to the reader. -/
  | send
  /-- The goroutine finds `closeChannel` closed. -/
  | giveUp
  | unlock
  /-- `closeDescriptionSent` after a session description. -/
  | closeDescriptionSent
  /-- `Close` is called. -/
  | close
  /-- The next step of the function of `closeOnce`. -/
  | closing
  /-- The rest of `Close`, after `closeOnce`. -/
  | closeReturns
  deriving DecidableEq, Repr

def Payload.isDescription : Payload → Bool
  | .sdp _ => true
  | _ => false

/-- `handleICECandidate` waits for `descriptionSent`. -/
def Signaller.allows (s : Signaller) : Payload → Bool
  | .candidate _ => s.descriptionSent
  | _ => true

/-- The function of `closeOnce`. -/
def Signaller.closing (s : Signaller) : Option Signaller :=
  match s.closeOnce with
  | .idle | .done => none
  | .started =>
    some { s with closeClosed := true, panicked := s.panicked || s.closeClosed, closeOnce := .waiting }
  | .waiting =>
    match s.signalMu with
    | none => some { s with signalMu := some .closer, closeOnce := .locked }
    | some _ => none
  | .locked =>
    some { s with signalClosed := true, panicked := s.panicked || s.signalClosed, closeOnce := .unset }
  | .unset => some { s with closed := true, closeOnce := .set }
  | .set => some { s with signalMu := none, closeOnce := .done }

def step (s : Signaller) : Action → Option Signaller
  | .onSignal payload =>
    match s.signalMu with
    | none =>
      if s.allows payload then
        some { s with
          signalMu := some (.spawned payload)
          accepted := s.accepted ++ [payload]
          described := if payload.isDescription then s.described + 1 else s.described }
      else none
    | some _ => none
  | .look =>
    match s.signalMu with
    | some (.spawned payload) => some { s with signalMu := some (.selecting payload (!s.closed)) }
    | _ => none
  | .send =>
    match s.signalMu with
    | some (.selecting payload true) =>
      if s.signalClosed then some { s with panicked := true }
      else some { s with signalMu := some .finished, received := s.received ++ [payload] }
    | _ => none
  | .giveUp =>
    match s.signalMu with
    | some (.selecting _ _) => if s.closeClosed then some { s with signalMu := some .finished } else none
    | _ => none
  | .unlock =>
    match s.signalMu with
    | some .finished => some { s with signalMu := none }
    | _ => none
  | .closeDescriptionSent =>
    if 0 < s.described then some { s with described := s.described - 1, descriptionSent := true } else none
  | .close =>
    some { s with closes := s.closes + 1, closeOnce := if s.closeOnce = .idle then .started else s.closeOnce }
  | .closing => s.closing
  | .closeReturns =>
    if 0 < s.closes ∧ s.closeOnce = .done then some { s with descriptionSent := true } else none

/-- What a step can do. -/
inductive Stepped (s : Signaller) : Action → Signaller → Prop
  | onSignal {p : Payload} : s.signalMu = none → s.allows p = true → Stepped s (.onSignal p) { s with
      signalMu := some (.spawned p)
      accepted := s.accepted ++ [p]
      described := if p.isDescription then s.described + 1 else s.described }
  | look {p : Payload} : s.signalMu = some (.spawned p) →
      Stepped s .look { s with signalMu := some (.selecting p (!s.closed)) }
  | sendClosed {p : Payload} : s.signalMu = some (.selecting p true) → s.signalClosed = true →
      Stepped s .send { s with panicked := true }
  | send {p : Payload} : s.signalMu = some (.selecting p true) → s.signalClosed = false →
      Stepped s .send { s with signalMu := some .finished, received := s.received ++ [p] }
  | giveUp {p : Payload} {channel : Bool} : s.signalMu = some (.selecting p channel) → s.closeClosed = true →
      Stepped s .giveUp { s with signalMu := some .finished }
  | unlock : s.signalMu = some .finished → Stepped s .unlock { s with signalMu := none }
  | closeDescriptionSent : 0 < s.described →
      Stepped s .closeDescriptionSent { s with described := s.described - 1, descriptionSent := true }
  | close : s.closeOnce = .idle →
      Stepped s .close { s with closes := s.closes + 1, closeOnce := .started }
  | closeAgain : Stepped s .close { s with closes := s.closes + 1 }
  | closeChannel : s.closeOnce = .started → Stepped s .closing { s with
      closeClosed := true, panicked := s.panicked || s.closeClosed, closeOnce := .waiting }
  | lock : s.closeOnce = .waiting → s.signalMu = none →
      Stepped s .closing { s with signalMu := some .closer, closeOnce := .locked }
  | closeSignal : s.closeOnce = .locked → Stepped s .closing { s with
      signalClosed := true, panicked := s.panicked || s.signalClosed, closeOnce := .unset }
  | setClosed : s.closeOnce = .unset → Stepped s .closing { s with closed := true, closeOnce := .set }
  | release : s.closeOnce = .set → Stepped s .closing { s with signalMu := none, closeOnce := .done }
  | closeReturns : 0 < s.closes → s.closeOnce = .done →
      Stepped s .closeReturns { s with descriptionSent := true }

theorem stepped_of_closing {s s' : Signaller} (hs : s.closing = some s') : Stepped s .closing s' := by
  unfold Signaller.closing at hs
  cases ho : s.closeOnce with
  | idle => simp [ho] at hs
  | done => simp [ho] at hs
  | started =>
    simp only [ho] at hs
    exact Option.some.inj hs ▸ .closeChannel ho
  | waiting =>
    simp only [ho] at hs
    cases hm : s.signalMu with
    | none =>
      simp only [hm] at hs
      exact Option.some.inj hs ▸ .lock ho hm
    | some holder => simp [hm] at hs
  | locked =>
    simp only [ho] at hs
    exact Option.some.inj hs ▸ .closeSignal ho
  | unset =>
    simp only [ho] at hs
    exact Option.some.inj hs ▸ .setClosed ho
  | set =>
    simp only [ho] at hs
    exact Option.some.inj hs ▸ .release ho

theorem stepped_of_step {s s' : Signaller} {x : Action} (hs : step s x = some s') : Stepped s x s' := by
  cases x with
  | onSignal p =>
    simp only [step] at hs
    split at hs
    next hm =>
      by_cases ha : s.allows p = true
      · rw [if_pos ha] at hs
        exact Option.some.inj hs ▸ .onSignal hm ha
      · rw [if_neg ha] at hs
        cases hs
    next => cases hs
  | look =>
    simp only [step] at hs
    split at hs
    next p hm => exact Option.some.inj hs ▸ .look hm
    next => cases hs
  | send =>
    simp only [step] at hs
    split at hs
    next p hm =>
      split_ifs at hs with hc
      · exact Option.some.inj hs ▸ .sendClosed hm hc
      · exact Option.some.inj hs ▸ .send hm (by simpa using hc)
    next => cases hs
  | giveUp =>
    simp only [step] at hs
    split at hs
    next p channel hm =>
      split_ifs at hs with hc
      exact Option.some.inj hs ▸ .giveUp hm hc
    next => cases hs
  | unlock =>
    simp only [step] at hs
    split at hs
    next hm => exact Option.some.inj hs ▸ .unlock hm
    next => cases hs
  | closeDescriptionSent =>
    simp only [step] at hs
    split_ifs at hs with hd
    exact Option.some.inj hs ▸ .closeDescriptionSent hd
  | close =>
    simp only [step] at hs
    obtain rfl := Option.some.inj hs
    split_ifs with ho
    · exact .close ho
    · exact .closeAgain
  | closing => exact stepped_of_closing hs
  | closeReturns =>
    simp only [step] at hs
    split_ifs at hs with hc
    exact Option.some.inj hs ▸ .closeReturns hc.1 hc.2

/-! ### Closing -/

/-- What is closed, and set, so far. -/
def Once.closeClosed : Once → Bool
  | .idle | .started => false
  | .waiting | .locked | .unset | .set | .done => true

def Once.signalClosed : Once → Bool
  | .idle | .started | .waiting | .locked => false
  | .unset | .set | .done => true

def Once.closed : Once → Bool
  | .idle | .started | .waiting | .locked | .unset => false
  | .set | .done => true

/-- `Close` holds the mutex. -/
def Once.holds : Once → Bool
  | .idle | .started | .waiting | .done => false
  | .locked | .unset | .set => true

structure Sound (s : Signaller) : Prop where
  panicked : s.panicked = false
  called : s.closeOnce ≠ .idle → 0 < s.closes
  closeClosed : s.closeClosed = s.closeOnce.closeClosed
  signalClosed : s.signalClosed = s.closeOnce.signalClosed
  closed : s.closed = s.closeOnce.closed
  mutex : s.signalMu = some .closer ↔ s.closeOnce.holds = true
  /-- A goroutine that sends on the channel has found it open. -/
  channel : ∀ {p}, s.signalMu = some (.selecting p true) → s.closed = false

theorem sound_new : Sound .new :=
  ⟨rfl, fun h => absurd rfl h, rfl, rfl, rfl, by decide, nofun⟩

section Sound

variable {s : Signaller}

/-- While another goroutine holds the mutex, `closeOnce` has not got it. -/
theorem Sound.not_holds (h : Sound s) {holder : Holder} (hm : s.signalMu = some holder)
    (hne : holder ≠ .closer) : s.closeOnce.holds = false := by
  by_contra hh
  rw [h.mutex.mpr (by simpa using hh), Option.some.injEq] at hm
  exact hne hm.symm

/-- What is closed, set and held at a point of `closeOnce`. -/
theorem Sound.flags (h : Sound s) {o : Once} (ho : s.closeOnce = o) :
    s.closeClosed = o.closeClosed ∧ s.signalClosed = o.signalClosed ∧ s.closed = o.closed ∧
      (s.signalMu = some .closer ↔ o.holds = true) :=
  ho ▸ ⟨h.closeClosed, h.signalClosed, h.closed, h.mutex⟩

/-- The mutex keeps the channel open for a goroutine that sends on it. -/
theorem Sound.open_of_selecting (h : Sound s) {p : Payload} (hm : s.signalMu = some (.selecting p true)) :
    s.signalClosed = false := by
  have hholds := h.not_holds hm nofun
  have hclosed := h.channel hm
  rw [h.closed] at hclosed
  rw [h.signalClosed]
  cases ho : s.closeOnce with
  | idle => rfl
  | started => rfl
  | waiting => rfl
  | locked => rfl
  | unset =>
    rw [ho] at hholds
    cases hholds
  | set =>
    rw [ho] at hholds
    cases hholds
  | done =>
    rw [ho] at hclosed
    cases hclosed

/-- Steps of the goroutine that holds the mutex, and of those that wait for it. -/
theorem Sound.pass (h : Sound s) {s' : Signaller} (hp : s'.panicked = s.panicked)
    (hcalls : s'.closes = s.closes) (ho : s'.closeOnce = s.closeOnce) (hcc : s'.closeClosed = s.closeClosed)
    (hsc : s'.signalClosed = s.signalClosed) (hc : s'.closed = s.closed)
    (hold : s.signalMu ≠ some .closer) (hnew : s'.signalMu ≠ some .closer)
    (hch : ∀ p, s'.signalMu = some (.selecting p true) → s.closed = false) : Sound s' := by
  refine ⟨hp.trans h.panicked, ?_, ?_, ?_, ?_, ?_, ?_⟩
  · rw [ho, hcalls]
    exact h.called
  · rw [hcc, ho]
    exact h.closeClosed
  · rw [hsc, ho]
    exact h.signalClosed
  · rw [hc, ho]
    exact h.closed
  · rw [ho, ← h.mutex]
    exact iff_of_false hnew hold
  · rw [hc]
    exact fun hm => hch _ hm

theorem Sound.step {s' : Signaller} {x : Action} (h : Sound s) (hs : Stepped s x s') : Sound s' := by
  cases hs with
  | onSignal hm _ => exact h.pass rfl rfl rfl rfl rfl rfl (by simp [hm]) nofun nofun
  | look hm =>
    refine h.pass rfl rfl rfl rfl rfl rfl (by simp [hm]) nofun fun p hp => ?_
    have hc : (!s.closed) = true := (Holder.selecting.inj (Option.some.inj hp)).2
    simpa using hc
  | sendClosed hm hc =>
    rw [h.open_of_selecting hm] at hc
    cases hc
  | send hm _ => exact h.pass rfl rfl rfl rfl rfl rfl (by simp [hm]) nofun nofun
  | giveUp hm _ => exact h.pass rfl rfl rfl rfl rfl rfl (by simp [hm]) nofun nofun
  | unlock hm => exact h.pass rfl rfl rfl rfl rfl rfl (by simp [hm]) nofun nofun
  | closeDescriptionSent _ => exact { h with }
  | closeReturns _ _ => exact { h with }
  | closeAgain => exact { h with called := fun _ => Nat.succ_pos _ }
  | close ho =>
    obtain ⟨hcc, hsc, hc, hmu⟩ := h.flags ho
    exact ⟨h.panicked, fun _ => Nat.succ_pos _, hcc, hsc, hc, hmu, h.channel⟩
  | closeChannel ho =>
    obtain ⟨hcc, hsc, hc, hmu⟩ := h.flags ho
    refine ⟨?_, fun _ => h.called (by simp [ho]), rfl, hsc, hc, hmu, h.channel⟩
    show (s.panicked || s.closeClosed) = false
    rw [h.panicked, hcc]
    rfl
  | lock ho hm =>
    obtain ⟨hcc, hsc, hc, -⟩ := h.flags ho
    exact ⟨h.panicked, fun _ => h.called (by simp [ho]), hcc, hsc, hc, iff_of_true rfl rfl, nofun⟩
  | closeSignal ho =>
    obtain ⟨hcc, hsc, hc, hmu⟩ := h.flags ho
    refine ⟨?_, fun _ => h.called (by simp [ho]), hcc, rfl, hc, hmu, h.channel⟩
    show (s.panicked || s.signalClosed) = false
    rw [h.panicked, hsc]
    rfl
  | setClosed ho =>
    obtain ⟨hcc, hsc, -, hmu⟩ := h.flags ho
    refine ⟨h.panicked, fun _ => h.called (by simp [ho]), hcc, hsc, rfl, hmu, fun hm => ?_⟩
    -- the mutex is held by `Close`
    have hcloser : s.signalMu = some .closer := hmu.mpr rfl
    simp [hcloser] at hm
  | release ho =>
    obtain ⟨hcc, hsc, hc, -⟩ := h.flags ho
    exact ⟨h.panicked, fun _ => h.called (by simp [ho]), hcc, hsc, hc, iff_of_false nofun nofun, nofun⟩

end Sound

/-! ### Order -/

/-- No candidate stands before the first session description. -/
def Described (l : List Payload) : Prop :=
  ∀ pre c post, l = pre ++ .candidate c :: post → ∃ d, .sdp d ∈ pre

theorem described_nil : Described [] := fun pre _ _ h => by
  cases pre <;> cases h

theorem Described.concat {l : List Payload} (h : Described l) {p : Payload}
    (hp : ∀ c, p = .candidate c → ∃ d, .sdp d ∈ l) : Described (l ++ [p]) := by
  intro pre c post he
  rcases List.eq_nil_or_concat post with rfl | ⟨post', q, rfl⟩
  · obtain ⟨rfl, hq⟩ := List.append_inj' he rfl
    exact hp c (List.singleton_inj.mp hq)
  · have he' : l ++ [p] = (pre ++ .candidate c :: post') ++ [q] := by simpa using he
    exact h pre c post' (List.append_inj' he' rfl).1

theorem Described.of_prefix {l m : List Payload} (h : Described m) (hl : l <+: m) : Described l := by
  obtain ⟨t, rfl⟩ := hl
  rintro pre c post rfl
  exact h pre c (post ++ t) (by simp)

/-- The payload that its goroutine has not sent. -/
def inFlight : Option Holder → List Payload
  | some (.spawned p) | some (.selecting p _) => [p]
  | some .finished | some .closer | none => []

/-- The state before `Close` is called. -/
structure Ordered (s : Signaller) : Prop where
  sent : s.accepted = s.received ++ inFlight s.signalMu
  /-- Candidates are let through after a session description. -/
  sdp : s.descriptionSent = true ∨ 0 < s.described → ∃ d, .sdp d ∈ s.accepted
  described : Described s.accepted

theorem ordered_new : Ordered .new :=
  ⟨rfl, fun h => absurd h (by decide), described_nil⟩

section Ordered

variable {s : Signaller}

theorem Ordered.onSignal (h : Ordered s) {p : Payload} (hm : s.signalMu = none) (ha : s.allows p = true) :
    Ordered { s with
      signalMu := some (.spawned p)
      accepted := s.accepted ++ [p]
      described := if p.isDescription then s.described + 1 else s.described } := by
  have hkeep : (∃ d, .sdp d ∈ s.accepted) → ∃ d, .sdp d ∈ s.accepted ++ [p] := by
    rintro ⟨d, hd⟩
    exact ⟨d, List.mem_append_left _ hd⟩
  refine ⟨?_, fun hd => ?_, h.described.concat ?_⟩
  · show s.accepted ++ [p] = s.received ++ [p]
    have hsent := h.sent
    rw [hm] at hsent
    rw [hsent]
    exact congrArg (· ++ [p]) (List.append_nil _)
  · cases p with
    | sdp d => exact ⟨d, by simp⟩
    | candidate c => exact hkeep (h.sdp hd)
    | renegotiate => exact hkeep (h.sdp hd)
    | transceiverRequest r => exact hkeep (h.sdp hd)
  · rintro c rfl
    exact h.sdp (.inl ha)

/-- Until `Close` is called no goroutine gives up, so that every payload is sent before the next takes the
mutex. -/
theorem Ordered.step {s' : Signaller} {x : Action} (h : Ordered s) (hsound : Sound s) (hs : Stepped s x s')
    (hc : s'.closes = 0) : Ordered s' := by
  have hidle : s.closes = 0 → s.closeOnce = .idle := fun h0 => by
    by_contra ho
    exact (Nat.ne_of_gt (hsound.called ho)) h0
  cases hs with
  | onSignal hm ha => exact h.onSignal hm ha
  | look hm =>
    have hsent := h.sent
    rw [hm] at hsent
    exact ⟨hsent, h.sdp, h.described⟩
  | sendClosed hm hcl =>
    rw [hsound.open_of_selecting hm] at hcl
    cases hcl
  | send hm _ =>
    have hsent := h.sent
    rw [hm] at hsent
    exact ⟨hsent.trans (List.append_nil _).symm, h.sdp, h.described⟩
  | giveUp hm hcl =>
    rw [hsound.closeClosed, hidle hc] at hcl
    cases hcl
  | unlock hm =>
    have hsent := h.sent
    rw [hm] at hsent
    exact ⟨hsent, h.sdp, h.described⟩
  | closeDescriptionSent hd => exact ⟨h.sent, fun _ => h.sdp (.inr hd), h.described⟩
  | close _ => cases hc
  | closeAgain => cases hc
  | closeChannel ho => cases ho.symm.trans (hidle hc)
  | lock ho _ => cases ho.symm.trans (hidle hc)
  | closeSignal ho => cases ho.symm.trans (hidle hc)
  | setClosed ho => cases ho.symm.trans (hidle hc)
  | release ho => cases ho.symm.trans (hidle hc)
  | closeReturns hp _ => exact absurd hc (Nat.ne_of_gt hp)

end Ordered

/-- `Close` is not taken back. -/
theorem Stepped.closes_le {s s' : Signaller} {x : Action} (hs : Stepped s x s') : s.closes ≤ s'.closes := by
  cases hs <;> first | exact le_rfl | exact Nat.le_succ _

theorem reach_sound {s : Signaller} (h : Reach step anyStep .new s) :
    Sound s ∧ (s.closes = 0 → Ordered s) := by
  refine h.invariant (I := fun s => Sound s ∧ (s.closes = 0 → Ordered s)) ⟨sound_new, fun _ => ordered_new⟩ ?_
  rintro s x s' ⟨hsound, hord⟩ - hs
  have hs' := stepped_of_step hs
  refine ⟨hsound.step hs', fun hc => ?_⟩
  have hc' : s.closes = 0 := Nat.le_zero.mp (hc ▸ hs'.closes_le)
  exact (hord hc').step hsound hs' hc

/-- In every interleaving no value is sent on a closed channel and no channel is closed twice.  Until `Close` is
called, the payloads received are a prefix of those accepted, in the order in which they took the mutex, and no
candidate is received before the first session description. -/
theorem delivery_order {s : Signaller} (h : Reach step anyStep .new s) :
    s.panicked = false ∧ (s.closes = 0 → s.received <+: s.accepted ∧ Described s.received) := by
  obtain ⟨hsound, hord⟩ := reach_sound h
  refine ⟨hsound.panicked, fun hc => ?_⟩
  have hpre : s.received <+: s.accepted := ⟨_, (hord hc).sent.symm⟩
  exact ⟨hpre, (hord hc).described.of_prefix hpre⟩

/-- An offer and a candidate that waited for it, both received. -/
theorem delivery_order_example : ∃ s, exec (guarded step anyStep) .new
      [.onSignal (.sdp "offer"), .look, .closeDescriptionSent, .send, .unlock,
        .onSignal (.candidate "c"), .look, .send, .unlock, .onSignal .renegotiate] = some s ∧
    (s.closes = 0 ∧ s.received = [.sdp "offer", .candidate "c"] ∧
      s.accepted = [.sdp "offer", .candidate "c", .renegotiate]) ∧
    s.panicked = false ∧ s.received <+: s.accepted ∧ Described s.received :=
  exists_exec (by decide) fun _ hs hP =>
    ⟨(delivery_order hs).1, (delivery_order hs).2 hP.1⟩

end Meeting.Rtc.Signals
