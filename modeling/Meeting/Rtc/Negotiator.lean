import Meeting.Lib.Lists
import Meeting.Lib.Runs

/-!
# Meeting.Rtc.Negotiator — renegotiation of a peer connection (`wrtcnegotiator.go`)

`Negotiate` creates an offer, or sets `queuedNegotiation` when a negotiation is in progress.  The peer connection
reports changes of its signalling state by callbacks, each in a goroutine of its own, so that they are handled
some time after the change (`callbacks`); at the callback of the stable state a queued negotiation is started.
What runs under `mu` is a step; a call of `Negotiate` starts before its turn (`start`).  The runs are those of a
connection that is not closed.

* `no_lost_negotiation`: when offers can be created and set, no offer is created while another one is unanswered,
  and when no negotiation is in progress nothing is queued by the calls that have returned, and an offer was
  created after each of them had started.
-/

namespace Meeting.Rtc

open Lib

/-! ### State -/

/-- The signalling states of a connection whose remote only answers offers. -/
inductive SignalingState where
  | stable
  | haveLocalOffer
  deriving DecidableEq, Repr

inductive CodecType where
  | audio
  | video
  deriving DecidableEq, Repr

inductive Direction where
  | sendrecv
  | sendonly
  | recvonly
  | inactive
  deriving DecidableEq, Repr

structure TransceiverRequest where
  codecType : CodecType
  direction : Direction
  deriving DecidableEq, Repr

/-- How far a call of `Negotiate` is, or of `AddTransceiverFromKind`. -/
inductive Call where
  /-- The request is queued; `Negotiate` has not started. -/
  | requested
  /-- `Negotiate` has started when so many offers were created. -/
  | started (offers : ℕ)
  | returned (offers : ℕ)
  deriving DecidableEq, Repr

/-- `Negotiator` and its peer connection. -/
structure Negotiator where
  initiator : Bool
  /-- `negotiationDone` is not nil. -/
  negotiating : Bool
  queuedNegotiation : Bool
  /-- The queued requests, with the calls that have made them. -/
  queuedTransceiverRequests : List (ℕ × TransceiverRequest)
  signalingState : SignalingState
  /-- The callbacks that are still to be handled. -/
  callbacks : List SignalingState
  transceivers : List TransceiverRequest
  /-- The offers that were created, each with the signalling state at its creation. -/
  offers : List SignalingState
  /-- How often the remote was asked to negotiate. -/
  requests : ℕ
  calls : AList fun _ : ℕ => Call

/-- `NewNegotiator`. -/
def Negotiator.new (initiator : Bool) : Negotiator :=
  ⟨initiator, false, false, [], .stable, [], [], [], 0, ∅⟩

/-! ### Operations -/

/-- How `CreateOffer` and `SetLocalDescription` end. -/
inductive Outcome where
  | success
  | createFails
  | setFails
  deriving DecidableEq, Repr

/-- `SetLocalDescription` of an offer. -/
def Negotiator.setLocalOffer (n : Negotiator) : Negotiator :=
  match n.signalingState with
  | .haveLocalOffer => n
  | .stable =>
    { n with signalingState := .haveLocalOffer, callbacks := n.callbacks ++ [.haveLocalOffer] }

/-- `CreateOffer` and `handleLocalOffer`. -/
def Negotiator.createOffer (n : Negotiator) : Outcome → Negotiator
  | .createFails => n
  | .setFails => { n with offers := n.offers ++ [n.signalingState] }
  | .success => { n.setLocalOffer with offers := n.offers ++ [n.signalingState] }

def Negotiator.addQueuedTransceivers (n : Negotiator) : Negotiator :=
  { n with
    transceivers := n.transceivers ++ n.queuedTransceiverRequests.map Prod.snd
    queuedTransceiverRequests := [] }

/-- `negotiate`. -/
def Negotiator.negotiate (n : Negotiator) (outcome : Outcome) : Negotiator :=
  let n := n.addQueuedTransceivers
  if n.initiator then n.createOffer outcome else { n with requests := n.requests + 1 }

/-- `Negotiate`, under the lock. -/
def Negotiator.lockedNegotiate (n : Negotiator) (outcome : Outcome) : Negotiator :=
  if n.negotiating then { n with queuedNegotiation := true }
  else { n with negotiating := true }.negotiate outcome

/-- `handleSignalingStateChange`. -/
def Negotiator.handleSignalingStateChange (n : Negotiator) (outcome : Outcome) : SignalingState → Negotiator
  | .haveLocalOffer => n
  | .stable =>
    if n.queuedNegotiation then { n with queuedNegotiation := false }.negotiate outcome
    else { n with negotiating := false }

inductive Action where
  /-- `AddTransceiverFromKind` queues its request. -/
  | request (call : ℕ) (request : TransceiverRequest)
  /-- `Negotiate` starts, called by itself or after a request was queued. -/
  | start (call : ℕ)
  /-- `Negotiate` has its turn. -/
  | negotiate (call : ℕ) (outcome : Outcome)
  /-- The remote answers. -/
  | answer
  /-- A callback has its turn. -/
  | callback (state : SignalingState) (outcome : Outcome)
  deriving DecidableEq, Repr

def step (n : Negotiator) : Action → Option Negotiator
  | .request k request =>
    if k ∈ n.calls then none
    else some { n with
      queuedTransceiverRequests := n.queuedTransceiverRequests ++ [(k, request)]
      calls := n.calls.insert k .requested }
  | .start k =>
    match n.calls.lookup k with
    | none | some .requested => some { n with calls := n.calls.insert k (.started n.offers.length) }
    | some (.started _) | some (.returned _) => none
  | .negotiate k outcome =>
    match n.calls.lookup k with
    | some (.started offers) =>
      some ({ n with calls := n.calls.insert k (.returned offers) }.lockedNegotiate outcome)
    | _ => none
  | .answer =>
    match n.signalingState with
    | .stable => none
    | .haveLocalOffer => some { n with signalingState := .stable, callbacks := n.callbacks ++ [.stable] }
  | .callback state outcome =>
    if state ∈ n.callbacks then
      some ({ n with callbacks := n.callbacks.erase state }.handleSignalingStateChange outcome state)
    else none

/-- What a step can do. -/
inductive Stepped (n : Negotiator) : Action → Negotiator → Prop
  | request {k : ℕ} {request : TransceiverRequest} : k ∉ n.calls → Stepped n (.request k request) { n with
      queuedTransceiverRequests := n.queuedTransceiverRequests ++ [(k, request)]
      calls := n.calls.insert k .requested }
  | start {k : ℕ} : Stepped n (.start k) { n with calls := n.calls.insert k (.started n.offers.length) }
  | queue {k m : ℕ} {outcome : Outcome} : n.calls.lookup k = some (.started m) → n.negotiating = true →
      Stepped n (.negotiate k outcome) { n with
        queuedNegotiation := true
        calls := n.calls.insert k (.returned m) }
  | offer {k m : ℕ} {outcome : Outcome} : n.calls.lookup k = some (.started m) → n.negotiating = false →
      Stepped n (.negotiate k outcome)
        ({ n with negotiating := true, calls := n.calls.insert k (.returned m) }.negotiate outcome)
  | answer : n.signalingState = .haveLocalOffer → Stepped n .answer { n with
      signalingState := .stable
      callbacks := n.callbacks ++ [.stable] }
  | ignore {outcome : Outcome} : .haveLocalOffer ∈ n.callbacks →
      Stepped n (.callback .haveLocalOffer outcome) { n with callbacks := n.callbacks.erase .haveLocalOffer }
  | next {outcome : Outcome} : .stable ∈ n.callbacks → n.queuedNegotiation = true →
      Stepped n (.callback .stable outcome)
        ({ n with callbacks := n.callbacks.erase .stable, queuedNegotiation := false }.negotiate outcome)
  | done {outcome : Outcome} : .stable ∈ n.callbacks → n.queuedNegotiation = false →
      Stepped n (.callback .stable outcome) { n with
        callbacks := n.callbacks.erase .stable
        negotiating := false }

theorem stepped_of_step {n n' : Negotiator} {x : Action} (hs : step n x = some n') : Stepped n x n' := by
  cases x with
  | request k request =>
    simp only [step] at hs
    split_ifs at hs with hk
    exact Option.some.inj hs ▸ .request hk
  | start k =>
    simp only [step] at hs
    split at hs
    next => exact Option.some.inj hs ▸ .start
    next => exact Option.some.inj hs ▸ .start
    next => cases hs
    next => cases hs
  | negotiate k outcome =>
    simp only [step, Negotiator.lockedNegotiate] at hs
    split at hs
    next m hk =>
      cases hn : n.negotiating with
      | true =>
        rw [if_pos hn] at hs
        exact Option.some.inj hs ▸ .queue hk hn
      | false =>
        rw [if_neg (by simp [hn])] at hs
        exact Option.some.inj hs ▸ .offer hk hn
    next => cases hs
  | answer =>
    simp only [step] at hs
    cases hst : n.signalingState with
    | stable => simp [hst] at hs
    | haveLocalOffer =>
      simp only [hst] at hs
      exact Option.some.inj hs ▸ .answer hst
  | callback state outcome =>
    simp only [step] at hs
    split_ifs at hs with hin
    obtain rfl := Option.some.inj hs
    cases state with
    | haveLocalOffer => exact .ignore hin
    | stable =>
      simp only [Negotiator.handleSignalingStateChange]
      split_ifs with hq
      · exact .next hin hq
      · exact .done hin (by simpa using hq)

/-- What `negotiate` does for an initiator in the stable state. -/
theorem negotiate_success {n : Negotiator} (hi : n.initiator = true) (hst : n.signalingState = .stable) :
    n.negotiate .success = { n with
      transceivers := n.transceivers ++ n.queuedTransceiverRequests.map Prod.snd
      queuedTransceiverRequests := []
      offers := n.offers ++ [.stable]
      signalingState := .haveLocalOffer
      callbacks := n.callbacks ++ [.haveLocalOffer] } := by
  simp [Negotiator.negotiate, Negotiator.addQueuedTransceivers, Negotiator.createOffer,
    Negotiator.setLocalOffer, hi, hst]

/-! ### The invariant -/

/-- `CreateOffer` and `SetLocalDescription` succeed. -/
def OffersSucceed (_ : Negotiator) : Action → Prop
  | .negotiate _ outcome | .callback _ outcome => outcome = .success
  | _ => True

instance : DecidableRel OffersSucceed
  | _, .negotiate _ outcome | _, .callback _ outcome => inferInstanceAs (Decidable (outcome = .success))
  | _, .request _ _ | _, .start _ | _, .answer => isTrue trivial

/-- How many callbacks of the stable state are on their way during a negotiation. -/
def SignalingState.callbacks : SignalingState → ℕ
  | .stable => 1
  | .haveLocalOffer => 0

structure Negotiated (n : Negotiator) : Prop where
  initiator : n.initiator = true
  /-- A negotiation in progress waits for an answer or for the callback of the stable state. -/
  busy : n.negotiating = true → n.callbacks.count .stable = n.signalingState.callbacks
  idle : n.negotiating = false →
    n.signalingState = .stable ∧ n.callbacks.count .stable = 0 ∧ n.queuedNegotiation = false
  offers : ∀ state ∈ n.offers, state = .stable
  started : ∀ {k m}, n.calls.lookup k = some (.started m) → m ≤ n.offers.length
  /-- A call that has returned was followed by an offer, or one is queued. -/
  returned : ∀ {k m}, n.calls.lookup k = some (.returned m) →
    m ≤ n.offers.length ∧ (n.queuedNegotiation = false → m < n.offers.length)
  requests : ∀ {k m request}, (k, request) ∈ n.queuedTransceiverRequests →
    n.calls.lookup k = some (.returned m) → n.queuedNegotiation = true

theorem negotiated_new : Negotiated (.new true) := by
  refine ⟨rfl, nofun, fun _ => ⟨rfl, rfl, rfl⟩, ?_, ?_, ?_, ?_⟩
  · intro state h
    cases h
  · intro k m h
    cases h
  · intro k m h
    cases h
  · intro k m request h
    cases h

section Negotiated

variable {n : Negotiator} {k m : ℕ}

/-- A callback of the stable state is only on its way when the negotiation has been answered. -/
theorem Negotiated.answered (h : Negotiated n) (hin : .stable ∈ n.callbacks) :
    n.negotiating = true ∧ n.signalingState = .stable ∧ n.callbacks.count .stable = 1 := by
  have hpos := List.count_pos_iff.mpr hin
  cases hn : n.negotiating with
  | false =>
    have := (h.idle hn).2.1
    omega
  | true =>
    have hbusy := h.busy hn
    cases hst : n.signalingState with
    | stable => exact ⟨rfl, rfl, by rw [hbusy, hst]; rfl⟩
    | haveLocalOffer =>
      rw [hst, SignalingState.callbacks] at hbusy
      omega

/-- A new offer is after everything that has started. -/
theorem Negotiated.offer (h : Negotiated n) {calls : AList fun _ : ℕ => Call}
    {callbacks : List SignalingState} (hst : n.signalingState = .stable) (hcb : callbacks.count .stable = 0)
    (hstarted : ∀ {k m}, calls.lookup k = some (.started m) → m ≤ n.offers.length)
    (hreturned : ∀ {k m}, calls.lookup k = some (.returned m) → m ≤ n.offers.length) :
    Negotiated ({ n with
      callbacks, negotiating := true, queuedNegotiation := false, calls }.negotiate .success) := by
  have hne := negotiate_success
    (n := { n with callbacks, negotiating := true, queuedNegotiation := false, calls }) h.initiator hst
  rw [hne]
  refine ⟨h.initiator, ?_, nofun, ?_, ?_, ?_, nofun⟩
  · intro _
    show (callbacks ++ [SignalingState.haveLocalOffer]).count .stable = 0
    rw [List.count_append, hcb]
    rfl
  · intro state hin
    rcases List.mem_append.mp hin with hin | hin
    · exact h.offers state hin
    · exact List.mem_singleton.mp hin
  · intro k m hk
    show m ≤ (n.offers ++ [SignalingState.stable]).length
    rw [List.length_append]
    exact Nat.le_succ_of_le (hstarted hk)
  · intro k m hk
    show m ≤ (n.offers ++ [SignalingState.stable]).length ∧ (_ → m < (n.offers ++ [SignalingState.stable]).length)
    rw [List.length_append]
    exact ⟨Nat.le_succ_of_le (hreturned hk), fun _ => Nat.lt_succ_of_le (hreturned hk)⟩

/-- Steps that leave the negotiation, and make no call return. -/
theorem Negotiated.congr {n' : Negotiator} (h : Negotiated n) (hi : n'.initiator = n.initiator)
    (hn : n'.negotiating = n.negotiating) (hq : n'.queuedNegotiation = n.queuedNegotiation)
    (hst : n'.signalingState = n.signalingState)
    (hcb : n'.callbacks.count .stable = n.callbacks.count .stable) (ho : n'.offers = n.offers)
    (hstarted : ∀ {k m}, n'.calls.lookup k = some (.started m) → m ≤ n.offers.length)
    (hreturned : ∀ {k m}, n'.calls.lookup k = some (.returned m) → n.calls.lookup k = some (.returned m))
    (hrequests : ∀ {k m request}, (k, request) ∈ n'.queuedTransceiverRequests →
      n'.calls.lookup k = some (.returned m) → (k, request) ∈ n.queuedTransceiverRequests) :
    Negotiated n' := by
  refine ⟨hi.trans h.initiator, ?_, ?_, ?_, ?_, ?_, ?_⟩
  · rw [hn, hcb, hst]
    exact h.busy
  · rw [hn, hcb, hst, hq]
    exact h.idle
  · rw [ho]
    exact h.offers
  · rw [ho]
    exact hstarted
  · intro k m hk
    rw [ho, hq]
    exact h.returned (hreturned hk)
  · intro k m request hin hk
    rw [hq]
    exact h.requests (hrequests hin hk) (hreturned hk)

theorem Negotiated.request {request : TransceiverRequest} (h : Negotiated n) :
    Negotiated { n with
      queuedTransceiverRequests := n.queuedTransceiverRequests ++ [(k, request)]
      calls := n.calls.insert k .requested } := by
  have hne : ∀ {j m}, (n.calls.insert k .requested).lookup j = some (.returned m) →
      j ≠ k ∧ n.calls.lookup j = some (.returned m) := by
    intro j m hj
    rcases lookup_insert_cases hj with ⟨-, hv⟩ | hj
    · cases hv
    · exact hj
  refine h.congr rfl rfl rfl rfl rfl rfl ?_ (fun hj => (hne hj).2) ?_
  · intro j m hj
    rcases lookup_insert_cases hj with ⟨-, hv⟩ | ⟨-, hj⟩
    · cases hv
    · exact h.started hj
  · intro j m req hin hj
    refine (List.mem_append.mp hin).resolve_right fun he => (hne hj).1 ?_
    exact (Prod.mk.inj (List.mem_singleton.mp he)).1

theorem Negotiated.start (h : Negotiated n) :
    Negotiated { n with calls := n.calls.insert k (.started n.offers.length) } := by
  refine h.congr rfl rfl rfl rfl rfl rfl ?_ ?_ fun hin _ => hin
  · intro j m hj
    rcases lookup_insert_cases hj with ⟨-, hv⟩ | ⟨-, hj⟩
    · exact Nat.le_of_eq (Call.started.inj hv)
    · exact h.started hj
  · intro j m hj
    rcases lookup_insert_cases hj with ⟨-, hv⟩ | ⟨-, hj⟩
    · cases hv
    · exact hj

/-- The calls after one of them has returned. -/
theorem Negotiated.return (h : Negotiated n) (hk : n.calls.lookup k = some (.started m)) :
    (∀ {j i}, (n.calls.insert k (.returned m)).lookup j = some (.started i) → i ≤ n.offers.length) ∧
      ∀ {j i}, (n.calls.insert k (.returned m)).lookup j = some (.returned i) → i ≤ n.offers.length := by
  constructor
  · intro j i hj
    rcases lookup_insert_cases hj with ⟨-, hv⟩ | ⟨-, hj⟩
    · cases hv
    · exact h.started hj
  · intro j i hj
    rcases lookup_insert_cases hj with ⟨-, hv⟩ | ⟨-, hj⟩
    · exact Call.returned.inj hv ▸ h.started hk
    · exact (h.returned hj).1

theorem Negotiated.queue (h : Negotiated n) (hk : n.calls.lookup k = some (.started m))
    (hn : n.negotiating = true) :
    Negotiated { n with queuedNegotiation := true, calls := n.calls.insert k (.returned m) } := by
  obtain ⟨hstarted, hreturned⟩ := h.return hk
  refine ⟨h.initiator, h.busy, fun hf => ?_, h.offers, hstarted, fun hj => ⟨hreturned hj, nofun⟩,
    fun _ _ => rfl⟩
  exact absurd (hn.symm.trans hf) nofun

theorem Negotiated.answer (h : Negotiated n) (hst : n.signalingState = .haveLocalOffer) :
    Negotiated { n with signalingState := .stable, callbacks := n.callbacks ++ [.stable] } := by
  have hn : n.negotiating = true := by
    by_contra hn
    rw [(h.idle (by simpa using hn)).1] at hst
    cases hst
  refine ⟨h.initiator, fun _ => ?_, fun hf => ?_, h.offers, h.started, h.returned, h.requests⟩
  · have hbusy := h.busy hn
    rw [hst] at hbusy
    show (n.callbacks ++ [SignalingState.stable]).count .stable = 1
    rw [List.count_append, hbusy]
    rfl
  · exact absurd (hn.symm.trans hf) nofun

/-- **Step lemma.** -/
theorem Negotiated.step {n' : Negotiator} {x : Action} (h : Negotiated n) (hok : OffersSucceed n x)
    (hs : Stepped n x n') : Negotiated n' := by
  cases hs with
  | request => exact h.request
  | start => exact h.start
  | queue hk hn => exact h.queue hk hn
  | offer hk hn =>
    obtain rfl : _ = Outcome.success := hok
    obtain ⟨hst, hcb, hq⟩ := h.idle hn
    obtain ⟨hstarted, hreturned⟩ := h.return hk
    have hoffer := h.offer hst hcb hstarted hreturned
    rw [← hq] at hoffer
    exact hoffer
  | answer hst => exact h.answer hst
  | ignore hin =>
    refine h.congr rfl rfl rfl rfl ?_ rfl h.started (fun hk => hk) fun hin _ => hin
    exact List.count_erase_of_ne (by decide)
  | next hin hq =>
    obtain rfl : _ = Outcome.success := hok
    obtain ⟨hn, hst, hcb⟩ := h.answered hin
    have hcb' : (n.callbacks.erase .stable).count .stable = 0 := by
      rw [List.count_erase_self, hcb]
    have hoffer := h.offer hst hcb' h.started fun hk => (h.returned hk).1
    rw [← hn] at hoffer
    exact hoffer
  | done hin hq =>
    obtain ⟨-, hst, hcb⟩ := h.answered hin
    refine ⟨h.initiator, nofun, fun _ => ⟨hst, ?_, hq⟩, h.offers, h.started, h.returned, h.requests⟩
    show (n.callbacks.erase .stable).count .stable = 0
    rw [List.count_erase_self, hcb]

end Negotiated

/-- **No lost renegotiation**: for an initiator whose offers can be created and set, in every reachable state all
offers were created when no earlier one was unanswered; and when no negotiation is in progress, none is queued, no
request of a call that has returned is queued, and an offer was created after each such call had started. -/
theorem no_lost_negotiation {n : Negotiator} (h : Reach step OffersSucceed (.new true) n) :
    (∀ state ∈ n.offers, state = .stable) ∧ (n.negotiating = false →
      n.queuedNegotiation = false ∧
      (∀ x ∈ n.queuedTransceiverRequests, ∀ m, n.calls.lookup x.1 ≠ some (.returned m)) ∧
      ∀ k m, n.calls.lookup k = some (.returned m) → m < n.offers.length) := by
  have hN := Reach.invariant (I := Negotiated) negotiated_new
    (fun _ _ _ hI hok hs => hI.step hok (stepped_of_step hs)) h
  refine ⟨hN.offers, fun hn => ?_⟩
  have hq := (hN.idle hn).2.2
  refine ⟨hq, ?_, fun k m hk => (hN.returned hk).2 hq⟩
  rintro ⟨k, request⟩ hin m hk
  rw [hN.requests hin hk] at hq
  cases hq

/-- A call and a request come in between the answer and its callback. -/
theorem no_lost_negotiation_example : ∃ n, exec (guarded step OffersSucceed) (.new true)
      [.start 0, .negotiate 0 .success, .answer, .start 1, .callback .haveLocalOffer .success,
        .request 2 ⟨.video, .sendrecv⟩, .negotiate 1 .success, .start 2, .callback .stable .success,
        .negotiate 2 .success, .callback .haveLocalOffer .success, .answer, .callback .stable .success, .answer,
        .callback .stable .success] = some n ∧
    (n.negotiating = false ∧ n.calls.lookup 2 = some (.returned 1)) ∧
    (n.queuedNegotiation = false ∧ 1 < n.offers.length) := by
  refine exists_exec (by decide) fun n hs hq => ?_
  obtain ⟨hdone, -, hcalls⟩ := (no_lost_negotiation hs).2 hq.1
  exact ⟨hdone, hcalls 2 1 hq.2⟩

end Meeting.Rtc
