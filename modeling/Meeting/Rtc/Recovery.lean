import Mathlib.Data.Fintype.EquivFin
import Meeting.Rtc.Negotiator

/-!
# Meeting.Rtc.Recovery — offers that fail (`wrtcnegotiator.go`, `wrtcsignaller.go`)

`Negotiate` marks the negotiation as in progress and then creates an offer.  When `CreateOffer` or
`SetLocalDescription` fails, `handleLocalOffer` logs the error and returns: the mark stays, and only a callback of
the stable state removes it.  If the connection is in the stable state and no such callback is on its way, nobody
ends the negotiation.

To the negotiator is added what the signaller does with an offer of the remote (`handleRemoteOffer`): it is
answered, which brings the connection back to the stable state, with a callback.

* `wedged_forever`: the state in which no offer is created any more, until the remote makes one;
* `recovers_iff`: a failed offer leaves the negotiator able to negotiate exactly if the connection was not in the
  stable state or a callback of the stable state was on its way;
* `failed_offer_wedges`: the first offer fails.
-/

namespace Meeting.Rtc.Recovery

open Lib

/-! ### The negotiator and the offers of the remote -/

/-- The negotiator of an initiator and what its signaller does with the offers of the remote. -/
structure Signaller where
  negotiator : Negotiator
  /-- An offer of the remote is set and not yet answered (`have-remote-offer`). -/
  remoteOffer : Bool

def Signaller.new : Signaller := ⟨.new true, false⟩

inductive Action where
  | own (action : Rtc.Action)
  /-- `handleRemoteOffer` has set the offer. -/
  | remoteOffer
  /-- `handleRemoteOffer` has set its answer. -/
  | remoteAnswered
  deriving DecidableEq, Repr

/-- How an offer ends, if the action creates one. -/
def outcome : Rtc.Action → Option Outcome
  | .negotiate _ outcome | .callback _ outcome => some outcome
  | .request _ _ | .start _ | .answer => none

/-- A local offer cannot be set while one of the remote is not answered, nor the other way round. -/
def step (s : Signaller) : Action → Option Signaller
  | .own x =>
    if s.remoteOffer = true ∧ outcome x = some .success then none
    else (Rtc.step s.negotiator x).map fun n => { s with negotiator := n }
  | .remoteOffer =>
    if s.negotiator.signalingState = .stable ∧ s.remoteOffer = false then some { s with remoteOffer := true }
    else none
  | .remoteAnswered =>
    if s.remoteOffer then
      some ⟨{ s.negotiator with callbacks := s.negotiator.callbacks ++ [.stable] }, false⟩
    else none

/-- The connection is in the stable state. -/
def Signaller.Stable (s : Signaller) : Prop :=
  s.negotiator.signalingState = .stable ∧ s.remoteOffer = false

instance : DecidablePred Signaller.Stable := fun s =>
  inferInstanceAs (Decidable (s.negotiator.signalingState = .stable ∧ s.remoteOffer = false))

/-! ### Failed offers -/

/-- The step runs `negotiate`, and `CreateOffer` or `SetLocalDescription` fails. -/
def OfferFails (s : Signaller) : Action → Prop
  | .own (.negotiate _ outcome) => s.negotiator.negotiating = false ∧ outcome ≠ .success
  | .own (.callback state outcome) =>
    state = .stable ∧ s.negotiator.queuedNegotiation = true ∧ outcome ≠ .success
  | _ => False

instance : DecidableRel OfferFails
  | s, .own (.negotiate _ outcome) =>
    inferInstanceAs (Decidable (s.negotiator.negotiating = false ∧ outcome ≠ .success))
  | s, .own (.callback state outcome) => inferInstanceAs (Decidable
      (state = .stable ∧ s.negotiator.queuedNegotiation = true ∧ outcome ≠ .success))
  | _, .own (.request _ _) | _, .own (.start _) | _, .own .answer | _, .remoteOffer | _, .remoteAnswered =>
    isFalse nofun

/-- The offers that come later do not fail; none can be set while one of the remote is not answered. -/
def LaterSucceed (s : Signaller) : Action → Prop
  | .own x => s.remoteOffer = false → ∀ o ∈ outcome x, o = .success
  | .remoteOffer | .remoteAnswered => True

/-- A call of `Negotiate` that has its turn creates an offer, or the next callback of the stable state does. -/
def Served (s : Signaller) : Prop :=
  ∀ k m, s.negotiator.calls.lookup k = some (.started m) →
    ∃ s₁, step s (.own (.negotiate k .success)) = some s₁ ∧
      (s₁.negotiator.offers.length = s.negotiator.offers.length + 1 ∨
        ∃ s₂, step s₁ (.own (.callback .stable .success)) = some s₂ ∧
          s₂.negotiator.offers.length = s.negotiator.offers.length + 1)

/-- The negotiator is able to negotiate: whatever is called and comes in, `Negotiate` is served in the stable
state. -/
def Recovers (s : Signaller) : Prop :=
  ∀ t, Reach step LaterSucceed s t → t.Stable → Served t

/-- The connection is not in the stable state, or a callback of the stable state is on its way beside the one that
is being handled. -/
def CallbackComes (s : Signaller) : Action → Prop
  | .own (.callback _ _) => ¬ s.Stable ∨ 2 ≤ s.negotiator.callbacks.count .stable
  | _ => ¬ s.Stable ∨ .stable ∈ s.negotiator.callbacks

instance : DecidableRel CallbackComes
  | s, .own (.callback _ _) =>
    inferInstanceAs (Decidable (¬ s.Stable ∨ 2 ≤ s.negotiator.callbacks.count .stable))
  | s, .own (.negotiate _ _) | s, .own (.request _ _) | s, .own (.start _) | s, .own .answer
  | s, .remoteOffer | s, .remoteAnswered =>
    inferInstanceAs (Decidable (¬ s.Stable ∨ .stable ∈ s.negotiator.callbacks))

/-! ### The state of the negotiator -/

/-- What `negotiate` leaves alone for an initiator. -/
theorem negotiate_fields {n : Negotiator} (hi : n.initiator = true) (o : Outcome) :
    (n.negotiate o).initiator = true ∧ (n.negotiate o).negotiating = n.negotiating ∧
      (n.negotiate o).queuedNegotiation = n.queuedNegotiation := by
  cases o <;> cases hst : n.signalingState <;>
    simp [Negotiator.negotiate, Negotiator.addQueuedTransceivers, Negotiator.createOffer,
      Negotiator.setLocalOffer, hi, hst]

/-- A failed offer leaves the signalling state and the callbacks. -/
theorem negotiate_fails {n : Negotiator} (hi : n.initiator = true) {o : Outcome} (ho : o ≠ .success) :
    (n.negotiate o).signalingState = n.signalingState ∧ (n.negotiate o).callbacks = n.callbacks := by
  cases o with
  | success => exact absurd rfl ho
  | createFails => simp [Negotiator.negotiate, Negotiator.addQueuedTransceivers, Negotiator.createOffer, hi]
  | setFails => simp [Negotiator.negotiate, Negotiator.addQueuedTransceivers, Negotiator.createOffer, hi]

/-- An offer that is set has been created, and waits for its answer. -/
theorem negotiate_succeeds {n : Negotiator} (hi : n.initiator = true) :
    (n.negotiate .success).signalingState = .haveLocalOffer ∧
      (n.negotiate .success).offers.length = n.offers.length + 1 := by
  cases hst : n.signalingState <;>
    simp [Negotiator.negotiate, Negotiator.addQueuedTransceivers, Negotiator.createOffer,
      Negotiator.setLocalOffer, hi, hst]

structure Marked (s : Signaller) : Prop where
  initiator : s.negotiator.initiator = true
  /-- What is queued is queued behind a negotiation. -/
  queued : s.negotiator.queuedNegotiation = true → s.negotiator.negotiating = true
  remote : s.remoteOffer = true → s.negotiator.signalingState = .stable

theorem marked_new : Marked .new := ⟨rfl, nofun, nofun⟩

/-- What a step can do: a step of the negotiator, an offer of the remote or its answer. -/
theorem step_cases {s s' : Signaller} {x : Action} (hs : step s x = some s') :
    (∃ y n, x = .own y ∧ ¬ (s.remoteOffer = true ∧ outcome y = some .success) ∧ Stepped s.negotiator y n ∧
      s' = { s with negotiator := n }) ∨
    (x = .remoteOffer ∧ s.Stable ∧ s' = { s with remoteOffer := true }) ∨
    (x = .remoteAnswered ∧ s.remoteOffer = true ∧
      s' = ⟨{ s.negotiator with callbacks := s.negotiator.callbacks ++ [.stable] }, false⟩) := by
  cases x with
  | own y =>
    simp only [step] at hs
    split_ifs at hs with hr
    obtain ⟨n, hn, rfl⟩ := Option.map_eq_some_iff.mp hs
    exact Or.inl ⟨y, n, rfl, hr, stepped_of_step hn, rfl⟩
  | remoteOffer =>
    simp only [step] at hs
    split_ifs at hs with hst
    exact Or.inr (Or.inl ⟨rfl, hst, (Option.some.inj hs).symm⟩)
  | remoteAnswered =>
    simp only [step] at hs
    split_ifs at hs with hr
    exact Or.inr (Or.inr ⟨rfl, hr, (Option.some.inj hs).symm⟩)

/-- The marks of the negotiator are kept by every step, whether offers fail or not. -/
theorem Marked.step {s s' : Signaller} {x : Action} (h : Marked s) (hs : Recovery.step s x = some s') :
    Marked s' := by
  rcases step_cases hs with ⟨y, n, rfl, hr, hstep, rfl⟩ | ⟨rfl, hst, rfl⟩ | ⟨rfl, -, rfl⟩
  · cases hstep with
    | request | start | ignore => exact ⟨h.initiator, h.queued, h.remote⟩
    | queue _ hn => exact ⟨h.initiator, fun _ => hn, h.remote⟩
    | @offer k m o _ hn =>
      obtain ⟨hi, hn', hq⟩ := negotiate_fields
        (n := { s.negotiator with negotiating := true, calls := s.negotiator.calls.insert k (.returned m) })
        h.initiator o
      refine ⟨hi, fun _ => hn', fun hrem => ?_⟩
      have ho : o ≠ .success := fun ho => hr ⟨hrem, congrArg some ho⟩
      exact (negotiate_fails (by exact h.initiator) ho).1.trans (h.remote hrem)
    | answer _ => exact ⟨h.initiator, h.queued, fun _ => rfl⟩
    | @next o _ hq =>
      obtain ⟨hi, hn', hq'⟩ := negotiate_fields
        (n := { s.negotiator with
          callbacks := s.negotiator.callbacks.erase .stable, queuedNegotiation := false }) h.initiator o
      refine ⟨hi, fun _ => hn'.trans (h.queued hq), fun hrem => ?_⟩
      have ho : o ≠ .success := fun ho => hr ⟨hrem, congrArg some ho⟩
      exact (negotiate_fails (by exact h.initiator) ho).1.trans (h.remote hrem)
    | done _ hq => exact ⟨h.initiator, fun hq' => absurd (hq.symm.trans hq') nofun, h.remote⟩
  · exact ⟨h.initiator, h.queued, fun _ => hst.1⟩
  · exact ⟨h.initiator, h.queued, nofun⟩

/-! ### Able to negotiate -/

/-- A negotiation that is in progress will be ended by a callback. -/
structure Ends (s : Signaller) : Prop where
  initiator : s.negotiator.initiator = true
  ends : s.negotiator.negotiating = true → ¬ s.Stable ∨ .stable ∈ s.negotiator.callbacks

/-- An offer that does not fail, or that comes while one of the remote is not answered. -/
theorem not_stable_negotiate {n : Negotiator} {remoteOffer : Bool} {o : Outcome} (hi : n.initiator = true)
    (hok : remoteOffer = false → o = .success) : ¬ Signaller.Stable ⟨n.negotiate o, remoteOffer⟩ := by
  rintro ⟨hst, hrem⟩
  obtain rfl := hok hrem
  rw [(negotiate_succeeds hi).1] at hst
  cases hst

theorem Ends.step {s s' : Signaller} {x : Action} (h : Ends s) (hok : LaterSucceed s x)
    (hs : Recovery.step s x = some s') : Ends s' := by
  rcases step_cases hs with ⟨y, n, rfl, hr, hstep, rfl⟩ | ⟨rfl, hst, rfl⟩ | ⟨rfl, -, rfl⟩
  · cases hstep with
    | request | start => exact ⟨h.initiator, h.ends⟩
    | queue => exact ⟨h.initiator, h.ends⟩
    | ignore hin =>
      refine ⟨h.initiator, fun hn => (h.ends hn).imp_right fun hcb => ?_⟩
      exact (List.mem_erase_of_ne (by decide)).mpr hcb
    | @offer k m o _ hn =>
      refine ⟨(negotiate_fields (by exact h.initiator) o).1, fun _ => Or.inl ?_⟩
      exact not_stable_negotiate (by exact h.initiator) fun hrem => hok hrem o rfl
    | answer _ =>
      exact ⟨h.initiator, fun _ => Or.inr (List.mem_append_right _ List.mem_cons_self)⟩
    | @next o _ hq =>
      refine ⟨(negotiate_fields (by exact h.initiator) o).1, fun _ => Or.inl ?_⟩
      exact not_stable_negotiate (by exact h.initiator) fun hrem => hok hrem o rfl
    | done _ _ => exact ⟨h.initiator, nofun⟩
  · exact ⟨h.initiator, fun _ => Or.inl fun hst' => absurd hst'.2 nofun⟩
  · exact ⟨h.initiator, fun _ => Or.inr (List.mem_append_right _ List.mem_cons_self)⟩

/-- A call of `Negotiate` has its turn when no offer of the remote is set. -/
theorem step_negotiate {s : Signaller} {k m : ℕ} (hrem : s.remoteOffer = false)
    (hk : s.negotiator.calls.lookup k = some (.started m)) (o : Outcome) :
    step s (.own (.negotiate k o)) = some { s with negotiator :=
      { s.negotiator with calls := s.negotiator.calls.insert k (.returned m) }.lockedNegotiate o } := by
  rw [step, if_neg (by simp [hrem]), Rtc.step, hk]
  rfl

theorem step_callback {s : Signaller} {state : SignalingState} (hrem : s.remoteOffer = false)
    (hin : state ∈ s.negotiator.callbacks) (o : Outcome) :
    step s (.own (.callback state o)) = some { s with negotiator :=
      { s.negotiator with
        callbacks := s.negotiator.callbacks.erase state }.handleSignalingStateChange o state } := by
  rw [step, if_neg (by simp [hrem]), Rtc.step, if_pos hin]
  rfl

/-- In the stable state such a negotiator serves `Negotiate`. -/
theorem Ends.served {s : Signaller} (h : Ends s) (hst : s.Stable) : Served s := by
  intro k m hk
  refine ⟨_, step_negotiate hst.2 hk .success, ?_⟩
  cases hn : s.negotiator.negotiating with
  | false =>
    left
    simp only [Negotiator.lockedNegotiate, hn]
    exact (negotiate_succeeds (by exact h.initiator)).2
  | true =>
    have hcb : .stable ∈ s.negotiator.callbacks := (h.ends hn).resolve_left (not_not_intro hst)
    right
    simp only [Negotiator.lockedNegotiate, hn, if_true]
    refine ⟨_, step_callback (by exact hst.2) (by exact hcb) .success, ?_⟩
    exact (negotiate_succeeds (by exact h.initiator)).2

theorem Ends.recovers {s : Signaller} (h : Ends s) : Recovers s := by
  intro t ht hst
  have hE := Reach.invariant (I := Ends) h (fun _ _ _ hI hok hs => hI.step hok hs) ht
  exact hE.served hst

/-! ### Wedged -/

/-- A negotiation is in progress in the stable state, and no callback of the stable state is on its way. -/
structure Wedged (s : Signaller) : Prop where
  negotiating : s.negotiator.negotiating = true
  stable : s.Stable
  callbacks : .stable ∉ s.negotiator.callbacks

/-- The remote makes no offers. -/
def RemoteSilent (_ : Signaller) (x : Action) : Prop := x ≠ .remoteOffer

theorem Wedged.step {s s' : Signaller} {x : Action} (h : Wedged s) (hok : RemoteSilent s x)
    (hs : Recovery.step s x = some s') :
    Wedged s' ∧ s'.negotiator.offers = s.negotiator.offers := by
  rcases step_cases hs with ⟨y, n, rfl, hr, hstep, rfl⟩ | ⟨rfl, hst, rfl⟩ | ⟨rfl, hrem, rfl⟩
  · cases hstep with
    | request | start | queue => exact ⟨⟨h.negotiating, h.stable, h.callbacks⟩, rfl⟩
    | ignore _ =>
      exact ⟨⟨h.negotiating, h.stable, fun hcb => h.callbacks (List.mem_of_mem_erase hcb)⟩, rfl⟩
    | offer _ hn => exact absurd (h.negotiating.symm.trans hn) nofun
    | answer hst => exact absurd (h.stable.1.symm.trans hst) nofun
    | next hin _ => exact absurd hin h.callbacks
    | done hin _ => exact absurd hin h.callbacks
  · exact absurd rfl hok
  · exact absurd (h.stable.2.symm.trans hrem) nofun

/-- **A wedged negotiator creates no offer any more**, whatever is called and whatever is handled, until the remote
makes an offer of its own. -/
theorem wedged_forever {s t : Signaller} (h : Wedged s) (ht : Reach step RemoteSilent s t) :
    Wedged t ∧ t.negotiator.offers = s.negotiator.offers := by
  refine Reach.invariant (I := fun t => Wedged t ∧ t.negotiator.offers = s.negotiator.offers) ⟨h, rfl⟩ ?_ ht
  rintro a x b ⟨ha, hoffers⟩ hok hs
  obtain ⟨hb, hsame⟩ := ha.step hok hs
  exact ⟨hb, hsame.trans hoffers⟩

theorem Wedged.not_recovers {s : Signaller} (h : Wedged s) : ¬ Recovers s := by
  intro hrec
  -- one more call of `Negotiate`
  obtain ⟨k, hk⟩ := Infinite.exists_notMem_finset s.negotiator.calls.keys.toFinset
  have hk : s.negotiator.calls.lookup k = none :=
    AList.lookup_eq_none.mpr fun hmem => hk (List.mem_toFinset.mpr hmem)
  have hstart : Recovery.step s (.own (.start k)) = some { s with negotiator := { s.negotiator with
      calls := s.negotiator.calls.insert k (.started s.negotiator.offers.length) } } := by
    rw [Recovery.step, if_neg (by simp [outcome]), Rtc.step, hk]
    rfl
  have hok : LaterSucceed s (.own (.start k)) := fun _ o ho => by cases ho
  obtain ⟨s₁, hs₁, hoffer⟩ := hrec _ (Reach.refl.tail hok hstart) h.stable k _ (AList.lookup_insert _)
  have hw : Wedged _ := (h.step (fun he => by cases he) hstart).1
  obtain ⟨hw₁, hsame⟩ := hw.step (fun he => by cases he) hs₁
  rw [hsame] at hoffer
  rcases hoffer with hoffer | ⟨s₂, hs₂, hoffer⟩
  · omega
  · obtain ⟨-, hsame₂⟩ := hw₁.step (fun he => by cases he) hs₂
    rw [hsame₂, hsame] at hoffer
    omega

/-! ### Failed offers -/

/-- What a failed offer leaves: a negotiation in progress, in the signalling state from before. -/
theorem Marked.failed {s s' : Signaller} {x : Action} (h : Marked s) (hs : Recovery.step s x = some s')
    (hf : OfferFails s x) :
    s'.negotiator.negotiating = true ∧
      (CallbackComes s x ↔ ¬ s'.Stable ∨ .stable ∈ s'.negotiator.callbacks) := by
  rcases step_cases hs with ⟨y, n, rfl, -, hstep, rfl⟩ | ⟨rfl, -⟩ | ⟨rfl, -⟩
  · cases hstep with
    | request | start | answer => cases hf
    | queue _ hn => exact absurd (hn.symm.trans hf.1) nofun
    | ignore _ => exact absurd hf.1 nofun
    | done _ hq => exact absurd (hq.symm.trans hf.2.1) nofun
    | @offer k m o _ hn =>
      have hfields := negotiate_fields
        (n := { s.negotiator with negotiating := true, calls := s.negotiator.calls.insert k (.returned m) })
        h.initiator o
      have hfails := negotiate_fails
        (n := { s.negotiator with negotiating := true, calls := s.negotiator.calls.insert k (.returned m) })
        h.initiator hf.2
      refine ⟨hfields.2.1, ?_⟩
      unfold CallbackComes Signaller.Stable
      simp only [hfails.1, hfails.2]
    | @next o hin hq =>
      have hfields := negotiate_fields
        (n := { s.negotiator with
          callbacks := s.negotiator.callbacks.erase .stable, queuedNegotiation := false }) h.initiator o
      have hfails := negotiate_fails
        (n := { s.negotiator with
          callbacks := s.negotiator.callbacks.erase .stable, queuedNegotiation := false })
        h.initiator hf.2.2
      refine ⟨hfields.2.1.trans (h.queued hq), ?_⟩
      have hcount : 2 ≤ s.negotiator.callbacks.count .stable ↔
          .stable ∈ s.negotiator.callbacks.erase .stable := by
        rw [← List.count_pos_iff, List.count_erase_self]
        omega
      unfold CallbackComes Signaller.Stable
      simp only [hfails.1, hfails.2, hcount]
  · cases hf
  · cases hf

/-- **When a failed offer leaves the negotiator able to negotiate**: exactly if the connection was not in the stable
state, or a callback of the stable state was still to come. -/
theorem recovers_iff {s s' : Signaller} {x : Action} (h : Reach step anyStep .new s)
    (hs : step s x = some s') (hf : OfferFails s x) : Recovers s' ↔ CallbackComes s x := by
  have hM := Reach.invariant (I := Marked) marked_new (fun _ _ _ hI _ hs => hI.step hs) h
  obtain ⟨hn, hiff⟩ := hM.failed hs hf
  constructor
  · intro hrec
    by_contra hcb
    rw [hiff, not_or, not_not] at hcb
    have hW : Wedged s' := ⟨hn, hcb.1, hcb.2⟩
    exact hW.not_recovers hrec
  · intro hcb
    have hE : Ends s' := ⟨(hM.step hs).initiator, fun _ => hiff.mp hcb⟩
    exact hE.recovers

/-- An offer fails because one of the remote is not answered yet. -/
theorem recovers_iff_example : ∃ s, exec (guarded step anyStep) .new [.remoteOffer, .own (.start 0)] = some s ∧
    (OfferFails s (.own (.negotiate 0 .setFails)) ∧ CallbackComes s (.own (.negotiate 0 .setFails)) ∧
      (step s (.own (.negotiate 0 .setFails))).isSome) ∧
    ∃ s', step s (.own (.negotiate 0 .setFails)) = some s' ∧ Recovers s' := by
  refine exists_exec (by decide) fun s hs hq => ?_
  obtain ⟨hf, hcb, hsome⟩ := hq
  obtain ⟨s', hs'⟩ := Option.isSome_iff_exists.mp hsome
  exact ⟨s', hs', (recovers_iff hs hs' hf).mpr hcb⟩

/-- The offer of the first `Negotiate` cannot be created; the second call is queued, and nothing is left that would
start it. -/
theorem failed_offer_wedges : ∃ s, exec (guarded step anyStep) .new [.own (.start 0)] = some s ∧
    OfferFails s (.own (.negotiate 0 .createFails)) ∧
    (exec (guarded step anyStep) s
        [.own (.negotiate 0 .createFails), .own (.start 1), .own (.negotiate 1 .success)]).any (fun t =>
      decide (t.Stable ∧ t.negotiator.queuedNegotiation = true ∧ t.negotiator.callbacks = [] ∧
        t.negotiator.offers = [])) = true ∧
    ∃ s', step s (.own (.negotiate 0 .createFails)) = some s' ∧ ¬ Recovers s' := by
  refine ⟨_, rfl, by decide, by decide, _, rfl, ?_⟩
  exact Wedged.not_recovers ⟨rfl, ⟨rfl, rfl⟩, by decide⟩

end Meeting.Rtc.Recovery
