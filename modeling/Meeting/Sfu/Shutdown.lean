import Meeting.Lib.Lists
import Meeting.Lib.Measure

/-!
# Meeting.Sfu.Shutdown — how a transport of the SFU ends (`webrtctransport.go`)

`handleTrack` offers the add event of a track, counts a goroutine in `wg` and starts it; the goroutine offers the
packets that it reads, at last the remove event, and is counted out.  `AddTrack` starts one for the feedback about
a track.  When `closeChannel` is closed, another goroutine waits for `wg` and then closes the three channels, on
which the loops of `RoomPeersManager.Add` range; that a loop finishes what it has taken is one step (`handled`).  A
send on a closed channel panics, and no goroutine recovers.

* `tracks_handed`: in every interleaving, what the loops have taken of a track is its add event, then the packets in
  the order they were read, then its remove event;
* `shutdown_completes`: where every goroutine is counted before `wg` is waited for, nothing panics, and after a
  bounded number of steps, in which the loops finish what they have taken, all has ended and been taken;
* `late_track_panics`: a track that comes while the transport is closed stops the server.
-/

namespace Meeting.Sfu.Shutdown

open Lib

variable {π ρ : Type*}

/-! ### State -/

/-- What goes through a channel, with the goroutine that it is from. -/
inductive Item (π ρ : Type*) where
  /-- `TrackEventTypeAdd`. -/
  | added (k : ℕ)
  | packet (k : ℕ) (packet : π)
  /-- `TrackEventTypeRemove`. -/
  | removed (k : ℕ)
  /-- An RTCP packet. -/
  | feedback (k : ℕ) (packet : ρ)
  deriving DecidableEq, Repr

def Item.owner : Item π ρ → ℕ
  | .added k | .packet k _ | .removed k | .feedback k _ => k

inductive Ch where
  | trackEventsCh
  | rtpCh
  | rtcpCh
  deriving DecidableEq, Repr

/-- A channel without a buffer and the loop that ranges over it. -/
structure Channel where
  closed : Bool
  /-- The loop handles what it has taken. -/
  busy : Bool
  /-- The loop has ended. -/
  ended : Bool
  deriving DecidableEq, Repr

/-- How far a goroutine is; `read` is what it has handed over. -/
inductive Goroutine (π ρ : Type*) where
  /-- `handleTrack` is called. -/
  | called
  /-- It has recorded the track and offers the add event. -/
  | adding
  /-- The event was taken; the goroutine is not counted yet. -/
  | added
  | reading (read : List π)
  | writing (read : List π) (packet : π)
  /-- `ReadRTP` has failed. -/
  | ended (read : List π)
  /-- The track is no longer recorded; the remove event is offered. -/
  | removing (read : List π)
  | removed (read : List π)
  | left (read : List π)
  /-- `AddTrack` is called; the goroutine is not counted yet. -/
  | started
  | listening (read : List ρ)
  | reporting (read : List ρ) (rest : List ρ)
  /-- `ReadRTCP` has failed. -/
  | stopped (read : List ρ)
  | returned (read : List ρ)
  deriving DecidableEq, Repr

/-- The goroutine that closes the channels. -/
inductive Closer where
  /-- It waits for `closeChannel`. -/
  | waiting
  /-- It waits for `wg`. -/
  | counting
  | closingData
  | closingRtp
  | closingRtcp
  | closingEvents
  | finished
  deriving DecidableEq, Repr

structure Transport (π ρ : Type*) where
  goroutines : List (Goroutine π ρ)
  wg : ℕ
  closeChannel : Bool
  closer : Closer
  chan : Ch → Channel
  /-- A goroutine has panicked. -/
  panicked : Bool
  /-- What `ReadRTP` and `ReadRTCP` have returned. -/
  reads : List (Item π ρ)
  /-- What the loops have taken. -/
  taken : List (Item π ρ)

/-- `NewWebRTCTransport`, with the loops of `RoomPeersManager.Add`. -/
def Transport.new : Transport π ρ := ⟨[], 0, false, .waiting, fun _ => ⟨false, false, false⟩, false, [], []⟩

/-! ### Steps -/

/-- How a goroutine moves. -/
inductive Move (π ρ : Type*) where
  | go
  | readRTP (packet : π)
  | readRTCP (packets : List ρ)
  /-- `ReadRTP` or `ReadRTCP` returns an error. -/
  | fail
  deriving DecidableEq, Repr

/-- What a move does to the transport. -/
inductive Effect (π ρ : Type*) where
  | none
  /-- `wg.Add(1)`. -/
  | count
  /-- `wg.Done()`. -/
  | uncount
  | read (items : List (Item π ρ))
  | offer (c : Ch) (item : Item π ρ)
  deriving DecidableEq, Repr

/-- Goroutine `k`: `handleTrack` and what it starts, or what `AddTrack` starts. -/
def Goroutine.move (k : ℕ) : Goroutine π ρ → Move π ρ → Option (Goroutine π ρ × Effect π ρ)
  | .called, .go => some (.adding, .none)
  | .adding, .go => some (.added, .offer .trackEventsCh (.added k))
  | .added, .go => some (.reading [], .count)
  | .reading read, .readRTP packet => some (.writing read packet, .read [.packet k packet])
  | .reading read, .fail => some (.ended read, .none)
  | .writing read packet, .go => some (.reading (read ++ [packet]), .offer .rtpCh (.packet k packet))
  | .ended read, .go => some (.removing read, .none)
  | .removing read, .go => some (.removed read, .offer .trackEventsCh (.removed k))
  | .removed read, .go => some (.left read, .uncount)
  | .started, .go => some (.listening [], .count)
  | .listening read, .readRTCP packets => some (.reporting read packets, .read (packets.map (.feedback k)))
  | .listening read, .fail => some (.stopped read, .none)
  | .reporting read [], .go => some (.listening read, .none)
  | .reporting read (packet :: rest), .go =>
    some (.reporting (read ++ [packet]) rest, .offer .rtcpCh (.feedback k packet))
  | .stopped read, .go => some (.returned read, .uncount)
  | _, _ => none

def Transport.setChan (s : Transport π ρ) (c : Ch) (x : Channel) : Transport π ρ :=
  { s with chan := Function.update s.chan c x }

/-- Goroutine `k` becomes `g`, with the effect of the move. -/
def Transport.apply (s : Transport π ρ) (k : ℕ) (g : Goroutine π ρ) : Effect π ρ → Option (Transport π ρ)
  | .none => some { s with goroutines := s.goroutines.set k g }
  | .count => some { s with goroutines := s.goroutines.set k g, wg := s.wg + 1 }
  | .uncount => some { s with goroutines := s.goroutines.set k g, wg := s.wg - 1 }
  | .read items => some { s with goroutines := s.goroutines.set k g, reads := s.reads ++ items }
  | .offer c item =>
    if (s.chan c).closed then some { s with panicked := true }
    else if (s.chan c).busy ∨ (s.chan c).ended then none
    else some { s.setChan c { s.chan c with busy := true } with
      goroutines := s.goroutines.set k g
      taken := s.taken ++ [item] }

inductive Action (π ρ : Type*) where
  /-- The peer connection calls `handleTrack`. -/
  | onTrack
  /-- `AddTrack`, up to `wg.Add(1)`. -/
  | addTrack
  | move (k : ℕ) (move : Move π ρ)
  /-- `Signaller.Close` closes `closeChannel`. -/
  | close
  /-- The goroutine that closes the channels goes on. -/
  | closer
  /-- A loop has handled what it has taken. -/
  | handled (c : Ch)
  /-- A loop ends, as its channel is closed. -/
  | stop (c : Ch)
  deriving DecidableEq, Repr

def Transport.closeCh (s : Transport π ρ) (c : Ch) : Transport π ρ := s.setChan c { s.chan c with closed := true }

/-- The goroutine that `NewWebRTCTransport` starts. -/
def Transport.goCloser (s : Transport π ρ) : Option (Transport π ρ) :=
  match s.closer with
  | .waiting => if s.closeChannel then some { s with closer := .counting } else none
  | .counting => if s.wg = 0 then some { s with closer := .closingData } else none
  | .closingData => some { s with closer := .closingRtp }
  | .closingRtp => some { s.closeCh .rtpCh with closer := .closingRtcp }
  | .closingRtcp => some { s.closeCh .rtcpCh with closer := .closingEvents }
  | .closingEvents => some { s.closeCh .trackEventsCh with closer := .finished }
  | .finished => none

def step (s : Transport π ρ) (a : Action π ρ) : Option (Transport π ρ) :=
  -- a panic ends the program
  if s.panicked then none else
  match a with
  | .onTrack => some { s with goroutines := s.goroutines ++ [.called] }
  | .addTrack => some { s with goroutines := s.goroutines ++ [.started] }
  | .move k m =>
    match s.goroutines[k]? with
    | none => none
    | some g =>
      match g.move k m with
      | none => none
      | some (g', e) => s.apply k g' e
  | .close => some { s with closeChannel := true }
  | .closer => s.goCloser
  | .handled c => if (s.chan c).busy then some (s.setChan c { s.chan c with busy := false }) else none
  | .stop c =>
    if (s.chan c).closed ∧ (s.chan c).busy = false ∧ (s.chan c).ended = false then
      some (s.setChan c { s.chan c with ended := true })
    else none

def Effect.wg (n : ℕ) : Effect π ρ → ℕ
  | .count => n + 1
  | .uncount => n - 1
  | _ => n

def Effect.items : Effect π ρ → List (Item π ρ)
  | .read items => items
  | _ => []

def Effect.offered : Effect π ρ → List (Item π ρ)
  | .offer _ item => [item]
  | _ => []

/-- What a step can do. -/
inductive Stepped (s : Transport π ρ) : Action π ρ → Transport π ρ → Prop
  | onTrack : Stepped s .onTrack { s with goroutines := s.goroutines ++ [.called] }
  | addTrack : Stepped s .addTrack { s with goroutines := s.goroutines ++ [.started] }
  | move {k : ℕ} {m : Move π ρ} {g g' : Goroutine π ρ} {e : Effect π ρ} : s.goroutines[k]? = some g →
      g.move k m = some (g', e) → e.offered = [] → Stepped s (.move k m) { s with
        goroutines := s.goroutines.set k g'
        wg := e.wg s.wg
        reads := s.reads ++ e.items }
  | panic {k : ℕ} {m : Move π ρ} {g g' : Goroutine π ρ} {c : Ch} {item : Item π ρ} : s.goroutines[k]? = some g →
      g.move k m = some (g', .offer c item) → (s.chan c).closed = true →
      Stepped s (.move k m) { s with panicked := true }
  | offer {k : ℕ} {m : Move π ρ} {g g' : Goroutine π ρ} {c : Ch} {item : Item π ρ} : s.goroutines[k]? = some g →
      g.move k m = some (g', .offer c item) → (s.chan c).closed = false → (s.chan c).busy = false →
      Stepped s (.move k m) { s.setChan c { s.chan c with busy := true } with
        goroutines := s.goroutines.set k g'
        taken := s.taken ++ [item] }
  | close : Stepped s .close { s with closeChannel := true }
  | closer {s' : Transport π ρ} : s.goCloser = some s' → Stepped s .closer s'
  | handled {c : Ch} : (s.chan c).busy = true → Stepped s (.handled c) (s.setChan c { s.chan c with busy := false })
  | stop {c : Ch} : (s.chan c).closed = true → (s.chan c).busy = false → (s.chan c).ended = false →
      Stepped s (.stop c) (s.setChan c { s.chan c with ended := true })

theorem stepped_of_move {s s' : Transport π ρ} {k : ℕ} {m : Move π ρ} {g g' : Goroutine π ρ} {e : Effect π ρ}
    (hg : s.goroutines[k]? = some g) (hm : g.move k m = some (g', e)) (hs : s.apply k g' e = some s') :
    Stepped s (.move k m) s' := by
  cases e with
  | none =>
    obtain rfl := Option.some.inj hs
    simpa [Effect.wg, Effect.items] using Stepped.move (s := s) hg hm rfl
  | count =>
    obtain rfl := Option.some.inj hs
    simpa [Effect.wg, Effect.items] using Stepped.move (s := s) hg hm rfl
  | uncount =>
    obtain rfl := Option.some.inj hs
    simpa [Effect.wg, Effect.items] using Stepped.move (s := s) hg hm rfl
  | read items => exact Option.some.inj hs ▸ Stepped.move hg hm rfl
  | offer c item =>
    simp only [Transport.apply] at hs
    split_ifs at hs with hclosed hbusy
    · exact Option.some.inj hs ▸ .panic hg hm hclosed
    · simp only [not_or, Bool.not_eq_true] at hbusy
      exact Option.some.inj hs ▸ .offer hg hm (by simpa using hclosed) hbusy.1

theorem stepped_of_step {s s' : Transport π ρ} {a : Action π ρ} (hs : step s a = some s') : Stepped s a s' := by
  unfold step at hs
  split_ifs at hs
  cases a with
  | onTrack => exact Option.some.inj hs ▸ .onTrack
  | addTrack => exact Option.some.inj hs ▸ .addTrack
  | move k m =>
    dsimp only at hs
    split at hs
    · cases hs
    next g hg =>
      split at hs
      · cases hs
      next g' e hm => exact stepped_of_move hg hm hs
  | close => exact Option.some.inj hs ▸ .close
  | closer => exact .closer hs
  | handled c =>
    dsimp only at hs
    split_ifs at hs with hb
    exact Option.some.inj hs ▸ .handled hb
  | stop c =>
    dsimp only at hs
    split_ifs at hs with hc
    exact Option.some.inj hs ▸ .stop hc.1 hc.2.1 hc.2.2

/-! ### What the loops take -/

/-- What the loops have taken of goroutine `k`. -/
def Goroutine.handed (k : ℕ) : Goroutine π ρ → List (Item π ρ)
  | .called | .adding | .started => []
  | .added => [.added k]
  | .reading read | .writing read _ | .ended read | .removing read => .added k :: read.map (.packet k)
  | .removed read | .left read => .added k :: read.map (.packet k) ++ [.removed k]
  | .listening read | .reporting read _ | .stopped read | .returned read => read.map (.feedback k)

/-- What goroutine `k` has read. -/
def Goroutine.got (k : ℕ) : Goroutine π ρ → List (Item π ρ)
  | .called | .adding | .added | .started => []
  | .reading read | .ended read | .removing read | .removed read | .left read => read.map (.packet k)
  | .writing read packet => read.map (.packet k) ++ [.packet k packet]
  | .listening read | .stopped read | .returned read => read.map (.feedback k)
  | .reporting read rest => (read ++ rest).map (.feedback k)

def ofGoroutine (k : ℕ) (items : List (Item π ρ)) : List (Item π ρ) := items.filter fun x => x.owner = k

structure Handed (s : Transport π ρ) : Prop where
  taken : ∀ k, ofGoroutine k s.taken = s.goroutines[k]?.elim [] (Goroutine.handed k)
  reads : ∀ k, ofGoroutine k s.reads = s.goroutines[k]?.elim [] (Goroutine.got k)

theorem handed_new : Handed (.new : Transport π ρ) := ⟨fun _ => rfl, fun _ => rfl⟩

section Handed

variable {s s' : Transport π ρ} {k : ℕ} {m : Move π ρ} {g g' : Goroutine π ρ} {e : Effect π ρ} {a : Action π ρ}

/-- A move hands over what it offers and has read what it reads. -/
theorem Goroutine.move_spec (hm : g.move k m = some (g', e)) :
    g'.handed k = g.handed k ++ e.offered ∧ g'.got k = g.got k ++ e.items ∧
      (∀ x ∈ e.offered, x.owner = k) ∧ ∀ x ∈ e.items, x.owner = k := by
  unfold Goroutine.move at hm
  split at hm <;> cases hm <;>
    simp [Goroutine.handed, Goroutine.got, Effect.offered, Effect.items, Item.owner]

theorem ofGoroutine_append {x y : List (Item π ρ)} : ofGoroutine k (x ++ y) = ofGoroutine k x ++ ofGoroutine k y :=
  List.filter_append _ _

theorem ofGoroutine_self {x : List (Item π ρ)} (hx : ∀ i ∈ x, i.owner = k) : ofGoroutine k x = x :=
  List.filter_eq_self.mpr fun i hi => by simp [hx i hi]

theorem ofGoroutine_ne {j : ℕ} {x : List (Item π ρ)} (hx : ∀ i ∈ x, i.owner = k) (hj : k ≠ j) : ofGoroutine j x = [] :=
  List.filter_eq_nil_iff.mpr fun i hi => by simp [hx i hi, hj]

/-- One goroutine moves: its own items are added to a history, and the others see nothing of it. -/
theorem ofGoroutine_set {f : ℕ → Goroutine π ρ → List (Item π ρ)} {l x : List (Item π ρ)}
    {gs : List (Goroutine π ρ)} (hg : gs[k]? = some g) (hx : ∀ i ∈ x, i.owner = k) (hf : f k g' = f k g ++ x)
    (h : ∀ j, ofGoroutine j l = gs[j]?.elim [] (f j)) (j : ℕ) :
    ofGoroutine j (l ++ x) = (gs.set k g')[j]?.elim [] (f j) := by
  rw [ofGoroutine_append, h j]
  by_cases hj : k = j
  · subst hj
    obtain ⟨hlt, -⟩ := List.getElem?_eq_some_iff.mp hg
    rw [ofGoroutine_self hx, List.getElem?_set_self hlt, hg]
    exact hf.symm
  · rw [ofGoroutine_ne hx hj, List.getElem?_set_ne hj, List.append_nil]

theorem elim_concat {f : ℕ → Goroutine π ρ → List (Item π ρ)} {gs : List (Goroutine π ρ)} (hf : ∀ j, f j g = [])
    (j : ℕ) : (gs ++ [g])[j]?.elim [] (f j) = gs[j]?.elim [] (f j) := by
  rcases lt_trichotomy j gs.length with hj | hj | hj
  · rw [List.getElem?_append_left hj]
  · subst hj
    simp [hf]
  · rw [List.getElem?_eq_none (by simp; omega), List.getElem?_eq_none (by omega)]

/-- **Step lemma.** -/
theorem Handed.step (h : Handed s) (hs : Stepped s a s') : Handed s' := by
  cases hs with
  | onTrack => exact ⟨fun j => by rw [elim_concat fun _ => rfl, ← h.taken], fun j => by
      rw [elim_concat fun _ => rfl, ← h.reads]⟩
  | addTrack => exact ⟨fun j => by rw [elim_concat fun _ => rfl, ← h.taken], fun j => by
      rw [elim_concat fun _ => rfl, ← h.reads]⟩
  | move hg hm ho =>
    obtain ⟨hhanded, hgot, -, hown⟩ := Goroutine.move_spec hm
    rw [ho] at hhanded
    refine ⟨fun j => ?_, ofGoroutine_set hg hown hgot h.reads⟩
    have := ofGoroutine_set hg (by simp) hhanded h.taken j
    rwa [List.append_nil] at this
  | panic | close | handled | stop => exact ⟨h.taken, h.reads⟩
  | offer hg hm =>
    obtain ⟨hhanded, hgot, hown, -⟩ := Goroutine.move_spec hm
    refine ⟨ofGoroutine_set hg hown hhanded h.taken, fun j => ?_⟩
    have := ofGoroutine_set hg (by simp [Effect.items]) hgot h.reads j
    show ofGoroutine j s.reads = _
    simpa [Effect.items] using this
  | closer hc =>
    unfold Transport.goCloser at hc
    split at hc <;> (try split_ifs at hc) <;> cases hc <;> exact ⟨h.taken, h.reads⟩

end Handed

theorem handed_of_reach {s : Transport π ρ} {ok : Transport π ρ → Action π ρ → Prop} (h : Reach step ok .new s) :
    Handed s :=
  h.invariant handed_new fun _ _ _ hI _ hs => hI.step (stepped_of_step hs)

/-- Goroutine `k` is one of `handleTrack`. -/
def Goroutine.OfTrack : Goroutine π ρ → Prop
  | .started | .listening _ | .reporting _ _ | .stopped _ | .returned _ => False
  | _ => True

/-- **A track reaches the room in order**: in every interleaving, what the loops have taken of a track is a prefix
of its add event, all the packets that were read in the order they were read, and its remove event; and what they
have taken of the feedback about a track is a prefix of what was read. -/
theorem tracks_handed {s : Transport π ρ} (h : Reach step anyStep .new s) {k : ℕ} {g : Goroutine π ρ}
    (hg : s.goroutines[k]? = some g) :
    (g.OfTrack → ofGoroutine k s.taken <+: .added k :: ofGoroutine k s.reads ++ [.removed k]) ∧
      (¬ g.OfTrack → ofGoroutine k s.taken <+: ofGoroutine k s.reads) := by
  have hH := handed_of_reach h
  rw [hH.taken, hH.reads, hg]
  cases g <;> simp [Goroutine.OfTrack, Goroutine.handed, Goroutine.got]

/-- A packet is offered, the one before it was taken. -/
theorem tracks_handed_example : ∃ s : Transport ℕ ℕ, exec (guarded step anyStep) .new
      [.onTrack, .move 0 .go, .move 0 .go, .move 0 .go, .move 0 (.readRTP 5), .move 0 .go, .handled .trackEventsCh,
        .move 0 (.readRTP 6), .handled .rtpCh] = some s ∧
    (s.goroutines[0]? = some (.writing [5] 6) ∧ s.taken = [.added 0, .packet 0 5]) ∧
      ofGoroutine 0 s.taken <+: .added 0 :: ofGoroutine 0 s.reads ++ [.removed 0] :=
  exists_exec (by decide +kernel) fun _ h hq => (tracks_handed h hq.1).1 trivial

/-! ### Runs in which every goroutine is counted in time -/

/-- `wg.Add(1)` is still to come. -/
def Goroutine.Early : Goroutine π ρ → Prop
  | .called | .adding | .added | .started => True
  | _ => False

instance : DecidablePred (Goroutine.Early : Goroutine π ρ → Prop)
  | .called | .adding | .added | .started => isTrue trivial
  | .reading _ | .writing _ _ | .ended _ | .removing _ | .removed _ | .left _ | .listening _ | .reporting _ _
  | .stopped _ | .returned _ => isFalse id

def Goroutine.Done : Goroutine π ρ → Prop
  | .left _ | .returned _ => True
  | _ => False

/-- What `wg` counts of a goroutine. -/
def Goroutine.counted : Goroutine π ρ → ℕ
  | .called | .adding | .added | .started | .left _ | .returned _ => 0
  | _ => 1

/-- `wg.Wait()` has not returned. -/
def Closer.Waits (x : Closer) : Prop := x = .waiting ∨ x = .counting

instance : DecidablePred Closer.Waits := fun x => inferInstanceAs (Decidable (x = .waiting ∨ x = .counting))

def Closer.hasClosed : Closer → Ch → Bool
  | .closingRtcp, .rtpCh | .closingEvents, .rtpCh | .closingEvents, .rtcpCh | .finished, _ => true
  | _, _ => false

/-- Every goroutine is counted before `wg.Wait()` returns: no track comes and none is added later, and none is on
the way when it returns. -/
def OnTime (s : Transport π ρ) : Action π ρ → Prop
  | .onTrack | .addTrack => s.closer.Waits
  | .closer => s.closer = .counting → ∀ g ∈ s.goroutines, ¬ g.Early
  | _ => True

instance : DecidableRel (OnTime : Transport π ρ → Action π ρ → Prop)
  | s, .onTrack | s, .addTrack => inferInstanceAs (Decidable s.closer.Waits)
  | s, .closer => inferInstanceAs (Decidable (s.closer = .counting → ∀ g ∈ s.goroutines, ¬ g.Early))
  | _, .move _ _ | _, .close | _, .handled _ | _, .stop _ => isTrue trivial

structure Timely (s : Transport π ρ) : Prop where
  wg : s.wg = (s.goroutines.map Goroutine.counted).sum
  closed : ∀ c, (s.chan c).closed = s.closer.hasClosed c
  ended : ∀ c, (s.chan c).ended = true → (s.chan c).closed = true
  allDone : ¬ s.closer.Waits → ∀ g ∈ s.goroutines, g.Done
  calm : s.panicked = false

theorem timely_new : Timely (.new : Transport π ρ) where
  wg := rfl
  closed _ := rfl
  ended _ h := by cases h
  allDone _ _ hg := by cases hg
  calm := rfl

section Timely

variable {s s' : Transport π ρ} {k : ℕ} {m : Move π ρ} {g g' : Goroutine π ρ} {e : Effect π ρ} {a : Action π ρ}

theorem Goroutine.move_counted (hm : g.move k m = some (g', e)) {n : ℕ} (hn : g.counted ≤ n) :
    e.wg n + g.counted = n + g'.counted := by
  unfold Goroutine.move at hm
  split at hm <;> cases hm <;> simp only [Goroutine.counted, Effect.wg] at hn ⊢ <;> omega

theorem Goroutine.not_done_of_move (hm : g.move k m = some (g', e)) : ¬ g.Done := by
  intro hd
  cases g <;> first | exact hd | (cases m <;> cases hm)

theorem Goroutine.done_of_counted (h0 : g.counted = 0) (he : ¬ g.Early) : g.Done := by
  cases g <;> first | trivial | exact absurd trivial he

theorem waits_of_hasClosed {x : Closer} {c : Ch} (h : x.hasClosed c = true) : ¬ x.Waits := by
  rintro (rfl | rfl) <;> cases h

theorem Timely.waits_of_move (h : Timely s) (hg : s.goroutines[k]? = some g) (hm : g.move k m = some (g', e)) :
    s.closer.Waits := by
  by_contra hw
  exact Goroutine.not_done_of_move hm (h.allDone hw g (List.mem_of_getElem? hg))

theorem Timely.wg_set (h : Timely s) (hg : s.goroutines[k]? = some g) (hm : g.move k m = some (g', e)) :
    e.wg s.wg = ((s.goroutines.set k g').map Goroutine.counted).sum := by
  have hset := sum_set (f := Goroutine.counted) (y := g') hg
  have hle : g.counted ≤ s.wg := by
    rw [h.wg]
    exact List.single_le_sum (by simp) _ (List.mem_map_of_mem (List.mem_of_getElem? hg))
  have := Goroutine.move_counted hm hle
  rw [← h.wg] at hset
  omega

/-- A loop takes, handles or ends, or a channel is closed. -/
theorem closed_setChan {c : Ch} {x : Channel} {f : Ch → Bool} (h : ∀ d, (s.chan d).closed = f d) (hx : x.closed = f c)
    (d : Ch) : ((s.setChan c x).chan d).closed = f d := by
  by_cases hd : d = c
  · subst hd
    simpa [Transport.setChan] using hx
  · simpa [Transport.setChan, hd] using h d

theorem closed_closeCh {c : Ch} {f f' : Ch → Bool} (h : ∀ d, (s.chan d).closed = f d) (hc : f' c = true)
    (hf : ∀ d, d ≠ c → f' d = f d) (d : Ch) : ((s.closeCh c).chan d).closed = f' d := by
  by_cases hd : d = c
  · subst hd
    simp [Transport.closeCh, Transport.setChan, hc]
  · simpa [Transport.closeCh, Transport.setChan, hd, hf d hd] using h d

theorem ended_setChan {c : Ch} {x : Channel} (h : ∀ d, (s.chan d).ended = true → (s.chan d).closed = true)
    (hx : x.ended = true → x.closed = true) (d : Ch) :
    ((s.setChan c x).chan d).ended = true → ((s.setChan c x).chan d).closed = true := by
  by_cases hd : d = c
  · subst hd
    simpa [Transport.setChan] using hx
  · simpa [Transport.setChan, hd] using h d

/-- The goroutine that closes the channels goes on. -/
theorem Timely.closer (h : Timely s) (hok : OnTime s .closer) (hs : s.goCloser = some s') : Timely s' := by
  unfold Transport.goCloser at hs
  have hover (hw : ¬ s.closer.Waits) {x : Closer} : ¬ x.Waits → ∀ g ∈ s.goroutines, g.Done := fun _ => h.allDone hw
  split at hs
  next hc =>
    split_ifs at hs
    obtain rfl := Option.some.inj hs
    exact ⟨h.wg, fun c => by rw [h.closed, hc]; cases c <;> rfl, h.ended, fun hw => absurd (Or.inr rfl) hw, h.calm⟩
  next hc =>
    split_ifs at hs with h0
    obtain rfl := Option.some.inj hs
    refine ⟨h.wg, fun c => by rw [h.closed, hc]; cases c <;> rfl, h.ended, fun _ g hg => ?_, h.calm⟩
    have hsum : (s.goroutines.map Goroutine.counted).sum = 0 := h.wg ▸ h0
    have hle : g.counted ≤ (s.goroutines.map Goroutine.counted).sum :=
      List.single_le_sum (by simp) _ (List.mem_map_of_mem hg)
    exact Goroutine.done_of_counted (by omega) (hok hc g hg)
  next hc =>
    obtain rfl := Option.some.inj hs
    exact ⟨h.wg, fun c => by rw [h.closed, hc]; cases c <;> rfl, h.ended, hover (by rw [hc]; decide), h.calm⟩
  next hc =>
    obtain rfl := Option.some.inj hs
    refine ⟨h.wg, closed_closeCh h.closed rfl fun d hd => ?_, ended_setChan h.ended fun _ => rfl,
      hover (by rw [hc]; decide), h.calm⟩
    rw [hc]
    cases d <;> first | rfl | exact absurd rfl hd
  next hc =>
    obtain rfl := Option.some.inj hs
    refine ⟨h.wg, closed_closeCh h.closed rfl fun d hd => ?_, ended_setChan h.ended fun _ => rfl,
      hover (by rw [hc]; decide), h.calm⟩
    rw [hc]
    cases d <;> first | rfl | exact absurd rfl hd
  next hc =>
    obtain rfl := Option.some.inj hs
    refine ⟨h.wg, closed_closeCh h.closed rfl fun d hd => ?_, ended_setChan h.ended fun _ => rfl,
      hover (by rw [hc]; decide), h.calm⟩
    rw [hc]
    cases d <;> first | rfl | exact absurd rfl hd
  · cases hs

/-- **Step lemma** for the runs in time. -/
theorem Timely.step (h : Timely s) (hok : OnTime s a) (hs : Stepped s a s') : Timely s' := by
  cases hs with
  | onTrack => exact ⟨by simpa [Goroutine.counted] using h.wg, h.closed, h.ended, fun hw => absurd hok hw, h.calm⟩
  | addTrack => exact ⟨by simpa [Goroutine.counted] using h.wg, h.closed, h.ended, fun hw => absurd hok hw, h.calm⟩
  | move hg hm => exact ⟨h.wg_set hg hm, h.closed, h.ended, fun hw => absurd (h.waits_of_move hg hm) hw, h.calm⟩
  | panic hg hm hclosed =>
    rw [h.closed] at hclosed
    exact absurd (h.waits_of_move hg hm) (waits_of_hasClosed hclosed)
  | offer hg hm =>
    exact ⟨h.wg_set hg hm, closed_setChan h.closed (h.closed _), ended_setChan h.ended (h.ended _),
      fun hw => absurd (h.waits_of_move hg hm) hw, h.calm⟩
  | close => exact ⟨h.wg, h.closed, h.ended, h.allDone, h.calm⟩
  | closer hc => exact h.closer hok hc
  | handled => exact ⟨h.wg, closed_setChan h.closed (h.closed _), ended_setChan h.ended (h.ended _), h.allDone, h.calm⟩
  | stop hclosed =>
    exact ⟨h.wg, closed_setChan h.closed (h.closed _), ended_setChan h.ended fun _ => hclosed, h.allDone, h.calm⟩

end Timely

theorem timely_of_reach {s : Transport π ρ} (h : Reach step OnTime .new s) : Timely s :=
  h.invariant timely_new fun _ _ _ hI hok hs => hI.step hok (stepped_of_step hs)

/-! ### The end -/

/-- The steps that need nothing from outside once the peer connection is closed: every read fails then. -/
def Ending : Action π ρ → Prop
  | .move _ .go | .move _ .fail | .closer | .handled _ | .stop _ => True
  | _ => False

/-- All has ended. -/
structure Finished (s : Transport π ρ) : Prop where
  goroutines : ∀ g ∈ s.goroutines, g.Done
  closer : s.closer = .finished
  loops : ∀ c, (s.chan c).busy = false ∧ (s.chan c).ended = true

/-- How many steps a goroutine can still take, with those of the loops that take what it offers. -/
def Goroutine.work : Goroutine π ρ → ℕ
  | .called => 9
  | .adding => 8
  | .added => 6
  | .reading _ => 5
  | .writing _ _ => 7
  | .ended _ => 4
  | .removing _ => 3
  | .removed _ => 1
  | .started => 3
  | .listening _ => 2
  | .reporting _ rest => 2 * rest.length + 3
  | .stopped _ => 1
  | .left _ | .returned _ => 0

def Channel.work (x : Channel) : ℕ := (if x.busy then 1 else 0) + if x.ended then 0 else 1

def Closer.work : Closer → ℕ
  | .waiting => 6
  | .counting => 5
  | .closingData => 4
  | .closingRtp => 3
  | .closingRtcp => 2
  | .closingEvents => 1
  | .finished => 0

def work (s : Transport π ρ) : ℕ :=
  (s.goroutines.map Goroutine.work).sum + s.closer.work +
    ((s.chan .trackEventsCh).work + (s.chan .rtpCh).work + (s.chan .rtcpCh).work)

section Work

variable {s s' : Transport π ρ} {k : ℕ} {m : Move π ρ} {g g' : Goroutine π ρ} {e : Effect π ρ} {a : Action π ρ}

/-- A move that reads nothing leaves less to do, by two where it offers something. -/
theorem Goroutine.move_work (hm : g.move k m = some (g', e)) (ha : Ending (.move k m : Action π ρ)) :
    g'.work + e.offered.length < g.work := by
  unfold Goroutine.move at hm
  split at hm <;> cases hm <;> first
    | exact ha.elim
    | (simp only [Goroutine.work, Effect.offered, List.length_cons, List.length_nil]; omega)

theorem work_setChan {c : Ch} {x : Channel} : work (s.setChan c x) + (s.chan c).work = work s + x.work := by
  cases c <;> simp only [work, Transport.setChan, Function.update, reduceCtorEq, dite_false, dite_true] <;> omega

theorem work_closeCh {c : Ch} : work (s.closeCh c) = work s := by
  have hx : ({ s.chan c with closed := true } : Channel).work = (s.chan c).work := rfl
  have := work_setChan (s := s) (c := c) (x := { s.chan c with closed := true })
  rw [Transport.closeCh]
  omega

theorem work_closer {x : Closer} : work { s with closer := x } + s.closer.work = work s + x.work := by
  simp only [work]
  omega

theorem work_goCloser (hs : s.goCloser = some s') : work s' < work s := by
  have hlt {t : Transport π ρ} {x : Closer} (ht : work t = work s) (hc : t.closer = s.closer)
      (hx : x.work < s.closer.work) : work { t with closer := x } < work s := by
    have := work_closer (s := t) (x := x)
    rw [hc] at this
    omega
  unfold Transport.goCloser at hs
  split at hs
  next hc =>
    split_ifs at hs
    exact Option.some.inj hs ▸ hlt rfl rfl (by rw [hc]; decide)
  next hc =>
    split_ifs at hs
    exact Option.some.inj hs ▸ hlt rfl rfl (by rw [hc]; decide)
  next hc => exact Option.some.inj hs ▸ hlt rfl rfl (by rw [hc]; decide)
  next hc => exact Option.some.inj hs ▸ hlt work_closeCh rfl (by rw [hc]; decide)
  next hc => exact Option.some.inj hs ▸ hlt work_closeCh rfl (by rw [hc]; decide)
  next hc => exact Option.some.inj hs ▸ hlt work_closeCh rfl (by rw [hc]; decide)
  · cases hs

/-- **Step lemma**: every step that needs nothing from outside leaves less to do. -/
theorem work_step (ha : Ending a) (hs : Stepped s a s') (hp : s'.panicked = false) : work s' < work s := by
  cases hs with
  | onTrack | addTrack | close => exact ha.elim
  | @move k m g g' e hg hm =>
    have hlt := Goroutine.move_work hm ha
    have hset := sum_set (f := Goroutine.work) (y := g') hg
    simp only [work]
    omega
  | panic => cases hp
  | @offer k m g g' c item hg hm hclosed hbusy =>
    have hlt := Goroutine.move_work hm ha
    have hset := sum_set (f := Goroutine.work) (y := g') hg
    have hchan := work_setChan (s := s) (c := c) (x := { s.chan c with busy := true })
    simp only [Effect.offered, List.length_singleton] at hlt
    simp only [Channel.work, hbusy, Bool.false_eq_true, if_false, if_true] at hchan
    simp only [work, Transport.setChan] at hchan ⊢
    omega
  | closer hc => exact work_goCloser hc
  | @handled c hb =>
    have hchan := work_setChan (s := s) (c := c) (x := { s.chan c with busy := false })
    have hx : ({ s.chan c with busy := false } : Channel).work + 1 = (s.chan c).work := by
      simp [Channel.work, hb, Nat.add_comm]
    omega
  | @stop c hclosed hb he =>
    have hchan := work_setChan (s := s) (c := c) (x := { s.chan c with ended := true })
    have hx : ({ s.chan c with ended := true } : Channel).work + 1 = (s.chan c).work := by simp [Channel.work, hb, he]
    omega

/-- A goroutine that is not done can go on, and offers something at most to a loop that is free. -/
theorem Goroutine.exists_move (hd : ¬ g.Done) :
    ∃ m g' e, g.move k m = some (g', e) ∧ Ending (.move k m : Action π ρ) := by
  cases g with
  | left | returned => exact absurd trivial hd
  | reading | listening => exact ⟨.fail, _, _, rfl, trivial⟩
  | reporting read rest => cases rest <;> exact ⟨.go, _, _, rfl, trivial⟩
  | _ => exact ⟨.go, _, _, rfl, trivial⟩

theorem isSome_apply (hfree : ∀ c, (s.chan c).busy = false ∧ (s.chan c).ended = false) :
    (s.apply k g' e).isSome = true := by
  cases e with
  | offer c item =>
    simp only [Transport.apply, hfree c]
    split_ifs <;> simp_all
  | _ => rfl

/-- Some step that needs nothing from outside can be taken in time. -/
def Enabled (s : Transport π ρ) : Prop := ∃ a, Ending a ∧ OnTime s a ∧ (step s a).isSome = true

theorem Timely.enabled_of_busy (h : Timely s) {c : Ch} (hb : (s.chan c).busy = true) : Enabled s :=
  ⟨.handled c, trivial, trivial, by simp [Shutdown.step, h.calm, hb]⟩

theorem Timely.enabled_of_goroutine (h : Timely s) (hb : ∀ c, (s.chan c).busy = false)
    (hg : s.goroutines[k]? = some g) (hd : ¬ g.Done) : Enabled s := by
  obtain ⟨m, g', e, hm, ha⟩ := Goroutine.exists_move (k := k) hd
  refine ⟨.move k m, ha, trivial, ?_⟩
  have hw := h.waits_of_move hg hm
  simp only [Shutdown.step, h.calm, hg, hm, Bool.false_eq_true, if_false]
  refine isSome_apply fun c => ⟨hb c, ?_⟩
  by_contra he
  have hclosed := h.ended c (by simpa using he)
  rw [h.closed] at hclosed
  exact waits_of_hasClosed hclosed hw

theorem Timely.enabled_closer (h : Timely s) (hd : ∀ g ∈ s.goroutines, g.Done) (hc : s.closeChannel = true)
    (hf : s.closer ≠ .finished) : Enabled s := by
  have hearly {g : Goroutine π ρ} (hg : g.Done) : ¬ g.Early := by cases g <;> simp_all [Goroutine.Done, Goroutine.Early]
  have hcounted {g : Goroutine π ρ} (hg : g.Done) : g.counted = 0 := by
    cases g <;> simp_all [Goroutine.Done, Goroutine.counted]
  have h0 : s.wg = 0 := by
    rw [h.wg]
    exact List.sum_eq_zero fun n hn => by
      obtain ⟨g, hg, rfl⟩ := List.mem_map.mp hn
      exact hcounted (hd g hg)
  refine ⟨.closer, trivial, fun _ g hg => hearly (hd g hg), ?_⟩
  simp only [Shutdown.step, h.calm, Transport.goCloser, Bool.false_eq_true, if_false]
  cases hx : s.closer <;> simp_all

/-- **Progress**: a transport that is closed has ended or some step can be taken. -/
theorem Timely.progress (h : Timely s) (hc : s.closeChannel = true) : Finished s ∨ Enabled s := by
  by_cases hb : ∃ c, (s.chan c).busy = true
  · obtain ⟨c, hb⟩ := hb
    exact Or.inr (h.enabled_of_busy hb)
  have hb' (c : Ch) : (s.chan c).busy = false := by simpa using fun hbc => hb ⟨c, hbc⟩
  by_cases hd : ∀ g ∈ s.goroutines, g.Done
  · by_cases hf : s.closer = .finished
    · by_cases he : ∀ c, (s.chan c).ended = true
      · exact Or.inl ⟨hd, hf, fun c => ⟨hb' c, he c⟩⟩
      · obtain ⟨c, hec⟩ := not_forall.mp he
        have hclosed : (s.chan c).closed = true := by rw [h.closed, hf]; rfl
        exact Or.inr ⟨.stop c, trivial, trivial, by simp [Shutdown.step, h.calm, hclosed, hb' c, hec]⟩
    · exact Or.inr (h.enabled_closer hd hc hf)
  · push Not at hd
    obtain ⟨g, hg, hgd⟩ := hd
    obtain ⟨k, hk⟩ := List.getElem?_of_mem hg
    exact Or.inr (h.enabled_of_goroutine hb' hk hgd)

end Work

theorem closeChannel_step {s s' : Transport π ρ} {a : Action π ρ} (hs : Stepped s a s')
    (hc : s.closeChannel = true) : s'.closeChannel = true := by
  cases hs with
  | closer hs =>
    unfold Transport.goCloser at hs
    split at hs <;> (try split_ifs at hs) <;> cases hs <;> exact hc
  | close => rfl
  | _ => exact hc

/-- All that was read of goroutine `k` has been taken, between the two events if it is a track. -/
def Complete (s : Transport π ρ) (k : ℕ) : Goroutine π ρ → Prop
  | .left _ => ofGoroutine k s.taken = .added k :: ofGoroutine k s.reads ++ [.removed k]
  | _ => ofGoroutine k s.taken = ofGoroutine k s.reads

/-- **A transport that is closed ends**: along every run in which the goroutines are counted in time nothing panics;
from a state in which it is closed, the steps that need nothing from outside, with those of the loops that finish
what they have taken, are at most `work s`, and after them it has ended or one more can be taken; and when it has
ended, all that was read has been taken, for a track between its add and remove events. -/
theorem shutdown_completes {s : Transport π ρ} (h : Reach step OnTime .new s) :
    s.panicked = false ∧ (s.closeChannel = true → ∀ as s', (∀ a ∈ as, Ending a) →
      exec (guarded step OnTime) s as = some s' → as.length ≤ work s ∧ (Finished s' ∨ Enabled s') ∧
        (Finished s' → ∀ k g, s'.goroutines[k]? = some g → Complete s' k g)) := by
  refine ⟨(timely_of_reach h).calm, fun hc as s' ha he => ?_⟩
  have hrun := exec_measure (I := fun s => Reach step OnTime .new s ∧ s.closeChannel = true) (m := work)
    (fun s a s' hI ha hs => ?_) as ⟨h, hc⟩ ha he
  · obtain ⟨⟨h', hc'⟩, hle⟩ := hrun
    refine ⟨by omega, (timely_of_reach h').progress hc', fun hf k g hg => ?_⟩
    have hH := handed_of_reach h'
    have hd := hf.goroutines g (List.mem_of_getElem? hg)
    cases g with
    | left => simp [Complete, hH.taken, hH.reads, hg, Goroutine.handed, Goroutine.got]
    | returned => simp [Complete, hH.taken, hH.reads, hg, Goroutine.handed, Goroutine.got]
    | _ => exact hd.elim
  · obtain ⟨hok, hs⟩ := guarded_eq_some.mp hs
    have h' := hI.1.tail hok hs
    refine ⟨⟨h', ?_⟩, work_step ha (stepped_of_step hs) (timely_of_reach h').calm⟩
    exact closeChannel_step (stepped_of_step hs) hI.2

/-- Two tracks and the feedback about a third, closed while a packet is offered. -/
theorem shutdown_completes_example : ∃ s : Transport ℕ ℕ, exec (guarded step OnTime) .new
      [.onTrack, .addTrack, .move 0 .go, .move 1 .go, .move 0 .go, .handled .trackEventsCh, .move 0 .go,
        .move 0 (.readRTP 5), .close, .closer, .move 1 (.readRTCP [7, 8]), .onTrack, .move 0 .go, .move 1 .go] = some s ∧
    (work s = 29 ∧ s.closeChannel = true) ∧ s.panicked = false ∧ (Finished s ∨ Enabled s) := by
  refine exists_exec (by decide +kernel) fun s h hq => ?_
  obtain ⟨hcalm, hends⟩ := shutdown_completes h
  exact ⟨hcalm, (hends hq.2 [] s (List.forall_mem_nil _) rfl).2.1⟩

/-- **A track that comes while the transport is closed stops the server**: `wg` does not count it yet, so the
channels are closed before its add event is offered. -/
theorem late_track_panics : ∃ s : Transport ℕ ℕ, exec (guarded step anyStep) .new
      [.onTrack, .move 0 .go, .close, .closer, .closer, .closer, .closer, .closer, .closer, .move 0 .go] = some s ∧
    (s.panicked = true ∧ s.goroutines = [.adding]) ∧ Reach step anyStep .new s :=
  exists_exec (by decide +kernel) fun _ h _ => h

end Meeting.Sfu.Shutdown
