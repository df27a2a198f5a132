import Meeting.Lib.Lists
import Meeting.Lib.Runs

/-!
# Meeting.Call.Peers — the table of peers in the browser (`PeerActions.ts`, `SocketActions.ts`, `reducers/peers.ts`)

A `users` message makes a peer for every user that has none in the store; signals go to the peer that the store
has for their sender.  The handlers of a peer know its user, not the peer: when it fails or closes, whatever peer
the store has for the user is removed.  `HANG_UP` empties the store at once and destroys the peers in a timer.

`destroy` is the one of `simple-peer`: it works once, and the events `error` and `close` come during the call
(`atOnce`) or some time after it.

* `peers_known`: as long as a `users` message makes peers only for users whose former peers have closed (`Settled`), a
  user has at most one peer that is not closed, and a peer that is not destroyed is in the store or a timer of
  `HANG_UP` will destroy it;
* `peer_forgotten`: otherwise the end of an old peer removes the new one, which then nothing destroys.
-/

namespace Meeting.Call.Peers

open Lib

/-! ### State -/

inductive Phase where
  | live
  /-- `destroy` was called, with an error or without; its events have not come yet. -/
  | destroyed (err : Bool)
  | closed
  deriving DecidableEq, Repr

structure Peer where
  userId : String
  phase : Phase
  deriving DecidableEq, Repr

structure Client where
  /-- The listeners of `handshake` are attached. -/
  listening : Bool
  /-- All peers that were created. -/
  created : List Peer
  /-- The state of the peers reducer. -/
  peers : AList fun _ : String => ℕ
  /-- The peers that timers of `HANG_UP` are to destroy. -/
  timers : List ℕ

def Client.new : Client := ⟨false, [], ∅, []⟩

/-! ### Steps -/

def Client.setPhase (s : Client) (i : ℕ) (p : Peer) (phase : Phase) : Client :=
  { s with created := s.created.set i { p with phase := phase } }

/-- `PEER_REMOVE`. -/
def removePeer (s : Client) (userId : String) : Client := { s with peers := s.peers.erase userId }

def handleClose (s : Client) (userId : String) : Client := removePeer s userId

/-- `peer.destroy()`. -/
def destroy (atOnce : Bool) (s : Client) (i : ℕ) : Client :=
  match s.created[i]? with
  | none => s
  | some p =>
    if p.phase = .live then
      if atOnce then handleClose (s.setPhase i p .closed) p.userId else s.setPhase i p (.destroyed false)
    else s

def handleError (atOnce : Bool) (s : Client) (userId : String) : Client :=
  match s.peers.lookup userId with
  | none => removePeer s userId
  | some i => removePeer (destroy atOnce s i) userId

/-- The events of a peer that was destroyed: `error` when there is one, and `close`. -/
def emit (atOnce : Bool) (s : Client) (i : ℕ) (p : Peer) (err : Bool) : Client :=
  let s := s.setPhase i p .closed
  handleClose (if err then handleError atOnce s p.userId else s) p.userId

def createPeer (atOnce : Bool) (s : Client) (userId : String) : Client :=
  let s := match s.peers.lookup userId with
    | none => s
    | some i => removePeer (destroy atOnce s i) userId
  -- `PEER_ADD`
  { s with created := s.created ++ [⟨userId, .live⟩], peers := s.peers.insert userId s.created.length }

/-- Those of a `users` message for which `handleUsers` makes peers. -/
def missing (me : String) (s : Client) (peerIds : List String) : List String :=
  peerIds.filter fun peerId => peerId ∉ s.peers ∧ peerId ≠ me

def handleUsers (atOnce : Bool) (me : String) (s : Client) (peerIds : List String) : Client :=
  (missing me s peerIds).foldl (createPeer atOnce) s

inductive Action where
  | dial
  | users (peerIds : List String)
  | hangUp
  /-- A timer of `HANG_UP` destroys a peer. -/
  | timer (i : ℕ)
  /-- The connection of a peer ends; it destroys itself. -/
  | fail (i : ℕ) (err : Bool)
  /-- The events of a peer that was destroyed. -/
  | events (i : ℕ)
  deriving DecidableEq, Repr

def step (atOnce : Bool) (me : String) (s : Client) : Action → Option Client
  | .dial => some { s with listening := true }
  | .users peerIds => if s.listening then some (handleUsers atOnce me s peerIds) else none
  | .hangUp => some { s with listening := false, peers := ∅, timers := s.timers ++ s.peers.entries.map fun x => x.2 }
  | .timer i => if i ∈ s.timers then some (destroy atOnce { s with timers := s.timers.erase i } i) else none
  | .fail i err =>
    match s.created[i]? with
    | none => none
    | some p =>
      if p.phase = .live then
        some (if atOnce then emit atOnce s i p err else s.setPhase i p (.destroyed err))
      else none
  | .events i =>
    match s.created[i]? with
    | none => none
    | some p =>
      match p.phase with
      | .destroyed err => some (emit atOnce s i p err)
      | _ => none

/-- The peers that a `users` message makes are for different users, whose former peers have closed. -/
def Settled (me : String) (s : Client) : Action → Prop
  | .users peerIds => (missing me s peerIds).Nodup ∧
    ∀ userId ∈ missing me s peerIds, ∀ p ∈ s.created, p.userId = userId → p.phase = .closed
  | _ => True

instance (me : String) : DecidableRel (Settled me)
  | s, .users peerIds => inferInstanceAs (Decidable ((missing me s peerIds).Nodup ∧
      ∀ userId ∈ missing me s peerIds, ∀ p ∈ s.created, p.userId = userId → p.phase = .closed))
  | _, .dial | _, .hangUp | _, .timer _ | _, .fail _ _ | _, .events _ => isTrue trivial

/-! ### The invariant -/

structure Known (s : Client) : Prop where
  /-- The store has a peer under its user, and it has not closed. -/
  entry : ∀ {u : String} {i : ℕ}, s.peers.lookup u = some i → ∃ p, s.created[i]? = some p ∧ p.userId = u ∧ p.phase ≠ .closed
  /-- A peer that is not destroyed is in the store, or a timer will destroy it. -/
  known : ∀ {i : ℕ} {p : Peer}, s.created[i]? = some p → p.phase = .live → s.peers.lookup p.userId = some i ∨ i ∈ s.timers
  /-- A user has one peer that has not closed. -/
  unique : ∀ {i j : ℕ} {p q : Peer}, s.created[i]? = some p → s.created[j]? = some q → p.userId = q.userId →
    p.phase ≠ .closed → q.phase ≠ .closed → i = j

theorem known_new : Known .new :=
  ⟨fun h => (by simp [Client.new] at h), fun h => (by simp [Client.new] at h), fun h => by simp [Client.new] at h⟩

section Known

variable {atOnce : Bool} {me : String} {s s' : Client} {i : ℕ} {p : Peer} {act : Action}

/-- A peer is destroyed, and its events are still to come. -/
theorem Known.destroyed (h : Known s) (hp : s.created[i]? = some p) (hl : p.phase ≠ .closed) (err : Bool) :
    Known (s.setPhase i p (.destroyed err)) := by
  refine ⟨fun {u k} hk => ?_, fun {k q} hq hlive => ?_, fun {j k q q'} hj hk hu hjc hkc => ?_⟩
  · obtain ⟨q, hq, hu, hqc⟩ := h.entry hk
    by_cases hik : i = k
    · subst hik
      obtain rfl : p = q := Option.some.inj (hp.symm.trans hq)
      exact ⟨_, getElem?_set_of_some hp, hu, Phase.noConfusion⟩
    · exact ⟨q, (List.getElem?_set_ne hik).trans hq, hu, hqc⟩
  · rcases getElem?_set_cases hq with ⟨-, rfl⟩ | ⟨-, hq⟩
    · cases hlive
    · exact h.known hq hlive
  · -- the peer had not closed before
    have hold : ∀ {k : ℕ} {q : Peer}, (s.created.set i { p with phase := .destroyed err })[k]? = some q → q.phase ≠ .closed →
        ∃ q', s.created[k]? = some q' ∧ q'.userId = q.userId ∧ q'.phase ≠ .closed := by
      intro k q hq hqc
      rcases getElem?_set_cases hq with ⟨rfl, rfl⟩ | ⟨-, hq⟩
      · exact ⟨p, hp, rfl, hl⟩
      · exact ⟨q, hq, rfl, hqc⟩
    obtain ⟨r, hr, hru, hrc⟩ := hold hj hjc
    obtain ⟨r', hr', hru', hrc'⟩ := hold hk hkc
    exact h.unique hr hr' (hru.trans (hu.trans hru'.symm)) hrc hrc'

/-- A peer closes, and the one that the store has for its user is removed: it can only be the same. -/
theorem Known.close (h : Known s) (hp : s.created[i]? = some p) (hl : p.phase ≠ .closed) :
    Known (removePeer (s.setPhase i p .closed) p.userId) := by
  refine ⟨fun {u k} hk => ?_, fun {k q} hq hlive => ?_, fun {j k q q'} hj hk hu hjc hkc => ?_⟩
  · obtain ⟨hne, hk⟩ := lookup_of_lookup_erase hk
    obtain ⟨q, hq, hu, hqc⟩ := h.entry hk
    have hik : i ≠ k := by
      rintro rfl
      obtain rfl : p = q := Option.some.inj (hp.symm.trans hq)
      exact hne hu.symm
    exact ⟨q, (List.getElem?_set_ne hik).trans hq, hu, hqc⟩
  · rcases getElem?_set_cases hq with ⟨-, rfl⟩ | ⟨hik, hq⟩
    · cases hlive
    · have hne : q.userId ≠ p.userId := by
        intro hu
        exact hik (h.unique hp hq hu.symm hl (by rw [hlive]; exact Phase.noConfusion))
      rcases h.known hq hlive with hq | hq
      · exact Or.inl ((AList.lookup_erase_ne hne).trans hq)
      · exact Or.inr hq
  · rcases getElem?_set_cases hj with ⟨-, rfl⟩ | ⟨-, hj⟩
    · exact absurd rfl hjc
    · rcases getElem?_set_cases hk with ⟨-, rfl⟩ | ⟨-, hk⟩
      · exact absurd rfl hkc
      · exact h.unique hj hk hu hjc hkc

theorem Known.destroy (h : Known s) (i : ℕ) : Known (destroy atOnce s i) := by
  unfold Peers.destroy
  split
  · exact h
  · next p hp =>
    split_ifs with hl hat
    · exact h.close hp (by rw [hl]; exact Phase.noConfusion)
    · exact h.destroyed hp (by rw [hl]; exact Phase.noConfusion) false
    · exact h

/-- `handleError` finds no peer to destroy but the one that failed. -/
theorem Known.handleError_eq (h : Known s) (hp : s.created[i]? = some p) (hl : p.phase ≠ .closed) :
    handleError atOnce (s.setPhase i p .closed) p.userId = removePeer (s.setPhase i p .closed) p.userId := by
  unfold handleError
  split
  · rfl
  · next k hk =>
    obtain ⟨q, hq, hu, hqc⟩ := h.entry hk
    obtain rfl : i = k := h.unique hp hq hu.symm hl hqc
    have hset : (s.setPhase i p .closed).created[i]? = some { p with phase := .closed } := getElem?_set_of_some hp
    rw [Peers.destroy, hset]
    rfl

theorem removePeer_removePeer (s : Client) (u : String) : removePeer (removePeer s u) u = removePeer s u := by
  have h : (s.peers.erase u).erase u = s.peers.erase u :=
    AList.ext (List.kerase_of_notMem_keys fun hu => (AList.mem_erase.mp hu).1 rfl)
  simp only [removePeer, h]

theorem Known.emit (h : Known s) (hp : s.created[i]? = some p) (hl : p.phase ≠ .closed) (err : Bool) :
    Known (emit atOnce s i p err) := by
  cases err with
  | false => exact h.close hp hl
  | true =>
    simp only [Peers.emit, if_true, handleClose, h.handleError_eq hp hl, removePeer_removePeer]
    exact h.close hp hl

/-- A peer is created for a user whose former peers have closed. -/
theorem Known.createPeer (h : Known s) {u : String} (hu : ∀ p ∈ s.created, p.userId = u → p.phase = .closed) :
    createPeer atOnce s u = { s with
      created := s.created ++ [⟨u, .live⟩], peers := s.peers.insert u s.created.length } ∧
    Known (createPeer atOnce s u) := by
  have hnone : s.peers.lookup u = none := by
    by_contra hne
    obtain ⟨k, hk⟩ := Option.ne_none_iff_exists'.mp hne
    obtain ⟨p, hp, hpu, hpc⟩ := h.entry hk
    exact hpc (hu p (List.mem_of_getElem? hp) hpu)
  have heq : Peers.createPeer atOnce s u = { s with
      created := s.created ++ [⟨u, .live⟩], peers := s.peers.insert u s.created.length } := by
    simp only [Peers.createPeer, hnone]
  refine ⟨heq, ?_⟩
  rw [heq]
  have hnew : ∀ {k : ℕ} {q : Peer}, s.created[k]? = some q → q.phase ≠ .closed → q.userId ≠ u := fun hq hqc hqu =>
    hqc (hu _ (List.mem_of_getElem? hq) hqu)
  refine ⟨fun {v k} hk => ?_, fun {k q} hq hlive => ?_, fun {j k q q'} hj hk hqu hjc hkc => ?_⟩
  · rcases lookup_insert_cases hk with ⟨rfl, rfl⟩ | ⟨-, hk⟩
    · exact ⟨_, List.getElem?_concat_length, rfl, Phase.noConfusion⟩
    · obtain ⟨q, hq, hqv, hqc⟩ := h.entry hk
      exact ⟨q, getElem?_append_of_some hq, hqv, hqc⟩
  · rcases getElem?_concat_cases hq with hq | ⟨rfl, rfl⟩
    · have hne : q.userId ≠ u := hnew hq (by rw [hlive]; exact Phase.noConfusion)
      exact (h.known hq hlive).imp_left fun hk => (AList.lookup_insert_ne hne).trans hk
    · exact Or.inl (AList.lookup_insert _)
  · rcases getElem?_concat_cases hj with hj | ⟨rfl, rfl⟩ <;> rcases getElem?_concat_cases hk with hk | ⟨rfl, rfl⟩
    · exact h.unique hj hk hqu hjc hkc
    · exact absurd hqu (hnew hj hjc)
    · exact absurd hqu.symm (hnew hk hkc)
    · rfl

/-- The loop of `handleUsers`. -/
theorem Known.foldl_createPeer : ∀ (ids : List String) {s : Client}, Known s → ids.Nodup →
    (∀ u ∈ ids, ∀ p ∈ s.created, p.userId = u → p.phase = .closed) → Known (ids.foldl (Peers.createPeer atOnce) s)
  | [], _, h, _, _ => h
  | u :: ids, s, h, hnd, hids => by
    obtain ⟨hu, hnd⟩ := List.nodup_cons.mp hnd
    obtain ⟨heq, hk⟩ : Peers.createPeer atOnce s u = _ ∧ _ := h.createPeer (hids u List.mem_cons_self)
    refine Known.foldl_createPeer ids hk hnd fun v hv p hp hpv => ?_
    rw [heq] at hp
    rcases List.mem_append.mp hp with hp | hp
    · exact hids v (List.mem_cons_of_mem _ hv) p hp hpv
    · -- the new peer is of another user
      obtain rfl := List.mem_singleton.mp hp
      obtain rfl : u = v := hpv
      exact absurd hv hu

/-- `HANG_UP`: the peers of the store go to a timer. -/
theorem Known.hangUp (h : Known s) : Known { s with
    listening := false, peers := ∅, timers := s.timers ++ s.peers.entries.map fun x => x.2 } := by
  refine ⟨fun hk => by simp at hk, fun {k q} hq hlive => Or.inr ?_, h.unique⟩
  rcases h.known hq hlive with hk | hk
  · refine List.mem_append_right _ (List.mem_map.mpr ⟨⟨q.userId, k⟩, ?_, rfl⟩)
    exact AList.mem_lookup_iff.mp hk
  · exact List.mem_append_left _ hk

theorem destroy_timers (timers : List ℕ) :
    Peers.destroy atOnce { s with timers := timers } i = { Peers.destroy atOnce s i with timers := timers } := by
  unfold Peers.destroy
  cases s.created[i]? with
  | none => rfl
  | some p =>
    dsimp only
    split_ifs <;> rfl

theorem not_live_destroy (hp : (Peers.destroy atOnce s i).created[i]? = some p) : p.phase ≠ .live := by
  unfold Peers.destroy at hp
  split at hp
  · next hnone =>
    rw [hnone] at hp
    cases hp
  · next q hq =>
    split_ifs at hp with hl hat
    · obtain rfl := Option.some.inj ((getElem?_set_of_some hq).symm.trans hp)
      exact Phase.noConfusion
    · obtain rfl := Option.some.inj ((getElem?_set_of_some hq).symm.trans hp)
      exact Phase.noConfusion
    · obtain rfl := Option.some.inj (hq.symm.trans hp)
      exact hl

/-- A timer destroys a peer, which then need not be destroyed any more. -/
theorem Known.timer (h : Known s) (i : ℕ) : Known (Peers.destroy atOnce { s with timers := s.timers.erase i } i) := by
  have hd : Known (Peers.destroy atOnce s i) := h.destroy i
  have ht : (Peers.destroy atOnce s i).timers = s.timers := by
    have he : Peers.destroy atOnce s i = _ := destroy_timers s.timers
    rw [he]
  rw [destroy_timers]
  refine ⟨hd.entry, fun {k q} hq hlive => ?_, hd.unique⟩
  have hne : k ≠ i := by
    rintro rfl
    exact not_live_destroy hq hlive
  refine (hd.known hq hlive).imp_right fun hk => ?_
  rw [ht] at hk
  exact (List.mem_erase_of_ne hne).mpr hk

theorem Known.step (h : Known s) (hok : Settled me s act) (hs : Peers.step atOnce me s act = some s') : Known s' := by
  cases act with
  | dial =>
    cases hs
    exact ⟨h.entry, h.known, h.unique⟩
  | users peerIds =>
    simp only [Peers.step] at hs
    split_ifs at hs
    cases hs
    exact Known.foldl_createPeer _ h hok.1 hok.2
  | hangUp =>
    cases hs
    exact h.hangUp
  | timer i =>
    simp only [Peers.step] at hs
    split_ifs at hs
    cases hs
    exact h.timer i
  | fail i err =>
    simp only [Peers.step] at hs
    split at hs
    · cases hs
    · next p hp =>
      split_ifs at hs with hl hat
      · cases hs
        exact h.emit hp (by rw [hl]; exact Phase.noConfusion) err
      · cases hs
        exact h.destroyed hp (by rw [hl]; exact Phase.noConfusion) err
  | events i =>
    simp only [Peers.step] at hs
    split at hs
    · cases hs
    · next p hp =>
      split at hs
      · next err hphase =>
        cases hs
        exact h.emit hp (by rw [hphase]; exact Phase.noConfusion) err
      · cases hs

theorem known_of_reach (h : Reach (step atOnce me) (Settled me) .new s) : Known s :=
  h.invariant known_new fun _ _ _ hI hok hs => hI.step hok hs

end Known

/-- **No peer is forgotten**: along every run in which `users` messages make peers only for users whose former peers
have closed, the store has peers under their users that have not closed, a user has at most one of these, and a peer
that is not destroyed is in the store or a timer will destroy it; so none is left when a call was hung up and the
timers have run. -/
theorem peers_known {atOnce : Bool} {me : String} {s : Client} (h : Reach (step atOnce me) (Settled me) .new s) :
    (∀ u i, s.peers.lookup u = some i → ∃ p, s.created[i]? = some p ∧ p.userId = u ∧ p.phase ≠ .closed) ∧
      (∀ i p, s.created[i]? = some p → p.phase = .live → s.peers.lookup p.userId = some i ∨ i ∈ s.timers) ∧
      (∀ (i j : ℕ) (p q : Peer), s.created[i]? = some p → s.created[j]? = some q → p.userId = q.userId →
        p.phase ≠ .closed → q.phase ≠ .closed → i = j) ∧
      (s.peers = ∅ → s.timers = [] → ∀ p ∈ s.created, p.phase ≠ .live) := by
  have hK := known_of_reach h
  refine ⟨fun u i => hK.entry, fun i p => hK.known, fun i j p q => hK.unique, fun hpeers htimers p hp hlive => ?_⟩
  obtain ⟨i, hi⟩ := List.getElem?_of_mem hp
  rcases hK.known hi hlive with hk | hk
  · rw [hpeers] at hk
    cases hk
  · rw [htimers] at hk
    cases hk

/-- Two calls; in the first one a peer fails, and the other one closes after the hang-up. -/
theorem peers_known_example : ∃ s : Client, exec (guarded (step false "a") (Settled "a")) .new
      [.dial, .users ["a", "b", "c"], .fail 0 true, .events 0, .hangUp, .timer 1, .events 1, .dial, .users ["b", "a"],
        .users ["c", "b", "a"], .hangUp, .timer 2, .timer 3] = some s ∧
    (s.peers.entries = [] ∧ s.timers = [] ∧ s.created.map (fun p => p.userId) = ["b", "c", "b", "c"]) ∧
      ∀ p ∈ s.created, p.phase ≠ .live :=
  exists_exec (by decide +kernel) fun _ h hq => (peers_known h).2.2.2 (AList.ext hq.1) hq.2.1

/-- **A peer is forgotten**: the next call comes before the timer of the hang-up.  The end of the first peer removes
the second one from the store, and the next hang-up does not destroy it. -/
theorem peer_forgotten (atOnce : Bool) : ∃ s : Client, exec (guarded (step atOnce "a") anyStep) .new
      ([.dial, .users ["a", "b"], .hangUp, .dial, .users ["a", "b"], .timer 0] ++
        (if atOnce then [] else [.events 0]) ++ [.hangUp]) = some s ∧
    (s.peers.entries = [] ∧ s.timers = [] ∧ s.created = [⟨"b", .closed⟩, ⟨"b", .live⟩]) ∧ Reach (step atOnce "a") anyStep .new s := by
  cases atOnce with
  | false => exact exists_exec (by decide +kernel) fun _ h _ => h
  | true => exact exists_exec (by decide +kernel) fun _ h _ => h

end Meeting.Call.Peers
