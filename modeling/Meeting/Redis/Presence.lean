import Meeting.Redis.Membership

/-!
# Meeting.Redis.Presence — who is in a room (`redisadapter.go`)

The keys of `roomClients` are what `Clients` returns on every instance.  Every instance writes a client there
when it handles its join and deletes it when it handles its leave, each at its own pace, so that a slow instance
brings a client back that `remove` has deleted; its own handling of the leave message has to delete it again.
It does not when a write to one of its clients fails.

* `clients_agree`: along the runs in which no leave of a client in the hash is handled with a failing write
  (`LeavesDelivered`), the hash has the clients that were added and not removed once all messages are handled;
* `ghost_client`: a client stays in the hash after it was removed.
-/

namespace Meeting.Redis

open Lib

/-! ### What is still to be handled -/

/-- `Clients`. -/
def Room.clients (r : Room) : AList fun _ : String => String := r.roomClients

/-- Some instance is between the two halves of `remove` of a client. -/
def Removing (r : Room) (c : String) : Prop := ∃ x ∈ r.adapters.entries, x.2.removing = some c

instance (r : Room) (c : String) : Decidable (Removing r c) := inferInstanceAs (Decidable (∃ _ ∈ _, _))

theorem removing_iff {r : Room} {c : String} :
    Removing r c ↔ ∃ i a, r.adapters.lookup i = some a ∧ a.removing = some c := by
  constructor
  · rintro ⟨⟨i, a⟩, hx, hc⟩
    exact ⟨i, a, AList.mem_lookup_iff.mpr hx, hc⟩
  · rintro ⟨i, a, ha, hc⟩
    exact ⟨⟨i, a⟩, AList.mem_lookup_iff.mp ha, hc⟩

/-- Some instance has still to handle a published message. -/
def Unhandled (r : Room) (message : RoomMessage) : Prop :=
  ∃ i a k, r.adapters.lookup i = some a ∧ a.cursor ≤ k ∧ r.published[k]? = some message

theorem not_unhandled {r : Room} {message : RoomMessage} (h : AllHandled r) : ¬ Unhandled r message := by
  rintro ⟨i, a, k, ha, hk, hm⟩
  have hc : a.cursor = r.published.length := h ⟨i, a⟩ (AList.mem_lookup_iff.mp ha)
  obtain ⟨hlt, -⟩ := List.getElem?_eq_some_iff.mp hm
  omega

section Unhandled

variable {r r' : Room} {message : RoomMessage}

/-- Publishing leaves unhandled what was unhandled. -/
theorem Unhandled.mono {l : List RoomMessage} (h : Unhandled r message)
    (hp : r'.published = r.published ++ l)
    (ha : ∀ j b, r.adapters.lookup j = some b →
      ∃ b', r'.adapters.lookup j = some b' ∧ b'.cursor ≤ b.cursor) : Unhandled r' message := by
  obtain ⟨j, b, k, hb, hk, hm⟩ := h
  obtain ⟨b', hb', hle⟩ := ha j b hb
  obtain ⟨hlt, -⟩ := List.getElem?_eq_some_iff.mp hm
  refine ⟨j, b', k, hb', Nat.le_trans hle hk, ?_⟩
  rw [hp, List.getElem?_append_left hlt, hm]

theorem lookup_insert_cursor {adapters : AList fun _ : ℕ => RedisAdapter} {i : ℕ} {a : RedisAdapter}
    (ha : ∀ b ∈ adapters.lookup i, a.cursor ≤ b.cursor) (j : ℕ) (b : RedisAdapter)
    (hb : adapters.lookup j = some b) :
    ∃ b', (adapters.insert i a).lookup j = some b' ∧ b'.cursor ≤ b.cursor := by
  by_cases hj : j = i
  · subst hj
    exact ⟨a, AList.lookup_insert _, ha b hb⟩
  · exact ⟨b, by rw [AList.lookup_insert_ne hj, hb], le_refl _⟩

/-- Handling a message leaves every other message unhandled. -/
theorem Unhandled.handle {i : ℕ} {a : RedisAdapter} {handled : RoomMessage} (h : Unhandled r message)
    (ha : r.adapters.lookup i = some a) (hn : r.next a = some handled) (hne : message ≠ handled)
    (hp : r'.published = r.published)
    (hr : r'.adapters = r.adapters.insert i { a with cursor := a.cursor + 1 }) :
    Unhandled r' message := by
  obtain ⟨j, b, k, hb, hk, hm⟩ := h
  by_cases hj : j = i
  · subst hj
    obtain rfl := Option.some.inj (ha.symm.trans hb)
    -- the next message of the adapter is another one
    have hlt : a.cursor ≠ k := by
      rintro rfl
      exact hne (Option.some.inj (hm.symm.trans hn))
    exact ⟨j, _, k, by rw [hr, AList.lookup_insert], by simp only; omega, by rw [hp, hm]⟩
  · exact ⟨j, b, k, by rw [hr, AList.lookup_insert_ne hj, hb], hk, by rw [hp, hm]⟩

end Unhandled

/-! ### Announcements -/

/-- What was published, and what was asked for. -/
structure Announced (r : Room) : Prop extends LeavesRemoved r where
  cursors : ∀ i a, r.adapters.lookup i = some a → a.cursor ≤ r.published.length
  clientsAdded : ∀ i a c, r.adapters.lookup i = some a → c ∈ a.clients → c ∈ r.added
  removedAdded : ∀ c ∈ r.removed, c ∈ r.added
  joinsAdded : ∀ c m, RoomMessage.roomJoin c m ∈ r.published → c ∈ r.added
  /-- A client leaves after it has joined. -/
  ordered : ∀ (k l : ℕ) c m, r.published[k]? = some (RoomMessage.roomJoin c m) →
    r.published[l]? = some (RoomMessage.roomLeave c) → k < l
  announced : ∀ c ∈ r.removed, Removing r c ∨ RoomMessage.roomLeave c ∈ r.published

theorem announced_empty : Announced Room.empty := by
  refine ⟨leavesRemoved_empty, ?_, ?_, ?_, ?_, ?_, ?_⟩
  · intro i a h
    cases h
  · intro i a c h
    cases h
  · intro c h
    cases h
  · intro c m h
    cases h
  · intro k l c m h
    cases h
  · intro c h
    cases h

theorem Announced.cursors_insert {r : Room} (h : Announced r) {i n : ℕ} {a : RedisAdapter}
    (ha : a.cursor ≤ n) (hn : r.published.length ≤ n) {j : ℕ} {b : RedisAdapter}
    (hb : (r.adapters.insert i a).lookup j = some b) : b.cursor ≤ n := by
  rcases lookup_insert_cases hb with ⟨-, rfl⟩ | ⟨-, hb⟩
  · exact ha
  · have := h.cursors j b hb
    omega

/-- An adapter of the new state that does not remove a client has the local clients of an old one. -/
theorem Announced.clientsAdded_insert {r : Room} (h : Announced r) {i : ℕ} {a : RedisAdapter}
    (ha : ∀ c ∈ a.clients, c ∈ r.added) {j : ℕ} {b : RedisAdapter} {c : String}
    (hb : (r.adapters.insert i a).lookup j = some b) (hc : c ∈ b.clients) : c ∈ r.added := by
  rcases lookup_insert_cases hb with ⟨-, rfl⟩ | ⟨-, hb⟩
  · exact ha c hc
  · exact h.clientsAdded j b c hb hc

/-- Who is being removed stays so when an adapter is rewritten that is not removing anyone. -/
theorem Removing.insert {r r' : Room} {c : String} {i : ℕ} {a : RedisAdapter} (h : Removing r c)
    (hi : ∀ b ∈ r.adapters.lookup i, b.removing = none) (hr : r'.adapters = r.adapters.insert i a) :
    Removing r' c := by
  obtain ⟨j, b, hb, hc⟩ := removing_iff.mp h
  refine removing_iff.mpr ⟨j, b, ?_, hc⟩
  have hj : j ≠ i := by
    rintro rfl
    rw [hi b hb] at hc
    cases hc
  rw [hr, AList.lookup_insert_ne hj, hb]

/-- The leave message of another client leaves a client being removed. -/
theorem Removing.published {r r' : Room} {c d : String} {i : ℕ} {a : RedisAdapter} (h : Removing r d)
    (hd : d ≠ c) (ha : r.adapters.lookup i = some a) (hc : a.removing = some c)
    (hr : r'.adapters = r.adapters.insert i { a with removing := none }) : Removing r' d := by
  obtain ⟨j, b, hb, hb'⟩ := removing_iff.mp h
  refine removing_iff.mpr ⟨j, b, ?_, hb'⟩
  have hj : j ≠ i := by
    rintro rfl
    obtain rfl := Option.some.inj (ha.symm.trans hb)
    exact hd (Option.some.inj (hb'.symm.trans hc))
  rw [hr, AList.lookup_insert_ne hj, hb]

section Announced

variable {r : Room} {i : ℕ} {a : RedisAdapter} {c : String}

theorem Announced.subscribe (h : Announced r) (hi : r.adapters.lookup i = none) :
    Announced { r with adapters := r.adapters.insert i ⟨[], r.published.length, none⟩ } := by
  refine ⟨h.toLeavesRemoved.step (.subscribe hi), ?_, ?_, h.removedAdded, h.joinsAdded, h.ordered, ?_⟩
  · intro j b hb
    exact h.cursors_insert (Nat.le_refl _) (Nat.le_refl _) hb
  · intro j b d hb hd
    exact h.clientsAdded_insert (by simp) hb hd
  · intro d hd
    exact (h.announced d hd).imp_left fun hr => hr.insert (by simp [hi]) rfl

theorem Announced.add {m : String} (h : Announced r) (ha : r.adapters.lookup i = some a)
    (hfree : a.removing = none) (hnew : c ∉ r.added) :
    Announced { r with
      published := r.published ++ [.roomJoin c m]
      adapters := r.adapters.insert i { a with clients := c :: a.clients }
      added := c :: r.added } := by
  have hle := h.cursors i a ha
  refine ⟨h.toLeavesRemoved.step (.add ha hfree hnew), ?_, ?_, ?_, ?_, ?_, ?_⟩
  · intro j b hb
    exact h.cursors_insert (by simp; omega) (by simp) hb
  · intro j b d hb hd
    rcases lookup_insert_cases hb with ⟨-, rfl⟩ | ⟨-, hb⟩
    · rcases List.mem_cons.mp hd with rfl | hd
      · exact List.mem_cons_self
      · exact List.mem_cons_of_mem _ (h.clientsAdded i a d ha hd)
    · exact List.mem_cons_of_mem _ (h.clientsAdded j b d hb hd)
  · intro d hd
    exact List.mem_cons_of_mem _ (h.removedAdded d hd)
  · intro d m' hd
    rcases List.mem_append.mp hd with hd | hd
    · exact List.mem_cons_of_mem _ (h.joinsAdded d m' hd)
    · obtain ⟨rfl, -⟩ := RoomMessage.roomJoin.inj (List.mem_singleton.mp hd)
      exact List.mem_cons_self
  · intro k l d m' hk hl
    obtain hl' | ⟨-, hl'⟩ := getElem?_concat_cases hl
    · obtain hk' | ⟨-, hk'⟩ := getElem?_concat_cases hk
      · exact h.ordered k l d m' hk' hl'
      · -- the leave of a client that was not added before was not published
        obtain ⟨rfl, -⟩ := RoomMessage.roomJoin.inj hk'
        exact absurd (h.removedAdded _ (h.published _ (List.mem_of_getElem? hl'))) hnew
    · cases hl'
  · intro d hd
    rcases h.announced d hd with hr | hm
    · exact Or.inl (hr.insert (by simp [ha, hfree]) rfl)
    · exact Or.inr (List.mem_append_left _ hm)

theorem Announced.remove (h : Announced r) (ha : r.adapters.lookup i = some a) (hfree : a.removing = none)
    (hmem : c ∈ a.clients) :
    Announced { r with
      roomClients := r.roomClients.erase c
      adapters := r.adapters.insert i { a with clients := a.clients.erase c, removing := some c }
      removed := c :: r.removed } := by
  refine ⟨h.toLeavesRemoved.step (.remove ha hfree hmem), ?_, ?_, ?_, h.joinsAdded, h.ordered, ?_⟩
  · intro j b hb
    refine h.cursors_insert ?_ (Nat.le_refl _) hb
    exact h.cursors i a ha
  · intro j b d hb hd
    refine h.clientsAdded_insert (fun e he => ?_) hb hd
    exact h.clientsAdded i a e ha (List.mem_of_mem_erase he)
  · intro d hd
    rcases List.mem_cons.mp hd with rfl | hd
    · exact h.clientsAdded i a d ha hmem
    · exact h.removedAdded d hd
  · intro d hd
    rcases List.mem_cons.mp hd with rfl | hd
    · exact Or.inl (removing_iff.mpr ⟨i, _, AList.lookup_insert _, rfl⟩)
    · exact (h.announced d hd).imp_left fun hr => hr.insert (by simp [ha, hfree]) rfl

theorem Announced.publishLeave (h : Announced r) (ha : r.adapters.lookup i = some a)
    (hc : a.removing = some c) :
    Announced { r with
      published := r.published ++ [.roomLeave c]
      adapters := r.adapters.insert i { a with removing := none } } := by
  have hle := h.cursors i a ha
  refine ⟨h.toLeavesRemoved.step (.publishLeave ha hc), ?_, ?_, h.removedAdded, ?_, ?_, ?_⟩
  · intro j b hb
    exact h.cursors_insert (by simp; omega) (by simp) hb
  · intro j b d hb hd
    refine h.clientsAdded_insert ?_ hb hd
    exact fun e he => h.clientsAdded i a e ha he
  · intro d m hd
    rcases List.mem_append.mp hd with hd | hd
    · exact h.joinsAdded d m hd
    · cases List.mem_singleton.mp hd
  · intro k l d m hk hl
    obtain hk | ⟨-, hk⟩ := getElem?_concat_cases hk
    · obtain hl | ⟨rfl, -⟩ := getElem?_concat_cases hl
      · exact h.ordered k l d m hk hl
      · exact (List.getElem?_eq_some_iff.mp hk).1
    · cases hk
  · intro d hd
    by_cases hdc : d = c
    · exact Or.inr (hdc ▸ List.mem_append_right _ (List.mem_singleton_self _))
    · refine (h.announced d hd).imp (fun hr => ?_) (List.mem_append_left _)
      exact hr.published hdc ha hc rfl

/-- An instance has handled a message, whatever it has done with the hash. -/
theorem Announced.handle {message : RoomMessage} (h : Announced r) (ha : r.adapters.lookup i = some a)
    (hm : r.next a = some message) (hfree : a.removing = none)
    (roomClients : AList fun _ : String => String) :
    Announced { r with
      roomClients
      adapters := r.adapters.insert i { a with cursor := a.cursor + 1 } } := by
  have hlt := (List.getElem?_eq_some_iff.mp hm).1
  refine ⟨⟨h.published, fun j b d hb hd => ?_⟩, ?_, ?_, h.removedAdded, h.joinsAdded, h.ordered, ?_⟩
  · rcases lookup_insert_cases hb with ⟨-, rfl⟩ | ⟨-, hb⟩
    · exact h.removing i a d ha hd
    · exact h.removing j b d hb hd
  · intro j b hb
    exact h.cursors_insert hlt (Nat.le_refl _) hb
  · intro j b d hb hd
    refine h.clientsAdded_insert ?_ hb hd
    exact fun e he => h.clientsAdded i a e ha he
  · intro d hd
    exact (h.announced d hd).imp_left fun hr => hr.insert (by simp [ha, hfree]) rfl

end Announced

/-! ### Membership -/

/-- The actions of clients and instances on who is in the room. -/
def MembershipOnly (_ : Room) : Action → Prop
  | .setMetadata _ _ => False
  | _ => True

/-- The leave of a client in the hash reaches every local client. -/
def Delivered (r : Room) (a : RedisAdapter) (failing : List String) : Option RoomMessage → Prop
  | some (.roomLeave c) => c ∈ r.roomClients → localBroadcast a failing = true
  | _ => True

/-- No instance handles the leave of a client that is in the hash while a write to one of its local clients
fails. -/
def LeavesDelivered (r : Room) : Action → Prop
  | .handle i failing => ∀ a ∈ r.adapters.lookup i, Delivered r a failing (r.next a)
  | _ => True

instance : DecidableRel MembershipOnly
  | _, .setMetadata _ _ => isFalse id
  | _, .subscribe _ | _, .add _ _ _ | _, .remove _ _ | _, .publishLeave _ | _, .handle _ _ =>
    isTrue trivial

instance {r : Room} {a : RedisAdapter} {failing : List String} : DecidablePred (Delivered r a failing)
  | some (.roomLeave c) => inferInstanceAs (Decidable (c ∈ r.roomClients → localBroadcast a failing = true))
  | some (.roomJoin _ _) | none => isTrue trivial

instance : DecidableRel LeavesDelivered
  | r, .handle i failing =>
    inferInstanceAs (Decidable (∀ a ∈ r.adapters.lookup i, Delivered r a failing (r.next a)))
  | _, .subscribe _ | _, .add _ _ _ | _, .setMetadata _ _ | _, .remove _ _ | _, .publishLeave _ =>
    isTrue trivial

/-- The runs in which leaves are delivered. -/
def MembersDelivered (r : Room) (x : Action) : Prop := MembershipOnly r x ∧ LeavesDelivered r x

instance : DecidableRel MembersDelivered := fun r x =>
  inferInstanceAs (Decidable (MembershipOnly r x ∧ LeavesDelivered r x))

/-- Where the hash differs from the membership, a message is on its way that repairs it. -/
structure Agreed (r : Room) : Prop extends Announced r where
  known : ∀ c ∈ r.roomClients, c ∈ r.added
  present : ∀ c ∈ r.added, c ∉ r.removed → c ∈ r.roomClients ∨ ∃ m, Unhandled r (.roomJoin c m)
  gone : ∀ c ∈ r.removed, c ∈ r.roomClients → Removing r c ∨ Unhandled r (.roomLeave c)

theorem agreed_empty : Agreed Room.empty := by
  refine ⟨announced_empty, ?_, ?_, ?_⟩
  · intro c h
    cases h
  · intro c h
    cases h
  · intro c h
    cases h

section Steps

variable {r : Room} {i : ℕ} {a : RedisAdapter}

theorem Agreed.subscribe (h : Agreed r) (hi : r.adapters.lookup i = none) :
    Agreed { r with adapters := r.adapters.insert i ⟨[], r.published.length, none⟩ } := by
  have hmono : ∀ message, Unhandled r message →
      Unhandled { r with adapters := r.adapters.insert i ⟨[], r.published.length, none⟩ } message :=
    fun _ hu => hu.mono (List.append_nil _).symm (lookup_insert_cursor (by simp [hi]))
  refine ⟨h.toAnnounced.subscribe hi, h.known, ?_, ?_⟩
  · intro c hc hr
    exact (h.present c hc hr).imp_right fun ⟨m, hu⟩ => ⟨m, hmono _ hu⟩
  · intro c hc hm
    exact (h.gone c hc hm).imp (fun hr => hr.insert (by simp [hi]) rfl) (hmono _)

theorem Agreed.add {c m : String} (h : Agreed r) (ha : r.adapters.lookup i = some a)
    (hfree : a.removing = none) (hnew : c ∉ r.added) :
    Agreed { r with
      published := r.published ++ [.roomJoin c m]
      adapters := r.adapters.insert i { a with clients := c :: a.clients }
      added := c :: r.added } := by
  refine ⟨h.toAnnounced.add ha hfree hnew, ?_, ?_, ?_⟩
  · intro d hd
    exact List.mem_cons_of_mem _ (h.known d hd)
  · intro d hd hr
    rcases List.mem_cons.mp hd with rfl | hd
    · -- its join is not handled, not even by this instance
      exact Or.inr ⟨m, i, _, r.published.length, AList.lookup_insert _, h.cursors i a ha,
        List.getElem?_concat_length⟩
    · exact (h.present d hd hr).imp_right fun ⟨m', hu⟩ =>
        ⟨m', hu.mono rfl (lookup_insert_cursor (by simp [ha]))⟩
  · intro d hd hm
    exact (h.gone d hd hm).imp (fun hr => hr.insert (by simp [ha, hfree]) rfl)
      fun hu => hu.mono rfl (lookup_insert_cursor (by simp [ha]))

theorem Agreed.remove {c : String} (h : Agreed r) (ha : r.adapters.lookup i = some a)
    (hfree : a.removing = none) (hmem : c ∈ a.clients) :
    Agreed { r with
      roomClients := r.roomClients.erase c
      adapters := r.adapters.insert i { a with clients := a.clients.erase c, removing := some c }
      removed := c :: r.removed } := by
  refine ⟨h.toAnnounced.remove ha hfree hmem, ?_, ?_, ?_⟩
  · intro d hd
    exact h.known d (AList.mem_erase.mp hd).2
  · intro d hd hr
    rw [List.mem_cons, not_or] at hr
    refine (h.present d hd hr.2).imp (fun hm => AList.mem_erase.mpr ⟨hr.1, hm⟩) ?_
    rintro ⟨m, hu⟩
    exact ⟨m, hu.mono (List.append_nil _).symm (lookup_insert_cursor (by simp [ha]))⟩
  · intro d hd hm
    obtain ⟨hne, hm⟩ := AList.mem_erase.mp hm
    have hd : d ∈ r.removed := (List.mem_cons.mp hd).resolve_left hne
    exact (h.gone d hd hm).imp (fun hr => hr.insert (by simp [ha, hfree]) rfl)
      fun hu => hu.mono (List.append_nil _).symm (lookup_insert_cursor (by simp [ha]))

theorem Agreed.publishLeave {c : String} (h : Agreed r) (ha : r.adapters.lookup i = some a)
    (hc : a.removing = some c) :
    Agreed { r with
      published := r.published ++ [.roomLeave c]
      adapters := r.adapters.insert i { a with removing := none } } := by
  refine ⟨h.toAnnounced.publishLeave ha hc, h.known, ?_, ?_⟩
  · intro d hd hr
    refine (h.present d hd hr).imp_right ?_
    rintro ⟨m, hu⟩
    exact ⟨m, hu.mono rfl (lookup_insert_cursor (by simp [ha]))⟩
  · intro d hd hm
    by_cases hdc : d = c
    · subst hdc
      exact Or.inr ⟨i, _, r.published.length, AList.lookup_insert _, h.cursors i a ha,
        List.getElem?_concat_length⟩
    · exact (h.gone d hd hm).imp (fun hr => hr.published hdc ha hc rfl)
        fun hu => hu.mono rfl (lookup_insert_cursor (by simp [ha]))

/-- A join brings a client into the hash; if it was removed before, its leave is still to be handled. -/
theorem Agreed.handleJoin {c m : String} (h : Agreed r) (ha : r.adapters.lookup i = some a)
    (hm : r.next a = some (.roomJoin c m)) (hfree : a.removing = none) :
    Agreed { r with
      roomClients := r.roomClients.insert c m
      adapters := r.adapters.insert i { a with cursor := a.cursor + 1 } } := by
  refine ⟨h.toAnnounced.handle ha hm hfree _, ?_, ?_, ?_⟩
  · intro d hd
    rcases (AList.mem_insert _).mp hd with rfl | hd
    · exact h.joinsAdded d m (List.mem_of_getElem? hm)
    · exact h.known d hd
  · intro d hd hr
    by_cases hdc : d = c
    · exact Or.inl ((AList.mem_insert _).mpr (Or.inl hdc))
    · refine (h.present d hd hr).imp (fun hin => (AList.mem_insert _).mpr (Or.inr hin)) ?_
      rintro ⟨m', hu⟩
      exact ⟨m', hu.handle ha hm (fun he => hdc (RoomMessage.roomJoin.inj he).1) rfl rfl⟩
  · intro d hd hin
    by_cases hdc : d = c
    · subst hdc
      refine (h.announced d hd).imp (fun hr => hr.insert (by simp [ha, hfree]) rfl) fun hl => ?_
      obtain ⟨l, hl⟩ := List.mem_iff_getElem?.mp hl
      exact ⟨i, _, l, AList.lookup_insert _, h.ordered _ l d m hm hl, hl⟩
    · have hin := ((AList.mem_insert _).mp hin).resolve_left hdc
      exact (h.gone d hd hin).imp (fun hr => hr.insert (by simp [ha, hfree]) rfl)
        fun hu => hu.handle ha hm (fun he => nomatch he) rfl rfl

/-- A leave takes a client out of the hash, unless it is not there. -/
theorem Agreed.handleLeave {c : String} {roomClients : AList fun _ : String => String} (h : Agreed r)
    (ha : r.adapters.lookup i = some a) (hm : r.next a = some (.roomLeave c)) (hfree : a.removing = none)
    (hmem : ∀ d, d ∈ roomClients ↔ d ≠ c ∧ d ∈ r.roomClients) :
    Agreed { r with
      roomClients := roomClients
      adapters := r.adapters.insert i { a with cursor := a.cursor + 1 } } := by
  have hc := h.published c (List.mem_of_getElem? hm)
  refine ⟨h.toAnnounced.handle ha hm hfree _, ?_, ?_, ?_⟩
  · intro d hd
    exact h.known d ((hmem d).mp hd).2
  · intro d hd hr
    have hdc : d ≠ c := fun he => hr (he ▸ hc)
    refine (h.present d hd hr).imp (fun hin => (hmem d).mpr ⟨hdc, hin⟩) ?_
    rintro ⟨m', hu⟩
    exact ⟨m', hu.handle ha hm (fun he => nomatch he) rfl rfl⟩
  · intro d hd hin
    obtain ⟨hdc, hin⟩ := (hmem d).mp hin
    exact (h.gone d hd hin).imp (fun hr => hr.insert (by simp [ha, hfree]) rfl)
      fun hu => hu.handle ha hm (fun he => hdc (RoomMessage.roomLeave.inj he)) rfl rfl

end Steps

/-- **Step lemma.** -/
theorem Agreed.step {r r' : Room} {x : Action} (h : Agreed r) (hok : MembersDelivered r x)
    (hs : Stepped r x r') : Agreed r' := by
  cases hs with
  | subscribe hi => exact h.subscribe hi
  | setMetadata => exact hok.1.elim
  | add ha hfree hnew => exact h.add ha hfree hnew
  | remove ha hfree hmem => exact h.remove ha hfree hmem
  | publishLeave ha hc => exact h.publishLeave ha hc
  | @handle i failing a message ha hm hfree =>
    cases message with
    | roomJoin c m => exact h.handleJoin ha hm hfree
    | roomLeave c =>
      refine h.handleLeave ha hm hfree fun d => ?_
      have hsent : c ∈ r.roomClients → localBroadcast a failing = true := by
        have := hok.2 a ha
        rwa [hm] at this
      simp only [handleMessage]
      split_ifs with hb
      · exact AList.mem_erase
      · have hgone : c ∉ r.roomClients := fun hc => hb (hsent hc)
        refine ⟨fun hd => ⟨?_, hd⟩, And.right⟩
        rintro rfl
        exact hgone hd

/-- **Membership agrees**: along every run in which leaves are delivered, once no message is left to handle
`Clients` has exactly the clients that were added and not removed.  A client in the middle of `Remove` (`Removing`: its
`HDel` is done, its leave not published yet) is left out: a join that was handled late may have set it again, which only
its leave undoes. -/
theorem clients_agree {r : Room} (h : Reach step MembersDelivered Room.empty r) (hq : AllHandled r)
    {c : String} (hc : ¬ Removing r c) : c ∈ r.clients ↔ c ∈ r.added ∧ c ∉ r.removed := by
  have hA := Reach.invariant (I := Agreed) agreed_empty
    (fun _ _ _ hI hok hs => hI.step hok (stepped_of_step hs)) h
  constructor
  · intro hin
    refine ⟨hA.known c hin, fun hr => ?_⟩
    rcases hA.gone c hr hin with hrem | hu
    · exact hc hrem
    · exact not_unhandled hq hu
  · rintro ⟨hadd, hr⟩
    refine (hA.present c hadd hr).resolve_right ?_
    rintro ⟨m, hu⟩
    exact not_unhandled hq hu

/-- The second instance handles the join after the client was removed, then its leave, and the write to its own
client succeeds. -/
theorem clients_agree_example : ∃ r, exec (guarded step MembersDelivered) Room.empty
    [.subscribe 0, .subscribe 1, .add 1 "d" "", .handle 0 [], .handle 1 ["d"], .add 0 "c" "", .handle 0 [],
      .remove 0 "c", .publishLeave 0, .handle 0 [], .handle 1 ["d"], .handle 1 []] = some r ∧
    (AllHandled r ∧ ¬ Removing r "c" ∧ "c" ∈ r.removed ∧ ¬ Removing r "d" ∧ "d" ∈ r.added ∧ "d" ∉ r.removed) ∧
    ("c" ∉ r.clients ∧ "d" ∈ r.clients) := by
  refine exists_exec (by decide) fun r hs hq => ?_
  obtain ⟨hall, hc, hcr, hd, hda, hdr⟩ := hq
  exact ⟨fun hin => ((clients_agree hs hall hc).mp hin).2 hcr, (clients_agree hs hall hd).mpr ⟨hda, hdr⟩⟩

/-- The same run, except that the write of the leave fails: the client stays in the hash. -/
theorem ghost_client : ∃ r, exec (guarded step MembershipOnly) Room.empty
    [.subscribe 0, .subscribe 1, .add 1 "d" "", .handle 0 [], .handle 1 [], .add 0 "c" "", .handle 0 [],
      .remove 0 "c", .publishLeave 0, .handle 0 [], .handle 1 [], .handle 1 ["d"]] = some r ∧
    (AllHandled r ∧ ¬ Removing r "c" ∧ "c" ∈ r.clients ∧ "c" ∈ r.removed) ∧
    Reach step MembershipOnly Room.empty r :=
  exists_exec (by decide) fun _ hs _ => hs

end Meeting.Redis
