import Meeting.Insertable.Decryption

/-!
# Meeting.Insertable.Peers — decrypt contexts of several connections

In mesh mode there is no metadata, and `PeerHandler.handleTrack` registers the streams of every peer under the
mid of the peer's own connection.  Contexts are found by mid alone, so two peers that use the same mid share
one:

* `decrypts_with_sender_key`: along the runs in which no two users register the same mid (`OwnMids`), frames
  are decrypted with the key of the user they are registered for;
* `shared_mid_wrong_key`: with a shared mid they are not.
-/

namespace Meeting.Insertable

open Lib

variable {Key : Type} {crypto : Crypto Key} {params : WorkerParams} {w w' : Worker Key}

/-- The streams that were registered: their mid and user. -/
def registered (history : List Message) : List (String × String) :=
  history.filterMap fun
    | .decrypt mid userId true => some (mid, userId)
    | _ => none

/-- No metadata is sent to the worker. -/
def MeshMode (_ : System Key) : Event → Prop
  | .message (.metadata _) => False
  | _ => True

/-- Moreover, a mid that has streams registered for one user is not used for another. -/
def OwnMids (s : System Key) (e : Event) : Prop :=
  MeshMode s e ∧
    match e with
    | .message (.decrypt mid userId _) => ∀ x ∈ registered s.history, x.1 = mid → x.2 = userId
    | _ => True

instance : DecidableRel (MeshMode : System Key → Event → Prop)
  | _, .message (.metadata _) => isFalse id
  | _, .message (.password _) | _, .message .encrypt | _, .message (.decrypt _ _ _) | _, .complete _ =>
    isTrue trivial

instance : DecidableRel (OwnMids : System Key → Event → Prop)
  | s, .message (.decrypt mid userId _) =>
    inferInstanceAs (Decidable (True ∧ ∀ x ∈ registered s.history, x.1 = mid → x.2 = userId))
  | _, .message (.metadata _) => isFalse fun h => h.1
  | _, .message (.password _) | _, .message .encrypt | _, .complete _ => isTrue ⟨trivial, trivial⟩

/-! ### Contexts are kept -/

/-- Every mid with a context still has one. -/
def Keeps (w w' : Worker Key) : Prop :=
  ∀ mid c, w.decryptContextByMid.lookup mid = some c → ∃ c', w'.decryptContextByMid.lookup mid = some c'

theorem Keeps.of_eq (h : w'.decryptContextByMid = w.decryptContextByMid) : Keeps w w' :=
  fun _ c hl => ⟨c, h ▸ hl⟩

theorem keeps_updateDecryptContext (mid userId : String) : Keeps w (updateDecryptContext w mid userId) := by
  intro mid' c hl
  by_cases hm : mid' = mid
  · subst hm
    exact exists_lookup_updateDecryptContext w mid' userId
  · exact ⟨c, by rw [lookup_updateDecryptContext_of_ne hm, hl]⟩

theorem keeps_regenerateContext (mid : String) : Keeps w (regenerateContext w mid) := by
  unfold regenerateContext
  cases w.decryptContextByMid.lookup mid with
  | none => exact Keeps.of_eq rfl
  | some c => exact keeps_updateDecryptContext mid _

theorem keeps_foldl_regenerate (mids : List String) : ∀ w : Worker Key,
    Keeps w (mids.foldl regenerateContext w) := by
  induction mids with
  | nil => exact fun w => Keeps.of_eq rfl
  | cons mid mids ih =>
    intro w mid' c hl
    obtain ⟨c', hl'⟩ := keeps_regenerateContext mid mid' c hl
    exact ih _ mid' c' hl'

theorem keeps_runTask (crypto : Crypto Key) (params : WorkerParams) (task : Task) :
    Keeps w (runTask crypto params w task) := by
  cases task with
  | encryptKey p r => exact Keeps.of_eq (runTask_encryptKey_spec crypto params w p r).1
  | regenerate => exact keeps_foldl_regenerate _ w
  | decryptKey mid ref p u =>
    unfold runTask
    cases hc : w.decryptContextByMid.lookup mid with
    | none => simp only [hc]; exact Keeps.of_eq rfl
    | some c =>
      simp only [hc]
      split_ifs
      · intro mid' c' hl
        by_cases hm : mid' = mid
        · subst hm
          exact ⟨_, AList.lookup_insert _⟩
        · exact ⟨c', by rw [AList.lookup_insert_ne hm, hl]⟩
      · exact Keeps.of_eq rfl

/-! ### The invariant -/

/-- Registered mids have a context, and their last `decrypt` message is for the user registered. -/
structure Owned (s : System Key) : Prop where
  no_metadata : latestMetadata s.history = []
  context : ∀ mid u, lastDecrypt mid s.history = some u →
    ∃ c, s.worker.decryptContextByMid.lookup mid = some c
  owner : ∀ mid u, (mid, u) ∈ registered s.history → lastDecrypt mid s.history = some u

theorem owned_start : Owned (System.start : System Key) := by
  refine ⟨rfl, ?_, ?_⟩
  · intro mid u h
    cases h
  · intro mid u h
    cases h

theorem Owned.of_keeps {s : System Key} {h' : List Message} (h : Owned s)
    (hk : Keeps s.worker w') (hm : latestMetadata h' = latestMetadata s.history)
    (hd : ∀ mid, lastDecrypt mid h' = lastDecrypt mid s.history) (hr : registered h' = registered s.history) :
    Owned (⟨w', h'⟩ : System Key) := by
  refine ⟨hm.trans h.no_metadata, fun mid u hu => ?_, fun mid u hu => ?_⟩
  · obtain ⟨c, hc⟩ := h.context mid u ((hd mid).symm.trans hu)
    exact hk mid c hc
  · rw [hd]
    exact h.owner mid u (hr ▸ hu)

theorem Owned.decrypt {s : System Key} (h : Owned s) {mid userId : String} {streams : Bool}
    (hok : ∀ x ∈ registered s.history, x.1 = mid → x.2 = userId) :
    Owned ⟨updateDecryptContext s.worker mid userId, .decrypt mid userId streams :: s.history⟩ := by
  refine ⟨h.no_metadata, fun mid' u hu => ?_, fun mid' u hu => ?_⟩
  · by_cases hm : mid' = mid
    · subst hm
      exact exists_lookup_updateDecryptContext _ _ _
    · rw [lastDecrypt, if_neg (Ne.symm hm)] at hu
      obtain ⟨c, hc⟩ := h.context mid' u hu
      exact keeps_updateDecryptContext mid userId mid' c hc
  · have hcases : mid' = mid ∧ u = userId ∨ (mid', u) ∈ registered s.history := by
      cases streams with
      | false => exact Or.inr hu
      | true =>
        rcases List.mem_cons.mp hu with heq | hu
        · exact Or.inl (Prod.mk.inj heq)
        · exact Or.inr hu
    by_cases hm : mid' = mid
    · subst hm
      have hu' : u = userId := hcases.elim (fun hc => hc.2) fun hc => hok _ hc rfl
      rw [lastDecrypt, if_pos rfl, hu']
    · rw [lastDecrypt, if_neg (Ne.symm hm)]
      exact h.owner mid' u (hcases.resolve_left fun hc => hm hc.1)

/-- **Step lemma.** -/
theorem Owned.step {s s' : System Key} {e : Event} (h : Owned s) (hok : OwnMids s e)
    (hs : Insertable.step crypto params s e = some s') : Owned s' := by
  cases e with
  | message m =>
    obtain rfl := Option.some.inj hs
    cases m with
    | password p =>
      exact h.of_keeps (Keeps.of_eq (updateEncryptContext_spec { s.worker with password := p } true).1)
        rfl (fun _ => rfl) rfl
    | metadata ms => exact hok.1.elim
    | encrypt =>
      exact h.of_keeps (Keeps.of_eq (updateEncryptContext_spec s.worker false).1) rfl (fun _ => rfl) rfl
    | decrypt mid u streams => exact h.decrypt hok.2
  | complete task =>
    simp only [Insertable.step] at hs
    split_ifs at hs
    obtain rfl := Option.some.inj hs
    have hk : Keeps { s.worker with pending := s.worker.pending.erase task } _ :=
      keeps_runTask crypto params task
    exact h.of_keeps (fun mid c hl => hk mid c hl) rfl (fun _ => rfl) rfl

/-- **Frames are decrypted with the key of their sender**, along every run in which users do not share
mids. -/
theorem decrypts_with_sender_key {s : System Key} (h : Reach (step crypto params) OwnMids System.start s)
    (hq : Quiescent s.worker) (hp : s.worker.password ≠ "") {mid u : String}
    (hu : (mid, u) ∈ registered s.history) :
    decryptKey s.worker mid = some (createKey crypto params s.worker.password u) ∧
      ∀ frame, decrypt crypto s.worker mid frame =
        decryptFrame crypto (createKey crypto params s.worker.password u) frame := by
  have hO := Reach.invariant (I := Owned) owned_start (fun _ _ _ hI hok hs => hI.step hok hs) h
  have hlast := hO.owner mid u hu
  obtain ⟨c, hc⟩ := hO.context mid u hlast
  obtain ⟨-, huser, hkey⟩ := (converges_of_reach h).of_quiescent hq hc
  have hcu : u = c.userId := by
    rw [userOf, hO.no_metadata, hlast] at huser
    exact Option.some.inj huser
  have hdk : decryptKey s.worker mid = some (createKey crypto params s.worker.password u) := by
    rw [decryptKey, hc, Option.bind_some, hkey, if_neg hp, hcu]
  exact ⟨hdk, fun frame => by rw [decrypt, hdk]⟩

/-- Two peers with mids of their own. -/
theorem decrypts_with_sender_key_example : ∃ s,
    exec (guarded (step plainCrypto ⟨"/room", "me"⟩) OwnMids) System.start
      [.message (.decrypt "0" "alice" true), .message (.password "a"), .message (.decrypt "1" "bob" true),
        .complete (.encryptKey "a" true), .complete .regenerate, .complete (.decryptKey "0" 2 "a" "alice"),
        .complete (.decryptKey "1" 1 "a" "bob")] = some s ∧
    (s.worker.pending = [] ∧ s.worker.password ≠ "" ∧ ("0", "alice") ∈ registered s.history) ∧
    decryptKey s.worker "0" = some (createKey plainCrypto ⟨"/room", "me"⟩ s.worker.password "alice") ∧
    ∀ frame, decrypt plainCrypto s.worker "0" frame =
      decryptFrame plainCrypto (createKey plainCrypto ⟨"/room", "me"⟩ s.worker.password "alice") frame :=
  exists_exec (by decide) fun _ hs hq => decrypts_with_sender_key hs hq.1 hq.2.1 hq.2.2

/-- Two peers whose connections both use mid 0: the frames of the first are decrypted with the key of the
second. -/
theorem shared_mid_wrong_key : ∃ s,
    exec (guarded (step plainCrypto ⟨"/room", "me"⟩) MeshMode) System.start
      [.message (.decrypt "0" "alice" true), .message (.decrypt "0" "bob" true),
        .message (.password "a"), .complete (.encryptKey "a" true), .complete .regenerate,
        .complete (.decryptKey "0" 2 "a" "bob")] = some s ∧
    (s.worker.pending = [] ∧ s.worker.password = "a" ∧ ("0", "alice") ∈ registered s.history ∧
      decryptKey s.worker "0" = some (createKey plainCrypto ⟨"/room", "me"⟩ "a" "bob") ∧
      decryptKey s.worker "0" ≠ some (createKey plainCrypto ⟨"/room", "me"⟩ "a" "alice")) ∧
    Reach (step plainCrypto ⟨"/room", "me"⟩) MeshMode System.start s :=
  exists_exec (by decide) fun _ hs _ => hs

end Meeting.Insertable
