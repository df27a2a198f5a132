import Meeting.Insertable.Frames
import Meeting.Lib.Runs

/-!
# Meeting.Insertable.Encryption — the encryption key and the password

The worker keeps the password twice: `context.password` is the last one received, and
`encryptContext.password` the last one a key was asked for.  Clearing the password does not clear the second
copy, so that two kinds of steps lead astray: a derivation that completes after the password it was
for has been cleared, and setting again a password that was cleared.

A frame shorter than the part of it that stays clear is not sent either: the view of that part throws.

* `encryption_follows_password`: along the runs without such steps (`KeepsPace`), the key is that of
  the password once no derivation is pending, and the frames that have their clear part are sent under it;
* `cleared_password_lost`: setting a cleared password again leaves the worker without a key.
-/

namespace Meeting.Insertable

open Lib

variable {Key : Type} {crypto : Crypto Key} {params : WorkerParams} {w w' : Worker Key}

/-! ### Updates of decrypt contexts -/

/-- What updates of decrypt contexts leave alone: they only start derivations for decrypt contexts. -/
structure Grows (w w' : Worker Key) : Prop where
  password : w'.password = w.password
  encryptContext : w'.encryptContext = w.encryptContext
  metadata : w'.metadataByMid = w.metadataByMid
  pending : ∀ task ∈ w.pending, task ∈ w'.pending
  new : ∀ task ∈ w'.pending, task ∈ w.pending ∨ ∃ mid ref p u, task = .decryptKey mid ref p u

theorem Grows.refl (w : Worker Key) : Grows w w := ⟨rfl, rfl, rfl, fun _ h => h, fun _ h => Or.inl h⟩

theorem Grows.trans {w'' : Worker Key} (h : Grows w w') (h' : Grows w' w'') : Grows w w'' := by
  refine ⟨h'.password.trans h.password, h'.encryptContext.trans h.encryptContext,
    h'.metadata.trans h.metadata, fun task ht => h'.pending task (h.pending task ht), fun task ht => ?_⟩
  rcases h'.new task ht with ht | ht
  · exact h.new task ht
  · exact Or.inr ht

theorem grows_replaceContext (mid userId : String) : Grows w (replaceContext w mid userId) := by
  unfold replaceContext
  refine ⟨rfl, rfl, rfl, fun task ht => ?_, fun task ht => ?_⟩
  · simp only
    split_ifs
    · exact ht
    · exact List.mem_append_left _ ht
  · simp only at ht
    split_ifs at ht
    · exact Or.inl ht
    · rcases List.mem_append.mp ht with ht | ht
      · exact Or.inl ht
      · exact Or.inr ⟨_, _, _, _, List.mem_singleton.mp ht⟩

theorem grows_updateDecryptContext (mid userId : String) :
    Grows w (updateDecryptContext w mid userId) := by
  unfold updateDecryptContext
  cases w.decryptContextByMid.lookup mid with
  | none => exact grows_replaceContext _ _
  | some c =>
    simp only
    split_ifs
    · exact Grows.refl w
    · exact grows_replaceContext _ _

theorem grows_applyMetadata (mid : String) : Grows w (applyMetadata w mid) := by
  unfold applyMetadata
  cases w.metadataByMid.lookup mid with
  | none => exact ⟨rfl, rfl, rfl, fun _ h => h, fun _ h => Or.inl h⟩
  | some m => exact grows_updateDecryptContext _ _

theorem grows_regenerateContext (mid : String) : Grows w (regenerateContext w mid) := by
  unfold regenerateContext
  cases w.decryptContextByMid.lookup mid with
  | none => exact Grows.refl w
  | some c => exact grows_updateDecryptContext _ _

theorem grows_foldl {f : Worker Key → String → Worker Key} (hf : ∀ w mid, Grows w (f w mid))
    (mids : List String) : ∀ w : Worker Key, Grows w (mids.foldl f w) := by
  induction mids with
  | nil => exact Grows.refl
  | cons mid mids ih => exact fun w => (hf w mid).trans (ih (f w mid))

/-! ### The condition -/

/-- The steps at which the two copies of the password do not lead astray: no derivation completes after its
password was cleared, and no cleared password is set again without a derivation for it. -/
def KeepsPace (s : System Key) : Event → Prop
  | .complete (.encryptKey p _) => s.worker.password = "" → s.worker.encryptContext.password ≠ p
  | .message (.password p) => p ≠ "" → s.worker.password = "" → s.worker.encryptContext.password = p →
      ∃ r, .encryptKey p r ∈ s.worker.pending
  | _ => True

instance : DecidableRel (KeepsPace : System Key → Event → Prop)
  | s, .complete (.encryptKey p _) =>
    inferInstanceAs (Decidable (s.worker.password = "" → s.worker.encryptContext.password ≠ p))
  | s, .message (.password p) =>
    inferInstanceAs (Decidable (p ≠ "" → s.worker.password = "" → s.worker.encryptContext.password = p →
      ∃ r, Task.encryptKey p r ∈ s.worker.pending))
  | _, .complete .regenerate | _, .complete (.decryptKey _ _ _ _) | _, .message (.metadata _)
  | _, .message .encrypt | _, .message (.decrypt _ _ _) => isTrue trivial

/-! ### The invariant -/

/-- The key is that of the password, or its derivation is pending. -/
structure Follows (crypto : Crypto Key) (params : WorkerParams) (w : Worker Key) : Prop where
  current : w.password ≠ "" → w.encryptContext.password = w.password
  key : w.password ≠ "" → w.encryptContext.key = some (createKey crypto params w.password params.userId) ∨
    ∃ r, .encryptKey w.password r ∈ w.pending
  cleared : w.password = "" → w.encryptContext.key = none

theorem follows_init : Follows crypto params Worker.init :=
  ⟨fun h => absurd rfl h, fun h => absurd rfl h, fun _ => rfl⟩

/-- The invariant only reads the password, the encrypt context and the pending derivations for it. -/
theorem Follows.of_eq (h : Follows crypto params w) (hp : w'.password = w.password)
    (he : w'.encryptContext = w.encryptContext)
    (ht : ∀ p r, .encryptKey p r ∈ w.pending → .encryptKey p r ∈ w'.pending) : Follows crypto params w' := by
  refine ⟨?_, ?_, ?_⟩
  · rw [hp, he]
    exact h.current
  · rw [hp, he]
    exact fun hne => (h.key hne).imp_right fun ⟨r, hr⟩ => ⟨r, ht _ r hr⟩
  · rw [hp, he]
    exact h.cleared

theorem Follows.grows (h : Follows crypto params w) (hg : Grows w w') : Follows crypto params w' :=
  h.of_eq hg.password hg.encryptContext fun _ _ => hg.pending _

theorem Follows.resolved (h : Follows crypto params w) (r : Bool) :
    Follows crypto params (Insertable.resolved w r) := by
  unfold Insertable.resolved
  split_ifs
  · exact h.of_eq rfl rfl fun _ _ => List.mem_append_left _
  · exact h

theorem Follows.password (h : Follows crypto params w) {p : String}
    (hok : p ≠ "" → w.password = "" → w.encryptContext.password = p → ∃ r, .encryptKey p r ∈ w.pending) :
    Follows crypto params (handlePassword w p) := by
  unfold handlePassword updateEncryptContext
  by_cases he : w.encryptContext.password = p
  · -- nothing is done: either the password is the one before, or it was cleared in between
    simp only [if_pos he]
    refine Follows.resolved ⟨fun _ => he, fun hp => ?_, fun hp => ?_⟩ true
    · by_cases hw : w.password = ""
      · exact Or.inr (hok hp hw he)
      · have hpw : w.password = p := (h.current hw).symm.trans he
        exact hpw ▸ h.key hw
    · have hw : w.password = "" := by
        by_contra hw
        exact hw ((h.current hw).symm.trans (he.trans hp))
      exact h.cleared hw
  · simp only [if_neg he]
    by_cases hp : p = ""
    · rw [if_pos hp]
      exact Follows.resolved ⟨fun hne => absurd hp hne, fun hne => absurd hp hne, fun _ => rfl⟩ true
    · rw [if_neg hp]
      exact ⟨fun _ => rfl, fun _ => Or.inr ⟨true, List.mem_append_right _ (List.mem_singleton_self _)⟩,
        fun hne => absurd hne hp⟩

/-- An `encrypt` message finds the key asked for already, or clears what is cleared. -/
theorem Follows.encrypt (h : Follows crypto params w) :
    Follows crypto params (updateEncryptContext w false) := by
  unfold updateEncryptContext
  split_ifs with he hp
  · exact h.resolved false
  · refine Follows.resolved ?_ false
    exact ⟨fun hne => absurd hp hne, fun hne => absurd hp hne, fun _ => rfl⟩
  · exact absurd (h.current hp) he

theorem Follows.encryptKey (h : Follows crypto params w) {p : String} {r : Bool}
    (hok : w.password = "" → w.encryptContext.password ≠ p) :
    Follows crypto params (runTask crypto params
      { w with pending := w.pending.erase (.encryptKey p r) } (.encryptKey p r)) := by
  unfold runTask
  refine Follows.resolved ?_ r
  split_ifs with he
  · have hp : w.password ≠ "" := fun hp => hok hp he
    have hwp : w.password = p := (h.current hp).symm.trans he
    exact ⟨fun _ => h.current hp, fun _ => Or.inl (by rw [← hwp]), fun hp' => absurd hp' hp⟩
  · refine ⟨h.current, fun hp => (h.key hp).imp_right ?_, h.cleared⟩
    rintro ⟨r', hr'⟩
    -- the derivation that is done was for another password
    have hne : w.password ≠ p := fun hwp => he ((h.current hp).trans hwp)
    exact ⟨r', (List.mem_erase_of_ne fun heq => hne (Task.encryptKey.inj heq).1).mpr hr'⟩

/-- **Step lemma.** -/
theorem Follows.step {s s' : System Key} {e : Event} (h : Follows crypto params s.worker)
    (hok : KeepsPace s e) (hs : Insertable.step crypto params s e = some s') :
    Follows crypto params s'.worker := by
  cases e with
  | message m =>
    obtain rfl := Option.some.inj hs
    cases m with
    | password p => exact h.password hok
    | metadata ms =>
      have h' : Follows crypto params { s.worker with metadataByMid := byMid ms } :=
        h.of_eq rfl rfl fun _ _ ht => ht
      exact h'.grows (grows_foldl (fun _ => grows_applyMetadata) _ _)
    | encrypt => exact h.encrypt
    | decrypt mid u streams => exact h.grows (grows_updateDecryptContext _ _)
  | complete task =>
    simp only [Insertable.step] at hs
    split_ifs at hs with ht
    obtain rfl := Option.some.inj hs
    -- the other tasks do not touch the encrypt context
    have herase : (∀ p r, task ≠ .encryptKey p r) →
        Follows crypto params { s.worker with pending := s.worker.pending.erase task } :=
      fun hne => h.of_eq rfl rfl fun p r => (List.mem_erase_of_ne (hne p r).symm).mpr
    cases task with
    | encryptKey p r => exact h.encryptKey hok
    | regenerate =>
      exact (herase fun _ _ => by simp).grows (grows_foldl (fun _ => grows_regenerateContext) _ _)
    | decryptKey mid ref p u =>
      have h' := herase fun _ _ => by simp
      unfold runTask
      simp only
      cases s.worker.decryptContextByMid.lookup mid with
      | none => exact h'
      | some c =>
        simp only
        split_ifs
        · exact h'.of_eq rfl rfl fun _ _ ht => ht
        · exact h'

/-! ### Frames -/

/-- No call of `createKey` is pending. -/
def NoCreateKey (w : Worker Key) : Prop := ∀ task ∈ w.pending, task = .regenerate

instance : Decidable (NoCreateKey w) := inferInstanceAs (Decidable (∀ _ ∈ _, _))

/-- The frame that is sent: as it is when there is no password, else its clear part, the rest encrypted under the key of
the password, and the iv. -/
def sentFrame (crypto : Crypto Key) (params : WorkerParams) (password : String) (iv : List Byte)
    (frame : RTCEncodedFrame) : RTCEncodedFrame :=
  if password = "" then frame
  else
    let clear := frame.data.take (getCryptoOffset frame)
    let body := frame.data.drop (getCryptoOffset frame)
    { frame with data := clear ++ crypto.encrypt (createKey crypto params password params.userId) iv clear body ++ iv }

/-- The key is that of the password, and undefined when there is none. -/
def KeyOfPassword (crypto : Crypto Key) (params : WorkerParams) (w : Worker Key) : Prop :=
  w.encryptContext.key = if w.password = "" then none else some (createKey crypto params w.password params.userId)

/-- The key is that of the password, no frame is dropped, and exactly those that have the part that stays clear are sent
under the key, and all in clear when there is no password. -/
structure EncryptsWithPassword (crypto : Crypto Key) (params : WorkerParams) (w : Worker Key) : Prop where
  key : KeyOfPassword crypto params w
  not_dropped : ∀ iv frame, encrypt crypto w iv frame ≠ .drop
  sent_iff : ∀ iv frame, encrypt crypto w iv frame = .enqueue (sentFrame crypto params w.password iv frame) ↔
    w.password = "" ∨ getCryptoOffset frame ≤ frame.data.length

theorem encrypt_of_no_password (hk : w.encryptContext.key = none) (hp : w.password = "") (iv : List Byte)
    (frame : RTCEncodedFrame) : encrypt crypto w iv frame = .enqueue frame := by
  unfold encrypt
  rw [hk]
  exact if_pos hp

/-- The view of the clear part throws. -/
theorem encrypt_of_short {key : Key} (hk : w.encryptContext.key = some key) (iv : List Byte) {frame : RTCEncodedFrame}
    (hshort : frame.data.length < getCryptoOffset frame) : encrypt crypto w iv frame = .throw := by
  unfold encrypt
  rw [hk]
  exact if_pos hshort

/-- Frames go by the key. -/
theorem KeyOfPassword.encryptsWithPassword (h : KeyOfPassword crypto params w) : EncryptsWithPassword crypto params w := by
  have hkey := h
  unfold KeyOfPassword at hkey
  by_cases hp : w.password = ""
  · rw [if_pos hp] at hkey
    have hsent : ∀ iv frame, encrypt crypto w iv frame = .enqueue frame := encrypt_of_no_password hkey hp
    refine ⟨h, fun iv frame => ?_, fun iv frame => iff_of_true ?_ (Or.inl hp)⟩
    · rw [hsent]
      exact nofun
    · rw [hsent, sentFrame, if_pos hp]
  · rw [if_neg hp] at hkey
    have hsent : ∀ iv frame, getCryptoOffset frame ≤ frame.data.length →
        encrypt crypto w iv frame = .enqueue (sentFrame crypto params w.password iv frame) := by
      intro iv frame hclear
      rw [encrypt_eq hkey hclear, sentFrame, if_neg hp]
    refine ⟨h, fun iv frame => ?_, fun iv frame =>
      ⟨fun henq => Or.inr ?_, fun hfits => hsent iv frame (hfits.resolve_left hp)⟩⟩
    · rcases lt_or_ge frame.data.length (getCryptoOffset frame) with hshort | hclear
      · rw [encrypt_of_short hkey iv hshort]
        exact nofun
      · rw [hsent iv frame hclear]
        exact nofun
    · by_contra hshort
      rw [encrypt_of_short hkey iv (not_le.mp hshort)] at henq
      cases henq

/-- **The key follows the password**, along every run whose steps keep pace; a frame is sent as the password says unless
there is one and the frame is too short for its clear part. -/
theorem encryption_follows_password {s : System Key}
    (h : Reach (step crypto params) KeepsPace System.start s) (hq : NoCreateKey s.worker) :
    EncryptsWithPassword crypto params s.worker := by
  have hF := Reach.invariant (I := fun s => Follows crypto params s.worker) follows_init
    (fun _ _ _ hI hok hs => hI.step hok hs) h
  refine KeyOfPassword.encryptsWithPassword ?_
  unfold KeyOfPassword
  by_cases hp : s.worker.password = ""
  · rw [if_pos hp]
    exact hF.cleared hp
  · rw [if_neg hp]
    rcases hF.key hp with hk | ⟨r, hr⟩
    · exact hk
    · cases hq _ hr

/-- ASCII text, keys that are what they are derived from, and a tag of zeros. -/
def plainCrypto : Crypto (List Byte × List Byte) where
  textEncode s := s.toList.map fun c => BitVec.ofNat 8 c.toNat
  deriveKey password salt := (password, salt)
  encrypt _ _ _ data := data ++ List.replicate 16 0
  decrypt _ _ _ data := some (data.take (data.length - 16))

/-- A password is set, cleared, and another one set. -/
theorem encryption_follows_password_example : ∃ s,
    exec (guarded (step plainCrypto ⟨"/room", "me"⟩) KeepsPace) System.start
      [.message (.password "a"), .message .encrypt, .complete (.encryptKey "a" true),
        .message (.password ""), .complete .regenerate, .message (.password "b"),
        .complete (.encryptKey "b" true)] = some s ∧
    (s.worker.password = "b" ∧ NoCreateKey s.worker) ∧
    EncryptsWithPassword plainCrypto ⟨"/room", "me"⟩ s.worker :=
  exists_exec (by decide) fun _ hs hq => encryption_follows_password hs hq.2

/-- Setting a password again after it was cleared derives no key, and every frame is dropped. -/
theorem cleared_password_lost : ∃ s,
    exec (guarded (step plainCrypto ⟨"/room", "me"⟩) anyStep) System.start
      [.message (.password "a"), .complete (.encryptKey "a" true), .complete .regenerate,
        .message (.password ""), .complete .regenerate, .message (.password "a"),
        .complete .regenerate] = some s ∧
    (s.worker.pending = [] ∧ s.worker.password = "a" ∧ s.worker.encryptContext.key = none) ∧
    ¬ EncryptsWithPassword plainCrypto ⟨"/room", "me"⟩ s.worker ∧
    ∀ iv frame, encrypt plainCrypto s.worker iv frame = .drop := by
  refine exists_exec (by decide) fun s _ ⟨_, hp, hk⟩ => ?_
  have hdrop : ∀ iv frame, encrypt plainCrypto s.worker iv frame = .drop := by
    intro iv frame
    simp [encrypt, hk, hp]
  exact ⟨fun h => h.not_dropped [] ⟨none, []⟩ (hdrop _ _), hdrop⟩

-- The other way to fail: a derivation that completes after its password was cleared sets the key for good, and
-- frames are encrypted although no password is set.
example : ∃ s,
    exec (guarded (step plainCrypto ⟨"/room", "me"⟩) anyStep) System.start
      [.message (.password "a"), .message (.password ""), .complete (.encryptKey "a" true),
        .complete .regenerate, .complete .regenerate] = some s ∧
    (s.worker.pending = [] ∧ s.worker.password = "" ∧ s.worker.encryptContext.key ≠ none) ∧
    ¬ EncryptsWithPassword plainCrypto ⟨"/room", "me"⟩ s.worker := by
  refine exists_exec (by decide) fun s _ ⟨_, hp, hk⟩ h => hk ?_
  rw [h.key, if_pos hp]

end Meeting.Insertable
