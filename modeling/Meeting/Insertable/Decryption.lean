import Mathlib.Data.List.Induction
import Meeting.Insertable.Encryption
import Meeting.Lib.Lists

/-!
# Meeting.Insertable.Decryption — the decrypt contexts of one connection

Every derivation that is pending names the context object it was started for, so that a late one never
writes into a newer context (`Sound`).  With the messages received so far as `history`:

* `decryption_converges`: in every state with nothing pending, every context has the current password, the
  user its metadata or else its last `decrypt` message names, and the key of these two; a mid that a metadata
  message leaves out has no context until a later `decrypt` message.
-/

namespace Meeting.Insertable

open Lib Streams

variable {Key : Type} {crypto : Crypto Key} {params : WorkerParams} {w w' : Worker Key}

/-! ### Contexts after an update -/

section Update

variable {mid mid' userId : String}

theorem lookup_replaceContext_of_ne (h : mid' ≠ mid) :
    (replaceContext w mid userId).decryptContextByMid.lookup mid' = w.decryptContextByMid.lookup mid' :=
  AList.lookup_insert_ne h

/-- An update keeps a context of the right user and password, and replaces any other. -/
theorem updateDecryptContext_cases (w : Worker Key) (mid userId : String) :
    (updateDecryptContext w mid userId = w ∧ ∃ c, w.decryptContextByMid.lookup mid = some c ∧
      c.userId = getUserId w mid userId ∧ c.password = w.password) ∨
    updateDecryptContext w mid userId = replaceContext w mid (getUserId w mid userId) := by
  unfold updateDecryptContext
  cases h : w.decryptContextByMid.lookup mid with
  | none => exact Or.inr rfl
  | some c =>
    simp only
    split_ifs with hc
    · exact Or.inl ⟨rfl, c, rfl, hc⟩
    · exact Or.inr rfl

theorem lookup_updateDecryptContext_of_ne (h : mid' ≠ mid) :
    (updateDecryptContext w mid userId).decryptContextByMid.lookup mid' =
      w.decryptContextByMid.lookup mid' := by
  rcases updateDecryptContext_cases w mid userId with ⟨heq, -⟩ | heq <;> rw [heq]
  exact lookup_replaceContext_of_ne h

theorem lookup_updateDecryptContext_self {c : DecryptContext Key}
    (h : (updateDecryptContext w mid userId).decryptContextByMid.lookup mid = some c) :
    c.userId = getUserId w mid userId ∧ c.password = w.password := by
  rcases updateDecryptContext_cases w mid userId with ⟨heq, c', hc', hu, hp⟩ | heq <;> rw [heq] at h
  · rw [hc', Option.some.injEq] at h
    exact h ▸ ⟨hu, hp⟩
  · rw [replaceContext, AList.lookup_insert, Option.some.injEq] at h
    exact h ▸ ⟨rfl, rfl⟩

theorem exists_lookup_updateDecryptContext (w : Worker Key) (mid userId : String) :
    ∃ c, (updateDecryptContext w mid userId).decryptContextByMid.lookup mid = some c := by
  rcases updateDecryptContext_cases w mid userId with ⟨heq, c, hc, -⟩ | heq <;> rw [heq]
  · exact ⟨c, hc⟩
  · exact ⟨_, AList.lookup_insert _⟩

/-- A loop over all mids with a context, whose turns change one context each. -/
theorem foldl_each {f : Worker Key → String → Worker Key} {I : Worker Key → Prop}
    {Q : String → DecryptContext Key → Prop} (hinv : ∀ v mid, I v → I (f v mid))
    (hself : ∀ v mid c, I v → (f v mid).decryptContextByMid.lookup mid = some c → Q mid c)
    (hother : ∀ v mid mid', mid' ≠ mid →
      (f v mid).decryptContextByMid.lookup mid' = v.decryptContextByMid.lookup mid')
    (h : I w) : I (w.decryptContextByMid.keys.foldl f w) ∧
      ∀ {mid c}, (w.decryptContextByMid.keys.foldl f w).decryptContextByMid.lookup mid = some c →
        Q mid c ∧ ∃ c', w.decryptContextByMid.lookup mid = some c' := by
  have hmids : ∀ mids : List String, I (mids.foldl f w) ∧
      ∀ mid, (mid ∈ mids → ∀ c, (mids.foldl f w).decryptContextByMid.lookup mid = some c → Q mid c) ∧
        (mid ∉ mids → (mids.foldl f w).decryptContextByMid.lookup mid = w.decryptContextByMid.lookup mid) := by
    intro mids
    induction mids using List.reverseRecOn with
    | nil => exact ⟨h, fun mid => ⟨fun hmid => absurd hmid List.not_mem_nil, fun _ => rfl⟩⟩
    | append_singleton mids m ih =>
      rw [List.foldl_append, List.foldl_cons, List.foldl_nil]
      refine ⟨hinv _ m ih.1, fun mid => ⟨fun hmid c hc => ?_, fun hmid => ?_⟩⟩
      · by_cases hm : mid = m
        · subst hm
          exact hself _ mid c ih.1 hc
        · rw [hother _ m mid hm] at hc
          refine (ih.2 mid).1 ((List.mem_append.mp hmid).resolve_right ?_) c hc
          simpa using hm
      · rw [List.mem_append, not_or, List.mem_singleton] at hmid
        rw [hother _ m mid hmid.2]
        exact (ih.2 mid).2 hmid.1
  obtain ⟨hI, hQ⟩ := hmids w.decryptContextByMid.keys
  refine ⟨hI, fun {mid c} hc => ?_⟩
  by_cases hmid : mid ∈ w.decryptContextByMid.keys
  · exact ⟨(hQ mid).1 hmid c hc,
      Option.isSome_iff_exists.mp (AList.lookup_isSome.mpr (AList.mem_keys.mpr hmid))⟩
  · rw [(hQ mid).2 hmid, AList.lookup_eq_none.mpr fun hm => hmid (AList.mem_keys.mp hm)] at hc
    cases hc

end Update

/-! ### Derivations and the contexts they are for -/

/-- The key of a context is right or on its way, and a pending derivation is for the user and the password
of the context object it writes to. -/
structure Sound (crypto : Crypto Key) (params : WorkerParams) (w : Worker Key) : Prop where
  ref_lt : ∀ {mid c}, w.decryptContextByMid.lookup mid = some c → c.ref < w.nextRef
  no_key : ∀ {mid c}, w.decryptContextByMid.lookup mid = some c → c.password = "" → c.key = none
  key : ∀ {mid c}, w.decryptContextByMid.lookup mid = some c → c.password ≠ "" →
    c.key = some (createKey crypto params c.password c.userId) ∨
      .decryptKey mid c.ref c.password c.userId ∈ w.pending
  task_lt : ∀ {mid r p u}, .decryptKey mid r p u ∈ w.pending → r < w.nextRef
  task_ne : ∀ {mid r p u}, .decryptKey mid r p u ∈ w.pending → p ≠ ""
  task_eq : ∀ {mid r p u c}, .decryptKey mid r p u ∈ w.pending →
    w.decryptContextByMid.lookup mid = some c → c.ref = r → c.password = p ∧ c.userId = u

theorem sound_init : Sound crypto params Worker.init := by
  refine ⟨?_, ?_, ?_, ?_, ?_, ?_⟩
  · intro mid c h
    cases h
  · intro mid c h
    cases h
  · intro mid c h
    cases h
  · intro mid r p u h
    cases h
  · intro mid r p u h
    cases h
  · intro mid r p u c h
    cases h

/-- Only the contexts, the references and the pending derivations for contexts matter. -/
theorem Sound.of_eq (h : Sound crypto params w)
    (hc : w'.decryptContextByMid = w.decryptContextByMid) (hr : w'.nextRef = w.nextRef)
    (ht : ∀ mid r p u, .decryptKey mid r p u ∈ w'.pending ↔ .decryptKey mid r p u ∈ w.pending) :
    Sound crypto params w' := by
  refine ⟨?_, ?_, ?_, ?_, ?_, ?_⟩
  · rw [hc, hr]
    exact h.ref_lt
  · rw [hc]
    exact h.no_key
  · intro mid c hm hp
    rw [hc] at hm
    exact (h.key hm hp).imp_right (ht _ _ _ _).mpr
  · intro mid r p u hm
    rw [hr]
    exact h.task_lt ((ht _ _ _ _).mp hm)
  · exact fun hm => h.task_ne ((ht _ _ _ _).mp hm)
  · intro mid r p u c hm hl
    rw [hc] at hl
    exact h.task_eq ((ht _ _ _ _).mp hm) hl

theorem Sound.replaceContext (h : Sound crypto params w) (mid userId : String) :
    Sound crypto params (Insertable.replaceContext w mid userId) := by
  have hnew : ∀ {mid' c}, (Insertable.replaceContext w mid userId).decryptContextByMid.lookup mid' = some c →
      mid' = mid ∧ c = ⟨w.nextRef, none, userId, w.password⟩ ∨
      mid' ≠ mid ∧ w.decryptContextByMid.lookup mid' = some c := by
    exact fun hl => lookup_insert_cases hl
  have hold : ∀ {mid' r p u}, Task.decryptKey mid' r p u ∈ (Insertable.replaceContext w mid userId).pending →
      .decryptKey mid' r p u ∈ w.pending ∨
        w.password ≠ "" ∧ mid' = mid ∧ r = w.nextRef ∧ p = w.password ∧ u = userId := by
    intro mid' r p u ht
    simp only [Insertable.replaceContext] at ht
    split_ifs at ht with hp
    · exact Or.inl ht
    · rcases List.mem_append.mp ht with ht | ht
      · exact Or.inl ht
      · exact Or.inr ⟨hp, Task.decryptKey.inj (List.mem_singleton.mp ht)⟩
  refine ⟨?_, ?_, ?_, ?_, ?_, ?_⟩
  · intro mid' c hl
    rcases hnew hl with ⟨-, rfl⟩ | ⟨-, hl⟩
    · exact Nat.lt_succ_self _
    · exact Nat.lt_succ_of_lt (h.ref_lt hl)
  · intro mid' c hl hp
    rcases hnew hl with ⟨-, rfl⟩ | ⟨-, hl⟩
    · rfl
    · exact h.no_key hl hp
  · intro mid' c hl hp
    rcases hnew hl with ⟨rfl, rfl⟩ | ⟨-, hl⟩
    · simp only [Insertable.replaceContext, if_neg hp]
      exact Or.inr (List.mem_append_right _ (List.mem_singleton_self _))
    · exact (h.key hl hp).imp_right ((grows_replaceContext mid userId).pending _)
  · intro mid' r p u ht
    rcases hold ht with ht | ⟨-, -, rfl, -⟩
    · exact Nat.lt_succ_of_lt (h.task_lt ht)
    · exact Nat.lt_succ_self _
  · intro mid' r p u ht
    rcases hold ht with ht | ⟨hp, -, -, rfl, -⟩
    · exact h.task_ne ht
    · exact hp
  · intro mid' r p u c ht hl hr
    rcases hold ht with hpend | ⟨-, rfl, rfl, rfl, rfl⟩
    · -- an older derivation is not for the new context
      rcases hnew hl with ⟨-, rfl⟩ | ⟨-, hl⟩
      · exact absurd hr.symm (Nat.ne_of_lt (h.task_lt hpend))
      · exact h.task_eq hpend hl hr
    · rcases hnew hl with ⟨-, rfl⟩ | ⟨hne, -⟩
      · exact ⟨rfl, rfl⟩
      · exact absurd rfl hne

theorem Sound.update (h : Sound crypto params w) (mid userId : String) :
    Sound crypto params (updateDecryptContext w mid userId) := by
  rcases updateDecryptContext_cases w mid userId with ⟨heq, -⟩ | heq <;> rw [heq]
  · exact h
  · exact h.replaceContext mid _

theorem Sound.regenerateContext (h : Sound crypto params w) (mid : String) :
    Sound crypto params (Insertable.regenerateContext w mid) := by
  unfold Insertable.regenerateContext
  cases w.decryptContextByMid.lookup mid with
  | none => exact h
  | some c => exact h.update mid _

theorem Sound.applyMetadata (h : Sound crypto params w) (mid : String) :
    Sound crypto params (Insertable.applyMetadata w mid) := by
  unfold Insertable.applyMetadata
  cases w.metadataByMid.lookup mid with
  | none =>
    have hold : ∀ {mid' c}, (w.decryptContextByMid.erase mid).lookup mid' = some c →
        w.decryptContextByMid.lookup mid' = some c := fun hl => (lookup_of_lookup_erase hl).2
    exact ⟨fun hl => h.ref_lt (hold hl), fun hl => h.no_key (hold hl), fun hl => h.key (hold hl), h.task_lt,
      h.task_ne, fun ht hl => h.task_eq ht (hold hl)⟩
  | some m => exact h.update mid _

/-- A derivation writes to the context it was started for, or not at all. -/
theorem Sound.decryptKey (h : Sound crypto params w) {mid p u : String} {r : ℕ}
    (ht : .decryptKey mid r p u ∈ w.pending) :
    Sound crypto params (runTask crypto params
      { w with pending := w.pending.erase (.decryptKey mid r p u) } (.decryptKey mid r p u)) := by
  have hkeep : ∀ {mid' c}, w.decryptContextByMid.lookup mid' = some c → (mid' = mid → c.ref ≠ r) →
      c.password ≠ "" → c.key = some (createKey crypto params c.password c.userId) ∨
        .decryptKey mid' c.ref c.password c.userId ∈ w.pending.erase (.decryptKey mid r p u) := by
    intro mid' c hl hne hp
    refine (h.key hl hp).imp_right (List.mem_erase_of_ne fun heq => ?_).mpr
    obtain ⟨h1, h2, -⟩ := Task.decryptKey.inj heq
    exact hne h1 h2
  have hunchanged : (∀ c, w.decryptContextByMid.lookup mid = some c → c.ref ≠ r) →
      Sound crypto params { w with pending := w.pending.erase (.decryptKey mid r p u) } := by
    intro hno
    refine ⟨h.ref_lt, h.no_key, fun hl => hkeep hl ?_, fun hm => h.task_lt (List.mem_of_mem_erase hm),
      fun hm => h.task_ne (List.mem_of_mem_erase hm), fun hm => h.task_eq (List.mem_of_mem_erase hm)⟩
    rintro rfl
    exact hno _ hl
  unfold runTask
  cases hc : w.decryptContextByMid.lookup mid with
  | none =>
    simp only [hc]
    refine hunchanged fun c hl => ?_
    rw [hc] at hl
    cases hl
  | some c =>
    simp only [hc]
    split_ifs with hr
    · obtain ⟨hp, hu⟩ := h.task_eq ht hc hr
      refine ⟨?_, ?_, ?_, fun hm => h.task_lt (List.mem_of_mem_erase hm),
        fun hm => h.task_ne (List.mem_of_mem_erase hm), ?_⟩
      · intro mid' c' hl
        rcases lookup_insert_cases hl with ⟨-, rfl⟩ | ⟨-, hl⟩
        · have hlt := h.ref_lt hc
          exact hlt
        · exact h.ref_lt hl
      · intro mid' c' hl hp'
        rcases lookup_insert_cases hl with ⟨-, rfl⟩ | ⟨-, hl⟩
        · exact absurd (hp.symm.trans hp') (h.task_ne ht)
        · exact h.no_key hl hp'
      · intro mid' c' hl hp'
        rcases lookup_insert_cases hl with ⟨-, rfl⟩ | ⟨hne, hl⟩
        · exact Or.inl (by rw [← hp, ← hu])
        · exact hkeep hl (fun hm => absurd hm hne) hp'
      · intro mid' r' p' u' c' hm hl hr'
        rcases lookup_insert_cases hl with ⟨rfl, rfl⟩ | ⟨-, hl⟩
        · have heq := h.task_eq (List.mem_of_mem_erase hm) hc hr'
          exact heq
        · exact h.task_eq (List.mem_of_mem_erase hm) hl hr'
    · refine hunchanged fun c' hl => ?_
      rw [hc, Option.some.injEq] at hl
      exact hl ▸ hr

/-! ### What the messages ask for -/

/-- The entries of the latest `metadata` message. -/
def latestMetadata : List Message → List TrackMetadata
  | [] => []
  | .metadata metadata :: _ => metadata
  | _ :: history => latestMetadata history

/-- The user of the last `decrypt` message for `mid`. -/
def lastDecrypt (mid : String) : List Message → Option String
  | [] => none
  | .decrypt m userId _ :: history => if m = mid then some userId else lastDecrypt mid history
  | _ :: history => lastDecrypt mid history

/-- The user of `mid`: that of its metadata, else that of its last `decrypt` message. -/
def userOf (history : List Message) (mid : String) : Option String :=
  match (byMid (latestMetadata history)).lookup mid with
  | some m => some m.userId
  | none => lastDecrypt mid history

/-- There was a `decrypt` message for `mid` since the last `metadata` message that leaves it out. -/
def DecryptedSince (mid : String) : List Message → Prop
  | [] => False
  | .decrypt m _ _ :: history => m = mid ∨ DecryptedSince mid history
  | .metadata metadata :: history => (∃ m ∈ metadata, m.mid = mid) ∧ DecryptedSince mid history
  | _ :: history => DecryptedSince mid history

theorem mid_of_lookup_byMid {mid : String} {m : TrackMetadata} (metadata : List TrackMetadata)
    (h : (byMid metadata).lookup mid = some m) : ∃ m ∈ metadata, m.mid = mid := by
  induction metadata using List.reverseRecOn with
  | nil => cases h
  | append_singleton l x ih =>
    rw [byMid, List.foldl_append, List.foldl_cons, List.foldl_nil] at h
    by_cases hm : mid = x.mid
    · exact ⟨x, List.mem_append_right _ (List.mem_singleton_self _), hm.symm⟩
    · rw [AList.lookup_insert_ne hm] at h
      obtain ⟨y, hy, hym⟩ := ih h
      exact ⟨y, List.mem_append_left _ hy, hym⟩

/-! ### The invariant -/

/-- The callback of `handlePassword`, or a derivation it waits for. -/
def Task.regenerates : Task → Bool
  | .encryptKey _ thenRegenerate => thenRegenerate
  | .regenerate => true
  | .decryptKey _ _ _ _ => false

def Regenerating (w : Worker Key) : Prop := ∃ task ∈ w.pending, task.regenerates = true

/-- The contexts are those the messages ask for. -/
structure Tidy (crypto : Crypto Key) (params : WorkerParams) (history : List Message) (w : Worker Key) :
    Prop where
  sound : Sound crypto params w
  metadata : w.metadataByMid = byMid (latestMetadata history)
  user : ∀ {mid c}, w.decryptContextByMid.lookup mid = some c → userOf history mid = some c.userId
  since : ∀ {mid c}, w.decryptContextByMid.lookup mid = some c → DecryptedSince mid history

/-- Moreover, their passwords are current, or they are about to be regenerated. -/
structure Converges (crypto : Crypto Key) (params : WorkerParams) (s : System Key) : Prop
    extends Tidy crypto params s.history s.worker where
  recent : ∀ {mid c}, s.worker.decryptContextByMid.lookup mid = some c →
    c.password = s.worker.password ∨ Regenerating s.worker

theorem converges_start : Converges crypto params (System.start : System Key) := by
  refine ⟨⟨sound_init, rfl, ?_, ?_⟩, ?_⟩
  · intro mid c h
    cases h
  · intro mid c h
    cases h
  · intro mid c h
    cases h

section Steps

variable {s s' : System Key} {history : List Message}

theorem Tidy.getUserId_eq (h : Tidy crypto params history w) {mid : String} {c : DecryptContext Key}
    (hc : w.decryptContextByMid.lookup mid = some c) : getUserId w mid c.userId = c.userId := by
  have hu := h.user hc
  unfold getUserId
  rw [h.metadata]
  unfold userOf at hu
  cases hm : (byMid (latestMetadata history)).lookup mid with
  | none => rfl
  | some m =>
    rw [hm] at hu
    exact Option.some.inj hu

/-- Changes that do not touch the contexts. -/
theorem Tidy.of_eq (h : Tidy crypto params history w)
    (hc : w'.decryptContextByMid = w.decryptContextByMid) (hm : w'.metadataByMid = w.metadataByMid)
    (hr : w'.nextRef = w.nextRef)
    (ht : ∀ mid r p u, .decryptKey mid r p u ∈ w'.pending ↔ .decryptKey mid r p u ∈ w.pending) :
    Tidy crypto params history w' :=
  ⟨h.sound.of_eq hc hr ht, hm.trans h.metadata, fun hl => h.user (hc ▸ hl), fun hl => h.since (hc ▸ hl)⟩

theorem Tidy.regenerateContext (h : Tidy crypto params history w) (mid : String) :
    Tidy crypto params history (Insertable.regenerateContext w mid) ∧
      ∀ c, (Insertable.regenerateContext w mid).decryptContextByMid.lookup mid = some c →
        c.password = w.password := by
  have hsound := h.sound.regenerateContext mid
  have hmeta := (grows_regenerateContext (w := w) mid).metadata.trans h.metadata
  cases hc : w.decryptContextByMid.lookup mid with
  | none =>
    unfold Insertable.regenerateContext
    simp only [hc]
    refine ⟨h, fun c hl => ?_⟩
    cases hl
  | some c =>
    have heq : Insertable.regenerateContext w mid = updateDecryptContext w mid c.userId := by
      simp only [Insertable.regenerateContext, hc]
    rw [heq] at hsound hmeta ⊢
    refine ⟨⟨hsound, hmeta, ?_, ?_⟩, fun c' hl => (lookup_updateDecryptContext_self hl).2⟩
    · intro mid' c' hl
      by_cases hm : mid' = mid
      · subst hm
        rw [(lookup_updateDecryptContext_self hl).1, h.getUserId_eq hc]
        exact h.user hc
      · rw [lookup_updateDecryptContext_of_ne hm] at hl
        exact h.user hl
    · intro mid' c' hl
      by_cases hm : mid' = mid
      · subst hm
        exact h.since hc
      · rw [lookup_updateDecryptContext_of_ne hm] at hl
        exact h.since hl

theorem lookup_regenerateContext_of_ne {mid mid' : String} (hm : mid' ≠ mid) :
    (regenerateContext w mid).decryptContextByMid.lookup mid' = w.decryptContextByMid.lookup mid' := by
  unfold regenerateContext
  cases w.decryptContextByMid.lookup mid with
  | none => rfl
  | some c => exact lookup_updateDecryptContext_of_ne hm

/-- The callback of `handlePassword` gives every context the current password. -/
theorem Tidy.regenerate (h : Tidy crypto params history w) :
    Tidy crypto params history (runTask crypto params w .regenerate) ∧
      ∀ {mid c}, (runTask crypto params w .regenerate).decryptContextByMid.lookup mid = some c →
        c.password = (runTask crypto params w .regenerate).password := by
  obtain ⟨⟨hT, hp⟩, hQ⟩ := foldl_each (f := Insertable.regenerateContext)
    (I := fun v => Tidy crypto params history v ∧ v.password = w.password)
    (Q := fun _ c => c.password = w.password)
    (fun v mid hv => ⟨(hv.1.regenerateContext mid).1, (grows_regenerateContext mid).password.trans hv.2⟩)
    (fun v mid c hv hl => ((hv.1.regenerateContext mid).2 c hl).trans hv.2)
    (fun v mid mid' hm => lookup_regenerateContext_of_ne hm) ⟨h, rfl⟩
  exact ⟨hT, fun hl => (hQ hl).1.trans hp.symm⟩

/-- The updates of the encrypt context leave the decrypt contexts alone. -/
theorem updateEncryptContext_spec (w : Worker Key) (r : Bool) :
    (updateEncryptContext w r).decryptContextByMid = w.decryptContextByMid ∧
      (updateEncryptContext w r).metadataByMid = w.metadataByMid ∧
      (updateEncryptContext w r).nextRef = w.nextRef ∧
      (updateEncryptContext w r).password = w.password ∧
      ∃ new, (updateEncryptContext w r).pending = w.pending ++ new ∧
        (∀ mid ref p u, Task.decryptKey mid ref p u ∉ new) ∧
        (r = true → ∃ task ∈ new, task.regenerates = true) := by
  unfold updateEncryptContext resolved
  cases r <;> split_ifs <;>
    first
    | contradiction
    | exact ⟨rfl, rfl, rfl, rfl, _, rfl, by simp, by simp [Task.regenerates]⟩
    | exact ⟨rfl, rfl, rfl, rfl, [], (List.append_nil _).symm, by simp, by simp⟩

theorem Tidy.updateEncryptContext (h : Tidy crypto params history w) (r : Bool) :
    Tidy crypto params history (Insertable.updateEncryptContext w r) := by
  obtain ⟨hc, hm, hr, -, new, hpend, hnew, -⟩ := updateEncryptContext_spec w r
  refine h.of_eq hc hm hr fun mid ref p u => ?_
  rw [hpend, List.mem_append, or_iff_left (hnew mid ref p u)]

theorem Converges.password (h : Converges crypto params s) (p : String) :
    Converges crypto params ⟨handlePassword s.worker p, .password p :: s.history⟩ := by
  have hT : Tidy crypto params (.password p :: s.history) { s.worker with password := p } :=
    ⟨h.sound.of_eq rfl rfl fun _ _ _ _ => Iff.rfl, h.metadata, h.user, h.since⟩
  obtain ⟨-, -, -, -, new, hpend, -, hnew⟩ := updateEncryptContext_spec { s.worker with password := p } true
  obtain ⟨task, ht, hreg⟩ := hnew rfl
  refine ⟨hT.updateEncryptContext true, fun _ => Or.inr ⟨task, ?_, hreg⟩⟩
  exact hpend ▸ List.mem_append_right _ ht

theorem Converges.encrypt (h : Converges crypto params s) :
    Converges crypto params ⟨Insertable.updateEncryptContext s.worker false, .encrypt :: s.history⟩ := by
  have hT : Tidy crypto params (.encrypt :: s.history) s.worker := ⟨h.sound, h.metadata, h.user, h.since⟩
  obtain ⟨hc, -, -, hp, new, hpend, -⟩ := updateEncryptContext_spec s.worker false
  refine ⟨hT.updateEncryptContext false, fun {mid c} hl => ?_⟩
  rw [hc] at hl
  rw [hp]
  refine (h.recent hl).imp_right fun ⟨task, ht, hreg⟩ => ⟨task, ?_, hreg⟩
  exact hpend ▸ List.mem_append_left _ ht

/-- The tasks that regenerate are still there. -/
theorem Regenerating.grows (h : Regenerating w) (hg : Grows w w') : Regenerating w' :=
  h.imp fun task ht => ⟨hg.pending task ht.1, ht.2⟩

theorem Converges.decrypt (h : Converges crypto params s) (mid userId : String) (streams : Bool) :
    Converges crypto params
      ⟨updateDecryptContext s.worker mid userId, .decrypt mid userId streams :: s.history⟩ := by
  have hg := grows_updateDecryptContext (w := s.worker) mid userId
  refine ⟨⟨h.sound.update mid userId, hg.metadata.trans h.metadata, ?_, ?_⟩, ?_⟩
  · intro mid' c hl
    by_cases hm : mid' = mid
    · subst hm
      rw [(lookup_updateDecryptContext_self hl).1]
      unfold getUserId userOf lastDecrypt latestMetadata
      rw [h.metadata, if_pos rfl]
      cases (byMid (latestMetadata s.history)).lookup mid' <;> rfl
    · rw [lookup_updateDecryptContext_of_ne hm] at hl
      have hu := h.user hl
      unfold userOf lastDecrypt latestMetadata
      rw [if_neg (Ne.symm hm)]
      exact hu
  · intro mid' c hl
    by_cases hm : mid' = mid
    · exact Or.inl hm.symm
    · rw [lookup_updateDecryptContext_of_ne hm] at hl
      exact Or.inr (h.since hl)
  · intro mid' c hl
    by_cases hm : mid' = mid
    · subst hm
      exact Or.inl ((lookup_updateDecryptContext_self hl).2.trans hg.password.symm)
    · rw [lookup_updateDecryptContext_of_ne hm] at hl
      exact ((h.recent hl).imp (fun hp => hp.trans hg.password.symm) fun hr => hr.grows hg)

theorem lookup_applyMetadata_of_ne {mid mid' : String} (hm : mid' ≠ mid) :
    (applyMetadata w mid).decryptContextByMid.lookup mid' = w.decryptContextByMid.lookup mid' := by
  unfold applyMetadata
  cases w.metadataByMid.lookup mid with
  | none => exact AList.lookup_erase_ne hm
  | some m => exact lookup_updateDecryptContext_of_ne hm

/-- A context that a turn of the loop of `handleMetadata` leaves has the user of its metadata. -/
theorem lookup_applyMetadata_self {mid : String} {c : DecryptContext Key}
    (hl : (applyMetadata w mid).decryptContextByMid.lookup mid = some c) :
    ∃ m, w.metadataByMid.lookup mid = some m ∧ c.userId = m.userId ∧ c.password = w.password := by
  unfold applyMetadata at hl
  cases hm : w.metadataByMid.lookup mid with
  | none =>
    simp only [hm] at hl
    rw [AList.lookup_erase] at hl
    cases hl
  | some m =>
    simp only [hm] at hl
    obtain ⟨hu, hp⟩ := lookup_updateDecryptContext_self hl
    refine ⟨m, rfl, hu.trans ?_, hp⟩
    simp only [getUserId, hm]

theorem Converges.metadata_step (h : Converges crypto params s) (ms : List TrackMetadata) :
    Converges crypto params ⟨handleMetadata s.worker ms, .metadata ms :: s.history⟩ := by
  have hg : Grows { s.worker with metadataByMid := byMid ms } (handleMetadata s.worker ms) :=
    grows_foldl (fun _ => grows_applyMetadata) _ _
  obtain ⟨⟨hsound, -⟩, hQ⟩ := foldl_each (f := applyMetadata) (w := { s.worker with metadataByMid := byMid ms })
    (I := fun v => Sound crypto params v ∧ v.metadataByMid = byMid ms ∧ v.password = s.worker.password)
    (Q := fun mid c => ∃ m, (byMid ms).lookup mid = some m ∧ c.userId = m.userId ∧
      c.password = s.worker.password)
    (fun v mid hv => ⟨hv.1.applyMetadata mid, (grows_applyMetadata mid).metadata.trans hv.2.1,
      (grows_applyMetadata mid).password.trans hv.2.2⟩)
    (fun v mid c hv hl => by
      obtain ⟨m, hm, hu, hp⟩ := lookup_applyMetadata_self hl
      exact ⟨m, hv.2.1 ▸ hm, hu, hp.trans hv.2.2⟩)
    (fun v mid mid' hm => lookup_applyMetadata_of_ne hm)
    ⟨h.sound.of_eq rfl rfl fun _ _ _ _ => Iff.rfl, rfl, rfl⟩
  refine ⟨⟨hsound, hg.metadata, fun hl => ?_, fun hl => ?_⟩, fun hl => ?_⟩
  · obtain ⟨⟨m, hm, hu, -⟩, -⟩ := hQ hl
    simp only [userOf, latestMetadata, hm, hu]
  · obtain ⟨⟨m, hm, -, -⟩, c', hc'⟩ := hQ hl
    exact ⟨mid_of_lookup_byMid ms hm, h.since hc'⟩
  · obtain ⟨⟨m, -, -, hp⟩, -⟩ := hQ hl
    exact Or.inl (hp.trans hg.password.symm)

/-- A task that has run is not needed by the others. -/
theorem Tidy.erase (h : Tidy crypto params history w) (task : Task)
    (ht : ∀ mid r p u, task ≠ .decryptKey mid r p u) :
    Tidy crypto params history { w with pending := w.pending.erase task } :=
  h.of_eq rfl rfl rfl fun mid r p u => List.mem_erase_of_ne (ht mid r p u).symm

theorem runTask_encryptKey_spec (crypto : Crypto Key) (params : WorkerParams) (w : Worker Key)
    (p : String) (r : Bool) :
    (runTask crypto params w (.encryptKey p r)).decryptContextByMid = w.decryptContextByMid ∧
      (runTask crypto params w (.encryptKey p r)).metadataByMid = w.metadataByMid ∧
      (runTask crypto params w (.encryptKey p r)).nextRef = w.nextRef ∧
      (runTask crypto params w (.encryptKey p r)).password = w.password ∧
      (runTask crypto params w (.encryptKey p r)).pending =
        w.pending ++ if r then [.regenerate] else [] := by
  unfold runTask resolved
  cases r <;> simp only [if_true, Bool.false_eq_true, if_false, List.append_nil] <;> split_ifs <;>
    exact ⟨rfl, rfl, rfl, rfl, rfl⟩

/-- After the derivation of the encryption key the callback of `handlePassword` is next. -/
theorem Converges.encryptKey (h : Converges crypto params s) (p : String) (r : Bool) :
    Converges crypto params ⟨runTask crypto params
      { s.worker with pending := s.worker.pending.erase (.encryptKey p r) } (.encryptKey p r), s.history⟩ := by
  obtain ⟨hc, hm, hr, hp, hpend⟩ := runTask_encryptKey_spec crypto params
    { s.worker with pending := s.worker.pending.erase (.encryptKey p r) } p r
  refine ⟨(h.toTidy.erase _ (by simp)).of_eq hc hm hr fun mid ref q u => ?_, fun {mid c} hl => ?_⟩
  · rw [hpend, List.mem_append, or_iff_left]
    cases r <;> simp
  · rw [hc] at hl
    rw [hp]
    refine (h.recent hl).imp_right fun ⟨task, ht, hreg⟩ => ?_
    by_cases htask : task = .encryptKey p r
    · subst htask
      obtain rfl : r = true := hreg
      exact ⟨.regenerate, hpend ▸ List.mem_append_right _ (List.mem_singleton_self _), rfl⟩
    · exact ⟨task, hpend ▸ List.mem_append_left _ ((List.mem_erase_of_ne htask).mpr ht), hreg⟩

/-- A derivation changes keys only. -/
theorem lookup_decryptKey {mid p u : String} {ref : ℕ} {mid' : String} {c : DecryptContext Key}
    (hl : (runTask crypto params w (.decryptKey mid ref p u)).decryptContextByMid.lookup mid' = some c) :
    ∃ c', w.decryptContextByMid.lookup mid' = some c' ∧ c.userId = c'.userId ∧ c.password = c'.password := by
  unfold runTask at hl
  cases hc : w.decryptContextByMid.lookup mid with
  | none =>
    simp only [hc] at hl
    exact ⟨c, hl, rfl, rfl⟩
  | some c' =>
    simp only [hc] at hl
    split_ifs at hl
    · by_cases hm : mid' = mid
      · subst hm
        rw [AList.lookup_insert, Option.some.injEq] at hl
        exact ⟨c', hc, hl ▸ ⟨rfl, rfl⟩⟩
      · rw [AList.lookup_insert_ne hm] at hl
        exact ⟨c, hl, rfl, rfl⟩
    · exact ⟨c, hl, rfl, rfl⟩

theorem runTask_decryptKey_spec (crypto : Crypto Key) (params : WorkerParams) (w : Worker Key)
    (mid : String) (ref : ℕ) (p u : String) :
    (runTask crypto params w (.decryptKey mid ref p u)).metadataByMid = w.metadataByMid ∧
      (runTask crypto params w (.decryptKey mid ref p u)).password = w.password ∧
      (runTask crypto params w (.decryptKey mid ref p u)).pending = w.pending := by
  unfold runTask
  cases hc : w.decryptContextByMid.lookup mid with
  | none => simp [hc]
  | some c =>
    simp only [hc]
    split_ifs <;> simp

theorem Converges.decryptKey (h : Converges crypto params s) {mid p u : String} {ref : ℕ}
    (ht : .decryptKey mid ref p u ∈ s.worker.pending) :
    Converges crypto params ⟨runTask crypto params { s.worker with
      pending := s.worker.pending.erase (.decryptKey mid ref p u) } (.decryptKey mid ref p u), s.history⟩ := by
  obtain ⟨hm, hp, hpend⟩ := runTask_decryptKey_spec crypto params
    { s.worker with pending := s.worker.pending.erase (.decryptKey mid ref p u) } mid ref p u
  refine ⟨⟨h.sound.decryptKey ht, hm.trans h.metadata, fun hl => ?_, fun hl => ?_⟩, fun hl => ?_⟩ <;>
    obtain ⟨c', hc', hu, hpw⟩ := lookup_decryptKey hl
  · rw [hu]
    exact h.user hc'
  · exact h.since hc'
  · rw [hp, hpw]
    refine (h.recent hc').imp_right fun ⟨task, htask, hreg⟩ => ⟨task, ?_, hreg⟩
    rw [hpend]
    refine (List.mem_erase_of_ne ?_).mpr htask
    rintro rfl
    cases hreg

/-- **Step lemma.** -/
theorem Converges.step {e : Event} (h : Converges crypto params s)
    (hs : Insertable.step crypto params s e = some s') : Converges crypto params s' := by
  cases e with
  | message m =>
    obtain rfl := Option.some.inj hs
    cases m with
    | password p => exact h.password p
    | metadata ms => exact h.metadata_step ms
    | encrypt => exact h.encrypt
    | decrypt mid u streams => exact h.decrypt mid u streams
  | complete task =>
    simp only [Insertable.step] at hs
    split_ifs at hs with ht
    obtain rfl := Option.some.inj hs
    cases task with
    | encryptKey p r => exact h.encryptKey p r
    | regenerate =>
      obtain ⟨hT, hp⟩ := (h.toTidy.erase .regenerate (by simp)).regenerate
      exact ⟨hT, fun hl => Or.inl (hp hl)⟩
    | decryptKey mid ref p u => exact h.decryptKey ht

/-- **Run lemma.** -/
theorem converges_of_reach {ok : System Key → Event → Prop}
    (h : Reach (Insertable.step crypto params) ok System.start s) : Converges crypto params s :=
  h.invariant converges_start fun _ _ _ hI _ hs => hI.step hs

/-- With nothing pending every context is complete. -/
theorem Converges.of_quiescent (h : Converges crypto params s) (hq : Quiescent s.worker) {mid : String}
    {c : DecryptContext Key} (hl : s.worker.decryptContextByMid.lookup mid = some c) :
    c.password = s.worker.password ∧ userOf s.history mid = some c.userId ∧
      c.key = if s.worker.password = "" then none
        else some (createKey crypto params s.worker.password c.userId) := by
  have hnone : ∀ task, task ∉ s.worker.pending := by
    intro task ht
    rw [hq] at ht
    cases ht
  have hp : c.password = s.worker.password :=
    (h.recent hl).resolve_right fun ⟨task, ht, _⟩ => hnone task ht
  refine ⟨hp, h.user hl, ?_⟩
  rw [← hp]
  split_ifs with hempty
  · exact h.sound.no_key hl hempty
  · exact (h.sound.key hl hempty).resolve_right (hnone _)

end Steps

/-- **Decrypt contexts converge**: with nothing pending, every context has the current password, the user its
metadata or else its last `decrypt` message names, and the key of the two; at all times, a mid has
a context only if a `decrypt` message came for it since the last `metadata` message that leaves it out. -/
theorem decryption_converges {s : System Key} (h : Reach (step crypto params) anyStep System.start s) :
    (Quiescent s.worker → ∀ mid c, s.worker.decryptContextByMid.lookup mid = some c →
      c.password = s.worker.password ∧ userOf s.history mid = some c.userId ∧
        c.key = if s.worker.password = "" then none
          else some (createKey crypto params s.worker.password c.userId)) ∧
    ∀ mid, ¬ DecryptedSince mid s.history → s.worker.decryptContextByMid.lookup mid = none := by
  have hC := converges_of_reach h
  refine ⟨fun hq mid c hl => hC.of_quiescent hq hl, fun mid hno => ?_⟩
  cases hl : s.worker.decryptContextByMid.lookup mid with
  | none => rfl
  | some c => exact absurd (hC.since hl) hno

/-- Metadata moves a mid to another user while the password is set. -/
theorem decryption_converges_example : ∃ s,
    exec (guarded (step plainCrypto ⟨"/room", "me"⟩) anyStep) System.start
      [.message (.decrypt "0" "sfu" true), .message (.password "a"), .complete (.encryptKey "a" true),
        .message (.metadata [⟨"0", "video", "alice", "s"⟩]), .complete .regenerate,
        .complete (.decryptKey "0" 1 "a" "alice")] = some s ∧
    (s.worker.pending = [] ∧ s.worker.decryptContextByMid.keys = ["0"]) ∧
    (∀ mid c, s.worker.decryptContextByMid.lookup mid = some c →
      c.password = s.worker.password ∧ userOf s.history mid = some c.userId ∧
        c.key = if s.worker.password = "" then none
          else some (createKey plainCrypto ⟨"/room", "me"⟩ s.worker.password c.userId)) ∧
    ∀ mid, ¬ DecryptedSince mid s.history → s.worker.decryptContextByMid.lookup mid = none :=
  exists_exec (by decide) fun _ hs hq => ⟨(decryption_converges hs).1 hq.1, (decryption_converges hs).2⟩

end Meeting.Insertable
