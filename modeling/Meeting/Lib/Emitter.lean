import Mathlib.Tactic.Common

/-!
# Meeting.Lib.Emitter — event emitters

An emitter keeps one list of listeners, in the order they were added; an event is emitted to a copy of its
listeners, so that what they add or remove has no effect on the call.  Everything about an emitter is said
of `view em e`, the listeners of one event.
-/

namespace Meeting.Lib

/-- The function `callback` listens to the event `event`, for one time only if `once`. -/
structure Listener (ε κ : Type*) where
  event : ε
  callback : κ
  once : Bool
  deriving DecidableEq, Repr

structure Emitter (ε κ : Type*) where
  listeners : List (Listener ε κ)
  deriving DecidableEq, Repr

namespace Emitter

variable {ε κ : Type*} [DecidableEq ε] {em : Emitter ε κ} {e e' : ε}

def empty : Emitter ε κ := ⟨[]⟩

def on (em : Emitter ε κ) (e : ε) (f : κ) : Emitter ε κ := ⟨em.listeners ++ [⟨e, f, false⟩]⟩

def once (em : Emitter ε κ) (e : ε) (f : κ) : Emitter ε κ := ⟨em.listeners ++ [⟨e, f, true⟩]⟩

def removeAllListeners (em : Emitter ε κ) (e : ε) : Emitter ε κ :=
  ⟨em.listeners.filter fun l => l.event ≠ e⟩

/-- The listeners of one event, and whether they listen once. -/
def view (em : Emitter ε κ) (e : ε) : List (κ × Bool) :=
  (em.listeners.filter fun l => l.event = e).map fun l => (l.callback, l.once)

/-- The functions that are called when `e` is emitted, and the listeners that are left. -/
def emit (em : Emitter ε κ) (e : ε) : List κ × Emitter ε κ :=
  ((em.view e).map Prod.fst, ⟨em.listeners.filter fun l => ¬ (l.event = e ∧ l.once)⟩)

@[simp] theorem view_empty (e : ε) : (empty : Emitter ε κ).view e = [] := rfl

@[simp] theorem view_on (em : Emitter ε κ) (e e' : ε) (f : κ) :
    (em.on e' f).view e = em.view e ++ if e' = e then [(f, false)] else [] := by
  by_cases h : e' = e <;> simp [view, on, h]

@[simp] theorem view_once (em : Emitter ε κ) (e e' : ε) (f : κ) :
    (em.once e' f).view e = em.view e ++ if e' = e then [(f, true)] else [] := by
  by_cases h : e' = e <;> simp [view, once, h]

@[simp] theorem view_removeAllListeners (em : Emitter ε κ) (e e' : ε) :
    (em.removeAllListeners e').view e = if e' = e then [] else em.view e := by
  unfold view removeAllListeners
  rw [List.filter_filter]
  by_cases h : e' = e
  · subst h
    simp
  · rw [if_neg h]
    congr 1
    refine List.filter_congr fun l _ => ?_
    by_cases hl : l.event = e
    · simp [hl, Ne.symm h]
    · simp [hl]

@[simp] theorem emit_fst (em : Emitter ε κ) (e : ε) : (em.emit e).1 = (em.view e).map Prod.fst := rfl

@[simp] theorem view_emit (em : Emitter ε κ) (e e' : ε) :
    (em.emit e').2.view e = if e' = e then (em.view e).filter fun l => l.2 = false else em.view e := by
  unfold view emit
  rw [List.filter_filter]
  by_cases h : e' = e
  · subst h
    rw [if_pos rfl, List.filter_map, List.filter_filter]
    congr 1
    refine List.filter_congr fun l _ => ?_
    by_cases hl : l.event = e' <;> simp [hl]
  · rw [if_neg h]
    congr 1
    refine List.filter_congr fun l _ => ?_
    by_cases hl : l.event = e
    · simp [hl, Ne.symm h]
    · simp [hl]

end Emitter

end Meeting.Lib
