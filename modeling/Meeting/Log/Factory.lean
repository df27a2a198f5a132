import Meeting.Lib.GoStrings

/-!
# Meeting.Log.Factory — which loggers are enabled (`logger/logger.go`)

A factory has a list of patterns, and a logger is enabled if the first pattern that matches its name has no `-` in front.
`Matches` is the grammar of the patterns: they match segment by segment, `*` stands for any segment, and at the end of a
shorter pattern for any segments.

`partsMatch` goes over the segments of the name only.  A pattern with more segments matches as soon as the name is used
up (`Overlong`), and a `*` at the end of a shorter one is not noticed where the name has a `*` itself (`Starred`).  These
are all differences (`partsMatch_eq_matches_iff`), so that a logger is enabled as documented when no such pattern is met
before one that matches (`enabled_as_documented`).
-/

namespace Meeting.Log

open Lib

structure WriterLogger where
  name : GoString
  enabled : Bool
  deriving DecidableEq

structure Factory where
  loggers : GoString → Option WriterLogger
  defaultEnabled : List GoString

def newFactory (enabled : List GoString) : Factory := ⟨fun _ => none, enabled⟩

/-- `NewFactoryFromEnv` with the value of the variable. -/
def newFactoryFromEnv (log : GoString) : Factory :=
  newFactory (if 0 < log.length then log.splitOn 0x2C else [])

/-- `split`: at the colons, and no parts for an empty name. -/
def split (name : GoString) : List GoString := if 0 < name.length then name.splitOn 0x3A else []

/-- The segment `"*"`. -/
def star : GoString := [0x2A]

/-- The loop of `partsMatch`, with the parts that are left. -/
def partsMatchLoop : List GoString → List GoString → Bool → Bool
  | [], _, _ => true
  | _ :: _, [], isLastWildcard => isLastWildcard
  | part :: parts, enabledPart :: enabledParts, _ =>
    if enabledPart = part then partsMatchLoop parts enabledParts false
    else if enabledPart = star then partsMatchLoop parts enabledParts true
    else false

def partsMatch (parts enabledParts : List GoString) : Bool := partsMatchLoop parts enabledParts false

/-- The pattern has no minus in front. -/
def positive (enabledName : GoString) : Bool := enabledName.head? != some 0x2D

/-- The pattern without a minus in front. -/
def unsigned (enabledName : GoString) : GoString := if positive enabledName then enabledName else enabledName.tail

/-- `Factory.isEnabled`, with the patterns that are left. -/
def isEnabled (parts : List GoString) : List GoString → Bool
  | [] => false
  | enabledName :: rest =>
    if partsMatch parts (split (unsigned enabledName)) then positive enabledName else isEnabled parts rest

def Factory.isEnabled (l : Factory) (name : GoString) : Bool := Log.isEnabled (split name) l.defaultEnabled

def Factory.getLogger (l : Factory) (name : GoString) : Factory × WriterLogger :=
  match l.loggers name with
  | some logger => (l, logger)
  | none =>
    let logger : WriterLogger := ⟨name, l.isEnabled name⟩
    ({ l with loggers := Function.update l.loggers name (some logger) }, logger)

def Factory.setDefaultEnabled (l : Factory) (names : List GoString) : Factory :=
  if l.defaultEnabled.length = 0 then
    let l := { l with defaultEnabled := names }
    { l with loggers := fun name => (l.loggers name).map fun logger =>
        if !logger.enabled then { logger with enabled := l.isEnabled name } else logger }
  else l

inductive Call where
  | getLogger (name : GoString)
  | setDefaultEnabled (names : List GoString)

def Factory.call (l : Factory) : Call → Factory
  | .getLogger name => (l.getLogger name).1
  | .setDefaultEnabled names => l.setDefaultEnabled names

/-! ### The grammar of the patterns -/

/-- Every segment that is compared is the same, or a `*` of the pattern. -/
def Agrees (pattern name : List GoString) : Prop := ∀ x ∈ pattern.zip name, x.1 = x.2 ∨ x.1 = star

/-- **The documented grammar**: the segments agree, and the pattern has as many as the name, or fewer and ends in `*`. -/
def Matches (pattern name : List GoString) : Prop :=
  Agrees pattern name ∧
    (pattern.length = name.length ∨ pattern.length < name.length ∧ pattern.getLast? = some star)

/-- The pattern has more segments than the name, and those of the name agree. -/
def Overlong (pattern name : List GoString) : Prop := Agrees pattern name ∧ name.length < pattern.length

/-- The pattern is shorter than the name and matches, and its last `*` is a `*` of the name, too. -/
def Starred (pattern name : List GoString) : Prop :=
  Agrees pattern name ∧ pattern.length < name.length ∧ pattern.getLast? = some star ∧
    name[pattern.length - 1]? = some star

instance : DecidableRel Agrees := fun pattern name =>
  inferInstanceAs (Decidable (∀ x ∈ pattern.zip name, x.1 = x.2 ∨ x.1 = star))

instance : DecidableRel Matches := fun _ _ => inferInstanceAs (Decidable (_ ∧ (_ ∨ _ ∧ _)))

instance : DecidableRel Overlong := fun _ _ => inferInstanceAs (Decidable (_ ∧ _))

instance : DecidableRel Starred := fun _ _ => inferInstanceAs (Decidable (_ ∧ _ ∧ _ ∧ _))

/-- The sign of the first pattern that counts. -/
def decision (counts : List GoString → Prop) [DecidablePred counts] : List GoString → Bool
  | [] => false
  | enabledName :: rest =>
    if counts (split (unsigned enabledName)) then positive enabledName else decision counts rest

/-- The name is enabled by the documented grammar. -/
def documented (enabled : List GoString) (name : GoString) : Bool :=
  decision (fun pattern => Matches pattern (split name)) enabled

/-- No pattern up to the first match, which is one of them, is overlong or starred. -/
def Unharmed (name : List GoString) : List GoString → Prop
  | [] => True
  | enabledName :: rest =>
    ¬ Overlong (split (unsigned enabledName)) name ∧ ¬ Starred (split (unsigned enabledName)) name ∧
      (Matches (split (unsigned enabledName)) name ∨ Unharmed name rest)

instance decidableUnharmed (name : List GoString) : DecidablePred (Unharmed name)
  | [] => isTrue trivial
  | _ :: rest =>
    have := decidableUnharmed name rest
    inferInstanceAs (Decidable (¬ _ ∧ ¬ _ ∧ (_ ∨ _)))

/-! ### What the loop matches -/

theorem agrees_cons {p n : GoString} {pattern name : List GoString} :
    Agrees (p :: pattern) (n :: name) ↔ (p = n ∨ p = star) ∧ Agrees pattern name := by
  simp [Agrees]

/-- **The loop of `partsMatch`**: all segments of the name agree, or the pattern is used up after a `*` against another
segment. -/
theorem partsMatchLoop_iff : ∀ (parts enabledParts : List GoString) (isLastWildcard : Bool),
    partsMatchLoop parts enabledParts isLastWildcard = true ↔ Agrees enabledParts parts ∧
      (parts.length ≤ enabledParts.length ∨ enabledParts.length < parts.length ∧
        (enabledParts = [] ∧ isLastWildcard = true ∨
          enabledParts.getLast? = some star ∧ parts[enabledParts.length - 1]? ≠ some star))
  | [], enabledParts, isLastWildcard => by simp [partsMatchLoop, Agrees]
  | part :: parts, [], isLastWildcard => by simp [partsMatchLoop, Agrees]
  | part :: parts, enabledPart :: enabledParts, isLastWildcard => by
    rw [partsMatchLoop, agrees_cons, List.length_cons, List.length_cons, Nat.add_sub_cancel]
    by_cases hsame : enabledPart = part
    · rw [if_pos hsame, partsMatchLoop_iff parts enabledParts false]
      cases enabledParts with
      | nil => simp [hsame]
      | cons e es => simp [hsame, List.getLast?_cons_cons]
    · rw [if_neg hsame]
      by_cases hstar : enabledPart = star
      · rw [if_pos hstar, partsMatchLoop_iff parts enabledParts true]
        cases enabledParts with
        | nil =>
          have hne : part ≠ star := fun h => hsame (hstar.trans h.symm)
          simp [hstar, hne]
        | cons e es => simp [hstar, List.getLast?_cons_cons]
      · rw [if_neg hstar]
        simp [hsame, hstar]

/-- What `partsMatch` takes for a match. -/
theorem partsMatch_iff (parts enabledParts : List GoString) : partsMatch parts enabledParts = true ↔
    Matches enabledParts parts ∧ ¬ Starred enabledParts parts ∨ Overlong enabledParts parts := by
  unfold partsMatch Matches Starred Overlong
  rw [partsMatchLoop_iff]
  constructor
  · rintro ⟨hagrees, hle | ⟨hlt, ⟨-, hfalse⟩ | ⟨hlast, hother⟩⟩⟩
    · rcases Nat.eq_or_lt_of_le hle with heq | hlt
      · exact Or.inl ⟨⟨hagrees, Or.inl heq.symm⟩, fun h => absurd h.2.1 (by omega)⟩
      · exact Or.inr ⟨hagrees, hlt⟩
    · cases hfalse
    · exact Or.inl ⟨⟨hagrees, Or.inr ⟨hlt, hlast⟩⟩, fun h => hother h.2.2.2⟩
  · rintro (⟨⟨hagrees, heq | ⟨hlt, hlast⟩⟩, hnot⟩ | ⟨hagrees, hlt⟩)
    · exact ⟨hagrees, Or.inl heq.ge⟩
    · exact ⟨hagrees, Or.inr ⟨hlt, Or.inr ⟨hlast, fun h => hnot ⟨hagrees, hlt, hlast, h⟩⟩⟩⟩
    · exact ⟨hagrees, Or.inl hlt.le⟩

theorem Overlong.not_matches {pattern name : List GoString} (h : Overlong pattern name) : ¬ Matches pattern name := by
  have hlonger := h.2
  rintro ⟨-, heq | ⟨hlt, -⟩⟩
  · omega
  · omega

theorem Starred.matches {pattern name : List GoString} (h : Starred pattern name) : Matches pattern name :=
  ⟨h.1, Or.inr ⟨h.2.1, h.2.2.1⟩⟩

/-- **The matcher follows the grammar** exactly where the pattern is neither overlong nor starred. -/
theorem partsMatch_eq_matches_iff (parts enabledParts : List GoString) :
    (partsMatch parts enabledParts = true ↔ Matches enabledParts parts) ↔
      ¬ Overlong enabledParts parts ∧ ¬ Starred enabledParts parts := by
  rw [partsMatch_iff]
  constructor
  · intro h
    have hlong : ¬ Overlong enabledParts parts := fun hlong => hlong.not_matches (h.mp (Or.inr hlong))
    refine ⟨hlong, fun hstarred => ?_⟩
    rcases h.mpr hstarred.matches with ⟨-, hnot⟩ | hlong'
    · exact hnot hstarred
    · exact hlong hlong'
  · rintro ⟨hlong, hstarred⟩
    rw [or_iff_left hlong, and_iff_left hstarred]

/-- The first match decides as documented. -/
theorem Unharmed.isEnabled_eq {parts : List GoString} : ∀ {enabled : List GoString}, Unharmed parts enabled →
    isEnabled parts enabled = decision (fun pattern => Matches pattern parts) enabled
  | [], _ => rfl
  | enabledName :: rest, ⟨hlong, hstarred, hnext⟩ => by
    have hsame := (partsMatch_eq_matches_iff parts (split (unsigned enabledName))).mpr ⟨hlong, hstarred⟩
    rw [isEnabled, decision]
    by_cases hmatch : Matches (split (unsigned enabledName)) parts
    · rw [if_pos hmatch, if_pos (hsame.mpr hmatch)]
    · rw [if_neg hmatch, if_neg fun h => hmatch (hsame.mp h)]
      exact Unharmed.isEnabled_eq (hnext.resolve_left hmatch)

/-! ### The loggers of a factory -/

/-- Every logger that was created is enabled as its name is by the patterns. -/
def Consistent (l : Factory) : Prop := ∀ name logger, l.loggers name = some logger → logger.enabled = l.isEnabled name

theorem Consistent.call {l : Factory} (h : Consistent l) (c : Call) : Consistent (l.call c) := by
  cases c with
  | getLogger name =>
    show Consistent (l.getLogger name).1
    unfold Factory.getLogger
    cases hlook : l.loggers name with
    | some logger => exact h
    | none =>
      intro name' logger hname'
      dsimp only at hname'
      by_cases hn : name' = name
      · subst hn
        rw [Function.update_self] at hname'
        obtain rfl := Option.some.inj hname'
        rfl
      · rw [Function.update_of_ne hn] at hname'
        exact h name' logger hname'
  | setDefaultEnabled names =>
    show Consistent (l.setDefaultEnabled names)
    unfold Factory.setDefaultEnabled
    split_ifs with hempty
    · intro name logger hname
      obtain ⟨old, hold, rfl⟩ := Option.map_eq_some_iff.mp hname
      -- without patterns no logger was enabled
      have hfalse : old.enabled = false := by
        rw [h name old hold, Factory.isEnabled, List.length_eq_zero_iff.mp hempty, Log.isEnabled]
      rw [hfalse]
      rfl
    · exact h

theorem consistent_calls (enabled : List GoString) (calls : List Call) :
    Consistent (calls.foldl Factory.call (newFactory enabled)) := by
  have hrun : ∀ (calls : List Call) (l : Factory), Consistent l → Consistent (calls.foldl Factory.call l) := by
    intro calls
    induction calls with
    | nil => exact fun l h => h
    | cons c calls ih => exact fun l h => ih _ (h.call c)
  exact hrun calls _ fun name logger h => by cases h

theorem Consistent.getLogger {l : Factory} (h : Consistent l) (name : GoString) :
    (l.getLogger name).2.enabled = l.isEnabled name := by
  unfold Factory.getLogger
  cases hlook : l.loggers name with
  | some logger => exact h name logger hlook
  | none => rfl

/-- **When wildcards follow their grammar**: a pattern matches as documented exactly if it is neither overlong nor starred
for the name, and after any calls `GetLogger` returns a logger that is enabled as documented if no pattern up to the first
match is. -/
theorem enabled_as_documented (enabled : List GoString) (calls : List Call) (name : GoString) :
    (∀ parts pattern : List GoString, (partsMatch parts pattern = true ↔ Matches pattern parts) ↔
      ¬ Overlong pattern parts ∧ ¬ Starred pattern parts) ∧
    (Unharmed (split name) (calls.foldl Factory.call (newFactory enabled)).defaultEnabled →
      ((calls.foldl Factory.call (newFactory enabled)).getLogger name).2.enabled =
        documented (calls.foldl Factory.call (newFactory enabled)).defaultEnabled name) := by
  refine ⟨partsMatch_eq_matches_iff, fun h => ?_⟩
  rw [(consistent_calls enabled calls).getLogger, Factory.isEnabled]
  exact h.isEnabled_eq

/-- A logger is created, and then all but `myproject:a:b` are enabled. -/
def enableAllButOne : List Call :=
  [.getLogger (GoString.ofString "myproject:c"),
    .setDefaultEnabled [GoString.ofString "-myproject:a:b", GoString.ofString "*"]]

theorem enabled_as_documented_example :
    ((enableAllButOne.foldl Factory.call (newFactory [])).getLogger (GoString.ofString "myproject:c")).2.enabled = true :=
  ((enabled_as_documented [] enableAllButOne (GoString.ofString "myproject:c")).2 (by decide +kernel)).trans
    (by decide +kernel)

/-- To enable all loggers but `myproject:a:b`: `myproject` is disabled, too. -/
theorem overlong_disables :
    ((newFactoryFromEnv (GoString.ofString "-myproject:a:b,*")).getLogger (GoString.ofString "myproject")).2.enabled =
        false ∧
      documented (newFactoryFromEnv (GoString.ofString "-myproject:a:b,*")).defaultEnabled
        (GoString.ofString "myproject") = true := by
  decide +kernel

-- An overlong pattern does not show where the patterns behind it decide on its sign.
example : ¬ Unharmed (split (GoString.ofString "a")) [GoString.ofString "-a:b"] ∧
    ((newFactory [GoString.ofString "-a:b"]).getLogger (GoString.ofString "a")).2.enabled =
      documented [GoString.ofString "-a:b"] (GoString.ofString "a") := by
  decide +kernel

end Meeting.Log
