import Workflow.Proofs.Path.Acceptance
import Workflow.Proofs.PathUses

/-!
# The paths that elements carry

Which element carries a path, in which field and in which dialect, said element
by element: a state, a rule of a Choice state and a catcher have paths of their
own. `mem_pathUses_iff` ties that to the one list of paths by which a state is
checked, and so the check of a state comes down to what its elements carry.
-/

namespace Workflow

/-! ## Paths of an element -/

namespace State

/-- The rules of a Choice state. -/
def rules : State → List ChoiceRule
  | .choice s => s.rules
  | .pass _ | .task _ | .wait _ | .succeed _ | .fail _ | .parallel _ => []

/-- What a Wait state waits for. -/
def waitFor : State → Option WaitFor
  | .wait s => s.waitFor
  | .pass _ | .task _ | .choice _ | .succeed _ | .fail _ | .parallel _ => none

/-- The paths of its input and its output that a state is given, kind by kind.
A Fail state has neither. -/
def ends : State → Option String × Option String
  | .pass s => (s.inputPath, s.outputPath)
  | .task s => (s.inputPath, s.outputPath)
  | .wait s => (s.inputPath, s.outputPath)
  | .choice s => (s.inputPath, s.outputPath)
  | .succeed s => (s.inputPath, s.outputPath)
  | .fail _ => (none, none)
  | .parallel s => (s.inputPath, s.outputPath)

/-- A path in a field of the state itself. -/
inductive Carries (s : State) : Field → Path.Dialect → String → Prop where
  | inputPath {p : String} :
      s.ends.1 = some p → s.Carries .inputPath .general p
  | outputPath {p : String} :
      s.ends.2 = some p → s.Carries .outputPath .general p
  | resultPath {p : String} :
      s.resultPath = some p → s.Carries .resultPath .reference p
  | secondsPath {p : String} :
      s.waitFor = some (.secondsPath p) → s.Carries .secondsPath .reference p
  | timestampPath {p : String} :
      s.waitFor = some (.timestampPath p) →
        s.Carries .timestampPath .reference p

end State

/-- A path under test in the condition of a rule. -/
inductive ChoiceRule.Carries (rule : ChoiceRule) :
    Field → Path.Dialect → String → Prop where
  | subject {c : Condition} {test : Comparison} {p : String} :
      rule.condition = some c → Condition.PartOf (.comparison test) c →
        test.subject = some p → rule.Carries .subject .reference p

/-- The path to which a catcher writes the error. -/
inductive Catcher.Carries (c : Catcher) :
    Field → Path.Dialect → String → Prop where
  | resultPath {p : String} :
      c.resultPath = some p → c.Carries .resultPath .reference p

/-! ## The list of paths of a state -/

namespace PathUse

variable {location : Location} {field : Field} {d : Path.Dialect}
  {u : PathUse}

theorem mem_ofOption_iff {path : Option String} :
    u ∈ ofOption location field d path ↔
      ∃ p, path = some p ∧ u = ⟨location, field, d, p⟩ := by
  cases path with
  | none => simp [ofOption]
  | some p => simp [ofOption]

theorem mem_ofRule_iff {rule : ChoiceRule} :
    u ∈ ofRule location rule ↔
      u.location = location ∧ rule.Carries u.field u.dialect u.path := by
  rw [ofRule, List.mem_flatMap]
  simp only [Condition.mem_comparisonsOption_iff, mem_ofOption_iff]
  constructor
  · intro h
    obtain ⟨test, ⟨c, hc, htest⟩, p, hp, hu⟩ := h
    rw [hu]
    exact ⟨rfl, .subject hc htest hp⟩
  · obtain ⟨l, f, d, p⟩ := u
    intro h
    obtain ⟨hl, h⟩ := h
    cases h with
    | subject hc htest hp =>
        exact ⟨_, ⟨_, hc, htest⟩, p, hp, by rw [← hl]⟩

theorem mem_ofCatcher_iff {c : Catcher} :
    u ∈ ofOption location .resultPath .reference c.resultPath ↔
      u.location = location ∧ c.Carries u.field u.dialect u.path := by
  rw [mem_ofOption_iff]
  constructor
  · intro h
    obtain ⟨p, hp, hu⟩ := h
    rw [hu]
    exact ⟨rfl, .resultPath hp⟩
  · obtain ⟨l, f, d, p⟩ := u
    intro h
    obtain ⟨hl, h⟩ := h
    cases h with
    | resultPath hp => exact ⟨p, hp, by rw [← hl]⟩

/-- Rules and catchers are gone through in the same way, with an index that
counts up. -/
theorem mem_iff_of_indexed {α : Type} {uses : Nat → List α → List PathUse}
    (one : Nat → α → List PathUse) (hnil : ∀ n, uses n [] = [])
    (hcons : ∀ n a as, uses n (a :: as) = one n a ++ uses (n + 1) as)
    {as : List α} : ∀ {n : Nat}, u ∈ uses n as ↔
      ∃ i a, as[i]? = some a ∧ u ∈ one (n + i) a := by
  induction as with
  | nil => simp [hnil]
  | cons a as ih =>
      intro n
      rw [hcons, List.mem_append, ih]
      have hshift : ∀ i, n + 1 + i = n + (i + 1) := by omega
      simp only [hshift]
      constructor
      · intro h
        rcases h with h | ⟨i, b, hb, h⟩
        · exact ⟨0, a, rfl, h⟩
        · exact ⟨i + 1, b, hb, h⟩
      · intro h
        obtain ⟨i, b, hb, h⟩ := h
        cases i with
        | zero =>
            injection hb with hb
            exact .inl (hb ▸ h)
        | succ i => exact .inr ⟨i, b, hb, h⟩

theorem mem_ofRules_iff {rules : List ChoiceRule} :
    u ∈ ofRules location 0 rules ↔
      ∃ i rule, rules[i]? = some rule ∧ u.location = location.choice i ∧
        rule.Carries u.field u.dialect u.path := by
  rw [mem_iff_of_indexed (fun i => ofRule (location.choice i))
    (fun _ => rfl) (fun _ _ _ => rfl)]
  simp only [Nat.zero_add, mem_ofRule_iff]

theorem mem_ofCatchers_iff {catchers : List Catcher} :
    u ∈ ofCatchers location 0 catchers ↔
      ∃ i c, catchers[i]? = some c ∧ u.location = location.catcher i ∧
        c.Carries u.field u.dialect u.path := by
  rw [mem_iff_of_indexed (fun i (c : Catcher) =>
      ofOption (location.catcher i) .resultPath .reference c.resultPath)
    (fun _ => rfl) (fun _ _ _ => rfl)]
  simp only [Nat.zero_add, mem_ofCatcher_iff]

theorem mem_ofWaitFor_iff {w : Option WaitFor} :
    u ∈ ofWaitFor location w ↔
      u.location = location ∧ u.dialect = .reference ∧
        (u.field = .secondsPath ∧ w = some (.secondsPath u.path) ∨
          u.field = .timestampPath ∧ w = some (.timestampPath u.path)) := by
  obtain ⟨l, f, d, p⟩ := u
  cases w with
  | none => simp [ofWaitFor]
  | some w =>
      cases w <;> simp [ofWaitFor, and_left_comm, eq_comm (a := p)]

end PathUse

/-- What is in the list of a kind is in a field of it; the other kinds leave
that field empty. -/
theorem State.mem_pathUses_iff_fields {location : Location} {s : State}
    {u : PathUse} :
    u ∈ s.pathUses location ↔
      u ∈ PathUse.ofEnds location s.ends.1 s.ends.2 ∨
      u ∈ PathUse.ofOption location .resultPath .reference s.resultPath ∨
      u ∈ PathUse.ofCatchers location 0 s.catchers ∨
      u ∈ PathUse.ofWaitFor location s.waitFor ∨
      u ∈ PathUse.ofRules location 0 s.rules := by
  cases s <;>
    simp [pathUses, ends, resultPath, catchers, waitFor, rules, or_assoc,
      PathUse.ofEnds, PathUse.ofResult, PathUse.mem_ofOption_iff,
      PathUse.ofCatchers, PathUse.ofWaitFor, PathUse.ofRules]

/-- The list of paths of a state holds what the state, its rules and its
catchers carry, each path at its element. -/
theorem State.mem_pathUses_iff {location : Location} {s : State}
    {u : PathUse} :
    u ∈ s.pathUses location ↔
      u.location = location ∧ s.Carries u.field u.dialect u.path ∨
      (∃ i rule, s.rules[i]? = some rule ∧ u.location = location.choice i ∧
        rule.Carries u.field u.dialect u.path) ∨
      (∃ i c, s.catchers[i]? = some c ∧ u.location = location.catcher i ∧
        c.Carries u.field u.dialect u.path) := by
  simp only [mem_pathUses_iff_fields, PathUse.ofEnds, List.mem_append,
    PathUse.mem_ofCatchers_iff, PathUse.mem_ofRules_iff,
    PathUse.mem_ofOption_iff, PathUse.mem_ofWaitFor_iff]
  constructor
  · intro h
    rcases h with
      (⟨p, hp, rfl⟩ | ⟨p, hp, rfl⟩) | ⟨p, hp, rfl⟩ | h | h | h
    · exact .inl ⟨rfl, .inputPath hp⟩
    · exact .inl ⟨rfl, .outputPath hp⟩
    · exact .inl ⟨rfl, .resultPath hp⟩
    · exact .inr (.inr h)
    · obtain ⟨l, f, d, p⟩ := u
      obtain ⟨hl, rfl, ⟨rfl, hw⟩ | ⟨rfl, hw⟩⟩ := h
      · exact .inl ⟨hl, .secondsPath hw⟩
      · exact .inl ⟨hl, .timestampPath hw⟩
    · exact .inr (.inl h)
  · intro h
    rcases h with ⟨hl, h⟩ | h | h
    · obtain ⟨l, f, d, p⟩ := u
      obtain rfl : l = location := hl
      cases h with
      | inputPath hp => exact .inl (.inl ⟨p, hp, rfl⟩)
      | outputPath hp => exact .inl (.inr ⟨p, hp, rfl⟩)
      | resultPath hp => exact .inr (.inl ⟨p, hp, rfl⟩)
      | secondsPath hw =>
          exact .inr (.inr (.inr (.inl ⟨rfl, rfl, .inl ⟨rfl, hw⟩⟩)))
      | timestampPath hw =>
          exact .inr (.inr (.inr (.inl ⟨rfl, rfl, .inr ⟨rfl, hw⟩⟩)))
    · exact .inr (.inr (.inr (.inr h)))
    · exact .inr (.inr (.inl h))

/-- Every path of the state and of its rules and catchers is written in the
grammar of its dialect. -/
structure State.PathsWellFormed (s : State) : Prop where
  state : ∀ field d p, s.Carries field d p → Path.Written d p
  rule : ∀ rule ∈ s.rules, ∀ field d p, rule.Carries field d p →
    Path.Written d p
  catcher : ∀ c ∈ s.catchers, ∀ field d p, c.Carries field d p →
    Path.Written d p

theorem PathUse.check_eq_ok_iff {u : PathUse} :
    u.check = .ok () ↔ Path.Written u.dialect u.path := by
  rw [PathUse.check_eq_ok_iff_path, Path.check_eq_ok_iff]

namespace StatePaths

theorem checkState_eq_ok_iff {location : Location} {s : State} :
    checkState location s = .ok () ↔ s.PathsWellFormed := by
  simp only [checkState_eq_each, Verdict.each_eq_ok_iff,
    PathUse.check_eq_ok_iff]
  constructor
  · intro h
    refine ⟨fun field d p hp => ?_, fun rule hr field d p hp => ?_,
      fun c hc field d p hp => ?_⟩
    · exact h ⟨location, field, d, p⟩
        (State.mem_pathUses_iff.mpr (.inl ⟨rfl, hp⟩))
    · obtain ⟨i, hi⟩ := List.mem_iff_getElem?.mp hr
      exact h ⟨location.choice i, field, d, p⟩
        (State.mem_pathUses_iff.mpr (.inr (.inl ⟨i, rule, hi, rfl, hp⟩)))
    · obtain ⟨i, hi⟩ := List.mem_iff_getElem?.mp hc
      exact h ⟨location.catcher i, field, d, p⟩
        (State.mem_pathUses_iff.mpr (.inr (.inr ⟨i, c, hi, rfl, hp⟩)))
  · intro h u hu
    rcases State.mem_pathUses_iff.mp hu with
      ⟨-, hp⟩ | ⟨i, rule, hr, -, hp⟩ | ⟨i, c, hc, -, hp⟩
    · exact h.state _ _ _ hp
    · exact h.rule rule (List.mem_of_getElem? hr) _ _ _ hp
    · exact h.catcher c (List.mem_of_getElem? hc) _ _ _ hp

theorem checkStates_eq_ok_iff {location : Location} {states : States} :
    checkStates location states = .ok () ↔
      ∀ e ∈ states, e.state.PathsWellFormed := by
  simp only [checkStates, Verdict.each_eq_ok_iff, checkState_eq_ok_iff]

end StatePaths

end Workflow
