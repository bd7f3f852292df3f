import Workflow.Graph
import Workflow.Violation

/-!
# Renaming the states of a definition

`Machine.rename f` gives every state the name that `f` has for it, where it is
declared and wherever it is referred to: at the start, in transitions, rules,
defaults and catchers, in all scopes. Whether anything looks at a name in
another way than to compare it is what the other files of this directory are
about; here is only what a renamed definition looks like.
-/

namespace Workflow

/-! ## Parts without scopes inside them -/

def Transition.rename (f : String → String) : Transition → Transition
  | .next target => .next (f target)
  | .finish => .finish

def Catcher.rename (f : String → String) (c : Catcher) : Catcher :=
  { c with next := c.next.map f }

def ChoiceRule.rename (f : String → String) (rule : ChoiceRule) : ChoiceRule :=
  { rule with next := rule.next.map f }

/-! ## Scopes -/

mutual

/-- The definition with its states renamed, in all of its scopes. -/
def Machine.rename (f : String → String) : Machine → Machine
  | ⟨comment, version, timeout, startAt, states⟩ =>
    ⟨comment, version, timeout, startAt.map f, Entry.renameEach f states⟩

/-- The declarations of a scope under their new names. -/
def Entry.renameEach (f : String → String) : List Entry → List Entry
  | [] => []
  | ⟨name, state⟩ :: rest => ⟨f name, state.rename f⟩ :: Entry.renameEach f rest

/-- The state with the new names of the states that it goes on to, and those of
its branches. -/
def State.rename (f : String → String) : State → State
  | .pass s => .pass { s with transition := s.transition.map (.rename f) }
  | .task s => .task { s with
      catchers := s.catchers.map (.rename f)
      transition := s.transition.map (.rename f) }
  | .wait s => .wait { s with transition := s.transition.map (.rename f) }
  | .choice s => .choice { s with
      rules := s.rules.map (.rename f)
      defaultState := s.defaultState.map f }
  | .succeed s => .succeed s
  | .fail s => .fail s
  | .parallel s => .parallel (s.rename f)

/-- The Parallel state with the new names of the states that it goes on to, and
those of its branches. -/
def ParallelState.rename (f : String → String) : ParallelState → ParallelState
  | ⟨comment, input, output, result, branches, retriers, catchers, transition⟩ =>
    ⟨comment, input, output, result, Branch.renameEach f branches, retriers,
      catchers.map (.rename f), transition.map (.rename f)⟩

/-- The branches with the states of each renamed. -/
def Branch.renameEach (f : String → String) : List Branch → List Branch
  | [] => []
  | ⟨comment, machine⟩ :: rest =>
    ⟨comment, machine.rename f⟩ :: Branch.renameEach f rest

end

def Entry.rename (f : String → String) (e : Entry) : Entry :=
  ⟨f e.name, e.state.rename f⟩

def Branch.rename (f : String → String) (b : Branch) : Branch :=
  { b with machine := b.machine.rename f }

/-! ## Violations -/

/-- The step into the renamed definition. -/
def Step.rename (f : String → String) : Step → Step
  | .state name => .state (f name)
  | .branch i => .branch i
  | .choice i => .choice i
  | .retrier i => .retrier i
  | .catcher i => .catcher i

def Location.rename (f : String → String) (l : Location) : Location :=
  ⟨l.steps.map (.rename f)⟩

/-- The problem with the name that it is about, if it is about a name. -/
def Problem.rename (f : String → String) : Problem → Problem
  | .unknownTarget target => .unknownTarget (f target)
  | .duplicateName name => .duplicateName (f name)
  | problem => problem

/-- The violation as it is reported of the renamed definition. -/
def Violation.rename (f : String → String) (v : Violation) : Violation :=
  ⟨v.location.rename f, v.problem.rename f⟩

/-! ## What a renamed element looks like -/

section Elements

variable {f : String → String}

theorem Entry.renameEach_eq_map (es : List Entry) :
    Entry.renameEach f es = es.map (Entry.rename f) := by
  induction es with
  | nil => rfl
  | cons e rest ih =>
      obtain ⟨name, state⟩ := e
      rw [Entry.renameEach, ih]
      rfl

theorem Branch.renameEach_eq_map (bs : List Branch) :
    Branch.renameEach f bs = bs.map (Branch.rename f) := by
  induction bs with
  | nil => rfl
  | cons b rest ih =>
      obtain ⟨comment, m⟩ := b
      rw [Branch.renameEach, ih]
      rfl

namespace Machine

@[simp] theorem startAt_rename (m : Machine) :
    (m.rename f).startAt = m.startAt.map f := by
  cases m
  rfl

@[simp] theorem timeoutSeconds_rename (m : Machine) :
    (m.rename f).timeoutSeconds = m.timeoutSeconds := by
  cases m
  rfl

@[simp] theorem states_rename (m : Machine) :
    (m.rename f).states = m.states.map (Entry.rename f) := by
  rw [← Entry.renameEach_eq_map]
  cases m
  rfl

end Machine

namespace State

variable (s : State)

@[simp] theorem catchers_rename :
    (s.rename f).catchers = s.catchers.map (Catcher.rename f) := by
  cases s with
  | parallel p => cases p; rfl
  | _ => rfl

@[simp] theorem branches_rename :
    (s.rename f).branches = s.branches.map (Branch.rename f) := by
  cases s with
  | parallel p =>
      cases p
      exact Branch.renameEach_eq_map _
  | _ => rfl

end State

theorem ChoiceRule.filterMap_next_rename (rules : List ChoiceRule) :
    (rules.map (ChoiceRule.rename f)).filterMap ChoiceRule.next =
      (rules.filterMap ChoiceRule.next).map f := by
  rw [List.filterMap_map, List.map_filterMap]
  rfl

theorem Transition.target?_rename (t : Option Transition) :
    ((t.map (Transition.rename f)).bind Transition.target?) =
      (t.bind Transition.target?).map f := by
  rcases t with _ | _ | _ <;> rfl

namespace State

variable (s : State)

theorem nextTargets_rename :
    (s.rename f).nextTargets = s.nextTargets.map f := by
  have hplain : ∀ t : Option Transition,
      ((t.map (Transition.rename f)).bind Transition.target?).toList =
        ((t.bind Transition.target?).toList).map f := by
    intro t
    rw [Transition.target?_rename]
    cases t.bind Transition.target? <;> rfl
  cases s with
  | choice s =>
      change (s.rules.map (ChoiceRule.rename f)).filterMap ChoiceRule.next ++
        (s.defaultState.map f).toList = _
      rw [ChoiceRule.filterMap_next_rename, nextTargets, List.map_append]
      cases s.defaultState <;> rfl
  | parallel s => cases s; exact hplain _
  | pass s => exact hplain _
  | task s => exact hplain _
  | wait s => exact hplain _
  | succeed s => rfl
  | fail s => rfl

theorem catchTargets_rename :
    (s.rename f).catchTargets = s.catchTargets.map f := by
  rw [catchTargets, catchTargets, catchers_rename, List.filterMap_map,
    List.map_filterMap]
  rfl

theorem targets_rename : (s.rename f).targets = s.targets.map f := by
  rw [targets_eq_append, targets_eq_append, nextTargets_rename,
    catchTargets_rename, List.map_append]

end State

end Elements

/-! ## Renaming nothing -/

theorem Transition.rename_id : Transition.rename id = id := by
  funext t
  cases t <;> rfl

theorem Catcher.rename_id : Catcher.rename id = id := by
  funext c
  simp [rename]

theorem ChoiceRule.rename_id : ChoiceRule.rename id = id := by
  funext rule
  simp [rename]

theorem Step.rename_id : Step.rename id = id := by
  funext step
  cases step <;> rfl

theorem Problem.rename_id (p : Problem) : p.rename id = p := by
  cases p <;> rfl

mutual

theorem Machine.rename_id : (m : Machine) → m.rename id = m
  | ⟨_, _, _, startAt, states⟩ => by
      rw [Machine.rename, Option.map_id, Entry.renameEach_id states]
      rfl

theorem Entry.renameEach_id : (es : List Entry) → Entry.renameEach id es = es
  | [] => rfl
  | ⟨name, state⟩ :: rest => by
      rw [Entry.renameEach, State.rename_id state, Entry.renameEach_id rest]
      rfl

theorem State.rename_id : (s : State) → s.rename id = s
  | .pass s => by simp [State.rename, Transition.rename_id]
  | .task s => by
      simp [State.rename, Transition.rename_id, Catcher.rename_id]
  | .wait s => by simp [State.rename, Transition.rename_id]
  | .choice s => by simp [State.rename, ChoiceRule.rename_id]
  | .succeed s => rfl
  | .fail s => rfl
  | .parallel s => by rw [State.rename, ParallelState.rename_id s]

theorem ParallelState.rename_id : (s : ParallelState) → s.rename id = s
  | ⟨_, _, _, _, branches, _, _, _⟩ => by
      simp [ParallelState.rename, Branch.renameEach_id branches,
        Transition.rename_id, Catcher.rename_id]

theorem Branch.renameEach_id : (bs : List Branch) →
    Branch.renameEach id bs = bs
  | [] => rfl
  | ⟨comment, machine⟩ :: rest => by
      rw [Branch.renameEach, Machine.rename_id machine,
        Branch.renameEach_id rest]

end

end Workflow
