import Workflow.Equality
import Workflow.Proofs.Equality.Values
import Workflow.Proofs.WellFormed

/-!
# Equality of machines

Equality of machines is decided by a walk over both at once, through five
mutually recursive functions. Here it is said one scope at a time: two machines
are equal if they agree outside their states and have equal states under the
same names in the same order (`Machine.beq_iff`), and two Parallel states are
equal if their branches run equal machines (`State.beq_iff`). What is proved
about equality goes by `Machine.induction` over these two.

Equality is symmetric and transitive. A machine need not be equal to itself, but
all that can prevent it is a rate that is not a number, and no such machine is
accepted (`equal_partial`).
-/

namespace Workflow

/-! ## States without branches -/

deriving instance ReflBEq, LawfulBEq for Catcher
deriving instance ReflBEq, LawfulBEq for WaitState
deriving instance ReflBEq, LawfulBEq for SucceedState
deriving instance ReflBEq, LawfulBEq for FailState

theorem PassState.beq_iff (a b : PassState) : (a == b) = true ↔
    { a with result := none } = { b with result := none } ∧
      (a.result == b.result) = true := by
  obtain ⟨comment, input, output, path, result, transition⟩ := a
  obtain ⟨comment', input', output', path', result', transition'⟩ := b
  change (comment == comment' && (input == input' && (output == output' &&
    (path == path' && (result == result' && transition == transition'))))) =
      true ↔ _
  simp only [Bool.and_eq_true, beq_iff_eq, PassState.mk.injEq]
  tauto

instance : PartialEquivBEq PassState :=
  partialEquivBEq_of_part PassState.beq_iff

instance : ReflBEq PassState where
  rfl := (PassState.beq_iff _ _).mpr ⟨rfl, BEq.rfl⟩

theorem TaskState.beq_iff (a b : TaskState) : (a == b) = true ↔
    { a with retriers := [] } = { b with retriers := [] } ∧
      (a.retriers == b.retriers) = true := by
  obtain ⟨comment, input, output, path, resource, timeout, heartbeat, retriers,
    catchers, transition⟩ := a
  obtain ⟨comment', input', output', path', resource', timeout', heartbeat',
    retriers', catchers', transition'⟩ := b
  change (comment == comment' && (input == input' && (output == output' &&
    (path == path' && (resource == resource' && (timeout == timeout' &&
      (heartbeat == heartbeat' && (retriers == retriers' &&
        (catchers == catchers' && transition == transition'))))))))) =
      true ↔ _
  simp only [Bool.and_eq_true, beq_iff_eq, TaskState.mk.injEq]
  tauto

instance : PartialEquivBEq TaskState :=
  partialEquivBEq_of_part TaskState.beq_iff

theorem ChoiceState.beq_iff (a b : ChoiceState) : (a == b) = true ↔
    { a with rules := [] } = { b with rules := [] } ∧
      (a.rules == b.rules) = true := by
  obtain ⟨comment, input, output, rules, default⟩ := a
  obtain ⟨comment', input', output', rules', default'⟩ := b
  change (comment == comment' && (input == input' && (output == output' &&
    (rules == rules' && default == default')))) = true ↔ _
  simp only [Bool.and_eq_true, beq_iff_eq, ChoiceState.mk.injEq]
  tauto

instance : PartialEquivBEq ChoiceState :=
  partialEquivBEq_of_part ChoiceState.beq_iff

instance : ReflBEq ChoiceState where
  rfl := (ChoiceState.beq_iff _ _).mpr ⟨rfl, BEq.rfl⟩

/-! ## One scope at a time -/

/-- Branches that run equal machines. -/
structure Branch.Same (b c : Branch) : Prop where
  comment : b.comment = c.comment
  machine : (b.machine == c.machine) = true

/-- Equal states under the same name. -/
structure Entry.Same (e f : Entry) : Prop where
  name : e.name = f.name
  state : (e.state == f.state) = true

/-- Parallel states that agree outside their branches and retriers, and have
equal ones of these in the same order. -/
structure ParallelState.Same (s t : ParallelState) : Prop where
  rest : { s with branches := [], retriers := [] } =
    { t with branches := [], retriers := [] }
  branches : List.Forall₂ Branch.Same s.branches t.branches
  retriers : (s.retriers == t.retriers) = true

/-- States of one kind that are equal as such. -/
inductive State.Same : State → State → Prop where
  | pass {s t : PassState} : (s == t) = true → Same (.pass s) (.pass t)
  | task {s t : TaskState} : (s == t) = true → Same (.task s) (.task t)
  | wait {s : WaitState} : Same (.wait s) (.wait s)
  | choice {s t : ChoiceState} : (s == t) = true → Same (.choice s) (.choice t)
  | succeed {s : SucceedState} : Same (.succeed s) (.succeed s)
  | fail {s : FailState} : Same (.fail s) (.fail s)
  | parallel {s t : ParallelState} : s.Same t → Same (.parallel s) (.parallel t)

theorem Branch.equalEach_iff {bs cs : List Branch} :
    Branch.equalEach bs cs = true ↔ List.Forall₂ Branch.Same bs cs := by
  induction bs generalizing cs with
  | nil => cases cs <;> simp [Branch.equalEach]
  | cons b bs ih =>
      cases cs with
      | nil => simp [Branch.equalEach]
      | cons c cs =>
          obtain ⟨comment, m⟩ := b
          obtain ⟨comment', m'⟩ := c
          rw [Branch.equalEach, Bool.and_eq_true, Bool.and_eq_true, beq_iff_eq,
            ih, List.forall₂_cons]
          exact and_congr_left fun _ => ⟨fun h => ⟨h.1, h.2⟩,
            fun h => ⟨h.comment, h.machine⟩⟩

theorem Entry.equalEach_iff {es fs : List Entry} :
    Entry.equalEach es fs = true ↔ List.Forall₂ Entry.Same es fs := by
  induction es generalizing fs with
  | nil => cases fs <;> simp [Entry.equalEach]
  | cons e es ih =>
      cases fs with
      | nil => simp [Entry.equalEach]
      | cons f fs =>
          obtain ⟨name, state⟩ := e
          obtain ⟨name', state'⟩ := f
          rw [Entry.equalEach, Bool.and_eq_true, Bool.and_eq_true, beq_iff_eq,
            ih, List.forall₂_cons]
          exact and_congr_left fun _ => ⟨fun h => ⟨h.1, h.2⟩,
            fun h => ⟨h.name, h.state⟩⟩

theorem ParallelState.equal_iff {s t : ParallelState} :
    s.equal t = true ↔ s.Same t := by
  obtain ⟨comment, input, output, path, branches, retriers, catchers,
    transition⟩ := s
  obtain ⟨comment', input', output', path', branches', retriers', catchers',
    transition'⟩ := t
  simp only [ParallelState.equal, Bool.and_eq_true, beq_iff_eq,
    Branch.equalEach_iff]
  constructor
  · rintro ⟨⟨⟨⟨⟨⟨⟨rfl, rfl⟩, rfl⟩, rfl⟩, hbranches⟩, hretriers⟩, rfl⟩, rfl⟩
    exact ⟨rfl, hbranches, hretriers⟩
  · rintro ⟨hrest, hbranches, hretriers⟩
    cases hrest
    exact ⟨⟨⟨⟨⟨⟨⟨rfl, rfl⟩, rfl⟩, rfl⟩, hbranches⟩, hretriers⟩, rfl⟩, rfl⟩

theorem State.beq_iff {s t : State} : (s == t) = true ↔ s.Same t := by
  change s.equal t = true ↔ _
  constructor
  · intro h
    cases s <;> cases t <;>
      simp only [State.equal, Bool.false_eq_true] at h
    · exact .pass h
    · exact .task h
    · rw [eq_of_beq h]
      exact .wait
    · exact .choice h
    · rw [eq_of_beq h]
      exact .succeed
    · rw [eq_of_beq h]
      exact .fail
    · exact .parallel (ParallelState.equal_iff.mp h)
  · intro h
    cases h with
    | pass h | task h | choice h => simpa only [State.equal] using h
    | wait | succeed | fail => simp only [State.equal, BEq.rfl]
    | parallel h =>
        rw [State.equal]
        exact ParallelState.equal_iff.mpr h

theorem Machine.beq_iff {a b : Machine} : (a == b) = true ↔
    { a with states := [] } = { b with states := [] } ∧
      List.Forall₂ Entry.Same a.states b.states := by
  obtain ⟨comment, version, timeout, start, states⟩ := a
  obtain ⟨comment', version', timeout', start', states'⟩ := b
  change Machine.equal _ _ = true ↔ _
  simp only [Machine.equal, Bool.and_eq_true, beq_iff_eq, Entry.equalEach_iff,
    Machine.mk.injEq]
  tauto

/-! ## Symmetry and transitivity -/

theorem State.symm_of_branches {s t : State}
    (ih : ∀ b ∈ s.branches, ∀ m : Machine,
      (b.machine == m) = true → (m == b.machine) = true)
    (h : (s == t) = true) : (t == s) = true := by
  rw [State.beq_iff] at h ⊢
  cases h with
  | pass h => exact .pass (BEq.symm h)
  | task h => exact .task (BEq.symm h)
  | wait => exact .wait
  | choice h => exact .choice (BEq.symm h)
  | succeed => exact .succeed
  | fail => exact .fail
  | parallel h =>
      refine .parallel ⟨h.rest.symm, ?_, BEq.symm h.retriers⟩
      exact forall₂_symm_of_mem
        (fun b hb _ h => ⟨h.comment.symm, ih b hb _ h.machine⟩) h.branches

theorem State.trans_of_branches {s t u : State}
    (ih : ∀ b ∈ s.branches, ∀ m n : Machine,
      (b.machine == m) = true → (m == n) = true → (b.machine == n) = true)
    (h : (s == t) = true) (h' : (t == u) = true) : (s == u) = true := by
  rw [State.beq_iff] at h h' ⊢
  cases h with
  | pass h => cases h' with | pass h' => exact .pass (BEq.trans h h')
  | task h => cases h' with | task h' => exact .task (BEq.trans h h')
  | choice h => cases h' with | choice h' => exact .choice (BEq.trans h h')
  | wait | succeed | fail => exact h'
  | parallel h =>
      cases h' with
      | parallel h' =>
          refine .parallel ⟨h.rest.trans h'.rest, ?_,
            BEq.trans h.retriers h'.retriers⟩
          exact forall₂_trans_of_mem (fun b hb _ _ h h' =>
            ⟨h.comment.trans h'.comment, ih b hb _ _ h.machine h'.machine⟩)
            h.branches h'.branches

theorem Machine.symm_of_beq {a b : Machine} (h : (a == b) = true) :
    (b == a) = true := by
  induction a using Machine.induction generalizing b with
  | step a ih =>
      rw [Machine.beq_iff] at h ⊢
      refine ⟨h.1.symm, forall₂_symm_of_mem (fun e he f h => ?_) h.2⟩
      exact ⟨h.name.symm,
        State.symm_of_branches (fun b hb _ => ih e he b hb) h.state⟩

theorem Machine.trans_of_beq {a b c : Machine} (h : (a == b) = true)
    (h' : (b == c) = true) : (a == c) = true := by
  induction a using Machine.induction generalizing b c with
  | step a ih =>
      rw [Machine.beq_iff] at h h' ⊢
      refine ⟨h.1.trans h'.1,
        forall₂_trans_of_mem (fun e he f g h h' => ?_) h.2 h'.2⟩
      exact ⟨h.name.trans h'.name,
        State.trans_of_branches (fun b hb _ _ => ih e he b hb) h.state
          h'.state⟩

instance : PartialEquivBEq Machine where
  symm := Machine.symm_of_beq
  trans := Machine.trans_of_beq

/-! ## Machines that equal themselves -/

theorem retriers_beq_self_iff {retriers : List Retrier} :
    (retriers == retriers) = true ↔
      ∀ r ∈ retriers, r.backoffRate ≠ some .nan := by
  simp only [list_beq_iff, List.forall₂_same, Retrier.beq_self_iff]

theorem State.beq_self_iff {s : State} : (s == s) = true ↔
    (∀ r ∈ s.retriers, r.backoffRate ≠ some .nan) ∧
      ∀ b ∈ s.branches, (b.machine == b.machine) = true := by
  rw [State.beq_iff]
  cases s with
  | pass s =>
      exact iff_of_true (.pass BEq.rfl)
        ⟨List.forall_mem_nil _, List.forall_mem_nil _⟩
  | wait s =>
      exact iff_of_true .wait ⟨List.forall_mem_nil _, List.forall_mem_nil _⟩
  | choice s =>
      exact iff_of_true (.choice BEq.rfl)
        ⟨List.forall_mem_nil _, List.forall_mem_nil _⟩
  | succeed s =>
      exact iff_of_true .succeed
        ⟨List.forall_mem_nil _, List.forall_mem_nil _⟩
  | fail s =>
      exact iff_of_true .fail ⟨List.forall_mem_nil _, List.forall_mem_nil _⟩
  | task s =>
      constructor
      · intro h
        cases h with
        | task h =>
            exact ⟨retriers_beq_self_iff.mp ((TaskState.beq_iff _ _).mp h).2,
              List.forall_mem_nil _⟩
      · intro h
        exact .task ((TaskState.beq_iff _ _).mpr
          ⟨rfl, retriers_beq_self_iff.mpr h.1⟩)
  | parallel s =>
      constructor
      · intro h
        cases h with
        | parallel h =>
            exact ⟨retriers_beq_self_iff.mp h.retriers, fun b hb =>
              (List.forall₂_same.mp h.branches b hb).machine⟩
      · intro h
        exact .parallel ⟨rfl,
          List.forall₂_same.mpr fun b hb => ⟨rfl, h.2 b hb⟩,
          retriers_beq_self_iff.mpr h.1⟩

theorem Machine.beq_self_iff_of_states {m : Machine} : (m == m) = true ↔
    ∀ e ∈ m.states, (∀ r ∈ e.state.retriers, r.backoffRate ≠ some .nan) ∧
      ∀ b ∈ e.state.branches, (b.machine == b.machine) = true := by
  rw [Machine.beq_iff, and_iff_right rfl, List.forall₂_same]
  refine forall₂_congr fun e _ => ?_
  rw [← State.beq_self_iff]
  exact ⟨Entry.Same.state, fun h => ⟨rfl, h⟩⟩

namespace Scope

/-- No retrier of the states of a scope has a rate that is not a number. -/
def RatesAreNumbers (s : Scope) : Prop :=
  ∀ e ∈ s.machine.states, ∀ r ∈ e.state.retriers, r.backoffRate ≠ some .nan

theorem beq_self_iff {s : Scope} : (s.machine == s.machine) = true ↔
    ∀ t ∈ s.preorder, t.RatesAreNumbers := by
  induction s using Scope.induction with
  | step s ih =>
      rw [Machine.beq_self_iff_of_states, preorder_eq, List.forall_mem_cons,
        List.forall_mem_flatMap, forall₂_and,
        ← forall_mem_children_iff (P := fun m => (m == m) = true)]
      exact and_congr_right fun _ => forall₂_congr ih

end Scope

theorem State.FieldsWellFormed.rate_ne_nan {s : State}
    (h : s.FieldsWellFormed) :
    ∀ r ∈ s.retriers, r.backoffRate ≠ some .nan := by
  have hnumbers {retriers : List Retrier} (h : RetriersWellFormed retriers) :
      ∀ r ∈ retriers, r.backoffRate ≠ some .nan :=
    fun r hr hrate => (h.each r hr).1.rate .nan hrate
  cases s with
  | task s => exact hnumbers h.retriers
  | parallel s => exact hnumbers h.retriers
  | pass s | wait s | choice s | succeed s | fail s =>
      exact List.forall_mem_nil _

/-- Equality of machines is symmetric and transitive. A machine equals itself
just if the rates of all retriers in it, at whatever depth, are numbers, which
those of an accepted machine are. -/
theorem equal_partial :
    (∀ a b : Machine, (a == b) = true → (b == a) = true) ∧
    (∀ a b c : Machine, (a == b) = true → (b == c) = true →
      (a == c) = true) ∧
    (∀ m : Machine, (m == m) = true ↔ ∀ s ∈ m.scopes, s.RatesAreNumbers) ∧
    ∀ settings, ∀ m : Machine, validate settings m = .ok () →
      (m == m) = true := by
  have hself (m : Machine) :
      (m == m) = true ↔ ∀ s ∈ m.scopes, s.RatesAreNumbers :=
    Scope.beq_self_iff (s := m.scope)
  refine ⟨fun _ _ => BEq.symm, fun _ _ _ => BEq.trans, hself,
    fun settings m h => (hself m).mpr fun s hs e he => ?_⟩
  have hfields := ((validate_eq_ok_iff settings m).mp h s hs).stateFields e he
  exact hfields.rate_ne_nan

/-- A machine whose only state is run again after an error, each time after a
wait longer by the given rate. -/
def Machine.retrying (rate : Double) : Machine where
  startAt := some "Work"
  states := [
    ⟨"Work", .task {
      resource := some "worker"
      retriers := [{ errorEquals := ["Busy"], backoffRate := some rate }]
      transition := some .finish }⟩]

/-- The two zeros make equal machines, a NaN makes one that does not equal
itself, and a rate that is accepted makes one that does. -/
theorem equal_partial_retrying :
    (Machine.retrying (.finite (.zero true)) ==
        Machine.retrying (.finite (.zero false))) = true ∧
      (Machine.retrying (.finite (.zero false)) ==
        Machine.retrying (.finite (.zero true))) = true ∧
      (Machine.retrying .nan == Machine.retrying .nan) = false ∧
      validate {} (Machine.retrying (.infinity false)) = .ok () ∧
      (Machine.retrying (.infinity false) ==
        Machine.retrying (.infinity false)) = true := by
  obtain ⟨hsymm, -, hself, haccepted⟩ := equal_partial
  have hzeros : (Machine.retrying (.finite (.zero true)) ==
      Machine.retrying (.finite (.zero false))) = true := by decide +kernel
  have hvalid : validate {} (Machine.retrying (.infinity false)) = .ok () := by
    decide +kernel
  refine ⟨hzeros, hsymm _ _ hzeros, ?_, hvalid, haccepted _ _ hvalid⟩
  rw [Bool.eq_false_iff, ne_eq, hself]
  intro h
  refine h (Machine.retrying .nan).scope ?_ _ List.mem_cons_self _
    List.mem_cons_self rfl
  exact Scope.mem_preorder_iff.mpr (.inl rfl)

end Workflow
