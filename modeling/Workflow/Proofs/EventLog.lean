import Workflow.Proofs.Diagnosis
import Workflow.Proofs.StateOrder

/-!
# The shape of the log

A validation that runs to its end reports every scope twice, when it is entered
and when it is left, and reports of the scopes inside it in between. So the log
of an accepted definition is fixed beforehand: it is a word over the tree of its
scopes (`Scope.word`), with one more line at the end. A violation does no more
than cut that word short.

The cut comes by itself from the way checks are run in sequence
(`Run.Follows.seq`). What has to be shown is that no scope is left without its
line: the line is not written if the start of the scope is not declared, but
such a scope has failed before it comes to that (`follows_leave`).
-/

namespace Workflow

/-- What a log shows of an event. -/
def Event.line (e : Event) : Level × String := (e.level, e.message)

/-! ## Words -/

/-- Whether the scope can end from a state can be told by its graph. -/
instance (states : States) (a : String) :
    Decidable (States.CanEnd states a) :=
  match ha : states.index? a with
  | some v =>
    decidable_of_iff (v ∈ (Graph.ofStates states).terminating)
      (Graph.canEnd_iff ha)
  | none => isFalse fun h => States.index?_eq_none_iff.mp ha h.mem_names

/-- How many states of a scope it can end from. -/
def Machine.endingCount (m : Machine) : Nat :=
  (States.names m.states).countP fun a => decide (States.CanEnd m.states a)

namespace Scope

/-- The line for entering a scope. -/
def opened (s : Scope) : Level × String :=
  (.debug, "Validating scope " ++ s.location.text ++ " (depth " ++
    toString s.location.branchDepth ++ ")")

/-- The line for leaving a scope. -/
def closed (s : Scope) : Level × String :=
  (.trace, s.location.text ++ ": " ++ toString s.machine.endingCount ++
    " of " ++ toString s.machine.states.length ++ " states can terminate")

/-- The lines for a scope and all scopes inside it, those for a scope inside
another between the two lines for that one. -/
def word (s : Scope) : List (Level × String) :=
  s.opened :: (s.children.attach.flatMap fun ⟨c, _⟩ => c.word) ++ [s.closed]
termination_by sizeOf s.machine
decreasing_by exact sizeOf_lt_of_mem_children ‹_›

theorem word_eq (s : Scope) :
    s.word = [s.opened] ++ s.children.flatMap word ++ [s.closed] := by
  rw [word]
  simp [List.flatMap_subtype]

end Scope

/-! ## Runs that follow a word -/

namespace Run

/-- The run has written the beginning of a word, and all of it if it
accepts. -/
structure Follows (r : Run) (word : List (Level × String)) : Prop where
  begins : r.log.map Event.line <+: word
  whole : r.verdict = .ok () → r.log.map Event.line = word

theorem follows_silent (v : Verdict) : (silent v).Follows [] :=
  ⟨List.prefix_rfl, fun _ => rfl⟩

theorem follows_report (e : Event) : (report e).Follows [e.line] :=
  ⟨List.prefix_rfl, fun _ => rfl⟩

/-- The second of two runs needs to follow its word only if it comes to
that. -/
theorem Follows.seq {r s : Run} {word word' : List (Level × String)}
    (hr : r.Follows word) (hs : r.verdict = .ok () → s.Follows word') :
    (r >> s).Follows (word ++ word') := by
  cases hverdict : r.verdict with
  | ok u =>
      have hs := hs hverdict
      constructor
      · rw [log_seq, hverdict, List.map_append, hr.whole hverdict]
        exact (List.prefix_append_right_inj word).mpr hs.begins
      · intro h
        rw [verdict_seq, hverdict] at h
        rw [log_seq, hverdict, List.map_append, hr.whole hverdict]
        exact congrArg (word ++ ·) (hs.whole h)
  | error v =>
      constructor
      · rw [log_seq, hverdict]
        simpa [Except.isOk, Except.toBool] using
          hr.begins.trans (List.prefix_append word word')
      · intro h
        rw [verdict_seq, hverdict] at h
        cases h

end Run

open Run

variable {settings : Settings} {location : Location} {depth index : Nat}
  {m : Machine}

/-! ## Entering and leaving -/

theorem follows_enter (hdepth : depth = location.branchDepth) :
    (Validation.enter settings location depth m).Follows
      [Scope.opened ⟨location, depth, m⟩] := by
  subst hdepth
  rw [Validation.enter]
  refine (follows_silent _).seq fun _ => (follows_report _).seq fun _ => ?_
  exact (follows_silent _).seq fun _ => (follows_silent _).seq fun _ =>
    (follows_silent _).seq fun _ => follows_silent _

/-- With distinct names, counting nodes is counting names. -/
theorem Graph.count_marks_terminating (hnodup : (States.names m.states).Nodup) :
    ((ofStates m.states).marks (ofStates m.states).terminating).count true =
      m.endingCount := by
  rw [marks, Machine.endingCount, ← map_name_range, List.countP_map, List.count,
    List.countP_map]
  refine List.countP_congr fun v hv => ?_
  have hlt : v < m.states.length := by
    rw [← size_ofStates]
    exact List.mem_range.mp hv
  have hname := name_ofStates_of_lt hlt
  have hindex := States.index?_getElem hnodup hlt
  rw [← hname] at hindex
  simpa using canEnd_iff hindex

/-- A scope that has been entered knows its start, so it is left with a
line. -/
theorem follows_leave (hfields : m.FieldsWellFormed) (hresolved : m.Resolved) :
    (Validation.leave settings location m).Follows
      [Scope.closed ⟨location, depth, m⟩] := by
  obtain ⟨a, ha, -⟩ := hfields.start
  obtain ⟨v, hv⟩ := States.exists_index? (hresolved.start a ha)
  have hcount : Termination.count? m = some m.endingCount := by
    rw [Termination.count?, Termination.start?_eq_some_iff.mpr ⟨a, ha, hv⟩,
      Option.map_some, Graph.count_marks_terminating hfields.distinct]
  rw [Validation.leave, Validation.measure, hcount]
  exact (follows_report _).seq fun _ => (follows_silent _).seq fun _ =>
    follows_silent _

/-! ## The walk over the scopes -/

theorem follows_runBranches {branches : List Branch}
    (h : ∀ c ∈ Scope.ofBranches location depth index branches,
      (Validation.runScope settings c.location c.depth c.machine).Follows
        c.word) :
    (Validation.runBranches settings location depth index branches).Follows
      ((Scope.ofBranches location depth index branches).flatMap
        Scope.word) := by
  induction branches generalizing index with
  | nil => exact follows_silent _
  | cons b rest ih =>
      rw [Scope.ofBranches_cons, List.forall_mem_cons] at h
      rw [Validation.runBranches_cons, Scope.ofBranches_cons,
        List.flatMap_cons]
      exact h.1.seq fun _ => ih h.2

theorem follows_runStates {states : List Entry}
    (h : ∀ e ∈ states, ∀ c ∈ Scope.ofBranches (location.state e.name) depth 0
      e.state.branches,
      (Validation.runScope settings c.location c.depth c.machine).Follows
        c.word) :
    (Validation.runStates settings location depth states).Follows
      ((states.flatMap fun e => Scope.ofBranches (location.state e.name) depth
        0 e.state.branches).flatMap Scope.word) := by
  induction states with
  | nil => exact follows_silent _
  | cons e rest ih =>
      rw [List.forall_mem_cons] at h
      rw [Validation.runStates_cons, List.flatMap_cons, List.flatMap_append]
      exact (follows_runBranches h.1).seq fun _ => ih h.2

/-- A validation of a scope follows the word of that scope. -/
theorem follows_runScope (s : Scope)
    (hdepth : s.depth = s.location.branchDepth) :
    (Validation.runScope settings s.location s.depth s.machine).Follows
      s.word := by
  induction s using Scope.induction with
  | step s ih =>
      have hchildren : (Validation.runStates settings s.location s.depth
          s.machine.states).Follows (s.children.flatMap Scope.word) := by
        refine follows_runStates fun e he c hc => ?_
        have hc : c ∈ s.children := List.mem_flatMap.mpr ⟨e, he, hc⟩
        exact ih c hc (Scope.depth_eq_of_mem_children hc hdepth)
      rw [Validation.runScope_eq, Scope.word_eq, List.append_assoc]
      refine (follows_enter hdepth).seq fun hentry => hchildren.seq fun _ => ?_
      obtain ⟨-, hfields, -, -, hresolved⟩ := Scope.entry_eq_ok_iff.mp hentry
      exact follows_leave hfields hresolved

/-- The log of a validation is the beginning of a word that the definition
alone decides, and one more line: for an accepted definition it is the whole
word and the number of its states, and for a rejected one the violation. -/
theorem log_run (settings : Settings) (m : Machine) :
    ∃ part final,
      (Validation.run settings m).log.map Event.line = part ++ [final] ∧
      part <+: m.scope.word ∧
      (validate settings m = .ok () → part = m.scope.word ∧
        final = (.debug, "Accepted state machine (" ++
          toString m.states.length ++ " top-level states)")) ∧
      ∀ v, validate settings m = .error v →
        final = (.debug, "Rejected state machine: [" ++ v.problem.code ++
          "] " ++ v.message) := by
  have hfollows : (Validation.runScope settings .root 0 m).Follows
      m.scope.word := follows_runScope m.scope rfl
  refine ⟨_, (Validation.closing m (validate settings m)).line, ?_,
    hfollows.begins, fun h => ⟨hfollows.whole h, ?_⟩, fun v h => ?_⟩
  · rw [Validation.run, List.map_append, List.map_singleton]
    rfl
  · rw [h]
    rfl
  · rw [h]
    rfl

end Workflow
