import Mathlib.Data.List.DropRight
import Workflow.Proofs.Diagnosis

/-!
# What has been checked before a violation is reported

A validation reports the first violation it comes across, so the violation says
something about the rest of the definition: all that comes before it is in
order. What comes before is not what stands before it, since a scope is checked
in two parts with the scopes inside it in between. A scope around the one at
fault has only been entered; a scope that stands before it has been left.

The scope at fault is told by the location of the violation alone
(`Location.scope`). This needs no assumption on the definition as a whole: two
branches may well have one location, but then some scope declares a name twice,
and no violation inside that scope is ever reported.
-/

namespace Workflow

/-! ## Locations of scopes -/

/-- The location of the scope that a place lies in: the steps up to the last
one that enters a branch. -/
def Location.scope (l : Location) : Location :=
  ⟨l.steps.rdropWhile fun step => !step.isBranch⟩

theorem Location.scope_branch (l : Location) (i : Nat) :
    (l.branch i).scope = l.branch i := by
  rw [scope, branch, child,
    List.rdropWhile_concat_neg _ _ _ (by simp [Step.isBranch])]

theorem Location.scope_append {l : Location} (hl : l.scope = l)
    {steps : List Step} (hsteps : ∀ step ∈ steps, step.isBranch = false) :
    Location.scope ⟨l.steps ++ steps⟩ = l := by
  induction steps using List.reverseRecOn with
  | nil => rw [List.append_nil, hl]
  | append_singleton steps step ih =>
      have hlast : step.isBranch = false := hsteps step (by simp)
      rw [scope, ← List.append_assoc,
        List.rdropWhile_concat_pos _ _ _ (by simp [hlast])]
      exact ih fun step' h => hsteps step' (by simp [h])

namespace Scope

variable {s t c : Scope}

theorem steps_of_mem_children (hc : c ∈ s.children) :
    ∃ e ∈ s.machine.states, ∃ i b, e.state.branches[i]? = some b ∧
      c.location.steps =
        s.location.steps ++ [.state e.name, .branch i] ∧
      c = ⟨(s.location.state e.name).branch i, s.depth + 1, b.machine⟩ := by
  obtain ⟨e, he, i, b, hb, hc⟩ := mem_children_iff.mp hc
  refine ⟨e, he, i, b, hb, ?_, hc⟩
  rw [hc]
  simp [Location.branch, Location.state, Location.child]

theorem steps_of_encloses (h : s.Encloses t) :
    s.location.steps <+: t.location.steps ∧
      s.location.steps.length < t.location.steps.length := by
  induction h with
  | single hc =>
      obtain ⟨e, -, i, b, -, hsteps, -⟩ := steps_of_mem_children hc
      rw [hsteps]
      exact ⟨List.prefix_append _ _, by simp⟩
  | tail _ hc ih =>
      obtain ⟨e, -, i, b, -, hsteps, -⟩ := steps_of_mem_children hc
      rw [hsteps]
      refine ⟨ih.1.trans (List.prefix_append _ _), ?_⟩
      rw [List.length_append]
      omega

theorem prefix_of_mem_preorder (h : t ∈ s.preorder) :
    s.location.steps <+: t.location.steps := by
  rcases mem_preorder_iff.mp h with rfl | h
  · exact List.prefix_rfl
  · exact (steps_of_encloses h).1

theorem not_encloses_of_mem_preorder (h : t ∈ s.preorder) :
    ¬ t.Encloses s := by
  intro hts
  have hle := (prefix_of_mem_preorder h).length_le
  have hlt := (steps_of_encloses hts).2
  omega

theorem encloses_of_mem_children (hc : c ∈ s.children)
    (ht : t ∈ c.preorder) : s.Encloses t := by
  rcases mem_preorder_iff.mp ht with rfl | ht
  · exact .single hc
  · exact .head hc ht

/-- With distinct names, no place lies in two scopes directly inside a
scope. -/
theorem eq_of_mem_children (hnodup : (States.names s.machine.states).Nodup)
    {c' : Scope} (hc : c ∈ s.children) (hc' : c' ∈ s.children)
    {steps : List Step} (h : c.location.steps <+: steps)
    (h' : c'.location.steps <+: steps) : c = c' := by
  obtain ⟨e, he, i, b, hb, hsteps, heq⟩ := steps_of_mem_children hc
  obtain ⟨e', he', i', b', hb', hsteps', heq'⟩ := steps_of_mem_children hc'
  have hprefix := List.prefix_of_prefix_length_le h h'
    (by simp [hsteps, hsteps'])
  have hlast := hprefix.eq_of_length (by simp [hsteps, hsteps'])
  rw [hsteps, hsteps', List.append_cancel_left_eq] at hlast
  injection hlast with hname hindex
  injection hname with hname
  injection hindex with hindex
  injection hindex with hindex
  obtain rfl := States.eq_of_mem_of_name_eq hnodup he he' hname
  subst hindex
  rw [hb] at hb'
  injection hb' with hb'
  rw [heq, heq', hb']

/-- What holds of a scope and goes on to the scopes directly inside it holds of
all scopes inside it. -/
theorem forall_mem_preorder {P : Scope → Prop}
    (hstep : ∀ s c, c ∈ s.children → P s → P c) (hs : P s) :
    ∀ t ∈ s.preorder, P t := by
  intro t ht
  rcases mem_preorder_iff.mp ht with rfl | ht
  · exact hs
  · induction ht with
    | single hc => exact hstep _ _ hc hs
    | tail h hc ih => exact hstep _ _ hc (ih (mem_preorder_iff.mpr (.inr h)))

end Scope

theorem Machine.location_scope_of_mem_scopes {m : Machine} :
    ∀ s ∈ m.scopes, s.location.scope = s.location := by
  refine Scope.forall_mem_preorder (fun s c hc _ => ?_) rfl
  obtain ⟨e, -, i, b, -, rfl⟩ := Scope.mem_children_iff.mp hc
  exact Location.scope_branch _ i

theorem Machine.depth_eq_of_mem_scopes {m : Machine} :
    ∀ s ∈ m.scopes, s.depth = s.location.branchDepth :=
  Scope.forall_mem_preorder
    (fun _ _ hc hdepth => Scope.depth_eq_of_mem_children hc hdepth) rfl

/-! ## Phases -/

/-- The checks that can report a problem. -/
inductive Phase where
  | nesting
  | fields
  | paths
  | targets
  | walks
deriving DecidableEq, Repr

/-- The phase in which a problem is found. -/
def Problem.phase : Problem → Phase
  | .nestingTooDeep _ _ => .nesting
  | .missing _ | .outOfRange _ | .duplicateName _ | .badCodes _ | .noRules
  | .noBranches => .fields
  | .badPath _ _ _ _ => .paths
  | .unknownTarget _ => .targets
  | .cycle | .noTerminalPath | .unreachable => .walks

/-- The scope keeps the nesting limit, and its fields and those of its states
are in order. -/
structure Scope.PassesFields (settings : Settings) (s : Scope) : Prop where
  nesting : Validation.checkDepth settings s.location s.depth = .ok ()
  scopeFields : Fields.checkScope s.location s.machine = .ok ()
  stateFields : Fields.checkStates s.location s.machine.states = .ok ()

/-- The scope passes the checks that come before the scopes inside it. -/
structure Scope.PassesEntry (settings : Settings) (s : Scope) : Prop extends
    s.PassesFields settings where
  paths : StatePaths.checkStates s.location s.machine.states = .ok ()
  targets : Targets.check s.location s.machine = .ok ()

/-- The scope passes all of its own checks. -/
structure Scope.Passes (settings : Settings) (s : Scope) : Prop extends
    s.PassesEntry settings where
  termination : Termination.check settings.diagnostics s.location s.machine =
    .ok ()
  reachability : settings.rejectUnreachableStates = true →
    Termination.checkReachable s.location s.machine = .ok ()

namespace Element

variable {HasIt : Element → Problem → Prop} {e : Element}
  {location : Location} {v : Violation}

theorem Explains.phase_eq {phase : Phase}
    (hphase : ∀ e p, HasIt e p → p.phase = phase)
    (h : e.Explains HasIt location v) : v.problem.phase = phase := by
  obtain ⟨_, target, _, _, _, hit⟩ := h
  exact hphase target v.problem hit

theorem Explains.scope_eq (hlocation : location.scope = location)
    (h : e.Explains HasIt location v) : v.location.scope = location := by
  obtain ⟨steps, _, hl, hsteps, _, _⟩ := h
  rw [hl]
  exact Location.scope_append hlocation hsteps

theorem HasFieldProblem.phase_eq (e : Element) (p : Problem)
    (h : e.HasFieldProblem p) : p.phase = .fields := by
  cases h <;> rfl

theorem HasPathProblem.phase_eq (e : Element) (p : Problem)
    (h : e.HasPathProblem p) : p.phase = .paths := by
  cases h
  rfl

theorem HasTargetProblem.phase_eq (e : Element) (p : Problem)
    (h : e.HasTargetProblem p) : p.phase = .targets := by
  cases h <;> rfl

theorem HasWalkProblem.phase_eq {settings : Settings} (e : Element)
    (p : Problem) (h : e.HasWalkProblem settings p) : p.phase = .walks := by
  cases h <;> rfl

end Element

namespace Scope

variable {settings : Settings} {s : Scope} {v : Violation}

theorem passesEntry_iff :
    s.PassesEntry settings ↔ s.entry settings = .ok () := by
  simp only [entry_eq, Verdict.bind_eq_ok_iff]
  constructor
  · intro h
    exact ⟨h.nesting, h.scopeFields, h.stateFields, h.paths, h.targets⟩
  · intro h
    obtain ⟨hnesting, hscope, hstates, hpaths, htargets⟩ := h
    exact ⟨⟨hnesting, hscope, hstates⟩, hpaths, htargets⟩

theorem passes_iff :
    s.Passes settings ↔
      s.entry settings = .ok () ∧ s.exit settings = .ok () := by
  rw [← passesEntry_iff, exit_eq, Verdict.bind_eq_ok_iff]
  cases hreject : settings.rejectUnreachableStates with
  | true =>
      constructor
      · intro h
        exact ⟨h.toPassesEntry, h.termination, h.reachability hreject⟩
      · intro h
        obtain ⟨hentry, htermination, hreachability⟩ := h
        exact ⟨hentry, htermination, fun _ => hreachability⟩
  | false =>
      constructor
      · intro h
        exact ⟨h.toPassesEntry, h.termination, rfl⟩
      · intro h
        obtain ⟨hentry, htermination, _⟩ := h
        refine ⟨hentry, htermination, fun h => ?_⟩
        rw [hreject] at h
        cases h

theorem PassesEntry.distinct (h : s.PassesEntry settings) :
    (States.names s.machine.states).Nodup :=
  (Fields.checkScope_eq_ok_iff.mp h.scopeFields).distinct

/-- A scope that cannot be entered has passed the phases before the one that
reports it. -/
theorem passed_of_entry_error (h : s.entry settings = .error v) :
    (v.problem.phase = .paths → s.PassesFields settings) ∧
      (v.problem.phase = .targets → s.PassesFields settings ∧
        StatePaths.checkStates s.location s.machine.states = .ok ()) ∧
      v.problem.phase ≠ .walks := by
  simp only [entry_eq, Verdict.bind_eq_error_iff] at h
  have hearly : v.problem.phase = .nesting ∨ v.problem.phase = .fields →
      (v.problem.phase = .paths → s.PassesFields settings) ∧
        (v.problem.phase = .targets → s.PassesFields settings ∧
          StatePaths.checkStates s.location s.machine.states = .ok ()) ∧
        v.problem.phase ≠ .walks := by
    intro hphase
    rcases hphase with hphase | hphase <;> rw [hphase] <;> simp
  rcases h with h | ⟨hnesting, h | ⟨hscope, h⟩⟩
  · refine hearly (.inl ?_)
    rw [(Verdict.eq_of_require_error h).2]
    rfl
  · exact hearly (.inr ((Fields.explains_of_checkScope h).phase_eq
      Element.HasFieldProblem.phase_eq))
  have hnodup := (Fields.checkScope_eq_ok_iff.mp hscope).distinct
  rcases h with h | ⟨hstates, h | ⟨hpaths, h⟩⟩
  · exact hearly (.inr ((Fields.explains_of_checkStates hnodup h).phase_eq
      Element.HasFieldProblem.phase_eq))
  · rw [(StatePaths.explains_of_checkStates hnodup h).phase_eq
      Element.HasPathProblem.phase_eq]
    exact ⟨fun _ => ⟨hnesting, hscope, hstates⟩, by simp, by simp⟩
  · rw [(Targets.explains_of_check hnodup h).phase_eq
      Element.HasTargetProblem.phase_eq]
    exact ⟨by simp, fun _ => ⟨⟨hnesting, hscope, hstates⟩, hpaths⟩, by simp⟩

/-! ## The scope at fault -/

/-- A validation of the scope `s` has come to `culprit`, a scope in it, over
the scopes `before` in pre-order. -/
structure ComesTo (settings : Settings) (s : Scope) (before : List Scope)
    (culprit : Scope) : Prop where
  split : ∃ after, s.preorder = before ++ culprit :: after
  /-- No other scope has the location of the culprit. -/
  unique : ∀ t ∈ s.preorder, t.location = culprit.location → t = culprit
  around : ∀ t ∈ s.preorder, t.Encloses culprit → t.PassesEntry settings
  earlier : ∀ t ∈ before, ¬ t.Encloses culprit → t.Passes settings

theorem comesTo_self : s.ComesTo settings [] s where
  split := ⟨s.children.flatMap preorder, preorder_eq s⟩
  unique := by
    intro t ht hlocation
    rcases mem_preorder_iff.mp ht with rfl | hst
    · rfl
    · have hlt := (steps_of_encloses hst).2
      rw [hlocation] at hlt
      exact absurd hlt (Nat.lt_irrefl _)
  around := by
    intro t ht hts
    exact absurd hts (not_encloses_of_mem_preorder ht)
  earlier := by simp

theorem ComesTo.mem_preorder {before : List Scope} {culprit : Scope}
    (h : s.ComesTo settings before culprit) : culprit ∈ s.preorder := by
  obtain ⟨after, hafter⟩ := h.split
  simp [hafter]

/-- The validation of a scope goes on to a scope directly inside it once the
scope has been entered and those before it have been accepted. -/
theorem comesTo_of_child {passed rest before : List Scope}
    {c culprit : Scope} (hentry : s.PassesEntry settings)
    (hchildren : s.children = passed ++ c :: rest)
    (hpassed : ∀ d ∈ passed, d.verdict settings = .ok ())
    (h : c.ComesTo settings before culprit) :
    s.ComesTo settings (s :: passed.flatMap preorder ++ before) culprit := by
  have hc : c ∈ s.children := by simp [hchildren]
  have hmem := h.mem_preorder
  have hencloses := encloses_of_mem_children hc hmem
  have hpreorder : ∀ t, t ∈ s.preorder →
      t = s ∨ ∃ d ∈ s.children, t ∈ d.preorder := by
    intro t ht
    rw [preorder_eq, List.mem_cons, List.mem_flatMap] at ht
    exact ht
  -- A scope with the culprit's location, or around it, lies on the way to it.
  have hway : ∀ d ∈ s.children, ∀ t ∈ d.preorder,
      t.location.steps <+: culprit.location.steps → t ∈ c.preorder := by
    intro d hd t ht htculprit
    have hdc := eq_of_mem_children hentry.distinct hd hc
      ((prefix_of_mem_preorder ht).trans htculprit)
      (prefix_of_mem_preorder hmem)
    rw [← hdc]
    exact ht
  constructor
  case split =>
    obtain ⟨after, hafter⟩ := h.split
    refine ⟨after ++ rest.flatMap preorder, ?_⟩
    rw [preorder_eq, hchildren, List.flatMap_append, List.flatMap_cons, hafter]
    simp
  case unique =>
    intro t ht hlocation
    rcases hpreorder t ht with rfl | ⟨d, hd, htd⟩
    · have hlt := (steps_of_encloses hencloses).2
      rw [hlocation] at hlt
      exact absurd hlt (Nat.lt_irrefl _)
    · have htc := hway d hd t htd (by rw [hlocation])
      exact h.unique t htc hlocation
  case around =>
    intro t ht htculprit
    rcases hpreorder t ht with rfl | ⟨d, hd, htd⟩
    · exact hentry
    · have htc := hway d hd t htd (steps_of_encloses htculprit).1
      exact h.around t htc htculprit
  case earlier =>
    intro t ht htculprit
    rw [List.mem_append, List.mem_cons, List.mem_flatMap] at ht
    rcases ht with (rfl | ⟨d, hd, htd⟩) | ht
    · exact absurd hencloses htculprit
    · exact passes_iff.mpr (verdict_eq_ok_iff.mp (hpassed d hd) t htd)
    · exact h.earlier t ht htculprit

/-- The scope reports the violation itself: it cannot be entered, or it cannot
be left though all that lies inside it is accepted. -/
def Reports (settings : Settings) (s : Scope) (v : Violation) : Prop :=
  s.entry settings = .error v ∨
    s.PassesEntry settings ∧ (∀ t, s.Encloses t → t.Passes settings) ∧
      s.exit settings = .error v

theorem exists_comesTo_of_verdict_error (h : s.verdict settings = .error v) :
    ∃ before culprit, s.ComesTo settings before culprit ∧
      culprit.Reports settings v := by
  induction s using induction with
  | step s ih =>
      rw [verdict_eq, Verdict.bind_eq_error_iff,
        Verdict.bind_eq_error_iff] at h
      rcases h with hentry | ⟨hentry, hinside | ⟨hinside, hexit⟩⟩
      · exact ⟨[], s, comesTo_self, .inl hentry⟩
      · obtain ⟨passed, c, rest, hchildren, hpassed, hc⟩ :=
          Verdict.exists_of_each_error hinside
        obtain ⟨before, culprit, hcomes, hreports⟩ :=
          ih c (by simp [hchildren]) hc
        exact ⟨_, culprit, comesTo_of_child (passesEntry_iff.mpr hentry)
          hchildren hpassed hcomes, hreports⟩
      · refine ⟨[], s, comesTo_self, .inr
          ⟨passesEntry_iff.mpr hentry, fun t ht => ?_, hexit⟩⟩
        obtain ⟨c, hc, hct⟩ := Relation.TransGen.head'_iff.mp ht
        have htc : t ∈ c.preorder := by
          rw [mem_preorder_iff]
          rcases Relation.reflTransGen_iff_eq_or_transGen.mp hct with heq | hct
          · exact .inl heq
          · exact .inr hct
        have hok := Verdict.each_eq_ok_iff.mp hinside c hc
        exact passes_iff.mpr (verdict_eq_ok_iff.mp hok t htc)

theorem Reports.scope_eq (hdepth : s.depth = s.location.branchDepth)
    (hlocation : s.location.scope = s.location)
    (h : s.Reports settings v) : v.location.scope = s.location := by
  rcases h with h | ⟨hentry, -, h⟩
  · exact (explains_of_entry hdepth h).scope_eq hlocation
  · exact (explains_of_exit hentry.distinct h).scope_eq hlocation

/-- The scope that reports a violation has passed the phases before that of the
problem, and so have all scopes inside it if that comes after them. -/
theorem Reports.passed (h : s.Reports settings v) :
    (v.problem.phase = .paths → s.PassesFields settings) ∧
      (v.problem.phase = .targets → s.PassesFields settings ∧
        StatePaths.checkStates s.location s.machine.states = .ok ()) ∧
      (v.problem.phase = .walks → s.PassesEntry settings ∧
        ∀ t, s.Encloses t → t.Passes settings) := by
  rcases h with h | ⟨hentry, hinside, h⟩
  · obtain ⟨hpaths, htargets, hwalks⟩ := passed_of_entry_error h
    exact ⟨hpaths, htargets, fun hphase => absurd hphase hwalks⟩
  · rw [(explains_of_exit hentry.distinct h).phase_eq
      Element.HasWalkProblem.phase_eq]
    exact ⟨by simp, by simp, fun _ => ⟨hentry, hinside⟩⟩

end Scope

/-- What a violation says about the rest of the definition. The scope it
belongs to is the one that its location gives; the scopes around it have been
entered, those that stand before it have passed all of their checks, and the
scope itself has passed the checks before the one that reports. -/
theorem exists_scope_of_validate_error {settings : Settings} {m : Machine}
    {v : Violation} (h : validate settings m = .error v) :
    ∃ before s after, m.scopes = before ++ s :: after ∧
      s.location = v.location.scope ∧
      (∀ t ∈ m.scopes, t.location = s.location → t = s) ∧
      (∀ t ∈ m.scopes, t.Encloses s → t.PassesEntry settings) ∧
      (∀ t ∈ before, ¬ t.Encloses s → t.Passes settings) ∧
      (v.problem.phase = .paths → s.PassesFields settings) ∧
      (v.problem.phase = .targets → s.PassesFields settings ∧
        StatePaths.checkStates s.location s.machine.states = .ok ()) ∧
      (v.problem.phase = .walks → s.PassesEntry settings ∧
        ∀ t, s.Encloses t → t.Passes settings) := by
  rw [validate_eq] at h
  obtain ⟨before, s, hcomes, hreports⟩ :=
    Scope.exists_comesTo_of_verdict_error h
  obtain ⟨after, hsplit⟩ := hcomes.split
  have hmem : s ∈ m.scopes := hcomes.mem_preorder
  have hscope := hreports.scope_eq (Machine.depth_eq_of_mem_scopes s hmem)
    (Machine.location_scope_of_mem_scopes s hmem)
  exact ⟨before, s, after, hsplit, hscope.symm, hcomes.unique, hcomes.around,
    hcomes.earlier, hreports.passed⟩

theorem exists_scope_of_circling :
    validate {} .circling = .error Machine.circle ∧
      ∃ before s after, Machine.circling.scopes = before ++ s :: after ∧
        s.location = Machine.circle.location.scope ∧
        (∀ t ∈ Machine.circling.scopes, t.location = s.location → t = s) ∧
        (∀ t ∈ Machine.circling.scopes, t.Encloses s → t.PassesEntry {}) ∧
        (∀ t ∈ before, ¬ t.Encloses s → t.Passes {}) ∧
        (Machine.circle.problem.phase = .paths → s.PassesFields {}) ∧
        (Machine.circle.problem.phase = .targets → s.PassesFields {} ∧
          StatePaths.checkStates s.location s.machine.states = .ok ()) ∧
        (Machine.circle.problem.phase = .walks → s.PassesEntry {} ∧
          ∀ t, s.Encloses t → t.Passes {}) :=
  ⟨by decide +kernel, exists_scope_of_validate_error (by decide +kernel)⟩

end Workflow
