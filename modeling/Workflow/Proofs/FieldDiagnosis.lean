import Workflow.Proofs.ChoiceRules
import Workflow.Proofs.Policies

/-!
# What the field checks report is true

Each check of `Fields.lean` is given a location to report at and never looks
whether that is the right one. This file shows that it is: what is reported
while an element is checked holds of that element, or of the rule, retrier or
catcher inside it that the location points at (`Element.Explains`). The lemmas
go up with the checks, from a single value to the names of a scope.
-/

namespace Workflow

namespace Element

/-- The violation is true: its location leads on from the element, which is at
the given one, to an element that has the reported problem. It does not lead
into a branch. -/
def Explains (HasIt : Element → Problem → Prop) (e : Element)
    (location : Location) (v : Violation) : Prop :=
  ∃ steps target, v.location = ⟨location.steps ++ steps⟩ ∧
    (∀ step ∈ steps, step.isBranch = false) ∧
    e.locate steps = some target ∧ HasIt target v.problem

variable {HasIt HasIt' : Element → Problem → Prop} {e inner : Element}
  {location : Location} {v : Violation}

theorem explains_self {problem : Problem} (h : HasIt e problem) :
    e.Explains HasIt location ⟨location, problem⟩ :=
  ⟨[], e, by simp, by simp, rfl, h⟩

theorem explains_of_child {step : Step} (hstep : step.isBranch = false)
    (hchild : e.child step = some inner)
    (h : inner.Explains HasIt (location.child step) v) :
    e.Explains HasIt location v := by
  obtain ⟨steps, target, hl, hsteps, hlocate, hit⟩ := h
  refine ⟨step :: steps, target, ?_, ?_, ?_, hit⟩
  · rw [hl, Location.child, List.append_assoc, List.singleton_append]
  · exact List.forall_mem_cons.mpr ⟨hstep, hsteps⟩
  · rw [locate_cons hchild, hlocate]

theorem Explains.mono (hmono : ∀ e p, HasIt e p → HasIt' e p)
    (h : e.Explains HasIt location v) : e.Explains HasIt' location v := by
  obtain ⟨steps, target, hl, hsteps, hlocate, hit⟩ := h
  exact ⟨steps, target, hl, hsteps, hlocate, hmono _ _ hit⟩

end Element

namespace Fields

open Verdict

variable {location : Location} {field : Field} {v : Violation}

/-! ## Values -/

theorem of_checkTransition_error {t : Option Transition}
    (h : checkTransition location t = .error v) :
    t = none ∧ v = ⟨location, .missing .transition⟩ ∨
      t = some (.next "") ∧ v = ⟨location, .missing .next⟩ := by
  cases t with
  | none => exact .inl ⟨rfl, eq_of_reject_error h⟩
  | some t =>
      cases t with
      | finish => exact absurd h accept_ne_error
      | next name =>
          obtain ⟨hname, hv⟩ := requireText_eq_error_iff.mp h
          rw [given_some, not_not] at hname
          exact .inr ⟨by rw [hname], hv⟩

section States

variable {m : Machine} {name : String}

/-! ## Retriers and catchers -/

theorem explains_of_checkRetriers {s : State}
    (h : checkRetriers location s.retriers = .error v) :
    (Element.state m name s).Explains Element.HasFieldProblem location v := by
  cases report_of_checkRetriers_error h with
  | notLast hleast hafter =>
      obtain ⟨r, hr, -⟩ := hleast.1
      exact Element.explains_of_child rfl (Element.child_retrier hr)
        (Element.explains_self (.badCodes (.retrierNotLast hafter)))
  | own _ _ hr hfault =>
      refine Element.explains_of_child rfl (Element.child_retrier hr) ?_
      cases hfault with
      | outOfRange hrange =>
          exact Element.explains_self (.outOfRange (.retrier hrange))
      | badCodes hbad =>
          exact Element.explains_self (.badCodes (.retrier hbad))

theorem explains_of_checkCatchers {s : State}
    (h : checkCatchers location s.catchers = .error v) :
    (Element.state m name s).Explains Element.HasFieldProblem location v := by
  cases report_of_checkCatchers_error h with
  | notLast hleast hafter =>
      obtain ⟨c, hc, -⟩ := hleast.1
      exact Element.explains_of_child rfl (Element.child_catcher hc)
        (Element.explains_self (.badCodes (.catcherNotLast hafter)))
  | own _ _ hc hfault =>
      refine Element.explains_of_child rfl (Element.child_catcher hc) ?_
      cases hfault with
      | next hnext =>
          exact Element.explains_self (.missing (.catcherNext hnext))
      | badCodes hbad =>
          exact Element.explains_self (.badCodes (.catcher hbad))

/-! ## Rules -/

theorem of_checkRule_error {rule : ChoiceRule}
    (h : checkRule location rule = .error v) :
    ∃ field, (Element.rule rule).Lacks field ∧
      v = ⟨location, .missing field⟩ := by
  obtain ⟨field, hlack, hv⟩ := checkRule_eq_error_iff.mp h
  refine ⟨field, ?_, hv⟩
  cases hlack with
  | next hnext => exact .ruleNext hnext
  | noCondition _ hcondition => exact .ruleCondition hcondition
  | part _ hcondition hlack =>
      obtain ⟨part, hpart, hlack⟩ := hlack.exists_partOf
      exact .conditionPart hcondition hpart hlack

/-! ## States -/

theorem explains_of_checkTransition {s : State}
    (hkind : s.kind = .pass ∨ s.kind = .task ∨ s.kind = .wait ∨
      s.kind = .parallel)
    (h : checkTransition location s.transition = .error v) :
    (Element.state m name s).Explains Element.HasFieldProblem location v := by
  rcases of_checkTransition_error h with ⟨ht, rfl⟩ | ⟨ht, rfl⟩
  · exact Element.explains_self (.missing (.state (.transition hkind ht)))
  · exact Element.explains_self (.missing (.state (.next ht)))

theorem explains_of_checkTask {s : TaskState}
    (h : checkTask location s = .error v) :
    (Element.state m name (.task s)).Explains Element.HasFieldProblem
      location v := by
  simp only [checkTask, bind_eq_error_iff] at h
  rcases h with h | ⟨-, h | ⟨-, h | ⟨-, h | ⟨-, h | ⟨-, h | ⟨-, h⟩⟩⟩⟩⟩⟩
  · obtain ⟨n, hn, hle, rfl⟩ := of_requirePositive_error h
    exact Element.explains_self
      (.outOfRange (.state (.timeoutSeconds hn hle)))
  · obtain ⟨n, hn, hle, rfl⟩ := of_requirePositive_error h
    exact Element.explains_self
      (.outOfRange (.state (.heartbeatSeconds hn hle)))
  · cases htimeout : s.timeoutSeconds with
    | none =>
        rw [htimeout] at h
        exact absurd h accept_ne_error
    | some timeout =>
        cases hheartbeat : s.heartbeatSeconds with
        | none =>
            rw [htimeout, hheartbeat] at h
            exact absurd h accept_ne_error
        | some heartbeat =>
            rw [htimeout, hheartbeat] at h
            obtain ⟨hlt, rfl⟩ := eq_of_require_error h
            exact Element.explains_self (.outOfRange (.state
              (.heartbeatAboveTimeout hheartbeat htimeout
                (by simpa using hlt))))
  · obtain ⟨hresource, rfl⟩ := requireText_eq_error_iff.mp h
    exact Element.explains_self (.missing (.state (.resource hresource)))
  · exact explains_of_checkRetriers (s := .task s) h
  · exact explains_of_checkCatchers (s := .task s) h
  · exact explains_of_checkTransition (s := .task s) (.inr (.inl rfl)) h

theorem explains_of_checkWait {s : WaitState}
    (h : checkWait location s = .error v) :
    (Element.state m name (.wait s)).Explains Element.HasFieldProblem
      location v := by
  rw [checkWait, bind_eq_error_iff] at h
  rcases h with h | ⟨-, h⟩
  · cases hwait : s.waitFor with
    | none =>
        rw [hwait] at h
        rw [eq_of_reject_error h]
        exact Element.explains_self (.missing (.state (.waitFor hwait)))
    | some w =>
        rw [hwait] at h
        cases w with
        | seconds count =>
            rw [checkWaitFor] at h
            obtain ⟨n, hn, hle, rfl⟩ := of_requirePositive_error h
            injection hn with hn
            subst hn
            exact Element.explains_self
              (.outOfRange (.state (.seconds hwait hle)))
        | secondsPath path =>
            obtain ⟨hpath, rfl⟩ := requireText_eq_error_iff.mp h
            rw [given_some, not_not] at hpath
            subst hpath
            exact Element.explains_self
              (.missing (.state (.secondsPath hwait)))
        | timestamp instant =>
            cases instant with
            | none =>
                rw [eq_of_reject_error h]
                exact Element.explains_self
                  (.missing (.state (.timestamp hwait)))
            | some instant => exact absurd h accept_ne_error
        | timestampPath path =>
            obtain ⟨hpath, rfl⟩ := requireText_eq_error_iff.mp h
            rw [given_some, not_not] at hpath
            subst hpath
            exact Element.explains_self
              (.missing (.state (.timestampPath hwait)))
  · exact explains_of_checkTransition (s := .wait s)
      (.inr (.inr (.inl rfl))) h

theorem explains_of_checkChoice {s : ChoiceState}
    (h : checkChoice location s = .error v) :
    (Element.state m name (.choice s)).Explains Element.HasFieldProblem
      location v := by
  rw [checkChoice, bind_eq_error_iff, bind_eq_error_iff] at h
  rcases h with h | ⟨-, h | ⟨-, h⟩⟩
  · obtain ⟨hrules, rfl⟩ := eq_of_require_error h
    exact Element.explains_self (.noRules (by simpa using hrules))
  · obtain ⟨hdefault, rfl⟩ := checkDefault_eq_error_iff.mp h
    exact Element.explains_self (.missing (.state (.default hdefault)))
  · obtain ⟨before, rule, after, hrules, -, h⟩ :=
      eachFrom_eq_error_iff.mp h
    rw [Nat.zero_add] at h
    have hrule : (State.choice s).rules[before.length]? = some rule := by
      simp [State.rules, hrules]
    obtain ⟨field, hlacks, rfl⟩ := of_checkRule_error h
    exact Element.explains_of_child rfl (Element.child_choice hrule)
      (Element.explains_self (.missing hlacks))

theorem explains_of_checkParallel {s : ParallelState}
    (h : checkParallel location s = .error v) :
    (Element.state m name (.parallel s)).Explains Element.HasFieldProblem
      location v := by
  simp only [checkParallel, bind_eq_error_iff] at h
  rcases h with h | ⟨-, h | ⟨-, h | ⟨-, h⟩⟩⟩
  · obtain ⟨hbranches, rfl⟩ := eq_of_require_error h
    exact Element.explains_self (.noBranches (by simpa using hbranches))
  · exact explains_of_checkRetriers (s := .parallel s) h
  · exact explains_of_checkCatchers (s := .parallel s) h
  · exact explains_of_checkTransition (s := .parallel s)
      (.inr (.inr (.inr rfl))) h

theorem explains_of_checkState {s : State}
    (h : checkState location s = .error v) :
    (Element.state m name s).Explains Element.HasFieldProblem location v := by
  cases s with
  | pass s => exact explains_of_checkTransition (s := .pass s) (.inl rfl) h
  | task s => exact explains_of_checkTask h
  | wait s => exact explains_of_checkWait h
  | choice s => exact explains_of_checkChoice h
  | succeed s => exact absurd h accept_ne_error
  | fail s =>
      obtain ⟨hcause, rfl⟩ := requireText_eq_error_iff.mp h
      exact Element.explains_self (.missing (.state (.cause hcause)))
  | parallel s => exact explains_of_checkParallel h

end States

/-! ## Scopes -/

/-- Of the names of a scope, an empty one is reported at the scope, and one
that occurs again at the state that it stands for. -/
theorem of_checkNames_error {names : List String} :
    ∀ {seen : List String}, checkNames location seen names = .error v →
      "" ∈ names ∧ v = ⟨location, .missing .stateName⟩ ∨
        ∃ name ∈ names, (name ∈ seen ∨ 2 ≤ names.count name) ∧
          v = ⟨location.state name, .duplicateName name⟩ := by
  induction names with
  | nil =>
      intro seen h
      exact absurd h accept_ne_error
  | cons name rest ih =>
      intro seen h
      rw [checkNames, bind_eq_error_iff, bind_eq_error_iff] at h
      rcases h with h | ⟨-, h | ⟨-, h⟩⟩
      · obtain ⟨hname, hv⟩ := eq_of_require_error h
        have hname : name = "" := by simpa using hname
        exact .inl ⟨by simp [hname], hv⟩
      · obtain ⟨hseen, hv⟩ := eq_of_require_error h
        exact .inr ⟨name, List.mem_cons_self, .inl (by simpa using hseen), hv⟩
      · rcases ih h with ⟨hempty, hv⟩ | ⟨again, hmem, hagain, hv⟩
        · exact .inl ⟨List.mem_cons_of_mem name hempty, hv⟩
        · refine .inr ⟨again, List.mem_cons_of_mem name hmem, ?_, hv⟩
          rcases hagain with hseen | hcount
          · rcases List.mem_cons.mp hseen with rfl | hseen
            · right
              rw [List.count_cons_self]
              have := List.count_pos_iff.mpr hmem
              omega
            · exact .inl hseen
          · exact .inr (Nat.le_trans hcount List.count_le_count_cons)

theorem explains_of_checkScope {m : Machine}
    (h : checkScope location m = .error v) :
    (Element.scope m).Explains Element.HasFieldProblem location v := by
  simp only [checkScope, bind_eq_error_iff] at h
  rcases h with h | ⟨-, h | ⟨-, h | ⟨-, h⟩⟩⟩
  · obtain ⟨hstart, rfl⟩ := requireText_eq_error_iff.mp h
    exact Element.explains_self (.missing (.startAt hstart))
  · obtain ⟨n, hn, hle, rfl⟩ := of_requirePositive_error h
    exact Element.explains_self (.outOfRange (.timeoutSeconds hn hle))
  · obtain ⟨hstates, rfl⟩ := eq_of_require_error h
    exact Element.explains_self (.missing (.states (by simpa using hstates)))
  · rcases of_checkNames_error h with
      ⟨hempty, rfl⟩ | ⟨name, hmem, hagain, rfl⟩
    · exact Element.explains_self (.missing (.stateName hempty))
    · obtain ⟨s, hs⟩ := States.exists_get? hmem
      have hchild : (Element.scope m).child (.state name) =
          some (.state m name s) := by
        rw [Element.child, hs]
        rfl
      have hcount : 2 ≤ (States.names m.states).count name := by
        rcases hagain with hseen | hcount
        · cases hseen
        · exact hcount
      exact Element.explains_of_child rfl hchild
        (Element.explains_self (.duplicateName hcount))

end Fields

end Workflow
