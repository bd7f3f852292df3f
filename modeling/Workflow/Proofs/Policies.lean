import Mathlib.Order.Bounds.Defs
import Workflow.Proofs.Elements

/-!
# Lists of retriers and of catchers

The check of such a list goes through it with a flag that says whether the
policy before matches every error. A policy that follows such a one is refused
before it is looked at, so two kinds of fault compete along the list: what a
policy is at fault for by itself, and where it stands. This file says which of
them is reported (`Fields.report_of_checkPolicies_error`): the first position
at which there is a fault of either kind, and there the fault of position, if
there is one, whatever else is wrong.

What carries the induction is that the policies before the reported one pass
as a list of their own, and that the flag which they leave behind says of the
rest what it said of the whole (`shadowed_cons_succ_iff`).
-/

namespace Workflow

/-- The policy at the index is refused: it is not in order by itself, or the
one right before it already matches every error. -/
def RefusedAt {α : Type} (codes : α → List String) (good : α → Prop)
    (policies : List α) (i : Nat) : Prop :=
  ∃ p, policies[i]? = some p ∧
    (¬ (good p ∧ CodesWellFormed (codes p)) ∨ AfterMatchAll codes policies i)

/-- What a list of policies is reported for, each policy having its place: the
first that is refused. One that follows a policy for every error is reported
for that, any other for a fault of its own. -/
inductive PolicyReport {α : Type} (place : Nat → Location)
    (notLast : CodesFault) (codes : α → List String) (good : α → Prop)
    (atFault : α → Problem → Prop) (policies : List α) :
    Violation → Prop where
  | notLast {i : Nat} :
      IsLeast {j | RefusedAt codes good policies j} i →
        AfterMatchAll codes policies i →
          PolicyReport place notLast codes good atFault policies
            ⟨place i, .badCodes notLast⟩
  | own {i : Nat} {p : α} {problem : Problem} :
      IsLeast {j | RefusedAt codes good policies j} i →
        ¬ AfterMatchAll codes policies i →
        policies[i]? = some p → atFault p problem →
          PolicyReport place notLast codes good atFault policies
            ⟨place i, problem⟩

/-- What a retrier is at fault for by itself. -/
inductive Retrier.AtFault (r : Retrier) : Problem → Prop where
  | outOfRange {fault : RangeFault} :
      r.OutOfRange fault → r.AtFault (.outOfRange fault)
  | badCodes {fault : CodesFault} :
      BadCodes r.errorEquals fault → r.AtFault (.badCodes fault)

/-- What a catcher is at fault for by itself. -/
inductive Catcher.AtFault (c : Catcher) : Problem → Prop where
  | next : ¬ Given c.next → c.AtFault (.missing .next)
  | badCodes {fault : CodesFault} :
      BadCodes c.errorEquals fault → c.AtFault (.badCodes fault)

/-- What retriers at the location are reported for. -/
def RetriersReport (location : Location) :
    List Retrier → Violation → Prop :=
  PolicyReport location.retrier .matchAllNotLastRetrier Retrier.errorEquals
    Retrier.WellFormed Retrier.AtFault

/-- What catchers at the location are reported for. -/
def CatchersReport (location : Location) :
    List Catcher → Violation → Prop :=
  PolicyReport location.catcher .matchAllNotLastCatcher Catcher.errorEquals
    (fun c => Given c.next) Catcher.AtFault

/-! ## Positions in a list -/

section Positions

variable {α : Type} {codes : α → List String} {good : α → Prop}
  {policies : List α} {i n : Nat}

theorem not_afterMatchAll_zero : ¬ AfterMatchAll codes policies 0 := by
  intro h
  obtain ⟨j, before, hj, -⟩ := h
  omega

theorem afterMatchAll_cons_succ_iff {p : α} :
    AfterMatchAll codes (p :: policies) (i + 1) ↔
      i = 0 ∧ codes p = [ErrorCode.all] ∨ AfterMatchAll codes policies i := by
  constructor
  · intro h
    obtain ⟨j, before, hj, hbefore, hall⟩ := h
    obtain rfl : i = j := by omega
    cases i with
    | zero =>
        injection hbefore with hbefore
        exact .inl ⟨rfl, hbefore ▸ hall⟩
    | succ i => exact .inr ⟨i, before, rfl, hbefore, hall⟩
  · intro h
    rcases h with ⟨rfl, hall⟩ | ⟨j, before, rfl, hbefore, hall⟩
    · exact ⟨0, p, rfl, rfl, hall⟩
    · exact ⟨j + 1, before, rfl, hbefore, hall⟩

/-- The policy at the index follows one that matches every error, in the list
or, as the flag says, right in front of it. -/
def Shadowed {α : Type} (codes : α → List String) (afterAll : Bool)
    (policies : List α) (i : Nat) : Prop :=
  i = 0 ∧ afterAll = true ∨ AfterMatchAll codes policies i

@[simp] theorem shadowed_false_iff :
    Shadowed codes false policies i ↔ AfterMatchAll codes policies i := by
  simp [Shadowed]

@[simp] theorem shadowed_zero_iff {afterAll : Bool} :
    Shadowed codes afterAll policies 0 ↔ afterAll = true := by
  simp [Shadowed, not_afterMatchAll_zero]

@[simp] theorem shadowed_cons_succ_iff {p : α} {afterAll : Bool} :
    Shadowed codes afterAll (p :: policies) (i + 1) ↔
      Shadowed codes (Fields.isMatchAllList (codes p)) policies i := by
  simp [Shadowed, afterMatchAll_cons_succ_iff, Fields.isMatchAllList]

/-- Whether a policy is refused does not depend on what follows it. -/
theorem refusedAt_take_iff (h : i < n) :
    RefusedAt codes good (policies.take n) i ↔
      RefusedAt codes good policies i := by
  have hafter : AfterMatchAll codes (policies.take n) i ↔
      AfterMatchAll codes policies i := by
    refine exists_congr fun j => exists_congr fun before =>
      and_congr_right fun hj => ?_
    rw [List.getElem?_take_of_lt (by omega)]
  rw [RefusedAt, RefusedAt, hafter, List.getElem?_take_of_lt h]

/-- The rules for a list are kept if and only if they are kept at every
position of it. -/
theorem policiesWellFormed_iff_not_refusedAt :
    PoliciesWellFormed codes good policies ↔
      ∀ i, ¬ RefusedAt codes good policies i := by
  constructor
  · intro h i hrefused
    obtain ⟨p, hp, hbad | ⟨j, before, rfl, hbefore, hall⟩⟩ := hrefused
    · exact hbad (h.each p (List.mem_of_getElem? hp))
    · have hlt := (List.getElem?_eq_some_iff.mp hp).1
      have hdrop : policies.dropLast[j]? = some before := by
        rw [List.getElem?_dropLast, if_pos (by omega), hbefore]
      exact h.last before (List.mem_of_getElem? hdrop) hall
  · intro h
    refine ⟨fun p hp => ?_, fun before hbefore hall => ?_⟩
    · obtain ⟨i, hi⟩ := List.mem_iff_getElem?.mp hp
      by_contra hbad
      exact h i ⟨p, hi, .inl hbad⟩
    · obtain ⟨j, hj⟩ := List.mem_iff_getElem?.mp hbefore
      rw [List.getElem?_dropLast] at hj
      split at hj
      · next hlt =>
          have hnext : policies[j + 1]? = some policies[j + 1] :=
            List.getElem?_eq_getElem (by omega)
          exact h (j + 1) ⟨_, hnext, .inr ⟨j, before, rfl, hj, hall⟩⟩
      · cases hj

end Positions

/-! ## The check of a list -/

namespace Fields

open Verdict

variable {location : Location} {v : Violation}

theorem of_checkCodes_error {codes : List String}
    (h : checkCodes location codes = .error v) :
    ∃ fault, BadCodes codes fault ∧ v = ⟨location, .badCodes fault⟩ := by
  have hbad : ¬ CodesWellFormed codes := by
    intro hgood
    rw [checkCodes_eq_ok_iff.mpr hgood] at h
    cases h
  rw [codesWellFormed_iff] at hbad
  rw [checkCodes, bind_eq_error_iff] at h
  rcases h with h | ⟨hne, h⟩
  · obtain ⟨hempty, hv⟩ := eq_of_require_error h
    exact ⟨.empty, .empty (by simpa using hempty), hv⟩
  · have hne : codes ≠ [] := by simpa using require_eq_ok_iff.mp hne
    rw [not_and, Classical.not_imp] at hbad
    obtain ⟨hall, halone⟩ := hbad hne
    exact ⟨.matchAllNotAlone, .notAlone hall halone, (eq_of_require_error h).2⟩

theorem of_checkRetrier_error {r : Retrier}
    (h : checkRetrier location r = .error v) :
    ∃ fault, r.OutOfRange fault ∧ v = ⟨location, .outOfRange fault⟩ := by
  rw [checkRetrier, bind_eq_error_iff, bind_eq_error_iff] at h
  rcases h with h | ⟨-, h | ⟨-, h⟩⟩
  · cases hattempts : r.maxAttempts with
    | none =>
        rw [hattempts] at h
        exact absurd h accept_ne_error
    | some n =>
        rw [hattempts] at h
        obtain ⟨hn, hv⟩ := eq_of_require_error h
        exact ⟨_, .maxAttempts hattempts (by simpa using hn), hv⟩
  · obtain ⟨n, hn, hle, hv⟩ := of_requirePositive_error h
    exact ⟨_, .intervalSeconds hn hle, hv⟩
  · cases hrate : r.backoffRate with
    | none =>
        rw [hrate] at h
        exact absurd h accept_ne_error
    | some x =>
        rw [hrate] at h
        obtain ⟨hx, hv⟩ := eq_of_require_error h
        refine ⟨_, .backoffRate hrate fun hone => ?_, hv⟩
        rw [Double.atLeastOne_iff.mpr hone] at hx
        cases hx

section Policies

variable {α : Type} {place : Nat → Location} {notLast : CodesFault}
  {codes : α → List String} {check : Location → α → Verdict}
  {policies : List α}

/-- A list of policies is reported at one of them, and those before it pass as
a list of their own. It is reported for the policy right before it if that one
matches every error, and only else by its own check or for its codes. -/
theorem of_checkPolicies_error :
    ∀ {index : Nat} {afterAll : Bool},
      checkPolicies place notLast codes check index afterAll policies =
          .error v →
        ∃ i p, policies[i]? = some p ∧
          checkPolicies place notLast codes check index afterAll
              (policies.take i) = .ok () ∧
          (Shadowed codes afterAll policies i ∧
              v = ⟨place (index + i), .badCodes notLast⟩ ∨
            ¬ Shadowed codes afterAll policies i ∧
              (check (place (index + i)) p = .error v ∨
                checkCodes (place (index + i)) (codes p) = .error v)) := by
  induction policies with
  | nil =>
      intro index afterAll h
      exact absurd h accept_ne_error
  | cons p rest ih =>
      intro index afterAll h
      rw [checkPolicies, bind_eq_error_iff, bind_eq_error_iff,
        bind_eq_error_iff] at h
      rcases h with h | ⟨hafter, h⟩
      · obtain ⟨hafter, hv⟩ := eq_of_require_error h
        exact ⟨0, p, rfl, rfl, .inl ⟨by simpa using hafter, hv⟩⟩
      have hfirst : ¬ Shadowed codes afterAll (p :: rest) 0 := by
        simpa using require_eq_ok_iff.mp hafter
      rcases h with h | ⟨hcheck, h | ⟨hcodes, h⟩⟩
      · exact ⟨0, p, rfl, rfl, .inr ⟨hfirst, .inl h⟩⟩
      · exact ⟨0, p, rfl, rfl, .inr ⟨hfirst, .inr h⟩⟩
      · obtain ⟨i, q, hq, hbefore, h⟩ := ih h
        have hshift : index + 1 + i = index + (i + 1) := by omega
        rw [hshift] at h
        refine ⟨i + 1, q, hq, ?_, ?_⟩
        · rw [List.take_succ_cons, checkPolicies, bind_eq_ok_iff,
            bind_eq_ok_iff, bind_eq_ok_iff]
          exact ⟨hafter, hcheck, hcodes, hbefore⟩
        · rw [shadowed_cons_succ_iff]
          exact h

variable {good : α → Prop} {atFault : α → Problem → Prop}

/-- What is reported of a list of policies, for any check of a policy that
accepts what is good and reports what is at fault. -/
theorem report_of_checkPolicies_error
    (hgood : ∀ l p, check l p = .ok () ↔ good p)
    (hcheck : ∀ l p v, check l p = .error v →
      v.location = l ∧ atFault p v.problem)
    (hcodes : ∀ p fault, BadCodes (codes p) fault →
      atFault p (.badCodes fault))
    (h : checkPolicies place notLast codes check 0 false policies =
      .error v) :
    PolicyReport place notLast codes good atFault policies v := by
  obtain ⟨i, p, hp, hbefore, h⟩ := of_checkPolicies_error h
  have hwell := ((checkPolicies_eq_ok_iff hgood).mp hbefore).2
  have hlower : ∀ j, RefusedAt codes good policies j → i ≤ j := by
    intro j hj
    by_contra hlt
    exact policiesWellFormed_iff_not_refusedAt.mp hwell j
      ((refusedAt_take_iff (by omega)).mpr hj)
  rw [Nat.zero_add, shadowed_false_iff] at h
  rcases h with ⟨hafter, rfl⟩ | ⟨hafter, h⟩
  · exact .notLast ⟨⟨p, hp, .inr hafter⟩, hlower⟩ hafter
  · have hown : v.location = place i ∧ atFault p v.problem ∧
        ¬ (good p ∧ CodesWellFormed (codes p)) := by
      rcases h with h | h
      · refine ⟨(hcheck _ _ _ h).1, (hcheck _ _ _ h).2, fun hok => ?_⟩
        rw [(hgood _ p).mpr hok.1] at h
        cases h
      · obtain ⟨fault, hbad, rfl⟩ := of_checkCodes_error h
        refine ⟨rfl, hcodes p fault hbad, fun hok => ?_⟩
        rw [checkCodes_eq_ok_iff.mpr hok.2] at h
        cases h
    obtain ⟨hl, hfault, hbad⟩ := hown
    obtain ⟨l, problem⟩ := v
    obtain rfl : l = place i := hl
    exact .own ⟨⟨p, hp, .inl hbad⟩, hlower⟩ hafter hp hfault

end Policies

theorem report_of_checkRetriers_error {retriers : List Retrier}
    (h : checkRetriers location retriers = .error v) :
    RetriersReport location retriers v := by
  refine report_of_checkPolicies_error checkRetrier_eq_ok_iff ?_
    (fun _ _ hbad => .badCodes hbad) h
  intro l r v h
  obtain ⟨fault, hrange, rfl⟩ := of_checkRetrier_error h
  exact ⟨rfl, .outOfRange hrange⟩

theorem report_of_checkCatchers_error {catchers : List Catcher}
    (h : checkCatchers location catchers = .error v) :
    CatchersReport location catchers v := by
  refine report_of_checkPolicies_error (fun _ _ => requireText_eq_ok_iff) ?_
    (fun _ _ hbad => .badCodes hbad) h
  intro l c v h
  obtain ⟨hnext, rfl⟩ := requireText_eq_error_iff.mp h
  exact ⟨rfl, .next hnext⟩

/-- Retriers, and likewise catchers, are accepted if and only if each is in
order by itself and none but the last matches every error. Otherwise the first
is reported that is not in order or follows one that matches every error, and
the latter for that whatever else is wrong with it. -/
theorem first_bad_policy (location : Location) :
    (∀ retriers : List Retrier,
      (checkRetriers location retriers = .ok () ↔
        RetriersWellFormed retriers) ∧
      ∀ v, checkRetriers location retriers = .error v →
        RetriersReport location retriers v) ∧
    ∀ catchers : List Catcher,
      (checkCatchers location catchers = .ok () ↔
        CatchersWellFormed catchers) ∧
      ∀ v, checkCatchers location catchers = .error v →
        CatchersReport location catchers v := by
  constructor
  · intro retriers
    exact ⟨checkRetriers_eq_ok_iff, fun _ => report_of_checkRetriers_error⟩
  · intro catchers
    exact ⟨checkCatchers_eq_ok_iff, fun _ => report_of_checkCatchers_error⟩

theorem first_bad_policy_shadowed :
    let retriers : List Retrier :=
      [.matching [ErrorCode.timeout], .matching [ErrorCode.all],
        { maxAttempts := some (-1) }]
    let violation : Violation :=
      ⟨Location.root.retrier 2, .badCodes .matchAllNotLastRetrier⟩
    checkRetriers .root retriers = .error violation ∧
      RetriersReport .root retriers violation := by
  intro retriers violation
  have h : checkRetriers .root retriers = .error violation := by
    decide +kernel
  exact ⟨h, ((first_bad_policy .root).1 retriers).2 violation h⟩

end Fields

end Workflow
