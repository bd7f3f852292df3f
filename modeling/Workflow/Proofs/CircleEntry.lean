import Mathlib.Order.Basic
import Workflow.Proofs.SingleWay
import Workflow.Proofs.StateOrder

/-!
# Which state a circle is reported at

Where nothing may fan out, control has one way to go, and a scope that cannot
end is of one of two sorts: the way stops at a state that names no declared
target, or it goes on for ever. This file says what the check of termination
reports in each case, of any scope whatever, in order or not (`check_exact`).

A way that goes on for ever runs through a stretch that it leaves behind and
then round a circle. The search reports the first state that it meets for the
second time. That this is the first state of the circle, and not some other one
of it, is the point of the file: what has been passed before the circle is never
met again (`entersCircle_of_eq`).
-/

namespace Workflow

/-- Without a choice there is at most one state to go on to. -/
theorem State.eq_of_mem_nextTargets {s : State} (hs : ¬ s.Branching)
    {b c : String} (hb : b ∈ s.nextTargets) (hc : c ∈ s.nextTargets) :
    b = c := by
  have hplain : ∀ t : Option Transition,
      b ∈ (t.bind Transition.target?).toList →
      c ∈ (t.bind Transition.target?).toList → b = c := by
    intro t hb hc
    rw [Option.mem_toList] at hb hc
    exact Option.mem_unique hb hc
  cases s with
  | choice s => exact absurd (.inl rfl) hs
  | pass s | task s | wait s | parallel s => exact hplain _ hb hc
  | succeed s | fail s => exact hplain none hb hc

namespace States

variable {states : States} {a b c : String} {way other : Nat → String}

/-! ## The way that control has to go -/

/-- The names that control passes from a state on, each a step after the one
before, without end. -/
structure Way (states : States) (a : String) (way : Nat → String) : Prop where
  start : way 0 = a
  step : ∀ i, Step states State.nextTargets (way i) (way (i + 1))

theorem Step.unique (ha : ∀ s, states.get? a = some s → ¬ s.Branching)
    (hb : Step states State.nextTargets a b)
    (hc : Step states State.nextTargets a c) : b = c := by
  obtain ⟨s, hs, hb, -⟩ := hb
  obtain ⟨t, ht, hc, -⟩ := hc
  rw [hs] at ht
  cases ht
  exact State.eq_of_mem_nextTargets (ha s hs) hb hc

/-- The only target to go on to is the first declared one. -/
theorem next?_eq_some_of_step
    (ha : ∀ s, states.get? a = some s → ¬ s.Branching)
    (hab : Step states State.nextTargets a b) : next? states a = some b := by
  obtain ⟨s, hs, hb, hmem⟩ := hab
  have hdeclared := contains_eq_true_iff.mpr hmem
  obtain ⟨c, hc⟩ := Option.isSome_iff_exists.mp
    (List.find?_isSome.mpr ⟨b, hb, hdeclared⟩)
  rw [next?, hs, Option.bind_some, hc,
    State.eq_of_mem_nextTargets (ha s hs) (List.mem_of_find?_eq_some hc) hb]

theorem Way.reaches (h : Way states a way) (i : Nat) :
    Reaches states State.nextTargets a (way i) := by
  induction i with
  | zero => rw [h.start]; exact .refl
  | succ i ih => exact ih.tail (h.step i)

section NeverBranches

variable (hplain : states.NeverBranches a)

include hplain

theorem Way.next?_eq (h : Way states a way) (i : Nat) :
    next? states (way i) = some (way (i + 1)) :=
  next?_eq_some_of_step (fun _ => hplain _ _ (h.reaches i)) (h.step i)

theorem Way.unique (h : Way states a way) (h' : Way states a other) :
    other = way := by
  funext i
  induction i with
  | zero => rw [h.start, h'.start]
  | succ i ih =>
      have hstep := h'.step i
      rw [ih] at hstep
      exact hstep.unique (fun _ => hplain _ _ (h.reaches i)) (h.step i)

/-- All that can be reached lies on the way. -/
theorem Way.exists_eq (h : Way states a way)
    (hac : Reaches states State.nextTargets a c) : ∃ i, way i = c := by
  induction hac with
  | refl => exact ⟨0, h.start⟩
  | tail _ hstep ih =>
      obtain ⟨i, rfl⟩ := ih
      exact ⟨i + 1, (h.step i).unique (fun _ => hplain _ _ (h.reaches i)) hstep⟩

/-- If the way leads to a circle, all that can be reached lies before the circle
or on one. -/
theorem reaches_or_circle
    (hb : Relation.TransGen (Step states State.nextTargets) b b)
    (hab : Reaches states State.nextTargets a b)
    (hac : Reaches states State.nextTargets a c) :
    Reaches states State.nextTargets c b ∨
      Relation.TransGen (Step states State.nextTargets) c c := by
  induction hac with
  | refl => exact .inl hab
  | @tail c d hac hcd ih =>
      have hunique {e : String} (h : Step states State.nextTargets c e) :
          e = d := h.unique (fun _ => hplain _ _ hac) hcd
      have hcircle (h : Relation.TransGen (Step states State.nextTargets) c c) :
          Relation.TransGen (Step states State.nextTargets) d d := by
        obtain ⟨e, hce, hec⟩ := Relation.TransGen.head'_iff.mp h
        rw [hunique hce] at hec
        exact .tail' hec hcd
      rcases ih with hcb | hcc
      · rcases Relation.ReflTransGen.cases_head hcb with rfl | ⟨e, hce, heb⟩
        · exact .inr (hcircle hb)
        · exact .inl (hunique hce ▸ heb)
      · exact .inr (hcircle hcc)

end NeverBranches

/-- Where everything that can be reached goes on, there is a way without end. -/
theorem exists_way (hstep : ∀ b, Reaches states State.nextTargets a b →
    ∃ c, Step states State.nextTargets b c) : ∃ way, Way states a way := by
  choose! next hnext using hstep
  have hreaches (i : Nat) :
      Reaches states State.nextTargets a (next^[i] a) := by
    induction i with
    | zero => exact .refl
    | succ i ih =>
        rw [Function.iterate_succ_apply']
        exact ih.tail (hnext _ ih)
  refine ⟨fun i => next^[i] a, rfl, fun i => ?_⟩
  rw [Function.iterate_succ_apply']
  exact hnext _ (hreaches i)

/-! ## The circle -/

/-- The way comes once more to the state that it passes at this position. -/
def Returns (way : Nat → String) (i : Nat) : Prop := ∃ j, i < j ∧ way j = way i

/-- The state at this position is the first on the way that lies on a circle. -/
structure EntersCircle (way : Nat → String) (i : Nat) : Prop where
  returns : Returns way i
  first : ∀ j < i, ¬ Returns way j

section Next

variable {next : String → Option String}
  (hnext : ∀ i, next (way i) = some (way (i + 1)))

include hnext

/-- From a state that the way has come back to, it goes on round the circle. -/
theorem exists_eq_of_le {i k : Nat} (hk : k < i) (heq : way i = way k) {j : Nat}
    (hj : k ≤ j) : ∃ l, k ≤ l ∧ l < i ∧ way j = way l := by
  induction j, hj using Nat.le_induction with
  | base => exact ⟨k, Nat.le_refl k, hk, rfl⟩
  | succ j _ ih =>
      obtain ⟨l, hkl, hli, hl⟩ := ih
      have hsucc : way (j + 1) = way (l + 1) :=
        Option.some.inj ((hnext j).symm.trans (hl ▸ hnext l))
      rcases Nat.lt_or_ge (l + 1) i with hlt | hge
      · exact ⟨l + 1, by omega, hlt, hsucc⟩
      · obtain rfl : i = l + 1 := by omega
        exact ⟨k, Nat.le_refl k, hk, hsucc.trans heq⟩

/-- What the way comes back to first is where the circle is entered. -/
theorem entersCircle_of_eq {i k : Nat} (hk : k < i) (heq : way i = way k)
    (hdistinct : ∀ x < i, ∀ y < i, way x = way y → x = y) :
    EntersCircle way k where
  returns := ⟨i, hk, heq⟩
  first := by
    rintro j hj ⟨l, hjl, hl⟩
    -- The position `l` stands for one on the circle, or before it.
    have hcircle : ∃ x, j < x ∧ x < i ∧ way l = way x := by
      rcases Nat.lt_or_ge l k with hlk | hkl
      · exact ⟨l, hjl, by omega, rfl⟩
      · obtain ⟨x, hkx, hxi, hx⟩ := exists_eq_of_le hnext hk heq hkl
        exact ⟨x, by omega, hxi, hx⟩
    obtain ⟨x, hjx, hxi, hx⟩ := hcircle
    have hxj := hdistinct x hxi j (by omega) (hx.symm.trans hl)
    omega

/-- Following the way, the first state met for the second time is where the
circle is entered. -/
theorem entersCircle_of_follow? {steps i : Nat}
    (hdistinct : ∀ x < i, ∀ y < i, way x = way y → x = y)
    (h : follow? next steps ((List.range i).reverse.map way) (way i) =
      some b) : ∃ k, way k = b ∧ EntersCircle way k := by
  induction steps generalizing i with
  | zero => cases h
  | succ steps ih =>
      have hmem : way i ∈ (List.range i).reverse.map way ↔
          ∃ k < i, way i = way k := by
        simp [eq_comm]
      rw [follow?] at h
      split at h
      · next hi =>
          obtain ⟨k, hk, heq⟩ := hmem.mp hi
          refine ⟨k, ?_, entersCircle_of_eq hnext hk heq hdistinct⟩
          rw [← heq]
          exact Option.some.inj h
      · next hi =>
          rw [hmem] at hi
          refine ih (i := i + 1) (fun x hx y hy heq => ?_) ?_
          · rcases Nat.lt_succ_iff_lt_or_eq.mp hx with hx | rfl <;>
              rcases Nat.lt_succ_iff_lt_or_eq.mp hy with hy | rfl
            · exact hdistinct x hx y hy heq
            · exact absurd ⟨x, hx, heq.symm⟩ hi
            · exact absurd ⟨y, hy, heq⟩ hi
            · rfl
          · rw [hnext, Option.bind_some] at h
            simpa [List.range_succ] using h

end Next

end States

namespace Termination

variable {m : Machine} {location : Location} {a : String}
  {way : Nat → String}

/-- A way without end is reported as a circle, where it enters it. -/
theorem check_eq_of_way (ha : m.startAt = some a)
    (hmem : a ∈ States.names m.states) (hend : ¬ States.CanEnd m.states a)
    (hplain : States.NeverBranches m.states a)
    (hway : States.Way m.states a way) :
    ∃ i, States.EntersCircle way i ∧
      check .split location m = .error ⟨location.state (way i), .cycle⟩ := by
  obtain ⟨start, hstart⟩ := States.exists_index? hmem
  have hend : start ∉ (Graph.ofStates m.states).terminating :=
    fun h => hend ((Graph.canEnd_iff hstart).mp h)
  obtain ⟨w, hw⟩ := Graph.exists_cycleHead?_of_step hstart hplain
    fun b hab => by
      obtain ⟨i, rfl⟩ := hway.exists_eq hplain hab
      exact ⟨_, hway.step i⟩
  have hrepeat : Graph.firstRepeat? (Graph.ofStates m.states)
      ((Graph.ofStates m.states).size + 1) [] start = some w := by
    rw [Graph.cycleHead?] at hw
    exact (Option.ite_none_left_eq_some.mp hw).2
  have hfound := congrArg (Option.map (Graph.ofStates m.states).name) hrepeat
  rw [Graph.map_name_firstRepeat? hstart (List.forall_mem_nil _),
    Option.map_some, ← hway.start] at hfound
  obtain ⟨i, hi, hcircle⟩ := States.entersCircle_of_follow?
    (hway.next?_eq hplain) (i := 0) (by simp) hfound
  refine ⟨i, hcircle, ?_⟩
  rw [check, start?_eq_some_iff.mpr ⟨a, ha, hstart⟩]
  simp only [if_neg hend, problemAt, hw, hi]
  rfl

/-- What the check of termination reports of a scope, be it in order or not. It
accepts just if the scope can end from its start, or the start is not declared.
Otherwise the unified style reports the start. So does the split style, unless
nothing may fan out and the way from the start goes on for ever: then it reports
the first state on that way that lies on a circle. -/
theorem check_exact (location : Location) (m : Machine) :
    (∀ style, check style location m = .ok () ↔
      ∀ a, m.startAt = some a → a ∈ States.names m.states →
        States.CanEnd m.states a) ∧
    ∀ a, m.startAt = some a → a ∈ States.names m.states →
      ¬ States.CanEnd m.states a →
      check .unified location m =
        .error ⟨location.state a, .noTerminalPath⟩ ∧
      (States.NeverBranches m.states a →
        ∀ way, States.Way m.states a way →
          (∀ other, States.Way m.states a other → other = way) ∧
          ∃ i, States.EntersCircle way i ∧
            check .split location m =
              .error ⟨location.state (way i), .cycle⟩) ∧
      (¬ (States.NeverBranches m.states a ∧
          ∃ way, States.Way m.states a way) →
        check .split location m =
          .error ⟨location.state a, .noTerminalPath⟩) := by
  refine ⟨fun style => check_eq_ok_iff, fun a ha hmem hend => ?_⟩
  have hrejects (style : Diagnostics) :
      ∃ v, check style location m = .error v := by
    cases h : check style location m with
    | ok _ => exact absurd (check_eq_ok_iff.mp h a ha hmem) hend
    | error v => exact ⟨v, rfl⟩
  refine ⟨?_, fun hplain way hway => ⟨fun _ => hway.unique hplain,
    check_eq_of_way ha hmem hend hplain hway⟩, fun hcircle => ?_⟩
  · obtain ⟨v, hv⟩ := hrejects .unified
    obtain ⟨b, hb, -, -, rfl | ⟨_, -, hstyle, -⟩⟩ := of_check_error hv
    · rw [hv, Option.some.inj (ha.symm.trans hb)]
    · cases hstyle
  · obtain ⟨v, hv⟩ := hrejects .split
    obtain ⟨b, hb, -, -, rfl | ⟨c, -, -, hbc, hcc, hplain⟩⟩ :=
      of_check_error hv
    · rw [hv, Option.some.inj (ha.symm.trans hb)]
    · obtain rfl := Option.some.inj (ha.symm.trans hb)
      refine absurd ⟨hplain, States.exists_way fun d had => ?_⟩ hcircle
      rcases States.reaches_or_circle hplain hcc hbc had with hdc | hdd
      · rcases Relation.ReflTransGen.cases_head hdc with rfl | ⟨e, hde, -⟩
        · obtain ⟨e, hde, -⟩ := Relation.TransGen.head'_iff.mp hcc
          exact ⟨e, hde⟩
        · exact ⟨e, hde⟩
      · obtain ⟨e, hde, -⟩ := Relation.TransGen.head'_iff.mp hdd
        exact ⟨e, hde⟩

end Termination

/-- A scope that goes round in a circle after its first state. The second
declaration of a name does not help it to an end. -/
def Machine.spinning : Machine where
  startAt := some "Start"
  states := [
    ⟨"Start", .pass { transition := some (.next "Work") }⟩,
    ⟨"Work", .pass { transition := some (.next "Again") }⟩,
    ⟨"Again", .wait { transition := some (.next "Work") }⟩,
    ⟨"Work", .succeed {}⟩]

/-- The way through the scope. -/
def Machine.spin : Nat → String
  | 0 => "Start"
  | i + 1 => if i % 2 = 0 then "Work" else "Again"

theorem Machine.way_spin :
    States.Way Machine.spinning.states "Start" Machine.spin where
  start := rfl
  step := by
    have hstart : States.Step Machine.spinning.states State.nextTargets
        "Start" "Work" := ⟨_, rfl, by decide, by decide⟩
    have hwork : States.Step Machine.spinning.states State.nextTargets
        "Work" "Again" := ⟨_, rfl, by decide, by decide⟩
    have hagain : States.Step Machine.spinning.states State.nextTargets
        "Again" "Work" := ⟨_, rfl, by decide, by decide⟩
    rintro (_ | i)
    · exact hstart
    · rw [spin, spin]
      rcases Nat.mod_two_eq_zero_or_one i with hi | hi
      · rw [if_pos hi, if_neg (by omega)]
        exact hwork
      · rw [if_neg (by omega), if_pos (by omega)]
        exact hagain

theorem Termination.check_exact_spinning :
    Machine.spinning.startAt = some "Start" ∧
      "Start" ∈ States.names Machine.spinning.states ∧
      ¬ States.CanEnd Machine.spinning.states "Start" ∧
      States.NeverBranches Machine.spinning.states "Start" ∧
      ∃ i, States.EntersCircle Machine.spin i ∧
        check .split .root .spinning =
          .error ⟨Location.root.state (Machine.spin i), .cycle⟩ := by
  have hmem : "Start" ∈ States.names Machine.spinning.states := by decide
  have hend : ¬ States.CanEnd Machine.spinning.states "Start" := by
    have hstart : States.index? Machine.spinning.states "Start" = some 0 := rfl
    rw [← Graph.canEnd_iff hstart]
    decide +kernel
  have hplain : States.NeverBranches Machine.spinning.states "Start" := by
    intro b s _ hs
    obtain ⟨i, -, e, he, rfl⟩ := States.get?_eq_some_iff.mp hs
    have he := List.mem_of_getElem? he
    simp only [Machine.spinning, List.mem_cons, List.not_mem_nil, or_false]
      at he
    rcases he with rfl | rfl | rfl | rfl <;> simp [State.Branching, State.kind]
  obtain ⟨-, hreports, -⟩ :=
    (check_exact .root .spinning).2 "Start" rfl hmem hend
  exact ⟨rfl, hmem, hend, hplain, (hreports hplain _ Machine.way_spin).2⟩

end Workflow
