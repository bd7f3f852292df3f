import Workflow.Condition

/-!
# The parts of a condition

What a condition is made of, as a relation (`Condition.PartOf`) and as the list
of its parts, each before those that it is made of in turn and from left to
right (`Condition.parts`). The comparisons are the parts at its leaves. Every
check of a condition goes down its tree in this order, so what the checks do is
said over these lists later on.
-/

namespace Workflow

namespace Condition

/-- The first condition is the second or one of those it is made of. -/
inductive PartOf : Condition → Condition → Prop where
  | refl {c : Condition} : PartOf c c
  | all {part c : Condition} {cs : List Condition} :
      c ∈ cs → PartOf part c → PartOf part (.all cs)
  | any {part c : Condition} {cs : List Condition} :
      c ∈ cs → PartOf part c → PartOf part (.any cs)
  | negation {part c : Condition} :
      PartOf part c → PartOf part (.negation (some c))

mutual

/-- A condition and all that it is made of, each part before its own parts,
from left to right. -/
def parts : Condition → List Condition
  | .comparison test => [.comparison test]
  | .all conditions => .all conditions :: partsEach conditions
  | .any conditions => .any conditions :: partsEach conditions
  | .negation condition => .negation condition :: partsOption condition

/-- The parts of the members of a list, from left to right. -/
def partsEach : List Condition → List Condition
  | [] => []
  | c :: cs => c.parts ++ partsEach cs

/-- The parts of a condition that may be missing. -/
def partsOption : Option Condition → List Condition
  | none => []
  | some c => c.parts

end

mutual

theorem mem_parts_iff {part : Condition} : (c : Condition) →
    (part ∈ c.parts ↔ PartOf part c)
  | .comparison test => by
      rw [parts, List.mem_singleton]
      constructor
      · intro h
        exact h ▸ .refl
      · intro h
        cases h
        rfl
  | .all cs => by
      rw [parts, List.mem_cons, mem_partsEach_iff cs]
      constructor
      · intro h
        rcases h with rfl | ⟨c, hc, h⟩
        · exact .refl
        · exact .all hc h
      · intro h
        cases h with
        | refl => exact .inl rfl
        | all hc h => exact .inr ⟨_, hc, h⟩
  | .any cs => by
      rw [parts, List.mem_cons, mem_partsEach_iff cs]
      constructor
      · intro h
        rcases h with rfl | ⟨c, hc, h⟩
        · exact .refl
        · exact .any hc h
      · intro h
        cases h with
        | refl => exact .inl rfl
        | any hc h => exact .inr ⟨_, hc, h⟩
  | .negation condition => by
      rw [parts, List.mem_cons, mem_partsOption_iff condition]
      constructor
      · intro h
        rcases h with rfl | ⟨c, rfl, h⟩
        · exact .refl
        · exact .negation h
      · intro h
        cases h with
        | refl => exact .inl rfl
        | negation h => exact .inr ⟨_, rfl, h⟩

theorem mem_partsEach_iff {part : Condition} : (cs : List Condition) →
    (part ∈ partsEach cs ↔ ∃ c ∈ cs, PartOf part c)
  | [] => by simp [partsEach]
  | c :: cs => by
      rw [partsEach, List.mem_append, mem_parts_iff c, mem_partsEach_iff cs]
      simp

theorem mem_partsOption_iff {part : Condition} :
    (condition : Option Condition) →
      (part ∈ partsOption condition ↔
        ∃ c, condition = some c ∧ PartOf part c)
  | none => by simp [partsOption]
  | some c => by
      rw [partsOption, mem_parts_iff c]
      simp

end

/-! ## Comparisons -/

mutual

/-- The comparisons of a condition, from left to right. -/
def comparisons : Condition → List Comparison
  | .comparison test => [test]
  | .all conditions => comparisonsEach conditions
  | .any conditions => comparisonsEach conditions
  | .negation condition => comparisonsOption condition

/-- The comparisons of a list of conditions, from left to right. -/
def comparisonsEach : List Condition → List Comparison
  | [] => []
  | c :: cs => c.comparisons ++ comparisonsEach cs

/-- The comparisons of a condition that may be missing. -/
def comparisonsOption : Option Condition → List Comparison
  | none => []
  | some c => c.comparisons

end

/-- The comparison that a part is, if it is one. -/
def test? : Condition → Option Comparison
  | .comparison test => some test
  | .all _ | .any _ | .negation _ => none

theorem test?_eq_some_iff {part : Condition} {test : Comparison} :
    part.test? = some test ↔ part = .comparison test := by
  cases part <;> simp [test?]

mutual

theorem comparisons_eq_filterMap : (c : Condition) →
    c.comparisons = c.parts.filterMap test?
  | .comparison test => rfl
  | .all cs => by
      rw [comparisons, parts, List.filterMap_cons_none rfl,
        comparisonsEach_eq_filterMap cs]
  | .any cs => by
      rw [comparisons, parts, List.filterMap_cons_none rfl,
        comparisonsEach_eq_filterMap cs]
  | .negation condition => by
      rw [comparisons, parts, List.filterMap_cons_none rfl,
        comparisonsOption_eq_filterMap condition]

theorem comparisonsEach_eq_filterMap : (cs : List Condition) →
    comparisonsEach cs = (partsEach cs).filterMap test?
  | [] => rfl
  | c :: cs => by
      rw [comparisonsEach, partsEach, List.filterMap_append,
        comparisons_eq_filterMap c, comparisonsEach_eq_filterMap cs]

theorem comparisonsOption_eq_filterMap : (condition : Option Condition) →
    comparisonsOption condition = (partsOption condition).filterMap test?
  | none => rfl
  | some c => by
      rw [comparisonsOption, partsOption, comparisons_eq_filterMap c]

end

theorem mem_comparisonsOption_iff {test : Comparison}
    {condition : Option Condition} :
    test ∈ comparisonsOption condition ↔
      ∃ c, condition = some c ∧ PartOf (.comparison test) c := by
  rw [comparisonsOption_eq_filterMap, List.mem_filterMap,
    ← mem_partsOption_iff]
  simp only [test?_eq_some_iff, exists_eq_right]

end Condition

end Workflow
