import Mathlib.Data.List.Nodup
import Workflow.Graph

/-!
# First declarations

A name stands for its first declaration, whether it is looked up as a state or
as the position of a node. The lemmas here tie the two look-ups together, and
say what distinct names buy: then every declaration is the first of its name,
and a position and a name are the same thing.
-/

namespace Workflow

namespace States

variable {states : States} {a : String} {i : Nat} {s : State}

theorem mem_names_iff : a ∈ names states ↔ ∃ e ∈ states, e.name = a := by
  simp [names]

theorem index?_eq_some_iff :
    states.index? a = some i ↔
      ∃ h : i < states.length, states[i].name = a ∧
        ∀ j (hj : j < i), states[j].name ≠ a := by
  simp [index?, List.findIdx?_eq_some_iff_getElem]

theorem lt_length_of_index? (h : states.index? a = some i) :
    i < states.length :=
  (index?_eq_some_iff.mp h).1

theorem mem_names_of_index? (h : states.index? a = some i) :
    a ∈ names states := by
  obtain ⟨hi, hname, -⟩ := index?_eq_some_iff.mp h
  exact mem_names_iff.mpr ⟨states[i], List.getElem_mem hi, hname⟩

theorem eq_of_index?_eq {b : String} (ha : states.index? a = some i)
    (hb : states.index? b = some i) : a = b := by
  obtain ⟨_, hname, _⟩ := index?_eq_some_iff.mp ha
  obtain ⟨_, hname', _⟩ := index?_eq_some_iff.mp hb
  rw [← hname, hname']

theorem exists_index? (h : a ∈ names states) :
    ∃ i, states.index? a = some i := by
  rw [← Option.isSome_iff_exists, index?, List.findIdx?_isSome]
  exact contains_eq_true_iff.mpr h

theorem index?_eq_none_iff : states.index? a = none ↔ a ∉ names states := by
  rw [index?, ← Option.not_isSome_iff_eq_none, List.findIdx?_isSome]
  exact not_congr contains_eq_true_iff

/-- Positions are a matter of names alone. -/
theorem index?_congr {states' : States} (h : names states = names states') :
    states.index? = states'.index? := by
  have hindex (states : States) (a : String) :
      states.index? a = states.names.findIdx? (· == a) := by
    rw [index?, names, List.findIdx?_map]
    rfl
  funext a
  rw [hindex, hindex, h]

theorem contains_congr {states' : States} (h : names states = names states') :
    states.contains = states'.contains := by
  funext a
  rw [Bool.eq_iff_iff, contains_eq_true_iff, contains_eq_true_iff, h]

theorem get?_eq_some_iff :
    states.get? a = some s ↔
      ∃ i, states.index? a = some i ∧
        ∃ e, states[i]? = some e ∧ e.state = s := by
  rw [get?, List.find?_eq_bind_findIdx?_getElem?, Option.map_eq_some_iff]
  simp only [Option.bind_eq_some_iff, index?]
  constructor
  · intro h
    obtain ⟨e, ⟨i, hi, he⟩, rfl⟩ := h
    exact ⟨i, hi, e, he, rfl⟩
  · intro h
    obtain ⟨i, hi, e, he, rfl⟩ := h
    exact ⟨e, ⟨i, hi, he⟩, rfl⟩

theorem get?_of_index? (h : states.index? a = some i) :
    states.get? a = (states[i]?).map Entry.state := by
  ext s
  rw [get?_eq_some_iff, h, Option.map_eq_some_iff]
  simp

theorem exists_get? (h : a ∈ names states) :
    ∃ s, states.get? a = some s := by
  obtain ⟨i, hi⟩ := exists_index? h
  rw [get?_of_index? hi, List.getElem?_eq_getElem (lt_length_of_index? hi)]
  exact ⟨_, rfl⟩

/-! ## Distinct names -/

/-- With distinct names every declaration is the first of its name. -/
theorem index?_getElem (hnodup : (names states).Nodup)
    (hi : i < states.length) : states.index? states[i].name = some i := by
  refine index?_eq_some_iff.mpr ⟨hi, rfl, fun j hj heq => ?_⟩
  have hnames : (names states)[j]? = (names states)[i]? := by
    rw [names, List.getElem?_map, List.getElem?_map,
      List.getElem?_eq_getElem hi,
      List.getElem?_eq_getElem (Nat.lt_trans hj hi)]
    exact congrArg some heq
  have hj' : j < (names states).length := by
    rw [names, List.length_map]
    omega
  have hij := (List.getElem?_inj hj' hnodup).mp hnames
  omega

theorem get?_of_mem (hnodup : (names states).Nodup) {e : Entry}
    (he : e ∈ states) : states.get? e.name = some e.state := by
  obtain ⟨i, hi, rfl⟩ := List.getElem_of_mem he
  exact get?_eq_some_iff.mpr ⟨i, index?_getElem hnodup hi, states[i],
    List.getElem?_eq_getElem hi, rfl⟩

theorem eq_of_mem_of_name_eq (hnodup : (names states).Nodup) {d e : Entry}
    (hd : d ∈ states) (he : e ∈ states) (h : d.name = e.name) : d = e :=
  List.inj_on_of_nodup_map hnodup hd he h

end States

end Workflow
