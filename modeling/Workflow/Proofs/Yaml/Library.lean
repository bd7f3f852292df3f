import Workflow.Proofs.Yaml.Lines
import Workflow.Yaml.Library

/-!
# The library for YAML reads lines

The library for the part of YAML that is known here does what is relied on of a
library. That the lines of a document come out as the entries of a mapping is
the work of the lines themselves (`read?_lines`). What is left is that a plain
scalar comes to what it shows. For numbers this takes care: a number in a
document has more forms than decimal digits, and a zero in front is the start of
one of them.
-/

namespace Workflow.Yaml

open Document

namespace Node

theorem digitIn?_of_isDigit {c : Char} (h : c.isDigit = true) :
    digitIn? 10 c = some (c.toNat - '0'.toNat) := by
  have hlt : c.toNat - '0'.toNat < 10 := by
    obtain ⟨-, hhigh⟩ := Path.isDigit_iff.mp h
    have hhigh : c.toNat ≤ '9'.toNat := hhigh
    have hnine : '9'.toNat = 57 := rfl
    have hzero : '0'.toNat = 48 := rfl
    omega
  rw [digitIn?, if_pos h, if_pos hlt]

theorem numberIn?_of_digits {cs : List Char} (h : Path.Digits cs) :
    numberIn? 10 cs = some (Numeral.denotes cs) := by
  obtain ⟨hne, hdigits⟩ := h
  have hfold (n : Nat) :
      cs.foldlM (fun n c => (digitIn? 10 c).map (10 * n + ·)) n =
        some (cs.foldl (fun n c => 10 * n + (c.toNat - '0'.toNat)) n) := by
    clear hne
    induction cs generalizing n with
    | nil => rfl
    | cons c cs ih =>
        rw [List.forall_mem_cons] at hdigits
        rw [List.foldlM_cons,
          digitIn?_of_isDigit (Path.isDigit_iff.mpr hdigits.1)]
        exact ih hdigits.2 _
  rw [numberIn?, List.isEmpty_eq_false_iff.mpr hne, hfold,
    ← Numeral.digitsValue_eq_denotes]
  rfl

theorem unsigned?_of_canonical {cs : List Char} (h : Numeral.Canonical cs) :
    unsigned? cs = some (Numeral.denotes cs) := by
  have hnumber := numberIn?_of_digits h.digits
  obtain ⟨c, rest, rfl⟩ := List.exists_cons_of_ne_nil h.digits.1
  by_cases hc : c = '0'
  · subst hc
    obtain rfl := h.zero rfl
    rfl
  · have hplus : c ≠ '+' := by
      rintro rfl
      obtain ⟨hlow, -⟩ := h.digits.2 '+' List.mem_cons_self
      exact absurd hlow (by decide)
    simp [unsigned?, hplus, hc, hnumber]

theorem plain_value (word : String) : Plain word (scalar true word).value where
  name := rfl
  number hdigits _ := unsigned?_of_canonical hdigits
  truth := by
    rintro rfl
    rfl
  falsity := by
    rintro rfl
    rfl

theorem entries?_mapping (es : List (String × String)) :
    entries? (.mapping (es.map plainEntry)) =
      some (es.map fun e => (e.1, (scalar true e.2).value)) := by
  rw [entries?, List.mapM_map]
  exact List.mapM_pure

end Node

instance : LineLibrary where
  read?_lines := by
    intro es hne hes
    refine ⟨es.map fun e => (e.1, (Node.scalar true e.2).value), ?_, ?_⟩
    · change (read? _).bind Node.entries? = _
      rw [read?_lines hne hes, Option.bind_some, Node.entries?_mapping]
    · rw [List.forall₂_map_right_iff, List.forall₂_same]
      exact fun e _ => ⟨rfl, Node.plain_value e.2⟩
  write?_entries := by
    intro s _
    rw [ofLines, List.map_map]
    rfl

end Workflow.Yaml
