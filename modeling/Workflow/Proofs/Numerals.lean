import Mathlib.Data.Nat.Digits.Defs
import Workflow.Double.Decimal
import Workflow.Proofs.Path.IndexBody

/-!
# Numbers in decimal digits

What digits denote, said without a reader: the least significant digit first, as
`Nat.ofDigits` has it. A number is written without a zero in front
(`canonical_toDigits`), and this is more than a matter of looks, since in a
document digits with a zero in front are no number at all.
-/

namespace Workflow.Numeral

/-- The number that digits denote in base ten. -/
def denotes (digits : List Char) : Nat :=
  Nat.ofDigits 10 (digits.reverse.map fun c => c.toNat - '0'.toNat)

/-- Digits without a zero in front, unless that is all there is. -/
structure Canonical (cs : List Char) : Prop where
  digits : Path.Digits cs
  zero {rest : List Char} : cs = '0' :: rest → rest = []

theorem digitsValue_eq_denotes (digits : List Char) :
    Decimal.digitsValue digits = denotes digits := by
  rw [denotes, Nat.ofDigits_eq_foldr, List.foldr_map, List.foldr_reverse,
    Decimal.digitsValue]
  simp only [Nat.cast_id, Nat.add_comm]

variable (n : Nat)

theorem digits_toDigits : Path.Digits (Nat.toDigits 10 n) :=
  ⟨Nat.toDigits_ne_nil, fun _ hc => Path.isDigit_iff.mp
    (Nat.isDigit_of_mem_toDigits (by decide) (by decide) hc)⟩

theorem denotes_toDigits : denotes (Nat.toDigits 10 n) = n := by
  rw [← digitsValue_eq_denotes, Decimal.digitsValue,
    ← Nat.ofDigitChars_eq_foldl, Nat.ofDigitChars_ten_toDigits]

theorem toList_toString : (toString n).toList = Nat.toDigits 10 n := by
  rw [Nat.toString_eq_ofList_toDigits, String.toList_ofList]

/-- Only zero is written with a zero in front, and with nothing else. -/
theorem eq_zero_of_toDigits_eq_cons {n : Nat} {rest : List Char}
    (h : Nat.toDigits 10 n = '0' :: rest) : n = 0 ∧ rest = [] := by
  have hdigit : ∀ n < 10, Nat.digitChar n = '0' → n = 0 := by decide
  induction n using Nat.strongRecOn generalizing rest with
  | ind n ih =>
      rw [Nat.toDigits_eq_if (by decide)] at h
      split at h
      · next hn =>
          obtain ⟨hhead, hrest⟩ := List.cons.inj h
          exact ⟨hdigit n hn hhead, hrest.symm⟩
      · next hn =>
          obtain ⟨c, cs, hcs⟩ := List.exists_cons_of_ne_nil
            (Nat.toDigits_ne_nil (b := 10) (n := n / 10))
          rw [hcs, List.cons_append] at h
          obtain ⟨rfl, -⟩ := List.cons.inj h
          have hzero := (ih (n / 10) (by omega) hcs).1
          omega

theorem canonical_toDigits : Canonical (Nat.toDigits 10 n) where
  digits := digits_toDigits n
  zero h := (eq_zero_of_toDigits_eq_cons h).2

end Workflow.Numeral
