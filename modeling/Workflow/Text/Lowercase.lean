import Workflow.Text.CaseTable

/-!
# Small letters

The Unicode mapping to small letters. Two capitals need more than a table row: `İ` becomes two
characters, and `Σ` becomes `ς` where it ends a word and `σ` elsewhere.
-/

namespace Workflow.Text

/-- Whether a code point lies in one of the ranges. -/
def inRanges (ranges : List (Nat × Nat)) (n : Nat) : Bool :=
  ranges.any fun (first, last) => first ≤ n && n ≤ last

/-- The small form of one character that does not depend on its neighbours. -/
def smallLetter (c : Char) : Char :=
  let n := c.toNat
  match capitals.find? fun r => r.first ≤ n && n ≤ r.last && (n - r.first) % r.stride == 0 with
  | some r => Char.ofNat (n + r.shift).toNat
  | none => c

/-- Whether the first character that is not passed over has case. -/
def startsCased (cs : List Char) : Bool :=
  match cs.dropWhile fun c => inRanges caseIgnorableRanges c.toNat with
  | c :: _ => inRanges casedRanges c.toNat
  | [] => false

/-- The small form of a text, given the characters already passed, nearest first. A sigma ends a
word if a letter stands before it and none after it. -/
def lowerAfter (before : List Char) : List Char → List Char
  | [] => []
  | c :: rest =>
    let small :=
      if c = 'Σ' then [if startsCased before && !startsCased rest then 'ς' else 'σ']
      else if c = 'İ' then ['i', '\u0307']
      else [smallLetter c]
    small ++ lowerAfter (c :: before) rest

/-- The text in small letters. -/
def lowercase (s : String) : String :=
  String.ofList (lowerAfter [] s.toList)

example : lowercase "SPLIT" = "split" := by decide +kernel
example : lowercase "İ" = "i\u0307" := by decide +kernel
example : lowercase "ΣΑΣ ΣΑ" = "σας σα" := by decide +kernel

end Workflow.Text
