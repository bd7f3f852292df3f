import Workflow.Yaml.Token

/-!
# Reading YAML

A document is one node: a scalar, or a sequence or mapping in either layout. A text holds one
document, which `---` may come before and `...` after.

Each function on nodes takes a bound on the steps to come. At least every third step passes a token,
so `stepBound` is always enough.
-/

namespace Workflow

namespace Yaml

/-- Enough steps to read all nodes that the tokens write. -/
def stepBound (ts : List Token) : Nat := 3 * (ts.length + 1)

/-- Whether a node starts here; in the value of an entry, the dash of an item starts one. -/
def startsNode (isValue : Bool) : List Token → Bool
  | .scalar _ _ :: _ => true
  | .sequenceStart :: _ => true
  | .mappingStart :: _ => true
  | .openBracket :: _ => true
  | .openBrace :: _ => true
  | .dash :: _ => isValue
  | _ => false

mutual

/-- A node, and the rest. -/
def takeNode? : (fuel : Nat) → List Token → Option (Node × List Token)
  | 0, _ => none
  | fuel + 1, ts =>
    match ts with
    | .scalar plain text :: ts => some (.scalar plain text, ts)
    | .sequenceStart :: ts => do
      match ← takeItems? fuel ts with
      | (items, .collectionEnd :: ts) => some (.sequence items, ts)
      | _ => none
    | .dash :: _ => (takeItems? fuel ts).map fun (items, ts) => (.sequence items, ts)
    | .mappingStart :: ts => do
      match ← takeEntries? fuel ts with
      | (entries, .collectionEnd :: ts) => some (.mapping entries, ts)
      | _ => none
    | .openBracket :: ts => (takeFlowItems? fuel ts).map fun (items, ts) => (.sequence items, ts)
    | .openBrace :: ts => (takeFlowEntries? fuel ts).map fun (entries, ts) => (.mapping entries, ts)
    | _ => none

/-- A node that may be left out, and the rest. -/
def takeContent? (isValue : Bool) : (fuel : Nat) → List Token → Option (Node × List Token)
  | 0, _ => none
  | fuel + 1, ts => if startsNode isValue ts then takeNode? fuel ts else some (.empty, ts)

/-- The items of a sequence that are marked by dashes, and the rest. -/
def takeItems? : (fuel : Nat) → List Token → Option (List Node × List Token)
  | 0, _ => none
  | fuel + 1, ts =>
    match ts with
    | .dash :: ts => do
      let (item, ts) ← takeContent? false fuel ts
      let (items, ts) ← takeItems? fuel ts
      return (item :: items, ts)
    | _ => some ([], ts)

/-- An entry of a mapping after the token that starts its key, and the rest. -/
def takePair? : (fuel : Nat) → List Token → Option ((Node × Node) × List Token)
  | 0, _ => none
  | fuel + 1, ts => do
    match ← takeNode? fuel ts with
    | (key, .colon :: ts) =>
      let (value, ts) ← takeContent? true fuel ts
      return ((key, value), ts)
    | _ => none

/-- The entries of a mapping, and the rest. -/
def takeEntries? : (fuel : Nat) → List Token → Option (List (Node × Node) × List Token)
  | 0, _ => none
  | fuel + 1, ts =>
    match ts with
    | .key :: ts => do
      let (entry, ts) ← takePair? fuel ts
      let (entries, ts) ← takeEntries? fuel ts
      return (entry :: entries, ts)
    | _ => some ([], ts)

/-- The items of a sequence up to its closing bracket, and the rest. An entry is a mapping of its
own. -/
def takeFlowItems? : (fuel : Nat) → List Token → Option (List Node × List Token)
  | 0, _ => none
  | fuel + 1, ts =>
    match ts with
    | .closeBracket :: ts => some ([], ts)
    | _ => do
      let (item, ts) ← match ts with
        | .key :: ts => (takePair? fuel ts).map fun (entry, ts) => (Node.mapping [entry], ts)
        | ts => takeNode? fuel ts
      match ts with
      | .closeBracket :: ts => some ([item], ts)
      | .comma :: ts => do
        let (items, ts) ← takeFlowItems? fuel ts
        return (item :: items, ts)
      | _ => none

/-- The entries of a mapping up to its closing brace, and the rest. A node without a colon is a key
with an empty value. -/
def takeFlowEntries? : (fuel : Nat) → List Token → Option (List (Node × Node) × List Token)
  | 0, _ => none
  | fuel + 1, ts =>
    match ts with
    | .closeBrace :: ts => some ([], ts)
    | _ => do
      let (entry, ts) ← match ts with
        | .key :: ts => takePair? fuel ts
        | ts => (takeNode? fuel ts).map fun (key, ts) => ((key, Node.empty), ts)
      match ts with
      | .closeBrace :: ts => some ([entry], ts)
      | .comma :: ts => do
        let (entries, ts) ← takeFlowEntries? fuel ts
        return (entry :: entries, ts)
      | _ => none

end

/-- The node of a document after its start marker, if it has one. -/
def takeDocument? (ts : List Token) : Option (Node × List Token) :=
  match ts with
  | [] => some (.empty, [])
  | .documentStart :: rest => takeContent? false (stepBound ts) rest
  | ts => takeNode? (stepBound ts) ts

/-- The node of the only document that tokens write. That of an empty document is empty. -/
def Node.ofTokens? (ts : List Token) : Option Node := do
  let (node, rest) ← takeDocument? ts
  if rest.all (· = .documentEnd) then return node else none

/-- The node of the document in a text. -/
def read? (text : String) : Option Node :=
  if text.toList.all isPrintable then
    (tokens? (normalizeBreaks text.toList)).bind Node.ofTokens?
  else none

end Yaml

end Workflow
