import Workflow.DocumentLibrary
import Workflow.Yaml.Reader

/-!
# Documents in YAML

A library for documents in the part of YAML that `Yaml.read?` knows. It is the one that is used
where no other is given. It writes one line for each entry.
-/

namespace Workflow

namespace Yaml

open Document

/-- What a node comes to as a value. -/
def Node.value (n : Node) : Value where
  number? := n.unsignedValue?
  truth? := n.bool?
  name? := n.text?

/-- The entries of a node. All keys must be scalars. -/
def Node.entries? : Node → Option (List (String × Value))
  | .mapping entries =>
    entries.mapM fun (key, value) => key.text?.map fun text => (text, value.value)
  | .scalar true text => if text.isEmpty then some [] else none
  | .scalar false _ | .sequence _ => none

instance library : DocumentLibrary where
  read? text := (read? text).bind Node.entries?
  write? entries := some <|
    String.join <| entries.map fun (key, value) => key ++ ": " ++ value.text ++ "\n"

end Yaml

end Workflow
