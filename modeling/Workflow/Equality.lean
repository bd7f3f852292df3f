import Workflow.Machine

/-!
# Equality of machines

Two machines are equal if they are built alike from equal parts. Backoff rates compare as numbers,
so a machine with a NaN among them is not even equal to itself, and literals compare as JSON values.
-/

namespace Workflow

mutual

/-- Whether two machines are equal. -/
def Machine.equal : Machine → Machine → Bool
  | ⟨comment, version, timeout, startAt, states⟩,
    ⟨comment', version', timeout', startAt', states'⟩ =>
    comment == comment' && version == version' && timeout == timeout' && startAt == startAt' &&
      Entry.equalEach states states'

/-- Whether two lists hold equal states under the same names in the same order. -/
def Entry.equalEach : List Entry → List Entry → Bool
  | [], [] => true
  | ⟨name, state⟩ :: rest, ⟨name', state'⟩ :: rest' =>
    name == name' && state.equal state' && Entry.equalEach rest rest'
  | _, _ => false

/-- Whether two states are equal; states of two kinds never are. -/
def State.equal : State → State → Bool
  | .pass s, .pass t => s == t
  | .task s, .task t => s == t
  | .wait s, .wait t => s == t
  | .choice s, .choice t => s == t
  | .succeed s, .succeed t => s == t
  | .fail s, .fail t => s == t
  | .parallel s, .parallel t => s.equal t
  | _, _ => false

/-- Whether two Parallel states are equal. -/
def ParallelState.equal : ParallelState → ParallelState → Bool
  | ⟨comment, input, output, result, branches, retriers, catchers, transition⟩,
    ⟨comment', input', output', result', branches', retriers', catchers', transition'⟩ =>
    comment == comment' && input == input' && output == output' && result == result' &&
      Branch.equalEach branches branches' && retriers == retriers' && catchers == catchers' &&
      transition == transition'

/-- Whether two lists hold equal branches in the same order. -/
def Branch.equalEach : List Branch → List Branch → Bool
  | [], [] => true
  | ⟨comment, machine⟩ :: rest, ⟨comment', machine'⟩ :: rest' =>
    comment == comment' && machine.equal machine' && Branch.equalEach rest rest'
  | _, _ => false

end

instance : BEq Machine := ⟨Machine.equal⟩

instance : BEq State := ⟨State.equal⟩

end Workflow
