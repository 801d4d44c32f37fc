import RegexTrace.Node.Explanation

/-!
# Traces

A trace records which node was entered at which position, between a start mark and an end mark. It
grows at its end, and it can be taken back to an earlier length, its checkpoint, which forgets
exactly the steps recorded since.

## Implementation notes

The type of positions and the type of nodes are parameters: a search records occurrences at
positions in its subject, and the laws of recording and taking back do not depend on either.
-/

namespace RegexTrace

/-- What a step stands for: a mark at an end of the trace or a node. -/
inductive Mark (α : Type)
  | start
  | finish
  | visit (node : α)
  deriving DecidableEq, Repr

/-- A mark at a position. -/
structure Step (ι α : Type) where
  position : ι
  mark : Mark α
  deriving DecidableEq, Repr

/-- The steps recorded so far, the oldest first. -/
structure Trace (ι α : Type) where
  steps : Array (Step ι α) := #[]
  deriving DecidableEq, Repr

namespace Mark

/-- A mark that stands for no node. -/
def isSentinel : Mark α → Bool
  | .visit _ => false
  | _ => true

/-- The name of a mark, given the names of nodes. -/
def name (nodeName : α → Text) : Mark α → Text
  | .start => "start"
  | .finish => "end"
  | .visit node => nodeName node

/-- A mark written out, given the written nodes. -/
def display (displayNode : α → Text) : Mark α → Text
  | .start => "START"
  | .finish => "END"
  | .visit node => displayNode node

end Mark

namespace Trace

variable {ι α : Type}

/-- The recorded steps as a list. -/
def toList (t : Trace ι α) : List (Step ι α) := t.steps.toList

/-- The number of recorded steps, which is the checkpoint of this moment. -/
def length (t : Trace ι α) : Nat := t.steps.size

/-- A trace is empty before anything is recorded. -/
def isEmpty (t : Trace ι α) : Bool := t.steps.isEmpty

/-- A step is recorded at the end. -/
def append (t : Trace ι α) (position : ι) (mark : Mark α) : Trace ι α :=
  ⟨t.steps.push ⟨position, mark⟩⟩

/-- The steps recorded before a checkpoint. There is nothing to return to at a checkpoint that lies
before the start or beyond the end. -/
def rollback? (t : Trace ι α) (checkpoint : Int) : Option (Trace ι α) :=
  if checkpoint < 0 ∨ t.length < checkpoint then none else some ⟨t.steps.shrink checkpoint.toNat⟩

/-- The step with a given index; negative indices count from the end. -/
def get? (t : Trace ι α) : Int → Option (Step ι α)
  | .ofNat index => t.steps[index]?
  | .negSucc k => if k < t.length then t.steps[t.length - (k + 1)]? else none

/-- The position of the start mark, if the first step is one. -/
def start? (t : Trace ι α) : Option ι :=
  match (t.steps[0]? : Option (Step ι α)) with
  | some ⟨position, .start⟩ => some position
  | _ => none

/-- The position of the end mark, if the last step is one. -/
def finish? (t : Trace ι α) : Option ι :=
  match (t.steps.back? : Option (Step ι α)) with
  | some ⟨position, .finish⟩ => some position
  | _ => none

/-- The positions of both marks. -/
def span? (t : Trace ι α) : Option (ι × ι) :=
  match t.start?, t.finish? with
  | some first, some last => some (first, last)
  | _, _ => none

/-- The positions of the steps with the names of what they stand for. -/
def named (nodeName : α → Text) (t : Trace ι α) : List (ι × Text) :=
  t.toList.map fun step => (step.position, step.mark.name nodeName)

@[simp] theorem toList_append (t : Trace ι α) (position : ι) (mark : Mark α) :
    (t.append position mark).toList = t.toList ++ [⟨position, mark⟩] := by
  simp [append, toList]

@[simp] theorem length_append (t : Trace ι α) (position : ι) (mark : Mark α) :
    (t.append position mark).length = t.length + 1 := by
  simp [append, length]

theorem rollback?_of_le (t : Trace ι α) {n : Nat} (h : n ≤ t.length) :
    t.rollback? n = some ⟨t.steps.shrink n⟩ := by
  simp [rollback?, Int.not_lt.mpr (Int.natCast_nonneg n), h]

theorem length_le_of_rollback? {t t' : Trace ι α} {checkpoint : Int}
    (h : t.rollback? checkpoint = some t') : t'.length ≤ t.length := by
  unfold rollback? at h
  split at h
  · cases h
  · cases h
    rw [length, length, Array.size_shrink]
    exact Nat.min_le_right _ _

theorem rollback?_append (t : Trace ι α) (position : ι) (mark : Mark α) :
    (t.append position mark).rollback? t.length = some t := by
  rw [rollback?_of_le _ (by simp)]
  simp [append, length]

/-- The wording for a checkpoint that a trace of some length does not have. -/
def checkpointMessage (checkpoint : Int) (length : Nat) : Text :=
  "invalid checkpoint " ++ Text.ofInt checkpoint ++ " for trace of " ++ Text.ofNat length

end Trace

namespace Step

/-- A step written out, given the written positions and nodes. -/
def display (displayPosition : ι → Text) (displayNode : α → Text) (step : Step ι α) : Text :=
  "Step(string_index=" ++ displayPosition step.position ++ ", node=" ++
    step.mark.display displayNode ++ ")"

end Step

namespace Trace

/-- A trace written out, given the written positions and nodes. -/
def display (displayPosition : ι → Text) (displayNode : α → Text) (t : Trace ι α) : Text :=
  "Trace([" ++
    Text.join (Text.ofString ", ") (t.toList.map (Step.display displayPosition displayNode)) ++ "])"

end Trace

namespace Occurrence

/-- An occurrence is named by the explanation of its address, or by the kind of its node where no
explanation has that address. -/
def nameIn (explanations : List Explanation) (o : Occurrence) : Text :=
  match explanations.find? fun e => e.occurrence.address = o.address with
  | some e => e.id
  | none => o.node.typeName

end Occurrence

/-- The names that the nodes of a tree have in its traces: those of its explanations, or the kinds
alone for a tree that cannot be explained. -/
def traceNames (root : Node) : Occurrence → Text :=
  match Explanation.ofTree root with
  | .ok explanations => Occurrence.nameIn explanations
  | .error _ => fun o => o.node.typeName

end RegexTrace
