import BlockIr.Description.Operation
import BlockIr.Proofs.Except

/-!
# The operations a description can give

Every kind that a description may name has a rule of its own, so no operation that was read is
one without a rule (`recognised_of_reader`).
-/

namespace BlockIr

/-- Operations this library has a rule for. -/
def Operation.Recognised : Operation → Prop
  | .unrecognised _ => False
  | _ => True

theorem readDeclVar_recognised (types : TypeTable) (node : Node) :
    Ensures (readDeclVar types node) Operation.Recognised := by
  refine ensures_bind fun _ => ?_
  dsimp only
  split
  · refine ensures_bind fun _ => ?_
    refine ensures_bind fun _ => ?_
    exact ensures_pure trivial
  · refine ensures_bind fun _ => ?_
    refine ensures_bind fun _ => ?_
    exact ensures_pure trivial

/-- The reader of a kind ends in an operation of that kind. -/
theorem recognised_of_reader {kind : String} {reader : OperationReader}
    (h : operationReader? kind = some reader) (types : TypeTable) (node : Node) :
    Ensures (reader types node) Operation.Recognised := by
  unfold operationReader? at h
  split at h
  -- The words without a case of their own are those of the two families.
  all_goals first | cases h | split at h <;> cases h
  -- Each reader asks for its fields and then makes its operation from them.
  all_goals first
    | exact ensures_map fun _ => trivial
    | exact readDeclVar_recognised types node
    | repeat refine ensures_bind fun _ => ?_
      exact ensures_pure trivial

end BlockIr
