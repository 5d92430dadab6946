import FactFold.Proofs.Results
import FactFold.Script.Machine

namespace FactFold

def RunError.ofOperands : RunError → Bool
  | .mismatch .. => true
  | .divisionByZero => true
  | .overflow _ => true
  | .noField .. => true
  | _ => false

namespace Script

variable {e : RunError} {a b v : Value}

theorem condition_error (h : v.condition = .error e) : e.ofOperands = true := by
  cases v with
  | bool b => cases h
  | _ =>
    cases h
    rfl

theorem unary_error {op : UnaryOp} (h : Value.unary op v = .error e) : e.ofOperands = true := by
  unfold Value.unary at h
  repeat' split at h
  all_goals cases h
  all_goals rfl

theorem fitted_error {operation : Operation} {type : ValueType} (h : fitted operation type v = .error e) :
    e.ofOperands = true := by
  unfold fitted at h
  split at h
  · cases h
  · cases h
    rfl

theorem bothFloats_error {operation : Operation} (h : Value.bothFloats operation a b = .error e) :
    e.ofOperands = true := by
  unfold Value.bothFloats at h
  split at h
  · cases h
  · cases h
    rfl
  · cases h
    rfl

theorem onInts_error {op : ArithOp} {x y : Int64} (h : op.onInts x y = .error e) : e.ofOperands = true := by
  unfold ArithOp.onInts at h
  cases op <;> dsimp only at h <;> repeat' split at h
  all_goals cases h
  all_goals rfl

theorem strict_error {op : StrictOp} (h : Value.strict op a b = .error e) : e.ofOperands = true := by
  cases op with
  | arith op =>
    unfold Value.strict Value.arith at h
    dsimp only at h
    split at h
    · cases h
    · cases h
    · exact onInts_error h
    · exact bothFloats_error (map_eq_error.mp h)
  | order op =>
    unfold Value.strict Value.compare? at h
    dsimp only at h
    rw [map_eq_error] at h
    split at h
    · cases h
    · cases h
    · exact bothFloats_error (map_eq_error.mp h)
  | eq => cases h
  | ne => cases h

end Script

end FactFold
