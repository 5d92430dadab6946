import FactFold.Script.Machine

namespace FactFold.Script

variable {σ : Type}

def Flow.frame : Flow σ → σ
  | go _ _ frame => frame
  | stop outcome => outcome.frame

theorem onStack_frame (frame : σ) (stack : Except RunError (List Value)) :
    (Flow.onStack frame stack).frame = frame := by
  cases stack <;> rfl

theorem onWrite_frame (stack : List Value) (write : Except RunError Unit × σ) :
    (Flow.onWrite stack write).frame = write.2 := by
  rcases write with ⟨_ | _, frame⟩ <;> rfl

variable [Frame σ]

structure Preserved (P : σ → Prop) : Prop where
  storeSlot : ∀ frame slot v, P frame → P (Frame.storeSlot frame slot v).2
  storeName : ∀ frame name v, P frame → P (Frame.storeName frame name v).2
  declare : ∀ frame name v type, P frame → P (Frame.declare frame name v type).2

theorem Preserved.step {P : σ → Prop} (hp : Preserved P) (m : Machine) (place : Nat) (op : Op)
    (stack : List Value) {frame : σ} (h : P frame) : P (op.step m place stack frame).frame := by
  cases op with
  | storeSlot s =>
    simp only [Op.step]
    cases pop place stack with
    | error e => exact h
    | ok vs =>
      dsimp only
      rw [onWrite_frame]
      exact hp.storeSlot frame s vs.1 h
  | storeName i =>
    simp only [Op.step]
    cases entry .name m.tables.names i with
    | error e => exact h
    | ok name =>
      cases pop place stack with
      | error e => exact h
      | ok vs =>
        dsimp only
        rw [onWrite_frame]
        exact hp.storeName frame name vs.1 h
  | declare i t =>
    simp only [Op.step]
    cases m.declaration i t place stack with
    | error e => exact h
    | ok declared =>
      dsimp only
      rw [onWrite_frame]
      exact hp.declare frame declared.1.1 declared.1.2.1 declared.1.2.2 h
  | jumpIfFalse distance =>
    simp only [Op.step]
    cases pop place stack with
    | error e => exact h
    | ok vs =>
      dsimp only
      cases vs.1.condition with
      | error e => exact h
      | ok b => exact h
  | ret =>
    simp only [Op.step]
    cases pop place stack with
    | error e => exact h
    | ok vs => exact h
  | jump distance => exact h
  | halt => exact h
  | _ =>
    -- all others work on the stack only
    simp only [Op.step]
    rw [onStack_frame]
    exact h

theorem Preserved.runFrom {P : σ → Prop} (hp : Preserved P) (m : Machine) (ops : List Op) (place skip : Nat)
    (stack : List Value) {frame : σ} (h : P frame) : P (m.runFrom ops place skip stack frame).frame := by
  induction ops generalizing place skip stack frame with
  | nil => exact h
  | cons op ops ih =>
    cases skip with
    | succ skip => exact ih (place + 1) skip stack h
    | zero =>
      simp only [Machine.runFrom]
      have hs := hp.step m place op stack h
      cases hflow : op.step m place stack frame with
      | go skip stack frame => exact ih (place + 1) skip stack (by rwa [hflow] at hs)
      | stop outcome => rwa [hflow] at hs

end FactFold.Script
