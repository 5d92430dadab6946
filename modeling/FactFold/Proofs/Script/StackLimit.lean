import FactFold.Script.Machine

namespace FactFold.Script

variable {σ : Type} {m : Machine} {limit : Nat}

theorem push_limit (h : m.limit ≤ limit) (v : Value) (stack : List Value) :
    push m.limit v stack = .error (.stackOverflow m.limit) ∨ push m.limit v stack = push limit v stack := by
  by_cases hs : m.limit ≤ stack.length
  · exact .inl (if_pos hs)
  · exact .inr (by rw [push, push, if_neg hs, if_neg (by omega)])

theorem onStack_push_limit (h : m.limit ≤ limit) (frame : σ) (x : Except RunError (Value × List Value)) :
    Flow.onStack frame (x >>= fun (v, stack) => push m.limit v stack) =
        .stop ⟨.error (.stackOverflow m.limit), frame⟩ ∨
      Flow.onStack frame (x >>= fun (v, stack) => push m.limit v stack) =
        Flow.onStack frame (x >>= fun (v, stack) => push limit v stack) := by
  cases x with
  | error e => exact .inr rfl
  | ok vs =>
    rcases push_limit h vs.1 vs.2 with hp | hp
    · exact .inl (congrArg (Flow.onStack frame) hp)
    · exact .inr (congrArg (Flow.onStack frame) hp)

variable [Frame σ]

def Op.pushed (m : Machine) (place : Nat) (op : Op) (stack : List Value) (frame : σ) :
    Option (Except RunError (Value × List Value)) :=
  match op with
  | literal i => some do return (← entry .literal m.tables.literals i, stack)
  | loadSlot s => some do return (← Frame.loadSlot frame s, stack)
  | loadName i => some do return (← Frame.loadName frame (← entry .name m.tables.names i), stack)
  | loadField i => some do
    let field ← entry .field m.tables.fields i
    let (v, stack) ← pop place stack
    match v.field? field with
    | some w => return (w, stack)
    | none => .error (.noField field v.kind)
  | strict op => some do
    let (b, stack) ← pop place stack
    let (a, stack) ← pop place stack
    return (← Value.strict op a b, stack)
  | unary op => some do
    let (a, stack) ← pop place stack
    return (← Value.unary op a, stack)
  | call function arity => some do
    let name ← entry .function m.tables.functions function
    let native ← entry .function m.natives function
    let (args, stack) ← popMany arity.toNat place stack
    return (← (native args).mapError (.functionFailed name), stack)
  | _ => none

theorem step_eq (m : Machine) (place : Nat) (op : Op) (stack : List Value) (frame : σ) :
    match op.pushed m place stack frame with
    | some x => op.step m place stack frame = .onStack frame (x >>= fun (v, stack) => push m.limit v stack)
    | none => ∀ limit, op.step m place stack frame = op.step { m with limit } place stack frame := by
  cases op with
  | literal i =>
    simp only [Op.pushed, Op.step]
    cases entry .literal m.tables.literals i <;> rfl
  | loadSlot s =>
    simp only [Op.pushed, Op.step]
    cases Frame.loadSlot frame s <;> rfl
  | loadName i =>
    simp only [Op.pushed, Op.step]
    cases entry .name m.tables.names i with
    | error e => rfl
    | ok name =>
      simp only [bind, Except.bind]
      cases Frame.loadName frame name <;> rfl
  | loadField i =>
    simp only [Op.pushed, Op.step]
    cases entry .field m.tables.fields i with
    | error e => rfl
    | ok field =>
      rcases stack with _ | ⟨v, stack⟩
      · rfl
      · simp only [bind, Except.bind, pop]
        cases v.field? field <;> rfl
  | strict op =>
    simp only [Op.pushed, Op.step]
    rcases stack with _ | ⟨b, _ | ⟨a, stack⟩⟩
    · rfl
    · rfl
    · simp only [bind, Except.bind, pop]
      cases Value.strict op a b <;> rfl
  | unary op =>
    simp only [Op.pushed, Op.step]
    rcases stack with _ | ⟨a, stack⟩
    · rfl
    · simp only [bind, Except.bind, pop]
      cases Value.unary op a <;> rfl
  | call function arity =>
    simp only [Op.pushed, Op.step, Machine.call]
    cases entry .function m.tables.functions function with
    | error e => rfl
    | ok name =>
      cases entry .function m.natives function with
      | error e => rfl
      | ok native =>
        simp only [bind, Except.bind]
        rcases popMany arity.toNat place stack with e | ⟨args, stack⟩
        · rfl
        · cases hn : native args <;> simp only [hn] <;> rfl
  | _ => exact fun limit => rfl

theorem step_limit (h : m.limit ≤ limit) (place : Nat) (op : Op) (stack : List Value) (frame : σ) :
    op.step m place stack frame = .stop ⟨.error (.stackOverflow m.limit), frame⟩ ∨
      op.step m place stack frame = op.step { m with limit } place stack frame := by
  have hm := step_eq m place op stack frame
  have hm' := step_eq { m with limit } place op stack frame
  have hp : op.pushed { m with limit } place stack frame = op.pushed m place stack frame := by cases op <;> rfl
  rw [hp] at hm'
  cases hx : op.pushed m place stack frame with
  | none =>
    rw [hx] at hm
    exact .inr (hm limit)
  | some x =>
    rw [hx] at hm hm'
    rw [hm, hm']
    exact onStack_push_limit h frame x

theorem runFrom_limit (h : m.limit ≤ limit) (ops : List Op) (place skip : Nat) (stack : List Value)
    (frame : σ) :
    (m.runFrom ops place skip stack frame).result = .error (.stackOverflow m.limit) ∨
      m.runFrom ops place skip stack frame = { m with limit }.runFrom ops place skip stack frame := by
  induction ops generalizing place skip stack frame with
  | nil => exact .inr rfl
  | cons op ops ih =>
    cases skip with
    | succ skip => exact ih (place + 1) skip stack frame
    | zero =>
      simp only [Machine.runFrom]
      -- both runs take the same step, or the smaller stack is full
      rcases step_limit h place op stack frame with hs | hs
      · exact .inl (by rw [hs])
      · rw [← hs]
        cases op.step m place stack frame with
        | go skip stack frame => exact ih (place + 1) skip stack frame
        | stop outcome => exact .inr rfl

end FactFold.Script
