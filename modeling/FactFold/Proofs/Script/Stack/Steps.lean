import FactFold.Proofs.Script.Operators
import FactFold.Proofs.Script.StackLimit

namespace FactFold

def RunError.isFault : RunError → Bool
  | .stackUnderflow _ => true
  | .stackOverflow _ => true
  | .invalidOperand .. => true
  | _ => false

theorem RunError.not_fault {e : RunError} (h : e.ofOperands = true) : e.isFault = false := by
  cases e with
  | mismatch => rfl
  | divisionByZero => rfl
  | overflow => rfl
  | noField => rfl
  | _ => cases h

namespace Script

namespace Op

def takes : Op → Nat
  | .literal _ => 0
  | .loadSlot _ => 0
  | .loadName _ => 0
  | .jump _ => 0
  | .halt => 0
  | .strict _ => 2
  | .call _ arity => arity.toNat
  | _ => 1

def gives : Op → Nat
  | .declare _ _ => 0
  | .jumpIfFalse _ => 0
  | .jump _ => 0
  | .ret => 0
  | .halt => 0
  | .discard => 0
  | _ => 1

def skips : Op → List Nat
  | .jumpIfFalse k => [0, k.toNat]
  | .jump k => [k.toNat]
  | .ret => []
  | .halt => []
  | _ => [0]

def Known (m : Machine) : Op → Prop
  | .literal i => i.toNat < m.tables.literals.length
  | .loadName i => i.toNat < m.tables.names.length
  | .storeName i => i.toNat < m.tables.names.length
  | .declare i none => i.toNat < m.tables.names.length
  | .declare i (some k) => i.toNat < m.tables.names.length ∧ k.toNat < m.tables.types.length
  | .checkType i => i.toNat < m.tables.types.length
  | .loadField i => i.toNat < m.tables.fields.length
  | .call i _ => i.toNat < m.tables.functions.length ∧ i.toNat < m.natives.length
  | _ => True

inductive Refused {σ : Type} [Frame σ] (m : Machine) (frame : σ) (e : RunError) : Op → List Value → Prop
  | loadSlot {slot : UInt16} {stack : List Value} (answer : Frame.loadSlot frame slot = .error e) :
    Refused m frame e (.loadSlot slot) stack
  | storeSlot {slot : UInt16} {v : Value} {stack : List Value}
    (answer : (Frame.storeSlot frame slot v).1 = .error e) : Refused m frame e (.storeSlot slot) (v :: stack)
  | loadName {i : UInt16} {name : String} {stack : List Value} (index : m.tables.names[i.toNat]? = some name)
    (answer : Frame.loadName frame name = .error e) : Refused m frame e (.loadName i) stack
  | storeName {i : UInt16} {name : String} {v : Value} {stack : List Value}
    (index : m.tables.names[i.toNat]? = some name) (answer : (Frame.storeName frame name v).1 = .error e) :
    Refused m frame e (.storeName i) (v :: stack)
  | declare {i : UInt16} {k : Option UInt16} {place : Nat} {name : String} {v : Value} {type : Option ValueType}
    {stack below : List Value} (asks : m.declaration i k place stack = .ok ((name, v, type), below))
    (answer : (Frame.declare frame name v type).1 = .error e) : Refused m frame e (.declare i k) stack

end Op

section

variable {σ : Type} {frame frame' : σ} {stack stack' : List Value} {skip : Nat} {e : RunError}

theorem onStack_go {x : Except RunError (List Value)} (h : Flow.onStack frame x = .go skip stack' frame') :
    skip = 0 ∧ x = .ok stack' := by
  cases x with
  | ok s =>
    cases h
    exact ⟨rfl, rfl⟩
  | error e => cases h

theorem onStack_stop {x : Except RunError (List Value)} (h : Flow.onStack frame x = .stop ⟨.error e, frame'⟩) :
    x = .error e := by
  cases x with
  | ok s => cases h
  | error e' =>
    cases h
    rfl

theorem onWrite_go {write : Except RunError Unit × σ} (h : Flow.onWrite stack write = .go skip stack' frame') :
    skip = 0 ∧ stack' = stack := by
  rcases write with ⟨_ | _, frame⟩
  · cases h
  · cases h
    exact ⟨rfl, rfl⟩

theorem onWrite_stop {write : Except RunError Unit × σ}
    (h : Flow.onWrite stack write = .stop ⟨.error e, frame'⟩) : write.1 = .error e := by
  rcases write with ⟨_ | _, frame⟩
  · cases h
    rfl
  · cases h

end

section

variable {place : Nat} {stack below : List Value} {v : Value} {e : RunError}

theorem entry_known {α : Type} (kind : TableKind) {table : List α} {i : UInt16} (h : i.toNat < table.length) :
    ∃ a, table[i.toNat]? = some a ∧ entry kind table i = .ok a := by
  have he := List.getElem?_eq_getElem h
  exact ⟨_, he, by rw [entry, he]⟩

theorem pop_length (h : pop place stack = .ok (v, below)) : below.length + 1 = stack.length := by
  cases stack with
  | nil => cases h
  | cons w stack =>
    cases h
    rfl

theorem exists_pop (place : Nat) (h : 1 ≤ stack.length) :
    ∃ v below, stack = v :: below ∧ pop place stack = .ok (v, below) := by
  cases stack with
  | nil => simp at h
  | cons v below => exact ⟨v, below, rfl, rfl⟩

theorem declaration_length {m : Machine} {i : UInt16} {k : Option UInt16}
    {declared : String × Value × Option ValueType} (h : m.declaration i k place stack = .ok (declared, below)) :
    below.length + 1 = stack.length := by
  obtain ⟨name, -, h⟩ := bind_eq_ok.mp h
  obtain ⟨⟨v, below'⟩, hpop, h⟩ := bind_eq_ok.mp h
  cases k with
  | none =>
    cases h
    exact pop_length hpop
  | some k =>
    obtain ⟨type, -, h⟩ := bind_eq_ok.mp h
    obtain ⟨w, -, h⟩ := bind_eq_ok.mp h
    cases h
    exact pop_length hpop

theorem declaration_error {m : Machine} {i : UInt16} {k : Option UInt16} (hknown : (Op.declare i k).Known m)
    (htakes : 1 ≤ stack.length) (h : m.declaration i k place stack = .error e) : e.isFault = false := by
  obtain ⟨v, below, rfl, hpop⟩ := exists_pop place htakes
  cases k with
  | none =>
    obtain ⟨name, -, hname⟩ := entry_known .name hknown
    simp only [Machine.declaration, hname, hpop, ok_bind] at h
    cases h
  | some k =>
    obtain ⟨name, -, hname⟩ := entry_known .name hknown.1
    obtain ⟨type, -, htype⟩ := entry_known .type hknown.2
    simp only [Machine.declaration, hname, htype, hpop, ok_bind] at h
    rcases bind_eq_error.mp h with h | ⟨w, -, hw⟩
    · exact RunError.not_fault (fitted_error h)
    · cases hw

theorem popMany_length {n : Nat} {vs : List Value} (h : popMany n place stack = .ok (vs, below)) :
    below.length + n = stack.length := by
  unfold popMany at h
  split at h
  · cases h
  · cases h
    rw [List.length_drop]
    omega

end

variable {σ : Type} [Frame σ] {m : Machine} {op : Op} {place : Nat} {stack : List Value} {frame : σ}

theorem pushed_ok {v : Value} {below : List Value}
    (h : op.pushed m place stack frame = some (.ok (v, below))) :
    below.length + op.takes = stack.length ∧ op.gives = 1 ∧ op.skips = [0] := by
  cases op with
  | literal i =>
    obtain ⟨w, -, hw⟩ := bind_eq_ok.mp (Option.some.inj h)
    cases hw
    exact ⟨rfl, rfl, rfl⟩
  | loadSlot s =>
    obtain ⟨w, -, hw⟩ := bind_eq_ok.mp (Option.some.inj h)
    cases hw
    exact ⟨rfl, rfl, rfl⟩
  | loadName i =>
    obtain ⟨name, -, h⟩ := bind_eq_ok.mp (Option.some.inj h)
    obtain ⟨w, -, hw⟩ := bind_eq_ok.mp h
    cases hw
    exact ⟨rfl, rfl, rfl⟩
  | loadField i =>
    obtain ⟨field, -, h⟩ := bind_eq_ok.mp (Option.some.inj h)
    obtain ⟨⟨w, below⟩, hpop, h⟩ := bind_eq_ok.mp h
    dsimp only at h
    split at h
    · cases h
      exact ⟨pop_length hpop, rfl, rfl⟩
    · cases h
  | strict op =>
    obtain ⟨⟨b, rest⟩, hb, h⟩ := bind_eq_ok.mp (Option.some.inj h)
    obtain ⟨⟨a, below⟩, ha, h⟩ := bind_eq_ok.mp h
    obtain ⟨w, -, hw⟩ := bind_eq_ok.mp h
    cases hw
    have hrest := pop_length hb
    have hbelow := pop_length ha
    refine ⟨?_, rfl, rfl⟩
    change below.length + 2 = stack.length
    omega
  | unary op =>
    obtain ⟨⟨a, below⟩, ha, h⟩ := bind_eq_ok.mp (Option.some.inj h)
    obtain ⟨w, -, hw⟩ := bind_eq_ok.mp h
    cases hw
    exact ⟨pop_length ha, rfl, rfl⟩
  | call function arity =>
    obtain ⟨name, -, h⟩ := bind_eq_ok.mp (Option.some.inj h)
    obtain ⟨native, -, h⟩ := bind_eq_ok.mp h
    obtain ⟨⟨args, below⟩, hargs, h⟩ := bind_eq_ok.mp h
    obtain ⟨w, -, hw⟩ := bind_eq_ok.mp h
    cases hw
    exact ⟨popMany_length hargs, rfl, rfl⟩
  | _ => cases h

theorem pushed_error {e : RunError} (hknown : op.Known m) (htakes : op.takes ≤ stack.length)
    (h : op.pushed m place stack frame = some (.error e)) : op.Refused m frame e stack ∨ e.isFault = false := by
  cases op with
  | literal i =>
    obtain ⟨v, -, hv⟩ := entry_known .literal hknown
    rcases bind_eq_error.mp (Option.some.inj h) with h | ⟨w, -, h⟩
    · rw [hv] at h
      cases h
    · cases h
  | loadSlot s =>
    rcases bind_eq_error.mp (Option.some.inj h) with h | ⟨v, -, h⟩
    · exact .inl (.loadSlot h)
    · cases h
  | loadName i =>
    obtain ⟨name, hi, hname⟩ := entry_known .name hknown
    simp only [Op.pushed, hname, ok_bind, Option.some.injEq] at h
    rcases bind_eq_error.mp h with h | ⟨v, -, h⟩
    · exact .inl (.loadName hi h)
    · cases h
  | loadField i =>
    obtain ⟨field, -, hfield⟩ := entry_known .field hknown
    obtain ⟨v, below, rfl, hpop⟩ := exists_pop place htakes
    simp only [Op.pushed, hfield, hpop, ok_bind, Option.some.injEq] at h
    split at h
    · cases h
    · cases h
      exact .inr rfl
  | strict op =>
    obtain ⟨b, rest, rfl, hb⟩ := exists_pop place (Nat.le_of_succ_le htakes)
    obtain ⟨a, below, rfl, ha⟩ := exists_pop place (Nat.le_of_succ_le_succ htakes)
    simp only [Op.pushed, hb, ha, ok_bind, Option.some.injEq] at h
    rcases bind_eq_error.mp h with h | ⟨v, -, h⟩
    · exact .inr (RunError.not_fault (strict_error h))
    · cases h
  | unary op =>
    obtain ⟨a, below, rfl, ha⟩ := exists_pop place htakes
    simp only [Op.pushed, ha, ok_bind, Option.some.injEq] at h
    rcases bind_eq_error.mp h with h | ⟨v, -, h⟩
    · exact .inr (RunError.not_fault (unary_error h))
    · cases h
  | call function arity =>
    obtain ⟨name, -, hname⟩ := entry_known .function hknown.1
    obtain ⟨native, -, hnative⟩ := entry_known .function hknown.2
    have hargs : popMany arity.toNat place stack = .ok ((stack.take arity.toNat).reverse, stack.drop arity.toNat) :=
      if_neg (Nat.not_lt.mpr htakes)
    simp only [Op.pushed, hname, hnative, hargs, ok_bind, Option.some.injEq] at h
    rcases bind_eq_error.mp h with h | ⟨v, -, h⟩
    · cases hv : native (stack.take arity.toNat).reverse with
      | ok v =>
        rw [hv] at h
        cases h
      | error message =>
        rw [hv] at h
        cases h
        exact .inr rfl
    · cases h
  | _ => cases h

theorem push_eq_ok {limit : Nat} {v : Value} {stack stack' : List Value} (h : push limit v stack = .ok stack') :
    stack'.length = stack.length + 1 := by
  unfold push at h
  split at h
  · cases h
  · cases h
    rfl

theorem push_eq_error {limit : Nat} {v : Value} {stack : List Value} {e : RunError}
    (h : push limit v stack = .error e) : e = .stackOverflow limit ∧ limit ≤ stack.length := by
  unfold push at h
  split at h
  · next hfull =>
    cases h
    exact ⟨rfl, hfull⟩
  · cases h

theorem step_go {skip : Nat} {stack' : List Value} {frame' : σ}
    (h : op.step m place stack frame = .go skip stack' frame') :
    skip ∈ op.skips ∧ stack'.length + op.takes = stack.length + op.gives := by
  have hstep := step_eq m place op stack frame
  cases hx : op.pushed m place stack frame with
  | some x =>
    rw [hx] at hstep
    obtain ⟨rfl, hpush⟩ := onStack_go (hstep.symm.trans h)
    obtain ⟨⟨v, below⟩, rfl, hpush⟩ := bind_eq_ok.mp hpush
    obtain ⟨htakes, hgives, hskips⟩ := pushed_ok hx
    have hlength := push_eq_ok hpush
    exact ⟨by simp [hskips], by omega⟩
  | none =>
    clear hstep
    cases op with
    | storeSlot s =>
      simp only [Op.step] at h
      split at h
      · obtain ⟨rfl, rfl⟩ := onWrite_go h
        exact ⟨List.mem_singleton.mpr rfl, rfl⟩
      · cases h
    | storeName i =>
      simp only [Op.step] at h
      split at h
      · obtain ⟨rfl, rfl⟩ := onWrite_go h
        exact ⟨List.mem_singleton.mpr rfl, rfl⟩
      · cases h
      · cases h
    | declare i k =>
      simp only [Op.step] at h
      split at h
      · next hasks =>
        obtain ⟨rfl, rfl⟩ := onWrite_go h
        exact ⟨List.mem_singleton.mpr rfl, declaration_length hasks⟩
      · cases h
    | checkType i =>
      obtain ⟨rfl, hcheck⟩ := onStack_go h
      obtain ⟨type, -, hcheck⟩ := bind_eq_ok.mp hcheck
      obtain ⟨⟨v, below⟩, hpop, hcheck⟩ := bind_eq_ok.mp hcheck
      obtain ⟨w, -, hw⟩ := bind_eq_ok.mp hcheck
      cases hw
      exact ⟨List.mem_singleton.mpr rfl, congrArg (· + 1) (pop_length hpop)⟩
    | jumpIfFalse k =>
      simp only [Op.step] at h
      split at h
      · cases h
      · next hpop =>
        split at h
        · next b hb =>
          obtain ⟨hskip, hstack, -⟩ := Flow.go.inj h
          have hmem : (if b then 0 else k.toNat) ∈ [0, k.toNat] := by
            by_cases hb : b = true <;> simp [hb]
          rw [← hskip, ← hstack]
          exact ⟨hmem, pop_length hpop⟩
        · cases h
    | jump k =>
      cases h
      exact ⟨List.mem_singleton.mpr rfl, rfl⟩
    | discard =>
      obtain ⟨rfl, hdiscard⟩ := onStack_go h
      obtain ⟨⟨v, below⟩, hpop, rfl⟩ := map_eq_ok.mp hdiscard
      exact ⟨List.mem_singleton.mpr rfl, pop_length hpop⟩
    | ret =>
      simp only [Op.step] at h
      split at h <;> cases h
    | halt => cases h
    | _ => cases hx

theorem step_stop {e : RunError} {frame' : σ} (hknown : op.Known m) (htakes : op.takes ≤ stack.length)
    (h : op.step m place stack frame = .stop ⟨.error e, frame'⟩) :
    op.Refused m frame e stack ∨ e.isFault = false ∨
      e = .stackOverflow m.limit ∧ m.limit + op.takes < stack.length + op.gives := by
  have hstep := step_eq m place op stack frame
  cases hx : op.pushed m place stack frame with
  | some x =>
    rw [hx] at hstep
    rcases bind_eq_error.mp (onStack_stop (hstep.symm.trans h)) with rfl | ⟨⟨v, below⟩, rfl, hpush⟩
    · exact (pushed_error hknown htakes hx).imp_right .inl
    · obtain ⟨hlength, hgives, -⟩ := pushed_ok hx
      obtain ⟨he, hfull⟩ := push_eq_error hpush
      exact .inr (.inr ⟨he, by omega⟩)
  | none =>
    clear hstep
    cases op with
    | storeSlot s =>
      obtain ⟨v, below, rfl, hpop⟩ := exists_pop place htakes
      simp only [Op.step, hpop] at h
      exact .inl (.storeSlot (onWrite_stop h))
    | storeName i =>
      obtain ⟨name, hi, hname⟩ := entry_known .name hknown
      obtain ⟨v, below, rfl, hpop⟩ := exists_pop place htakes
      simp only [Op.step, hname, hpop] at h
      exact .inl (.storeName hi (onWrite_stop h))
    | declare i k =>
      simp only [Op.step] at h
      split at h
      · next hasks => exact .inl (.declare hasks (onWrite_stop h))
      · next hfails =>
        cases h
        exact .inr (.inl (declaration_error hknown htakes hfails))
    | checkType i =>
      obtain ⟨type, -, htype⟩ := entry_known .type hknown
      obtain ⟨v, below, rfl, hpop⟩ := exists_pop place htakes
      have hcheck := onStack_stop h
      simp only [htype, hpop, ok_bind] at hcheck
      rcases bind_eq_error.mp hcheck with hcheck | ⟨w, -, hw⟩
      · exact .inr (.inl (RunError.not_fault (fitted_error hcheck)))
      · cases hw
    | jumpIfFalse k =>
      obtain ⟨v, below, rfl, hpop⟩ := exists_pop place htakes
      simp only [Op.step, hpop] at h
      split at h
      · cases h
      · next hcondition =>
        cases h
        exact .inr (.inl (RunError.not_fault (condition_error hcondition)))
    | discard =>
      obtain ⟨v, below, rfl, hpop⟩ := exists_pop place htakes
      simp only [Op.step, hpop] at h
      cases h
    | ret =>
      obtain ⟨v, below, rfl, hpop⟩ := exists_pop place htakes
      simp only [Op.step, hpop] at h
      cases h
    | jump k => cases h
    | halt => cases h
    | _ => cases hx

end Script

end FactFold
