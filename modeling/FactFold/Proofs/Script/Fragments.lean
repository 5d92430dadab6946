import FactFold.Proofs.Script.Literals
import FactFold.Proofs.Results

/-!
What a piece of code does in front of any other code and on top of any stack: it computes a value, consumes
one, or performs a part of the script. There is one rule for each way to put pieces together.
-/

namespace FactFold.Script

theorem same_bool {v : Value} {b : Bool} (h : (v == .bool b) = true) : v = .bool b := by
  cases v with
  | bool b' => exact congrArg Value.bool (eq_of_beq h)
  | _ => cases h

theorem same_null {v : Value} (h : (v == .null) = true) : v = .null := by
  cases v with
  | null => rfl
  | _ => cases h

theorem Denotes.bool {table : List Value} {b : Bool} {i : UInt16} (h : Denotes table (.bool b) i) :
    table[i.toNat]? = some (.bool b) := by
  obtain ⟨entry, he, -, hi⟩ := h.exists_entry
  rw [he, hi.elim same_bool id]

theorem Denotes.null {table : List Value} {i : UInt16} (h : Denotes table .null i) :
    table[i.toNat]? = some .null := by
  obtain ⟨entry, he, -, hi⟩ := h.exists_entry
  rw [he, hi.elim same_null id]

theorem entry_of_getElem? {α : Type} {kind : TableKind} {table : List α} {i : UInt16} {a : α}
    (h : table[i.toNat]? = some a) : entry kind table i = .ok a := by
  rw [entry, h]

variable {σ : Type} [Frame σ] {m : Machine}

namespace Machine

variable {rest : List Op} {place : Nat} {stack : List Value} {frame : σ}

def proceed (m : Machine) (rest : List Op) (place : Nat) (stack : List Value) (frame : σ) :
    Except RunError Value → Outcome σ
  | .ok v => m.runFrom rest place 0 (v :: stack) frame
  | .error e => ⟨.error e, frame⟩

theorem proceed_ok (v : Value) :
    m.proceed rest place stack frame (.ok v) = m.runFrom rest place 0 (v :: stack) frame :=
  rfl

def resume (m : Machine) (rest : List Op) (place : Nat) (stack : List Value) : Except (Outcome σ) σ → Outcome σ
  | .ok frame => m.runFrom rest place 0 stack frame
  | .error outcome => outcome

theorem resume_ok (frame : σ) : m.resume rest place stack (.ok frame) = m.runFrom rest place 0 stack frame :=
  rfl

theorem runFrom_place {place' : Nat} (h : place = place') :
    m.runFrom rest place 0 stack frame = m.runFrom rest place' 0 stack frame :=
  h ▸ rfl

theorem proceed_place {place' : Nat} {x : Except RunError Value} (h : place = place') :
    m.proceed rest place stack frame x = m.proceed rest place' stack frame x :=
  h ▸ rfl

theorem resume_place {place' : Nat} {x : Except (Outcome σ) σ} (h : place = place') :
    m.resume rest place stack x = m.resume rest place' stack x :=
  h ▸ rfl

theorem runFrom_skip (code rest : List Op) (place skip : Nat) (stack : List Value) (frame : σ) :
    m.runFrom (code ++ rest) place (code.length + skip) stack frame =
      m.runFrom rest (place + code.length) skip stack frame := by
  induction code generalizing place with
  | nil => simp
  | cons op code ih =>
    have hl : (op :: code).length + skip = (code.length + skip) + 1 := by
      rw [List.length_cons]
      omega
    have hp : place + 1 + code.length = place + (op :: code).length := by
      rw [List.length_cons]
      omega
    rw [hl, List.cons_append, runFrom, ih, hp]

theorem runFrom_over {code : List Op} (piece rest : List Op) (hcode : code = piece ++ rest) {k : Nat}
    (hk : k = piece.length) :
    m.runFrom code place k stack frame = m.runFrom rest (place + piece.length) 0 stack frame := by
  rw [hcode, hk]
  exact runFrom_skip piece rest place 0 stack frame

theorem runFrom_push {op : Op} {below : List Value} {x : Except RunError Value}
    (hstep : op.step m place stack frame = .onStack frame (x >>= fun v => push m.limit v below))
    (hs : below.length < m.limit) :
    m.runFrom (op :: rest) place 0 stack frame = m.proceed rest (place + 1) below frame x := by
  cases x with
  | ok v =>
    have hp : push m.limit v below = .ok (v :: below) := if_neg (by omega)
    simp [runFrom, hstep, bind, Except.bind, hp, Flow.onStack, proceed]
  | error e => simp [runFrom, hstep, bind, Except.bind, Flow.onStack, proceed]

theorem literal_step {i : UInt16} {v : Value} (h : m.tables.literals[i.toNat]? = some v) (place : Nat)
    (stack : List Value) (frame : σ) :
    (Op.literal i).step m place stack frame = .onStack frame (.ok v >>= fun v => push m.limit v stack) := by
  simp only [Op.step, entry_of_getElem? h]

theorem runFrom_literal {i : UInt16} {v : Value} (h : m.tables.literals[i.toNat]? = some v)
    (hs : stack.length < m.limit) :
    m.runFrom (.literal i :: rest) place 0 stack frame = m.runFrom rest (place + 1) 0 (v :: stack) frame :=
  runFrom_push (literal_step h place stack frame) hs

theorem runFrom_jumpIfFalse (k : UInt16) (v : Value) :
    m.runFrom (.jumpIfFalse k :: rest) place 0 (v :: stack) frame =
      match v.condition with
      | .ok b => m.runFrom rest (place + 1) (if b then 0 else k.toNat) stack frame
      | .error e => ⟨.error e, frame⟩ := by
  simp only [runFrom, Op.step, pop]
  cases v.condition <;> rfl

theorem runFrom_jump (k : UInt16) :
    m.runFrom (.jump k :: rest) place 0 stack frame = m.runFrom rest (place + 1) k.toNat stack frame :=
  rfl

theorem runFrom_write {op : Op} {below : List Value} {w : Except RunError Unit × σ}
    (hstep : op.step m place stack frame = .onWrite below w) :
    m.runFrom (op :: rest) place 0 stack frame = m.resume rest (place + 1) below (settled w) := by
  simp only [runFrom, hstep]
  rcases w with ⟨_ | _, frame⟩ <;> rfl

theorem resume_discard {v : Value} {x : Except (Outcome σ) σ} :
    m.resume (.discard :: rest) place (v :: stack) x = m.resume rest (place + 1) stack x := by
  cases x <;> rfl

end Machine

open Machine

/-- With room for `n` operands the code pushes what `x` gives for the frame, or ends the run with its error. -/
structure Computes (m : Machine) (code : List Op) (n : Nat) (x : σ → Except RunError Value) : Prop where
  pos : 0 < n
  run : ∀ rest place stack frame, stack.length + n ≤ m.limit →
    m.runFrom (code ++ rest) place 0 stack frame = m.proceed rest (place + code.length) stack frame (x frame)

variable {code first second : List Op} {n k l : Nat} {x y z : σ → Except RunError Value}

theorem Computes.mono (h : Computes m code n x) (hn : n ≤ k) : Computes m code k x where
  pos := Nat.lt_of_lt_of_le h.pos hn
  run rest place stack frame hs := h.run rest place stack frame (by omega)

theorem Computes.of_step {op : Op}
    (hstep : ∀ place stack frame, op.step m place stack frame =
      .onStack frame (x frame >>= fun v => push m.limit v stack)) : Computes m [op] 1 x where
  pos := Nat.one_pos
  run _ place stack frame hs := runFrom_push (hstep place stack frame) hs

theorem computes_literal {i : UInt16} {v : Value} (h : m.tables.literals[i.toNat]? = some v) :
    Computes (σ := σ) m [.literal i] 1 fun _ => .ok v :=
  .of_step (literal_step h)

theorem Computes.apply (h : Computes m code n x) {op : Op} {f : Value → Except RunError Value}
    (hstep : ∀ place v stack (frame : σ), op.step m place (v :: stack) frame =
      .onStack frame (f v >>= fun w => push m.limit w stack)) :
    Computes m (code ++ [op]) n fun frame => x frame >>= f where
  pos := h.pos
  run rest place stack frame hs := by
    have hpos := h.pos
    rw [List.append_assoc, h.run _ _ _ _ hs]
    cases x frame with
    | error e => rfl
    | ok v =>
      rw [proceed_ok, List.singleton_append, runFrom_push (hstep _ v stack frame) (by omega), ok_bind]
      exact proceed_place (by simp only [List.length_append, List.length_singleton]; omega)

theorem Computes.strict (one : Computes m first n x) (two : Computes m second k y) (op : StrictOp) :
    Computes m (first ++ second ++ [Op.strict op]) (max n (1 + k)) fun frame => do
      let a ← x frame
      let b ← y frame
      Value.strict op a b where
  pos := Nat.lt_of_lt_of_le one.pos (Nat.le_max_left _ _)
  run rest place stack frame hs := by
    have hpos := one.pos
    rw [List.append_assoc, List.append_assoc, one.run _ _ _ _ (by omega)]
    cases x frame with
    | error e => rfl
    | ok a =>
      rw [proceed_ok, two.run _ _ _ _ (by rw [List.length_cons]; omega), ok_bind]
      cases y frame with
      | error e => rfl
      | ok b =>
        have hstep : (Op.strict op).step m (place + first.length + second.length) (b :: a :: stack) frame =
            .onStack frame (Value.strict op a b >>= fun w => push m.limit w stack) := rfl
        rw [proceed_ok, List.singleton_append, runFrom_push hstep (by omega), ok_bind]
        exact proceed_place (by simp only [List.length_append, List.length_singleton]; omega)

theorem Computes.jumpIfFalse (value : Computes m code n x) (toNo : UInt16) (rest : List Op) (place : Nat)
    {stack : List Value} (frame : σ) (hs : stack.length + n ≤ m.limit) :
    m.runFrom (code ++ Op.jumpIfFalse toNo :: rest) place 0 stack frame =
      match x frame >>= Value.condition with
      | .ok b => m.runFrom rest (place + code.length + 1) (if b then 0 else toNo.toNat) stack frame
      | .error e => ⟨.error e, frame⟩ := by
  rw [value.run _ _ _ _ hs]
  cases x frame with
  | error e => rfl
  | ok v => exact runFrom_jumpIfFalse toNo v

theorem run_choice {rest : List Op} {place : Nat} {stack : List Value} {frame : σ} {yes no : UInt16} {v : Value}
    (hy : Denotes m.tables.literals (.bool true) yes) (hn : Denotes m.tables.literals (.bool false) no)
    (hs : stack.length < m.limit) :
    m.runFrom (.jumpIfFalse 2 :: .literal yes :: .jump 1 :: .literal no :: rest) place 0 (v :: stack) frame =
      m.proceed rest (place + 4) stack frame (v.condition.map .bool) := by
  rw [runFrom_jumpIfFalse]
  cases v.condition with
  | error e => rfl
  | ok b =>
    cases b with
    | true =>
      simp only [if_true]
      rw [runFrom_literal hy.bool hs, runFrom_jump]
      rfl
    | false =>
      simp only [Bool.false_eq_true, if_false]
      exact runFrom_literal hn.bool hs

theorem Computes.and (one : Computes m first n x) (two : Computes m second k y) {toNo yes no : UInt16}
    (jump : toNo.toNat = second.length + 3) (hy : Denotes m.tables.literals (.bool true) yes)
    (hn : Denotes m.tables.literals (.bool false) no) :
    Computes m
      (first ++ Op.jumpIfFalse toNo :: second ++ Op.jumpIfFalse 2 :: [.literal yes] ++ Op.jump 1 :: [.literal no])
      (max n k) fun frame => do
        if ← (← x frame).condition then return .bool (← (← y frame).condition) else return .bool false where
  pos := Nat.lt_of_lt_of_le one.pos (Nat.le_max_left _ _)
  run rest place stack frame hs := by
    have hpos := one.pos
    simp only [List.append_assoc, List.cons_append, List.nil_append]
    rw [one.jumpIfFalse _ _ _ _ (by omega), ← bind_assoc]
    rcases x frame >>= Value.condition with e | _ | _
    · rfl
    · simp only [Bool.false_eq_true, if_false, ok_bind]
      -- over the right operand to the last literal
      rw [runFrom_over (second ++ [Op.jumpIfFalse 2, .literal yes, .jump 1]) (.literal no :: rest) (by simp)
        (by simpa using jump), runFrom_literal hn.bool (by omega)]
      exact runFrom_place (by simp; omega)
    · simp only [if_true, ok_bind]
      rw [two.run _ _ _ _ (by omega)]
      cases y frame with
      | error e => rfl
      | ok w =>
        rw [proceed_ok, run_choice hy hn (by omega)]
        exact proceed_place (by simp; omega)

theorem Computes.or (one : Computes m first n x) (two : Computes m second k y) {toEnd yes yes' no : UInt16}
    (jump : toEnd.toNat = second.length + 4) (hy : Denotes m.tables.literals (.bool true) yes)
    (hy' : Denotes m.tables.literals (.bool true) yes') (hn : Denotes m.tables.literals (.bool false) no) :
    Computes m
      (first ++ Op.jumpIfFalse 2 :: [.literal yes] ++ Op.jump toEnd :: second ++ Op.jumpIfFalse 2 :: [.literal yes']
        ++ Op.jump 1 :: [.literal no])
      (max n k) fun frame => do
        if ← (← x frame).condition then return .bool true else return .bool (← (← y frame).condition) where
  pos := Nat.lt_of_lt_of_le one.pos (Nat.le_max_left _ _)
  run rest place stack frame hs := by
    have hpos := one.pos
    simp only [List.append_assoc, List.cons_append, List.nil_append]
    rw [one.jumpIfFalse _ _ _ _ (by omega), ← bind_assoc]
    rcases x frame >>= Value.condition with e | _ | _
    · rfl
    · simp only [Bool.false_eq_true, if_false, ok_bind]
      refine (runFrom_over [.literal yes, .jump toEnd]
        (second ++ Op.jumpIfFalse 2 :: .literal yes' :: .jump 1 :: .literal no :: rest) rfl rfl).trans ?_
      rw [two.run _ _ _ _ (by omega)]
      cases y frame with
      | error e => rfl
      | ok w =>
        rw [proceed_ok, run_choice hy' hn (by omega)]
        exact proceed_place (by simp; omega)
    · simp only [if_true, ok_bind]
      -- over the right operand and its results to the end
      rw [runFrom_literal hy.bool (by omega), runFrom_jump,
        runFrom_over (second ++ [Op.jumpIfFalse 2, .literal yes', .jump 1, .literal no]) rest (by simp)
          (by simpa using jump)]
      exact runFrom_place (by simp; omega)

theorem Computes.conditional {test : List Op} (value : Computes m test n x) (one : Computes m first k y)
    (two : Computes m second l z) {toNo toEnd : UInt16} (jump : toNo.toNat = first.length + 1)
    (jump' : toEnd.toNat = second.length) :
    Computes m (test ++ Op.jumpIfFalse toNo :: first ++ Op.jump toEnd :: second) (max n (max k l)) fun frame => do
      if ← (← x frame).condition then y frame else z frame where
  pos := Nat.lt_of_lt_of_le value.pos (Nat.le_max_left _ _)
  run rest place stack frame hs := by
    simp only [List.append_assoc, List.cons_append]
    rw [value.jumpIfFalse _ _ _ _ (by omega), ← bind_assoc]
    rcases x frame >>= Value.condition with e | _ | _
    · rfl
    · simp only [Bool.false_eq_true, if_false, ok_bind]
      rw [runFrom_over (first ++ [Op.jump toEnd]) (second ++ rest) (by simp) (by simpa using jump),
        two.run _ _ _ _ (by omega)]
      exact proceed_place (by simp; omega)
    · simp only [if_true, ok_bind]
      rw [one.run _ _ _ _ (by omega)]
      cases y frame with
      | error e => rfl
      | ok w =>
        rw [proceed_ok, runFrom_jump, runFrom_over second rest rfl jump']
        exact runFrom_place (by simp; omega)

def ComputesAll (m : Machine) (code : List Op) (n : Nat) (x : σ → Except RunError (List Value)) : Prop :=
  ∀ rest place stack frame, stack.length + n ≤ m.limit →
    m.runFrom (code ++ rest) place 0 stack frame =
      match x frame with
      | .ok vs => m.runFrom rest (place + code.length) 0 (vs.reverse ++ stack) frame
      | .error e => ⟨.error e, frame⟩

theorem computesAll_nil : ComputesAll (σ := σ) m [] 0 fun _ => .ok [] := by
  intro rest place stack frame _
  rfl

theorem Computes.cons (one : Computes m first n x) {xs : σ → Except RunError (List Value)}
    (more : ComputesAll m second k xs) :
    ComputesAll m (first ++ second) (max n (1 + k)) fun frame => do
      let v ← x frame
      let vs ← xs frame
      return v :: vs := by
  intro rest place stack frame hs
  rw [List.append_assoc, one.run _ _ _ _ (by omega)]
  dsimp only
  cases x frame with
  | error e => rfl
  | ok v =>
    rw [proceed_ok, more _ _ _ _ (by rw [List.length_cons]; omega), ok_bind]
    cases xs frame with
    | error e => rfl
    | ok vs =>
      simp only [ok_bind, pure, Except.pure, List.reverse_cons, List.append_assoc, List.singleton_append]
      exact runFrom_place (by simp only [List.length_append]; omega)

theorem ComputesAll.call {xs : σ → Except RunError (List Value)} (h : ComputesAll m code n xs) {i : UInt16}
    {arity : Nat} {f : List Value → Except RunError Value}
    (hlength : ∀ frame vs, xs frame = .ok vs → vs.length = arity)
    (hcall : ∀ place vs stack, vs.length = arity →
      m.call i (UInt8.ofNat arity) place (vs.reverse ++ stack) = f vs >>= fun v => push m.limit v stack) :
    Computes m (code ++ [Op.call i (UInt8.ofNat arity)]) (max 1 n) fun frame => xs frame >>= f where
  pos := Nat.lt_of_lt_of_le Nat.one_pos (Nat.le_max_left _ _)
  run rest place stack frame hs := by
    rw [List.append_assoc, h _ _ _ _ (by omega)]
    cases hv : xs frame with
    | error e => rfl
    | ok vs =>
      have hstep : (Op.call i (UInt8.ofNat arity)).step m (place + code.length) (vs.reverse ++ stack) frame =
          .onStack frame (f vs >>= fun v => push m.limit v stack) := by
        simp only [Op.step]
        rw [hcall _ vs stack (hlength frame vs hv)]
      dsimp only
      rw [List.singleton_append, runFrom_push hstep (by omega), ok_bind]
      exact proceed_place (by simp only [List.length_append, List.length_singleton]; omega)

def Consumes (m : Machine) (code : List Op) (f : σ → Value → Except (Outcome σ) σ) : Prop :=
  ∀ rest place stack frame v,
    m.runFrom (code ++ rest) place 0 (v :: stack) frame = m.resume rest (place + code.length) stack (f frame v)

def Performs (m : Machine) (code : List Op) (n : Nat) (f : σ → Except (Outcome σ) σ) : Prop :=
  ∀ rest place stack frame, stack.length + n ≤ m.limit →
    m.runFrom (code ++ rest) place 0 stack frame = m.resume rest (place + code.length) stack (f frame)

theorem consumes_discard : Consumes (σ := σ) m [.discard] fun frame _ => .ok frame := by
  intro rest place stack frame v
  rfl

theorem consumes_ret : Consumes (σ := σ) m [.ret] fun frame v => .error ⟨.ok (some v), frame⟩ := by
  intro rest place stack frame v
  rfl

theorem consumes_write {op : Op} {w : σ → Value → Except RunError Unit × σ}
    (hstep : ∀ place v stack frame, op.step m place (v :: stack) frame = .onWrite (v :: stack) (w frame v)) :
    Consumes m [op, .discard] fun frame v => settled (w frame v) := by
  intro rest place stack frame v
  exact (runFrom_write (hstep place v stack frame)).trans resume_discard

theorem Consumes.checked {w : σ → Value → Except (Outcome σ) σ} (h : Consumes m code w) {i : UInt16}
    {type : ValueType} (index : m.tables.types[i.toNat]? = some type) :
    Consumes m (.checkType i :: code) fun frame v => orEnd frame (fitted .assignment type v) >>= w frame := by
  intro rest place stack frame v
  simp only [List.cons_append, runFrom, Op.step, entry_of_getElem? index, pop, ok_bind]
  cases fitted .assignment type v with
  | error e => rfl
  | ok v' =>
    apply (h rest (place + 1) stack frame v').trans
    exact resume_place (by rw [List.length_cons]; omega)

theorem Computes.consumed (h : Computes m code n x) {last : List Op} {f : σ → Value → Except (Outcome σ) σ}
    (hf : Consumes m last f) :
    Performs m (code ++ last) n fun frame => orEnd frame (x frame) >>= f frame := by
  intro rest place stack frame hs
  rw [List.append_assoc, h.run _ _ _ _ hs]
  dsimp only
  cases x frame with
  | error e => rfl
  | ok v =>
    rw [proceed_ok, hf rest, orEnd_ok, ok_bind]
    exact resume_place (by rw [List.length_append]; omega)

variable {f g : σ → Except (Outcome σ) σ}

theorem Performs.mono (h : Performs m code n f) (hn : n ≤ k) : Performs m code k f := by
  intro rest place stack frame hs
  exact h rest place stack frame (by omega)

theorem Performs.of_eq (h : Performs m code n f) (he : ∀ frame, f frame = g frame) : Performs m code n g :=
  funext he ▸ h

theorem performs_nil : Performs (σ := σ) m [] 0 fun frame => .ok frame := by
  intro rest place stack frame _
  rfl

theorem performs_halt : Performs (σ := σ) m [.halt] 0 fun frame => .error ⟨.ok none, frame⟩ := by
  intro rest place stack frame _
  rfl

theorem Performs.append (one : Performs m first n f) (more : Performs m second k g) :
    Performs m (first ++ second) (max n k) fun frame => f frame >>= g := by
  intro rest place stack frame hs
  rw [List.append_assoc, one _ _ _ _ (by omega)]
  dsimp only
  cases f frame with
  | error outcome => rfl
  | ok frame =>
    rw [resume_ok, more _ _ _ _ (by omega), ok_bind]
    exact resume_place (by rw [List.length_append]; omega)

theorem Computes.branch (value : Computes m code n x) (one : Performs m first k f) {toEnd : UInt16}
    (jump : toEnd.toNat = first.length) :
    Performs m (code ++ Op.jumpIfFalse toEnd :: first) (max n k) fun frame =>
      orEnd frame (x frame >>= Value.condition) >>= fun b => if b then f frame else .ok frame := by
  intro rest place stack frame hs
  simp only [List.append_assoc, List.cons_append]
  rw [value.jumpIfFalse _ _ _ _ (by omega)]
  rcases x frame >>= Value.condition with e | _ | _
  · rfl
  · simp only [Bool.false_eq_true, if_false]
    rw [runFrom_over first rest rfl jump]
    exact runFrom_place (by simp; omega)
  · simp only [if_true]
    rw [one _ _ _ _ (by omega)]
    exact resume_place (by simp; omega)

theorem Computes.branchElse (value : Computes m code n x) (one : Performs m first k f)
    (two : Performs m second l g) {toNo toEnd : UInt16} (jump : toNo.toNat = first.length + 1)
    (jump' : toEnd.toNat = second.length) :
    Performs m (code ++ Op.jumpIfFalse toNo :: first ++ Op.jump toEnd :: second) (max n (max k l)) fun frame =>
      orEnd frame (x frame >>= Value.condition) >>= fun b => if b then f frame else g frame := by
  intro rest place stack frame hs
  simp only [List.append_assoc, List.cons_append]
  rw [value.jumpIfFalse _ _ _ _ (by omega)]
  rcases x frame >>= Value.condition with e | _ | _
  · rfl
  · simp only [Bool.false_eq_true, if_false, orEnd_ok, ok_bind]
    rw [runFrom_over (first ++ [Op.jump toEnd]) (second ++ rest) (by simp) (by simpa using jump),
      two _ _ _ _ (by omega)]
    exact resume_place (by simp; omega)
  · simp only [if_true, orEnd_ok, ok_bind]
    rw [one _ _ _ _ (by omega)]
    cases f frame with
    | error outcome => rfl
    | ok frame =>
      rw [resume_ok, runFrom_jump, runFrom_over second rest rfl jump']
      exact runFrom_place (by simp; omega)

end FactFold.Script
