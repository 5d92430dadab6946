import FactFold.Proofs.Script.Stack.Discipline
import FactFold.Proofs.Script.Writes

namespace FactFold

def RunError.ofFrame : RunError → Bool
  | .unresolved _ => true
  | .redeclared _ => true
  | .invalidSlot _ => true
  | _ => false

theorem RunError.not_ofFrame {e : RunError} (h : e.ofOperands = true) : e.ofFrame = false := by
  cases e with
  | mismatch => rfl
  | divisionByZero => rfl
  | overflow => rfl
  | noField => rfl
  | _ => cases h

namespace Script

def Quiet {α : Type} (x : Except RunError α) : Prop :=
  ∀ e, x = .error e → e.ofFrame = false

section

variable {α β : Type} {place : Nat} {stack : List Value}

theorem quiet_ok (a : α) : Quiet (.ok a) := by
  rintro e ⟨⟩

theorem Quiet.bind {x : Except RunError α} {f : α → Except RunError β} (hx : Quiet x) (hf : ∀ a, Quiet (f a)) :
    Quiet (x >>= f) := by
  intro e h
  rcases bind_eq_error.1 h with h | ⟨a, -, h⟩
  · exact hx e h
  · exact hf a e h

theorem Quiet.bind_pair {γ : Type} {x : Except RunError (α × γ)} {f : α × γ → Except RunError β} (hx : Quiet x)
    (hf : ∀ a c, Quiet (f (a, c))) : Quiet (x >>= f) :=
  hx.bind fun ac => hf ac.1 ac.2

theorem quiet_entry {kind : TableKind} {table : List α} {i : UInt16} : Quiet (entry kind table i) := by
  intro e h
  unfold entry at h
  split at h
  · cases h
  · cases h
    rfl

theorem quiet_push {limit : Nat} {v : Value} : Quiet (push limit v stack) := by
  intro e h
  rw [(push_eq_error h).1]
  rfl

theorem quiet_pop : Quiet (pop place stack) := by
  intro e h
  cases stack with
  | nil =>
    cases h
    rfl
  | cons v stack => cases h

theorem quiet_popMany {n : Nat} : Quiet (popMany n place stack) := by
  intro e h
  unfold popMany at h
  split at h
  · cases h
    rfl
  · cases h

theorem entry_eq_ok {kind : TableKind} {table : List α} {i : UInt16} {a : α} (h : entry kind table i = .ok a) :
    table[i.toNat]? = some a := by
  unfold entry at h
  split at h
  · next ha =>
    cases h
    exact ha
  · cases h

theorem pop_eq_ok {v : Value} {below : List Value} (h : pop place stack = .ok (v, below)) : stack = v :: below := by
  cases stack with
  | nil => cases h
  | cons w stack =>
    cases h
    rfl

theorem quiet_of_operands {x : Except RunError α} (h : ∀ e, x = .error e → e.ofOperands = true) : Quiet x :=
  fun e he => RunError.not_ofFrame (h e he)

theorem quiet_declaration {m : Machine} {i : UInt16} {k : Option UInt16} :
    Quiet (m.declaration i k place stack) := by
  refine quiet_entry.bind fun name => quiet_pop.bind_pair fun v below => ?_
  cases k with
  | none => exact quiet_ok _
  | some k =>
    exact quiet_entry.bind fun type => (quiet_of_operands fun _ => fitted_error).bind fun w => quiet_ok _

theorem quiet_call {m : Machine} {function : UInt16} {arity : UInt8} : Quiet (m.call function arity place stack) := by
  refine quiet_entry.bind fun name => quiet_entry.bind fun native => quiet_popMany.bind_pair fun args below => ?_
  dsimp only
  split
  · exact quiet_push
  · rintro e ⟨⟩
    rfl

end

variable {σ : Type} [Frame σ] {m : Machine} {op : Op} {place : Nat} {stack : List Value} {frame frame' : σ}
  {e : RunError}

theorem Quiet.onStack {x : Except RunError (List Value)} (hx : Quiet x) (he : e.ofFrame = true)
    (h : Flow.onStack frame x = .stop ⟨.error e, frame'⟩) : op.Refused m frame e stack := by
  have hno := hx e (onStack_stop h)
  rw [he] at hno
  cases hno

theorem step_refused (he : e.ofFrame = true) (h : op.step m place stack frame = .stop ⟨.error e, frame'⟩) :
    op.Refused m frame e stack := by
  have hno {α : Type} {x : Except RunError α} {p : Prop} (hx : Quiet x) (h : x = .error e) : p := by
    have hno := hx e h
    rw [he] at hno
    cases hno
  cases op with
  | literal i => exact (quiet_entry.bind fun v => quiet_push).onStack he h
  | loadSlot s =>
    rcases bind_eq_error.1 (onStack_stop h) with h | ⟨v, -, h⟩
    · exact .loadSlot h
    · exact hno quiet_push h
  | loadName i =>
    rcases bind_eq_error.1 (onStack_stop h) with h | ⟨name, hname, h⟩
    · exact hno quiet_entry h
    rcases bind_eq_error.1 h with h | ⟨v, -, h⟩
    · exact .loadName (entry_eq_ok hname) h
    · exact hno quiet_push h
  | storeSlot s =>
    simp only [Op.step] at h
    split at h
    · next v below hpop =>
      obtain rfl := pop_eq_ok hpop
      exact .storeSlot (onWrite_stop h)
    · next hpop =>
      cases h
      exact hno quiet_pop hpop
  | storeName i =>
    simp only [Op.step] at h
    split at h
    · next name v below hname hpop =>
      obtain rfl := pop_eq_ok hpop
      exact .storeName (entry_eq_ok hname) (onWrite_stop h)
    · next hname =>
      cases h
      exact hno quiet_entry hname
    · next hpop _ =>
      cases h
      exact hno quiet_pop hpop
  | declare i t =>
    simp only [Op.step] at h
    split at h
    · next hasks => exact .declare hasks (onWrite_stop h)
    · next hasks =>
      cases h
      exact hno quiet_declaration hasks
  | checkType i =>
    exact (quiet_entry.bind fun type => quiet_pop.bind_pair fun v below =>
      (quiet_of_operands fun _ => fitted_error).bind fun w => quiet_ok _).onStack he h
  | loadField i =>
    refine (quiet_entry.bind fun field => quiet_pop.bind_pair fun v below => ?_).onStack he h
    dsimp only
    split
    · exact quiet_push
    · rintro e ⟨⟩
      rfl
  | strict op =>
    exact (quiet_pop.bind_pair fun b rest => quiet_pop.bind_pair fun a below =>
      (quiet_of_operands fun _ => strict_error).bind fun w => quiet_push).onStack he h
  | unary op =>
    exact (quiet_pop.bind_pair fun a below =>
      (quiet_of_operands fun _ => unary_error).bind fun w => quiet_push).onStack he h
  | call function arity => exact quiet_call.onStack he h
  | jumpIfFalse k =>
    simp only [Op.step] at h
    split at h
    · next hpop =>
      cases h
      exact hno quiet_pop hpop
    · split at h
      · cases h
      · next hcondition =>
        cases h
        exact hno (quiet_of_operands fun _ => condition_error) hcondition
  | jump k => cases h
  | ret =>
    simp only [Op.step] at h
    split at h
    · cases h
    · next hpop =>
      cases h
      exact hno quiet_pop hpop
  | halt => cases h
  | discard => exact hno quiet_pop (map_eq_error.1 (onStack_stop h))

inductive Op.OfExpr (c : Compiler) : Op → Prop
  | literal (i : UInt16) : OfExpr c (.literal i)
  | loadSlot {name : String} {slot : UInt16} {type : ValueType} (input : c.symbols.input name = some (slot, type)) :
    OfExpr c (.loadSlot slot)
  | loadName (i : UInt16) : OfExpr c (.loadName i)
  | loadField (i : UInt16) : OfExpr c (.loadField i)
  | call (i : UInt16) (arity : UInt8) : OfExpr c (.call i arity)
  | unary (op : UnaryOp) : OfExpr c (.unary op)
  | strict (op : StrictOp) : OfExpr c (.strict op)
  | jumpIfFalse (k : UInt16) : OfExpr c (.jumpIfFalse k)
  | jump (k : UInt16) : OfExpr c (.jump k)

attribute [simp] Op.OfExpr.literal Op.OfExpr.loadName Op.OfExpr.loadField Op.OfExpr.call Op.OfExpr.unary
  Op.OfExpr.strict Op.OfExpr.jumpIfFalse Op.OfExpr.jump

def Op.Slotted (c : Compiler) : Op → Prop
  | .loadSlot slot => ∃ name type, c.symbols.input name = some (slot, type)
  | .storeSlot slot => ∃ name type, c.symbols.input name = some (slot, type)
  | _ => True

variable {c : Compiler} {t : Tables} {declared : List String} {code : List Op}

theorem Op.OfExpr.slotted {op : Op} (h : op.OfExpr c) : op.Slotted c := by
  cases h with
  | loadSlot input => exact ⟨_, _, input⟩
  | _ => exact trivial

theorem NameCode.ops {name : String} (h : NameCode c t declared name code) : ∀ op ∈ code, op.OfExpr c := by
  cases h with
  | slot input => simpa using Op.OfExpr.loadSlot input
  | _ => simp

mutual

theorem ExprCode.ops {e : Expr} {code : List Op} (h : ExprCode c t declared e code) : ∀ op ∈ code, op.OfExpr c := by
  cases h with
  | name load => exact load.ops
  | literal => simp
  | constantPath => simp
  | field _ value => simpa [or_imp, forall_and] using value.ops
  | call _ _ values => simpa [or_imp, forall_and] using values.ops
  | unary value => simpa [or_imp, forall_and] using value.ops
  | strict one two => simpa [or_imp, forall_and] using ⟨one.ops, two.ops⟩
  | and one two => simpa [or_imp, forall_and] using ⟨one.ops, two.ops⟩
  | or one two => simpa [or_imp, forall_and] using ⟨one.ops, two.ops⟩
  | conditional value one two => simpa [or_imp, forall_and] using ⟨value.ops, one.ops, two.ops⟩

theorem ArgCode.ops {es : List Expr} {code : List Op} (h : ArgCode c t declared es code) :
    ∀ op ∈ code, op.OfExpr c := by
  cases h with
  | nil => simp
  | cons value values => simpa [or_imp, forall_and] using ⟨value.ops, values.ops⟩

end

theorem WriteCode.slotted {name : String} (h : WriteCode c t name code) : ∀ op ∈ code, op.Slotted c := by
  cases h with
  | slot input => simpa [Op.Slotted] using ⟨_, _, input⟩
  | typedSlot input => simpa [Op.Slotted] using ⟨_, _, input⟩
  | frame => simp [Op.Slotted]

theorem ExprCode.slotted {e : Expr} (h : ExprCode c t declared e code) : ∀ op ∈ code, op.Slotted c :=
  fun op hop => (h.ops op hop).slotted

theorem NameCode.slotted {name : String} (h : NameCode c t declared name code) : ∀ op ∈ code, op.Slotted c :=
  fun op hop => (h.ops op hop).slotted

theorem InitialCode.slotted {value : Option Expr} (h : InitialCode c t declared value code) :
    ∀ op ∈ code, op.Slotted c := by
  cases h with
  | value value => exact value.slotted
  | null => simp [Op.Slotted]

mutual

theorem StmtCode.slotted {s : Stmt} {declared : List String} {code : List Op} (h : StmtCode c t declared s code) :
    ∀ op ∈ code, op.Slotted c := by
  cases h with
  | expr value => simpa [or_imp, forall_and, Op.Slotted] using value.slotted
  | set right store => simpa [or_imp, forall_and, Op.Slotted] using ⟨right.slotted, store.slotted⟩
  | update load right store =>
    simpa [or_imp, forall_and, Op.Slotted] using ⟨load.slotted, right.slotted, store.slotted⟩
  | declare right => simpa [or_imp, forall_and, Op.Slotted] using right.slotted
  | branch value one => simpa [or_imp, forall_and, Op.Slotted] using ⟨value.slotted, one.slotted⟩
  | branchElse value one two =>
    simpa [or_imp, forall_and, Op.Slotted] using ⟨value.slotted, one.slotted, two.slotted⟩
  | ret right => simpa [or_imp, forall_and, Op.Slotted] using right.slotted
  | halt => simp [Op.Slotted]

theorem BlockCode.slotted {ss : List Stmt} {declared : List String} {code : List Op}
    (h : BlockCode c t declared ss code) : ∀ op ∈ code, op.Slotted c := by
  cases h with
  | nil => simp
  | cons one more => simpa [or_imp, forall_and] using ⟨one.slotted, more.slotted⟩

end

theorem ScriptCode.slotted {ss : List Stmt} (h : ScriptCode c t ss code) : ∀ op ∈ code, op.Slotted c := by
  cases h with
  | plain _ block => exact block.slotted
  | valued block last => simpa [or_imp, forall_and, Op.Slotted] using ⟨block.slotted, last.slotted⟩

theorem Preserved.reaches {P : σ → Prop} (hp : Preserved P) {ops : List Op} {start : σ} (h : P start)
    (hr : m.Reaches ops start place stack frame) : P frame := by
  induction hr with
  | start => exact h
  | @next place _ stack _ _ _ op _ _ goes ih =>
    have hstep := hp.step m place op stack ih
    rwa [goes] at hstep

theorem program_refused {ss : List Stmt} {p : Program} (h : c.program ss = .ok p) (limit : Nat) (start : σ)
    (hresult : (p.run limit start).result = .error e) :
    (e.ofFrame = false ∧ e.isFault = false) ∨ e = .stackOverflow limit ∨
      ∃ (place : Nat) (stack : List Value) (frame : σ) (op : Op),
        (p.machine limit).Reaches p.chunk.ops start place stack frame ∧ op.Slotted c ∧
          op.Refused (p.machine limit) frame e stack := by
  have hslotted : ∀ op ∈ p.chunk.ops, op.Slotted c := by
    obtain ⟨⟨ops, d⟩, hd, rfl⟩ := map_eq_ok.1 h
    exact ((Compiler.script_added hd).holds d.toTables (.refl _)).slotted
  cases hfault : e.isFault with
  | true =>
    rcases program_fault h limit start hresult hfault with
      ⟨-, hover⟩ | ⟨place, stack, frame, op, hr, hop, hno⟩
    · exact .inr (.inl hover)
    · exact .inr (.inr ⟨place, stack, frame, op, hr, hslotted op (List.mem_of_getElem? hop), hno⟩)
  | false =>
    cases hframe : e.ofFrame with
    | false => exact .inl ⟨rfl, rfl⟩
    | true =>
      obtain ⟨place, stack, frame, hr, ⟨-, hend⟩ | ⟨op, hop, hstop⟩⟩ :=
        run_ends (p.machine limit) p.chunk.ops start
      · have hend := hresult.symm.trans (congrArg Outcome.result hend)
        cases hend
      · have houtcome : (p.machine limit).runFrom p.chunk.ops 0 0 [] start = ⟨.error e, _⟩ :=
          congrArg (Outcome.mk · _) hresult
        rw [houtcome] at hstop
        have hrefused := step_refused hframe hstop
        exact .inr (.inr ⟨place, stack, frame, op, hr, hslotted op (List.mem_of_getElem? hop), hrefused⟩)

end Script

end FactFold
