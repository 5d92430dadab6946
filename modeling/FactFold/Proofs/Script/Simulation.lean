import FactFold.Proofs.Script.Compilation
import FactFold.Proofs.Script.Fragments

namespace FactFold.Script

mutual

def Expr.depth : Expr → Nat
  | .literal _ _ => 1
  | .name _ _ => 1
  | .field object _ _ => object.depth
  | .call _ args _ => max 1 (argDepth args)
  | .unary _ operand _ => operand.depth
  | .binary (.strict _) left right _ => max left.depth (1 + right.depth)
  | .binary .and left right _ => max left.depth right.depth
  | .binary .or left right _ => max left.depth right.depth
  | .conditional condition yes no _ => max condition.depth (max yes.depth no.depth)
termination_by structural e => e

def argDepth : List Expr → Nat
  | [] => 0
  | e :: rest => max e.depth (1 + argDepth rest)
termination_by structural es => es

end

def initialDepth : Option Expr → Nat
  | some value => value.depth
  | none => 1

mutual

def Stmt.depth : Stmt → Nat
  | .expr e => e.depth
  | .assign _ .set value _ => value.depth
  | .assign _ (.update _) value _ => 1 + value.depth
  | .declare _ _ value _ => initialDepth value
  | .branch condition yes none => max condition.depth (blockDepth yes)
  | .branch condition yes (some no) => max condition.depth (max (blockDepth yes) (blockDepth no))
  | .ret (some value) => value.depth
  | .ret none => 0
termination_by structural s => s

def blockDepth : List Stmt → Nat
  | [] => 0
  | s :: rest => max s.depth (blockDepth rest)
termination_by structural ss => ss

end

theorem Expr.depth_pos (e : Expr) : 0 < e.depth := by
  cases e with
  | literal l span => exact Nat.one_pos
  | name n span => exact Nat.one_pos
  | field object name span => exact object.depth_pos
  | call function args span => exact Nat.le_max_left 1 _
  | unary op operand span => exact operand.depth_pos
  | binary op left right span =>
    cases op <;> exact Nat.lt_of_lt_of_le left.depth_pos (Nat.le_max_left _ _)
  | conditional condition yes no span => exact Nat.lt_of_lt_of_le condition.depth_pos (Nat.le_max_left _ _)
termination_by structural e

def Tables.Reads (t : Tables) (read : Value → Value) (v : Value) : Prop :=
  ∀ i, Denotes t.literals v i → t.literals[i.toNat]? = some (read v)

variable {σ : Type} [Frame σ] {c : Compiler} {m : Machine} {read : Value → Value} {declared : List String}
  {code : List Op}

open Machine

theorem computes_name {name : String} (h : NameCode c m.tables declared name code)
    (hr : ∀ v ∈ c.nameLiterals declared name, m.tables.Reads read v) :
    Computes (σ := σ) m code 1 fun frame => c.nameValue read declared frame name := by
  cases h with
  | slot input =>
    simp only [Compiler.nameValue, input]
    exact .of_step fun _ _ _ => rfl
  | @constant v i input fresh constant index =>
    have hv := hr v (by simp [Compiler.nameLiterals, input, fresh, constant])
    simp only [Compiler.nameValue, input, fresh, if_false, constant]
    exact computes_literal (hv i index)
  | @frame i input kept known index =>
    have hvalue (frame : σ) : c.nameValue read declared frame name = Frame.loadName frame name := by
      rcases kept with hd | hc
      · simp [Compiler.nameValue, input, hd]
      · by_cases hd : name ∈ declared <;> simp [Compiler.nameValue, input, hd, hc]
    simp only [hvalue]
    apply Computes.of_step
    intro place stack frame
    simp only [Op.step, entry_of_getElem? index]
    rfl

theorem loadField_step {i : UInt16} {name : String} (index : m.tables.fields[i.toNat]? = some name)
    (place : Nat) (v : Value) (stack : List Value) (frame : σ) :
    (Op.loadField i).step m place (v :: stack) frame =
      .onStack frame (Compiler.fieldOf name v >>= fun w => push m.limit w stack) := by
  simp only [Op.step, entry_of_getElem? index, pop, bind, Except.bind, Compiler.fieldOf]
  cases v.field? name <;> rfl

theorem Linked.native {functions : List String} {natives : List Native} {i : Nat} {function : String}
    {native : Native} (h : Linked c functions natives) (hi : functions[i]? = some function)
    (hf : c.symbols.function function = some native) : natives[i]? = some native := by
  have he : (natives.map some)[i]? = (functions.map c.symbols.function)[i]? := congrArg (·[i]?) h.symm
  rw [List.getElem?_map, List.getElem?_map, hi, Option.map_some, hf] at he
  obtain ⟨native', hn, hs⟩ := Option.map_eq_some_iff.1 he
  rw [hn, Option.some.inj hs]

theorem evalAll_length {frame : σ} {es : List Expr} {vs : List Value}
    (h : c.evalAll read declared frame es = .ok vs) : vs.length = es.length := by
  induction es generalizing vs with
  | nil =>
    cases h
    rfl
  | cons e es ih =>
    simp only [Compiler.evalAll] at h
    obtain ⟨v, hv, h⟩ := bind_eq_ok.1 h
    obtain ⟨vs, hvs, h⟩ := bind_eq_ok.1 h
    cases h
    rw [List.length_cons, List.length_cons, ih hvs]

theorem call_eq {i : UInt16} {function : String} {native : Native} {vs : List Value}
    (hl : Linked c m.tables.functions m.natives) (hi : m.tables.functions[i.toNat]? = some function)
    (hf : c.symbols.function function = some native) (hn : vs.length < UInt8.size) (place : Nat)
    (stack : List Value) :
    m.call i (UInt8.ofNat vs.length) place (vs.reverse ++ stack) =
      (c.apply function vs >>= fun v => push m.limit v stack) := by
  have hk : (UInt8.ofNat vs.length).toNat = vs.length := UInt8.toNat_ofNat_of_lt hn
  have hp : popMany vs.length place (vs.reverse ++ stack) = .ok (vs, stack) := by
    have ht : (vs.reverse ++ stack).take vs.reverse.length = vs.reverse := List.take_left ..
    have hd : (vs.reverse ++ stack).drop vs.reverse.length = stack := List.drop_left ..
    rw [List.length_reverse] at ht hd
    simp [popMany, ht, hd]
  simp only [call, entry_of_getElem? hi, entry_of_getElem? (hl.native hi hf), hk, hp, Compiler.apply, hf,
    bind, Except.bind]
  cases native vs <;> rfl

mutual

theorem computes_expr {e : Expr} {code : List Op} (hl : Linked c m.tables.functions m.natives)
    (h : ExprCode c m.tables declared e code) (hr : ∀ v ∈ c.exprLiterals declared e, m.tables.Reads read v) :
    Computes (σ := σ) m code e.depth fun frame => c.eval read declared frame e := by
  cases h with
  | @literal l span i index =>
    have hv := hr l.value (by simp [Compiler.exprLiterals])
    exact computes_literal (hv i index)
  | name load => exact computes_name load hr
  | @constantPath object name span v i constant index =>
    have hv := hr v (by simp [Compiler.exprLiterals, constant])
    simp only [Compiler.eval, constant]
    exact (computes_literal (hv i index)).mono object.depth_pos
  | @field object name span code i computed value index =>
    simp only [Compiler.exprLiterals, computed] at hr
    simp only [Compiler.eval, computed]
    exact (computes_expr hl value hr).apply (loadField_step index)
  | @call function args span native code i known few values index =>
    simp only [Compiler.eval]
    apply (computes_args hl values hr).call fun frame vs => evalAll_length
    intro place vs stack hlength
    rw [← hlength]
    exact call_eq hl index known (hlength ▸ few) place stack
  | unary value => exact (computes_expr hl value hr).apply fun _ _ _ _ => rfl
  | strict one two =>
    simp only [Compiler.exprLiterals, List.mem_append] at hr
    have hleft := computes_expr hl one fun v hv => hr v (.inl hv)
    have hright := computes_expr hl two fun v hv => hr v (.inr hv)
    exact hleft.strict hright _
  | and one two jump yesIndex noIndex =>
    simp only [Compiler.exprLiterals, List.mem_append] at hr
    have hleft := computes_expr hl one fun v hv => hr v (.inl (.inl hv))
    have hright := computes_expr hl two fun v hv => hr v (.inl (.inr hv))
    exact hleft.and hright jump yesIndex noIndex
  | or one two jump yesIndex yesIndex' noIndex =>
    simp only [Compiler.exprLiterals, List.mem_append] at hr
    have hleft := computes_expr hl one fun v hv => hr v (.inl (.inl (.inl hv)))
    have hright := computes_expr hl two fun v hv => hr v (.inl (.inr hv))
    exact hleft.or hright jump yesIndex yesIndex' noIndex
  | conditional value one two jump jump' =>
    simp only [Compiler.exprLiterals, List.mem_append] at hr
    have htest := computes_expr hl value fun v hv => hr v (.inl (.inl hv))
    have hyes := computes_expr hl one fun v hv => hr v (.inl (.inr hv))
    have hno := computes_expr hl two fun v hv => hr v (.inr hv)
    exact htest.conditional hyes hno jump jump'
termination_by structural e

theorem computes_args {es : List Expr} {code : List Op} (hl : Linked c m.tables.functions m.natives)
    (h : ArgCode c m.tables declared es code) (hr : ∀ v ∈ c.argLiterals declared es, m.tables.Reads read v) :
    ComputesAll (σ := σ) m code (argDepth es) fun frame => c.evalAll read declared frame es := by
  cases h with
  | nil => exact computesAll_nil
  | cons value values =>
    simp only [Compiler.argLiterals, List.mem_append] at hr
    have hfirst := computes_expr hl value fun v hv => hr v (.inl hv)
    exact hfirst.cons (computes_args hl values fun v hv => hr v (.inr hv))
termination_by structural es

end

theorem computes_initial {value : Option Expr} (hl : Linked c m.tables.functions m.natives)
    (h : InitialCode c m.tables declared value code)
    (hr : ∀ v ∈ c.initialLiterals declared value, m.tables.Reads read v) :
    Computes (σ := σ) m code (initialDepth value) fun frame => c.initial read declared frame value := by
  cases h with
  | value value => exact computes_expr hl value hr
  | null index => exact computes_literal index.null

theorem consumes_writeCode {name : String} (h : WriteCode c m.tables name code) :
    Consumes (σ := σ) m (code ++ [Op.discard]) fun frame v => c.write frame name v := by
  cases h with
  | @slot slot type input free =>
    simp only [Compiler.write, input, free, Bool.false_eq_true, if_false, ok_bind]
    exact consumes_write fun _ _ _ _ => rfl
  | @typedSlot slot i type input typed index =>
    simp only [Compiler.write, input, typed, if_true]
    exact (consumes_write fun _ _ _ _ => rfl).checked index
  | @frame i input index =>
    simp only [Compiler.write, input]
    apply consumes_write
    intro place v stack frame
    simp only [Op.step, entry_of_getElem? index, pop]

theorem Computes.update {target : String} {old code write : List Op} {x y : σ → Except RunError Value} {value : Expr}
    (hold : Computes m old 1 x) (hvalue : Computes m code value.depth y) (store : WriteCode c m.tables target write)
    (op : ArithOp) (span : Span) :
    Performs m (old ++ code ++ Op.strict (.arith op) :: write ++ [Op.discard])
      (Stmt.assign target (.update op) value span).depth fun frame =>
        orEnd frame (x frame >>= fun a => y frame >>= fun b => Value.strict (.arith op) a b) >>=
          fun v => c.write frame target v := by
  have hcode : old ++ code ++ Op.strict (.arith op) :: write ++ [Op.discard] =
      old ++ code ++ [Op.strict (.arith op)] ++ (write ++ [Op.discard]) := by
    simp
  have hdepth : max 1 (1 + value.depth) ≤ (Stmt.assign target (.update op) value span).depth := by
    rw [Stmt.depth]
    omega
  rw [hcode]
  exact ((hold.strict hvalue (.arith op)).consumed (consumes_writeCode store)).mono hdepth

theorem consumes_declare {name : String} {type : Option String} {i : UInt16} {k : Option UInt16}
    (checked : TypeIndex c m.tables type k) (index : m.tables.names[i.toNat]? = some name) :
    Consumes (σ := σ) m [.declare i k] fun frame v => c.declare frame name type v := by
  intro rest place stack frame v
  cases checked with
  | untyped =>
    apply runFrom_write
    simp only [Op.step, Machine.declaration, entry_of_getElem? index, pop, ok_bind]
    rfl
  | @typed typeName type j known index' =>
    simp only [Compiler.declare, known]
    cases hv : fitted (.declaration name) type v with
    | error e =>
      simp only [List.singleton_append, runFrom, Op.step, Machine.declaration, entry_of_getElem? index,
        entry_of_getElem? index', pop, ok_bind, hv]
      rfl
    | ok w =>
      apply runFrom_write
      simp only [Op.step, Machine.declaration, entry_of_getElem? index, entry_of_getElem? index', pop, ok_bind, hv]
      rfl

mutual

theorem performs_stmt {declared : List String} {s : Stmt} {code : List Op}
    (hl : Linked c m.tables.functions m.natives) (h : StmtCode c m.tables declared s code)
    (hr : ∀ v ∈ c.stmtLiterals declared s, m.tables.Reads read v) :
    Performs (σ := σ) m code s.depth fun frame => c.exec read declared frame s := by
  cases h with
  | expr value => exact (computes_expr hl value hr).consumed consumes_discard
  | set right store =>
    rw [List.append_assoc]
    exact (computes_expr hl right hr).consumed (consumes_writeCode store)
  | @update declared target op value span old code write load right store =>
    simp only [Compiler.stmtLiterals, List.mem_append] at hr
    have hold := computes_name (σ := σ) load fun v hv => hr v (.inl hv)
    have hright := computes_expr (σ := σ) hl right fun v hv => hr v (.inr hv)
    apply (hold.update hright store op span).of_eq
    intro frame
    simp only [Compiler.exec, orEnd_bind, bind_assoc]
    rfl
  | declare right checked index =>
    exact (computes_initial hl right hr).consumed (consumes_declare checked index)
  | branch value one jump =>
    simp only [Compiler.stmtLiterals, List.mem_append] at hr
    have htest := computes_expr (σ := σ) hl value fun v hv => hr v (.inl hv)
    exact htest.branch (performs_block hl one fun v hv => hr v (.inr hv)) jump
  | branchElse value one two jump jump' =>
    simp only [Compiler.stmtLiterals, List.mem_append] at hr
    have htest := computes_expr (σ := σ) hl value fun v hv => hr v (.inl (.inl hv))
    have hyes := performs_block hl one fun v hv => hr v (.inl (.inr hv))
    have hno := performs_block hl two fun v hv => hr v (.inr hv)
    exact htest.branchElse hyes hno jump jump'
  | ret right => exact (computes_expr hl right hr).consumed consumes_ret
  | halt => exact performs_halt
termination_by structural s

theorem performs_block {declared : List String} {ss : List Stmt} {code : List Op}
    (hl : Linked c m.tables.functions m.natives) (h : BlockCode c m.tables declared ss code)
    (hr : ∀ v ∈ c.literals declared ss, m.tables.Reads read v) :
    Performs (σ := σ) m code (blockDepth ss) fun frame => c.execAll read declared frame ss := by
  cases h with
  | nil => exact performs_nil
  | cons one more =>
    simp only [Compiler.literals, List.mem_append] at hr
    have hfirst := performs_stmt hl one fun v hv => hr v (.inl hv)
    exact hfirst.append (performs_block hl more fun v hv => hr v (.inr hv))
termination_by structural ss

end

end FactFold.Script
