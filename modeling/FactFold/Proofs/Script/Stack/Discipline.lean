import FactFold.Proofs.Script.Correctness
import FactFold.Proofs.Script.Stack.Balance

namespace FactFold.Script

def Program.machine (p : Program) (limit : Nat) : Machine :=
  ⟨p.chunk.toTables, p.natives, limit⟩

structure Disciplined (σ : Type) [Frame σ] (c : Compiler) (ss : List Stmt) (p : Program) : Prop where
  lands : ∀ (place : Nat) (k : UInt16), p.chunk.ops[place]? = some (.jump k) ∨
    p.chunk.ops[place]? = some (.jumpIfFalse k) → place + 1 + k.toNat ≤ p.chunk.ops.length
  -- The functions are those of the names, in the same order.
  functions : p.chunk.functions.map c.symbols.function = p.natives.map some
  boundary : ∀ (limit : Nat) (start frame : σ) (place : Nat) (stack : List Value),
    (p.machine limit).Reaches p.chunk.ops start place stack frame → Boundary c [] ss place → stack = []
  -- A fault is that of a stack with too little room for the script, or an answer of the frame.
  fault : ∀ (limit : Nat) (start : σ) (e : RunError), (p.run limit start).result = .error e →
    e.isFault = true → limit < blockDepth ss ∧ e = .stackOverflow limit ∨
      ∃ place stack frame op, (p.machine limit).Reaches p.chunk.ops start place stack frame ∧
        p.chunk.ops[place]? = some op ∧ op.Refused (p.machine limit) frame e stack

variable {c : Compiler} {m : Machine} {ss : List Stmt} {code : List Op}

theorem Compiler.blockSize_append (declared : List String) (ss rest : List Stmt) :
    c.blockSize declared (ss ++ rest) = c.blockSize declared ss + c.blockSize (declaringAll declared ss) rest := by
  induction ss generalizing declared with
  | nil => exact (Nat.zero_add _).symm
  | cons s ss ih => simp only [List.cons_append, blockSize, declaringAll, ih, Nat.add_assoc]

theorem ScriptCode.length {t : Tables} (h : ScriptCode c t ss code) : code.length = c.blockSize [] ss := by
  cases h with
  | plain last block => exact block.length
  | valued block last =>
    rw [c.blockSize_append, List.length_append, List.length_append, block.length, last.length, Nat.add_assoc]
    rfl

theorem level_script (hl : Linked c m.tables.functions m.natives) (h : ScriptCode c m.tables ss code) :
    Level m code (blockDepth ss) (Boundary c [] ss) := by
  have hlength := h.length
  cases h with
  | plain last block => exact level_block hl block
  | @valued ss e body value block last =>
    obtain ⟨marked, hbody, hboundary⟩ := level_block hl block
    obtain ⟨marks, hvalue⟩ := balanced_expr hl last
    have hdepth : blockDepth (ss ++ [.expr e]) = max (blockDepth ss) e.depth := by
      rw [blockDepth_append, blockDepth, Stmt.depth, blockDepth, Nat.max_zero]
    have hreturn := (hvalue.append balanced_ret).mono (Nat.le_max_right (blockDepth ss) e.depth)
    rw [List.append_assoc] at hlength ⊢
    rw [hdepth]
    have hall := (hbody.mono (Nat.le_max_left ..)).append hreturn
    refine ⟨_, hall, fun n hn => ?_⟩
    rcases boundary_append_expr hn with hfront | rfl
    · exact heights_stay hreturn.first (hboundary n hfront)
    · rw [← hlength, ← hall.length]
      exact heights_end ..

theorem program_level {p : Program} (h : c.program ss = .ok p) (limit : Nat) :
    Level (p.machine limit) p.chunk.ops (blockDepth ss) (Boundary c [] ss) := by
  obtain ⟨⟨ops, d⟩, hd, rfl⟩ := map_eq_ok.1 h
  have ha := Compiler.script_added hd
  have hl : Linked c d.functions d.natives := ha.linked rfl
  exact level_script (m := ⟨d.toTables, d.natives, limit⟩) hl (ha.holds d.toTables (.refl _))

theorem program_fault {σ : Type} [Frame σ] {p : Program} (h : c.program ss = .ok p) (limit : Nat) (start : σ)
    {e : RunError} (he : (p.run limit start).result = .error e) (hfault : e.isFault = true) :
    limit < blockDepth ss ∧ e = .stackOverflow limit ∨
      ∃ place stack frame op, (p.machine limit).Reaches p.chunk.ops start place stack frame ∧
        p.chunk.ops[place]? = some op ∧ op.Refused (p.machine limit) frame e stack := by
  obtain ⟨marked, hbalanced, -⟩ := program_level h limit
  obtain ⟨place, stack, frame, hr, ⟨-, hend⟩ | ⟨op, hop, hstop⟩⟩ := run_ends (p.machine limit) p.chunk.ops start
  · have hresult := he.symm.trans (congrArg Outcome.result hend)
    cases hresult
  · have houtcome : (p.machine limit).runFrom p.chunk.ops 0 0 [] start = ⟨.error e, _⟩ :=
      congrArg (Outcome.mk · _) he
    rw [houtcome] at hstop
    rcases hbalanced.fault hr hop hstop hfault with hrefused | ⟨hover, hlt⟩
    · exact .inr ⟨place, stack, frame, op, hr, hop, hrefused⟩
    · exact .inl ⟨hlt, hover⟩

theorem stack_discipline {σ : Type} [Frame σ] {c : Compiler} {ss : List Stmt} {p : Program}
    (h : c.program ss = .ok p) : Disciplined σ c ss p := by
  constructor
  · intro place k hk
    obtain ⟨marked, hbalanced, -⟩ := program_level h 0
    rcases hk with hk | hk
    · exact hbalanced.lands hk _ (List.mem_singleton.mpr rfl)
    · exact hbalanced.lands hk _ (List.mem_pair.mpr (.inr rfl))
  · obtain ⟨⟨ops, d⟩, hd, rfl⟩ := map_eq_ok.1 h
    exact (Compiler.script_added hd).linked rfl
  · intro limit start frame place stack hr hboundary
    obtain ⟨marked, hbalanced, hzero⟩ := program_level h limit
    have hheight := (hbalanced.reaches hr).symm.trans (hzero place hboundary)
    exact List.length_eq_zero_iff.mp (Option.some.inj hheight)
  · exact fun limit start e he hfault => program_fault h limit start he hfault

def greater : Native
  | [.int a, .int b] => .ok (.int (if a < b then b else a))
  | _ => .error "two integers are needed"

def callCompiler : Compiler where
  symbols := {
    input name := if name = "n" then some (0, .any) else if name = "total" then some (1, .integer) else none
    constant _ := none
    function name := if name = "max" then some greater else none
    type _ := none }
  strict := true

-- `total += 1 + max(n, n * 2); if (n > 1 && total != 0) { total = n; } else { return; } total`
def callScript : List Stmt :=
  let here : Span := ⟨0, 0⟩
  let n : Expr := .name "n" here
  let total : Expr := .name "total" here
  let int (i : Int64) : Expr := .literal (.int i) here
  let twice : Expr := .binary (.strict (.arith .mul)) n (int 2) here
  [.assign "total" (.update .add) (.binary (.strict (.arith .add)) (int 1) (.call "max" [n, twice] here) here) here,
    .branch (.binary .and (.binary (.strict (.order .gt)) n (int 1) here)
      (.binary (.strict .ne) total (int 0) here) here) [.assign "total" .set n here] (some [.ret none]),
    .expr total]

def callProgram : Program where
  chunk :=
    { ops := [.loadSlot 1, .literal 0, .loadSlot 0, .loadSlot 0, .literal 1, .strict (.arith .mul), .call 0 2,
        .strict (.arith .add), .strict (.arith .add), .checkType 0, .storeSlot 1, .discard,
        .loadSlot 0, .literal 0, .strict (.order .gt), .jumpIfFalse 6, .loadSlot 1, .literal 2, .strict .ne,
        .jumpIfFalse 2, .literal 3, .jump 1, .literal 4, .jumpIfFalse 5,
        .loadSlot 0, .checkType 0, .storeSlot 1, .discard, .jump 1, .halt, .loadSlot 1, .ret]
      literals := [.int 1, .int 2, .int 0, .bool true, .bool false]
      types := [.integer]
      functions := ["max"]
      strict := true }
  natives := [greater]

def callContext : Context :=
  { sampleContext with slots := [.int 5, .int 1] }

theorem call_program : callCompiler.program callScript = .ok callProgram := by
  cbv

theorem stack_discipline_call :
    Disciplined Context callCompiler callScript callProgram ∧ blockDepth callScript = 5 ∧
      (callProgram.run 5 callContext).result = .ok (some (.int 5)) ∧
      (callProgram.run 4 callContext).result = .error (.stackOverflow 4) :=
  ⟨stack_discipline call_program, by cbv, by cbv, by cbv⟩

end FactFold.Script
