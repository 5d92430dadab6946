import FactFold.Context
import FactFold.Proofs.Script.Simulation
import FactFold.Proofs.Script.StackLimit

/-!
A program comes to what its script tree comes to, or it runs out of stack. What a literal stands for is
looked up in the literal table, which holds equal literals once; where equal literals are the same, every
literal stands for itself.
-/

namespace FactFold.Script

inductive ScriptCode (c : Compiler) (t : Tables) : List Stmt → List Op → Prop where
  | valued {ss : List Stmt} {e : Expr} {body value : List Op} (block : BlockCode c t [] ss body)
      (last : ExprCode c t (declaringAll [] ss) e value) :
      ScriptCode c t (ss ++ [.expr e]) (body ++ value ++ [.ret])
  | plain {ss : List Stmt} {body : List Op} (last : ∀ e, ss.getLast? ≠ some (.expr e))
      (block : BlockCode c t [] ss body) : ScriptCode c t ss body

theorem blockDepth_append (ss rest : List Stmt) :
    blockDepth (ss ++ rest) = max (blockDepth ss) (blockDepth rest) := by
  induction ss with
  | nil => simp [blockDepth]
  | cons s ss ih => simp only [List.cons_append, blockDepth, ih, Nat.max_assoc]

theorem declaringAll_append (declared : List String) (ss rest : List Stmt) :
    declaringAll declared (ss ++ rest) = declaringAll (declaringAll declared ss) rest := by
  induction ss generalizing declared with
  | nil => rfl
  | cons s ss ih => exact ih (s.declaring declared)

namespace Compiler

variable {c : Compiler}

theorem literals_append (declared : List String) (ss rest : List Stmt) :
    c.literals declared (ss ++ rest) = c.literals declared ss ++ c.literals (declaringAll declared ss) rest := by
  induction ss generalizing declared with
  | nil => rfl
  | cons s ss ih => simp only [List.cons_append, literals, declaringAll, ih, List.append_assoc]

theorem script_added {ss : List Stmt} {ops : List Op} {d : Draft} (h : c.script ss = .ok (ops, d)) :
    Added c (c.literals [] ss) (declaringAll [] ss) (fun t => ScriptCode c t ss ops) {} d := by
  unfold script at h
  split at h
  · next e he =>
    obtain ⟨ss, rfl⟩ := List.getLast?_eq_some_iff.1 he
    obtain ⟨⟨body, d₁⟩, h₁, h⟩ := bind_eq_ok.1 h
    obtain ⟨⟨value, d₂⟩, h₂, h⟩ := bind_eq_ok.1 h
    obtain ⟨rfl, rfl⟩ := Prod.mk.inj (Except.ok.inj h)
    rw [List.dropLast_concat] at h₁
    obtain ⟨body, rfl, hb⟩ := block_added h₁
    have hv := expr_added h₂
    rw [hb.declared] at hv
    rw [literals_append, declaringAll_append]
    exact ((hb.trans hv).mono fun t ht => .valued ht.1 ht.2).of_eq (by simp [literals, stmtLiterals])
  · next hlast =>
    obtain ⟨body, rfl, hb⟩ := block_added h
    exact hb.mono fun t ht => .plain hlast ht

section

variable {σ : Type} [Frame σ] (read : Value → Value) (declared : List String) (frame : σ)

theorem evaluate_cons {s : Stmt} {rest : List Stmt} (h : rest ≠ [] ∨ ∀ e, s ≠ .expr e) :
    c.evaluate read declared frame (s :: rest) =
      match c.exec read declared frame s with
      | .ok frame => c.evaluate read (s.declaring declared) frame rest
      | .error outcome => outcome := by
  cases rest with
  | cons => cases hs : c.exec read declared frame s <;> simp only [evaluate, hs]
  | nil =>
    cases s with
    | expr e => exact absurd rfl (h.resolve_left (absurd rfl) e)
    | _ => cases hs : c.exec read declared frame _ <;> simp only [evaluate, hs]

theorem evaluate_append_expr (ss : List Stmt) (e : Expr) :
    c.evaluate read declared frame (ss ++ [.expr e]) =
      match c.execAll read declared frame ss with
      | .ok frame => ⟨(c.eval read (declaringAll declared ss) frame e).map some, frame⟩
      | .error outcome => outcome := by
  induction ss generalizing declared frame with
  | nil => rfl
  | cons s ss ih =>
    rw [List.cons_append, evaluate_cons read declared frame (.inl (by simp)), execAll]
    cases c.exec read declared frame s with
    | error outcome => rfl
    | ok frame => exact ih (s.declaring declared) frame

theorem evaluate_eq_execAll {ss : List Stmt} (h : ∀ e, ss.getLast? ≠ some (.expr e)) :
    c.evaluate read declared frame ss =
      match c.execAll read declared frame ss with
      | .ok frame => ⟨.ok none, frame⟩
      | .error outcome => outcome := by
  induction ss generalizing declared frame with
  | nil => rfl
  | cons s ss ih =>
    rcases List.eq_nil_or_concat ss with rfl | ⟨front, last, rfl⟩
    · have hs (e : Expr) : s ≠ .expr e := fun he => h e (by rw [he]; rfl)
      rw [evaluate_cons read declared frame (.inr hs), execAll]
      cases c.exec read declared frame s <;> rfl
    · rw [evaluate_cons read declared frame (.inl (by simp)), execAll]
      cases c.exec read declared frame s with
      | error outcome => rfl
      | ok frame => exact ih _ _ fun e he => h e (by simpa [List.getLast?_cons] using he)

end

section

variable {σ : Type} [Frame σ] {m : Machine} {read : Value → Value} {ss : List Stmt} {p : Program}

theorem run_script {code : List Op} (hl : Linked c m.tables.functions m.natives)
    (h : ScriptCode c m.tables ss code) (hr : ∀ v ∈ c.literals [] ss, m.tables.Reads read v)
    (hs : blockDepth ss ≤ m.limit) (frame : σ) :
    m.runFrom code 0 0 [] frame = c.evaluate read [] frame ss := by
  cases h with
  | @valued ss e body value block last =>
    simp only [literals_append, literals, stmtLiterals, List.append_nil, List.mem_append] at hr
    simp only [blockDepth_append, blockDepth, Stmt.depth, Nat.max_zero] at hs
    have hblock := performs_block (σ := σ) hl block fun v hv => hr v (.inl hv)
    have hvalue := (computes_expr (σ := σ) hl last fun v hv => hr v (.inr hv)).consumed consumes_ret
    have hrun := (hblock.append hvalue) [] 0 [] frame (by simpa using hs)
    rw [List.append_nil, ← List.append_assoc] at hrun
    rw [hrun, evaluate_append_expr]
    dsimp only
    cases c.execAll read [] frame ss with
    | error outcome => rfl
    | ok frame =>
      simp only [ok_bind]
      cases c.eval read (declaringAll [] ss) frame e <;> rfl
  | plain last block =>
    have hrun := performs_block hl block hr [] 0 [] frame (by simpa using hs)
    rw [List.append_nil] at hrun
    rw [hrun, evaluate_eq_execAll read [] frame last]
    dsimp only
    cases c.execAll read [] frame ss <;> rfl

theorem program_literals (h : c.program ss = .ok p) :
    p.chunk.literals = (c.literals [] ss).foldl interned [] := by
  obtain ⟨⟨ops, d⟩, hd, rfl⟩ := map_eq_ok.1 h
  exact (script_added hd).literals

theorem run_program (h : c.program ss = .ok p) (hr : ∀ v ∈ c.literals [] ss, p.chunk.toTables.Reads read v)
    (limit : Nat) (frame : σ) :
    limit < blockDepth ss ∧ (p.run limit frame).result = .error (.stackOverflow limit) ∨
      p.run limit frame = c.evaluate read [] frame ss := by
  obtain ⟨⟨ops, d⟩, hd, rfl⟩ := map_eq_ok.1 h
  have ha := script_added hd
  have hdeep (limit : Nat) (hs : blockDepth ss ≤ limit) :
      (Machine.mk d.toTables d.natives limit).runFrom ops 0 0 [] frame = c.evaluate read [] frame ss :=
    run_script (ha.linked rfl) (ha.holds d.toTables (.refl _)) hr hs frame
  by_cases hs : blockDepth ss ≤ limit
  · exact .inr (hdeep limit hs)
  · -- the run is compared with the one that has just the room that the tree needs
    have hlt : limit < blockDepth ss := by omega
    rcases runFrom_limit (m := ⟨d.toTables, d.natives, limit⟩) (Nat.le_of_lt hlt) ops 0 0 [] frame with hm | hm
    · exact .inl ⟨hlt, hm⟩
    · exact .inr (hm.trans (hdeep _ (Nat.le_refl _)))

end

end Compiler

def Faithful (literals : List Value) : Prop :=
  ∀ v ∈ literals, ∀ w ∈ literals, (v == w) = true → v = w

theorem Faithful.reads {literals : List Value} (h : Faithful literals) {t : Tables}
    (ht : t.literals = literals.foldl interned []) : ∀ v ∈ literals, t.Reads id v := by
  intro v hv i hi
  obtain ⟨entry, he, hmem, heq⟩ := hi.exists_entry
  have hentry : entry ∈ literals := by
    rw [ht] at hmem
    exact (mem_foldl_interned hmem).resolve_left (by simp)
  rw [he, heq.elim (h entry hentry v hv) id]
  rfl

def isPlain : Value → Bool
  | .float _ => false
  | .list _ => false
  | .record _ => false
  | _ => true

theorem eq_of_same_plain {v w : Value} (h : isPlain w = true) (hvw : (v == w) = true) : v = w := by
  cases w with
  | null => exact same_null hvw
  | bool b => exact same_bool hvw
  | int n =>
    cases v with
    | int m => exact congrArg Value.int (eq_of_beq hvw)
    | _ => cases hvw
  | text s =>
    cases v with
    | text t => exact congrArg Value.text (eq_of_beq hvw)
    | _ => cases hvw
  | _ => cases h

theorem faithful_of_plain {literals : List Value} (h : literals.all isPlain = true) : Faithful literals :=
  fun _ _ w hw hvw => eq_of_same_plain (List.all_eq_true.1 h w hw) hvw

/-- A compiled script, on any frame and with any stack limit, either runs out of stack, which takes a limit
smaller than the operands of the tree, or ends as the tree does: with the same value or error and the same
frame. -/
theorem program_correct {σ : Type} [Frame σ] {c : Compiler} {ss : List Stmt} {p : Program}
    (h : c.program ss = .ok p) (hf : Faithful (c.literals [] ss)) (limit : Nat) (frame : σ) :
    limit < blockDepth ss ∧ (p.run limit frame).result = .error (.stackOverflow limit) ∨
      p.run limit frame = c.evaluate id [] frame ss :=
  Compiler.run_program h (hf.reads (Compiler.program_literals h)) limit frame

def sampleCompiler : Compiler where
  symbols := {
    input name := if name = "n" then some (0, .any) else if name = "total" then some (1, .integer) else none
    constant name := if name = "step" then some (.int 2) else none
    function _ := none
    type name := if name = "int" then some .integer else none }
  strict := true

-- `int k = n * step; if (k > 3 && n != 0) { total += k; } else { return; } n > 1 ? total : n`
def sampleScript : List Stmt :=
  let here : Span := ⟨0, 0⟩
  let n : Expr := .name "n" here
  let k : Expr := .name "k" here
  let int (i : Int64) : Expr := .literal (.int i) here
  let positive : Expr := .binary (.strict (.order .gt)) k (int 3) here
  [.declare "k" (some "int") (some (.binary (.strict (.arith .mul)) n (.name "step" here) here)) here,
    .branch (.binary .and positive (.binary (.strict .ne) n (int 0) here) here)
      [.assign "total" (.update .add) k here] (some [.ret none]),
    .expr (.conditional (.binary (.strict (.order .gt)) n (int 1) here) (.name "total" here) n here)]

def sampleContext : Context where
  unit := "sample"
  inputs := [("n", .any), ("total", .integer)]
  slots := [.int 2, .int 1]
  layout := ⟨0, 0, 1, 0, 0, 1⟩
  scope := {}

theorem program_correct_sample :
    ∃ p, sampleCompiler.program sampleScript = .ok p ∧
      (p.run 2 sampleContext).result = .ok (some (.int 5)) ∧ (p.run 2 sampleContext).frame.others = [.int 5] := by
  cases hp : sampleCompiler.program sampleScript with
  | error e =>
    have hok : (sampleCompiler.program sampleScript).isOk = true := by cbv
    rw [hp] at hok
    cases hok
  | ok p =>
    have hf : Faithful (sampleCompiler.literals [] sampleScript) := faithful_of_plain (by cbv)
    have hrun := (program_correct hp hf 2 sampleContext).resolve_left fun h => absurd h.1 (by decide)
    exact ⟨p, rfl, by rw [hrun]; cbv, by rw [hrun]; cbv⟩

end FactFold.Script
