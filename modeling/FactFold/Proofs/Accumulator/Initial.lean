import FactFold.Proofs.Accumulator.Calls
import FactFold.Proofs.Accumulator.Updates

namespace FactFold

open Script

inductive IntegerConstant (c : Compiler) : Expr → Prop where
  | literal (n : Int64) (span : Span) : IntegerConstant c (.literal (.int n) span)
  | named {e : Expr} {n : Int64} (h : c.pathConstant? [] e = some (.int n)) : IntegerConstant c e

inductive Sets : Entries String Expr → List Stmt → Prop where
  | nil : Sets [] []
  | cons {x : String} {e : Expr} {span : Span} {consts : Entries String Expr} {ss : List Stmt}
      (rest : Sets consts ss) : Sets ((x, e) :: consts) (.assign x .set e span :: ss)

theorem Sets.getLast? {consts : Entries String Expr} {ss : List Stmt} (hs : Sets consts ss) (e : Expr) :
    ss.getLast? ≠ some (.expr e) := by
  induction hs with
  | nil => simp
  | @cons _ _ _ _ ss _ ih =>
    cases ss with
    | nil => simp
    | cons s ss => simpa [List.getLast?_cons] using ih

theorem IntegerConstant.value {c : Compiler} {e : Expr} (h : IntegerConstant c e) :
    ∃ n, (∀ k : Context, c.eval id [] k e = .ok (.int n)) ∧ c.exprLiterals [] e = [.int n] := by
  cases h with
  | literal n span => exact ⟨n, fun _ => rfl, rfl⟩
  | @named _ n h =>
    refine ⟨n, fun k => ?_, ?_⟩ <;> cases e with
    | name x span =>
      simp only [Compiler.pathConstant?, Expr.root?, Expr.path?, List.not_mem_nil, or_false] at h
      split at h
      · cases h
      · next hnone =>
        have hnone : c.symbols.input x = none := by simpa using hnone
        simp [Compiler.eval, Compiler.nameValue, Compiler.exprLiterals, Compiler.nameLiterals, hnone, h]
    | field object name span => simp [Compiler.eval, Compiler.exprLiterals, h]
    | _ => cases h

namespace CompiledUnit

variable {u : CompiledUnit} {r : Registry} {consts : Entries String Expr} {k : Context} {front : Front}
  {vars : List Value} {ss : List Stmt}

theorem Valid.execAll_sets (hu : u.Valid) (hs : Sets consts ss)
    (hc : ∀ const ∈ consts, const.1 ∈ u.plan.others ∧ IntegerConstant (u.compiler r) const.2)
    (h : k.Splits u front vars) :
    (∃ e left, (u.compiler r).execAll id [] k ss = .error ⟨.error e, left⟩) ∨
      ∃ k' vars', (u.compiler r).execAll id [] k ss = .ok k' ∧ k'.Splits u front vars' ∧
        ∀ x, (u.plan.strict = true → u.inputs.get? x ≠ some .float) →
          (x ∈ consts.map Prod.fst ∨ ∃ n, namedValue? u.plan.others vars x = some (.int n)) →
            ∃ n, namedValue? u.plan.others vars' x = some (.int n) := by
  induction hs generalizing k vars with
  | nil => exact .inr ⟨k, vars, rfl, h, fun x _ hx => hx.resolve_left (by simp)⟩
  | @cons x e span consts ss rest ih =>
    obtain ⟨htarget, hconst⟩ := hc (x, e) (List.mem_cons_self ..)
    obtain ⟨i, hlt, hx⟩ := findIdx?_of_mem htarget
    rw [← hu.layout_other, ← h.vars] at hlt
    obtain ⟨n, heval, -⟩ := hconst.value
    simp only [Compiler.execAll, Compiler.exec, heval k, orEnd_ok, ok_bind]
    rcases hu.write_int (r := r) h hx hlt n with ⟨e', left, herror⟩ | ⟨v, k₁, hok, h₁, hv⟩
    · exact .inl ⟨e', left, by rw [herror]; rfl⟩
    · rw [hok, ok_bind]
      rcases ih (fun const hconst => hc const (List.mem_cons_of_mem _ hconst)) h₁ with
        ⟨e', left, herror⟩ | ⟨k', vars', hok', h', hints⟩
      · exact .inl ⟨e', left, herror⟩
      · refine .inr ⟨k', vars', hok', h', fun y hy hset => hints y hy ?_⟩
        by_cases hyx : y = x
        · subst hyx
          exact .inr ⟨n, by rw [namedValue?_set hx hlt, hv hy]⟩
        · rw [namedValue?_set_of_ne hx hyx]
          exact hset.imp_left fun hmem => (List.mem_cons.1 hmem).resolve_left hyx

theorem literals_sets (hs : Sets consts ss) (hc : ∀ const ∈ consts, IntegerConstant (u.compiler r) const.2) :
    ((u.compiler r).literals [] ss).all isPlain = true := by
  induction hs with
  | nil => rfl
  | @cons x e span consts ss rest ih =>
    obtain ⟨n, -, hliterals⟩ := (hc (x, e) (List.mem_cons_self ..)).value
    have ih := ih fun const hconst => hc const (List.mem_cons_of_mem _ hconst)
    simp only [Compiler.literals, Compiler.stmtLiterals, hliterals, Stmt.declaring, List.cons_append,
      List.nil_append, List.all_cons, ih]
    rfl

theorem Valid.run_sets (hu : u.Valid) (hprogram : (u.compiler r).program ss = .ok u.program) (hs : Sets consts ss)
    (hc : ∀ const ∈ consts, const.1 ∈ u.plan.others ∧ IntegerConstant (u.compiler r) const.2)
    (h : k.Splits u front vars) {v : Option Value} {left : Context} (hrun : u.run k = ⟨.ok v, left⟩) {x : String}
    (hx : x ∈ consts.map Prod.fst) (hf : u.plan.strict = true → u.inputs.get? x ≠ some .float) :
    ∃ n, namedValue? u.plan.others left.others x = some (.int n) := by
  have hfaithful := faithful_of_plain (literals_sets (u := u) (r := r) hs fun const hconst => (hc const hconst).2)
  have hreads := hfaithful.reads (Compiler.program_literals hprogram)
  rcases Compiler.run_program hprogram hreads u.maxStackDepth k with ⟨-, hover⟩ | heval
  · have hover : (u.run k).result = .error (.stackOverflow u.maxStackDepth) := hover
    rw [hrun] at hover
    cases hover
  · have heval : u.run k = (u.compiler r).evaluate id [] k ss := heval
    rw [hrun, Compiler.evaluate_eq_execAll _ _ _ hs.getLast?] at heval
    rcases hu.execAll_sets (r := r) hs hc h with ⟨e, left', herror⟩ | ⟨k', vars', hok, h', hints⟩
    · rw [herror] at heval
      cases heval
    · rw [hok] at heval
      cases heval
      rw [h'.others]
      exact hints x hf (.inl hx)

end CompiledUnit

namespace Accumulator

variable {a a' : Accumulator} {units units' : CompiledUnits} {g g' : Group} {tuple : List Fact} {memory : Memory}

theorem reset_ok (hu : a.compiled = some units) (h : a.reset g tuple memory = (.ok (), g')) :
    ∃ k v left, units.init.context none tuple memory (a.init.others.map fun _ => .null) = .ok k ∧
      units.init.run k = ⟨.ok v, left⟩ ∧ g' = g.cleared left.others := by
  rcases reset_cases a g tuple memory with ⟨e, he⟩ | ⟨units', k, v, left, hu', hk, hrun, hr⟩
  · simp [he] at h
  · obtain rfl : units = units' := Option.some.inj (hu.symm.trans hu')
    exact ⟨k, v, left, hk, hrun, by simpa [hr] using h.symm⟩

theorem reset_vars {g₁ g₂ : Group} (hu : a.compiled = some units) (hu' : a'.compiled = some units')
    (hi : units'.init = units.init) (ha : a'.init = a.init) (h : a.reset g tuple memory = (.ok (), g₁))
    (h' : a'.reset g' tuple memory = (.ok (), g₂)) : g₂.vars = g₁.vars := by
  obtain ⟨k, v, left, hk, hrun, rfl⟩ := reset_ok hu h
  obtain ⟨k', v', left', hk', hrun', rfl⟩ := reset_ok hu' h'
  rw [hi, ha] at hk'
  obtain rfl : k = k' := Except.ok.inj (hk.symm.trans hk')
  rw [hi, hrun] at hrun'
  cases hrun'
  rfl

theorem reset_length (hu : a.compiled = some units) (hvalid : units.init.Valid)
    (ho : units.init.plan.others = a.init.others) (h : a.reset g tuple memory = (.ok (), g')) :
    g'.vars.length = a.init.others.length := by
  obtain ⟨k, v, left, hk, hrun, rfl⟩ := reset_ok hu h
  obtain ⟨front, hsplits, -⟩ := hvalid.context hk
  have hlength := CompiledUnit.run_others_length hsplits
  rw [hrun, hvalid.layout_other, ho] at hlength
  exact hlength

end Accumulator

end FactFold
