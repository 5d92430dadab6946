import FactFold.Proofs.Script.Stack.Discipline

namespace FactFold.Script

section

variable {σ : Type} [Frame σ] {m : Machine} {limit place skip : Nat} {op : Op} {ops : List Op}
  {stack stack' : List Value} {start frame frame' : σ}

theorem runFrom_drop (ops : List Op) (place skip : Nat) (stack : List Value) (frame : σ) :
    m.runFrom ops place skip stack frame = m.runFrom (ops.drop skip) (place + skip) 0 stack frame := by
  induction ops generalizing place skip with
  | nil => rw [List.drop_nil, Machine.runFrom, Machine.runFrom]
  | cons op ops ih =>
    cases skip with
    | zero => rfl
    | succ skip =>
      rw [Machine.runFrom, ih, List.drop_succ_cons, Nat.add_right_comm, Nat.add_assoc]

theorem runFrom_go (h : ops[place]? = some op) (hgo : op.step m place stack frame = .go skip stack' frame') :
    m.runFrom (ops.drop place) place 0 stack frame =
      m.runFrom (ops.drop (place + 1 + skip)) (place + 1 + skip) 0 stack' frame' := by
  rw [List.drop_eq_getElem?_toList_append, h, Option.toList_some, List.singleton_append, Machine.runFrom, hgo]
  dsimp only
  rw [runFrom_drop, List.drop_drop]

theorem runFrom_stop {outcome : Outcome σ} (h : ops[place]? = some op)
    (hstop : op.step m place stack frame = .stop outcome) :
    m.runFrom (ops.drop place) place 0 stack frame = outcome := by
  rw [List.drop_eq_getElem?_toList_append, h, Option.toList_some, List.singleton_append, Machine.runFrom, hstop]

theorem Machine.Reaches.runFrom_eq (h : m.Reaches ops start place stack frame) :
    m.runFrom ops 0 0 [] start = m.runFrom (ops.drop place) place 0 stack frame := by
  induction h with
  | start => rfl
  | next before here goes ih => rw [ih, runFrom_go here goes]

theorem push_within {limit : Nat} {v : Value} (h : push limit v stack = .ok stack') : stack'.length ≤ limit := by
  unfold push at h
  split at h
  · cases h
  · next hroom =>
    cases h
    exact Nat.lt_of_not_le hroom

theorem gives_le_takes (h : op.pushed m place stack frame = none) : op.gives ≤ op.takes := by
  cases op <;> first | exact absurd h (Option.some_ne_none _) | exact Nat.le_refl _ | exact Nat.zero_le _

theorem step_within (hstack : stack.length ≤ m.limit) (hgo : op.step m place stack frame = .go skip stack' frame') :
    stack'.length ≤ m.limit := by
  have hstep := step_eq m place op stack frame
  cases hx : op.pushed m place stack frame with
  | some x =>
    rw [hx] at hstep
    obtain ⟨-, hpush⟩ := onStack_go (hstep.symm.trans hgo)
    obtain ⟨⟨v, below⟩, -, hpush⟩ := bind_eq_ok.mp hpush
    exact push_within hpush
  | none =>
    have hlength := (step_go hgo).2
    have hle := gives_le_takes hx
    omega

theorem Machine.Reaches.within (h : m.Reaches ops start place stack frame) : stack.length ≤ m.limit := by
  induction h with
  | start => exact Nat.zero_le _
  | next _ _ goes ih => exact step_within ih goes

theorem step_larger (h : m.limit ≤ limit) (place : Nat) (op : Op) (hstack : stack.length ≤ m.limit) (frame : σ) :
    op.step m place stack frame = op.step { m with limit } place stack frame ∨
      op.step m place stack frame = .stop ⟨.error (.stackOverflow m.limit), frame⟩ ∧
        ∃ stack', op.step { m with limit } place stack frame = .go 0 stack' frame ∧ m.limit < stack'.length := by
  have hm := step_eq m place op stack frame
  have hm' := step_eq { m with limit } place op stack frame
  have hp : op.pushed { m with limit } place stack frame = op.pushed m place stack frame := by cases op <;> rfl
  rw [hp] at hm'
  rcases hx : op.pushed m place stack frame with _ | _ | ⟨v, below⟩
  · rw [hx] at hm
    exact .inl (hm limit)
  · rw [hx] at hm hm'
    exact .inl (hm.trans hm'.symm)
  · rw [hx] at hm hm'
    rw [hm, hm', ok_bind, ok_bind]
    rcases push_limit h v below with hfull | hsame
    · -- nothing has been taken from the stack, and the larger limit is another one or refuses too
      have hbelow := (pushed_ok hx).1
      obtain ⟨-, hle⟩ := push_eq_error hfull
      rcases Nat.eq_or_lt_of_le h with heq | hlt
      · exact .inl (by rw [heq])
      · have hpush : push limit v below = .ok (v :: below) := if_neg (by omega)
        refine .inr ⟨congrArg (Flow.onStack frame) hfull, v :: below, congrArg (Flow.onStack frame) hpush, ?_⟩
        exact Nat.lt_succ_of_le hle
    · exact .inl (congrArg (Flow.onStack frame) hsame)

theorem Machine.Reaches.larger (h : m.limit ≤ limit) (hr : m.Reaches ops start place stack frame) :
    Machine.Reaches { m with limit } ops start place stack frame := by
  induction hr with
  | start => exact .start
  | @next place _ _ _ frame _ op before here goes ih =>
    rcases step_larger h place op before.within frame with hsame | ⟨hstop, -⟩
    · exact ih.next here (hsame ▸ goes)
    · rw [goes] at hstop
      cases hstop

end

/-- With a smaller limit a run is refused, or it is the run with the larger limit. Where it is refused, the larger
limit lets the run come to more operands than the smaller one, with the frame that the refused run leaves. -/
theorem stack_limit_only_refuses {σ : Type} [Frame σ] (p : Program) {limit limit' : Nat} (h : limit ≤ limit')
    (start : σ) :
    ((p.run limit start).result = .error (.stackOverflow limit) ∧
        ∃ place stack, (p.machine limit').Reaches p.chunk.ops start place stack (p.run limit start).frame ∧
          limit < stack.length) ∨
      p.run limit start = p.run limit' start := by
  obtain ⟨place, stack, frame, hr, hend⟩ := run_ends (p.machine limit) p.chunk.ops start
  have hr' : (p.machine limit').Reaches p.chunk.ops start place stack frame := hr.larger h
  rcases hend with ⟨hplace, hdone⟩ | ⟨op, hop, hstop⟩
  · right
    have hdone' := hr'.runFrom_eq
    rw [List.drop_of_length_le hplace] at hdone'
    exact hdone.trans hdone'.symm
  · rcases step_larger h place op hr.within frame with hsame | ⟨hover, stack', hgo, hlt⟩
    · right
      have hstop' := hr'.runFrom_eq.trans (runFrom_stop hop (hsame.symm.trans hstop))
      exact hstop'.symm
    · left
      have houtcome : p.run limit start = ⟨.error (.stackOverflow limit), frame⟩ :=
        Flow.stop.inj (hstop.symm.trans hover)
      rw [houtcome]
      exact ⟨rfl, _, stack', hr'.next hop hgo, hlt⟩

theorem stack_limit_only_refuses_call :
    4 ≤ 5 ∧ (callProgram.run 4 callContext).result = .error (.stackOverflow 4) ∧
      (callProgram.run 5 callContext).result = .ok (some (.int 5)) ∧
      (∃ place stack, (callProgram.machine 5).Reaches callProgram.chunk.ops callContext place stack
        (callProgram.run 4 callContext).frame ∧ 4 < stack.length) ∧
      5 ≤ defaultStackLimit ∧ callProgram.run 5 callContext = callProgram.run defaultStackLimit callContext := by
  have hfour : (callProgram.run 4 callContext).result = .error (.stackOverflow 4) := by cbv
  have hfive : (callProgram.run 5 callContext).result = .ok (some (.int 5)) := by cbv
  have hle : 4 ≤ 5 := by decide
  have hdefault : 5 ≤ defaultStackLimit := by decide
  refine ⟨hle, hfour, hfive, ?_, hdefault, ?_⟩
  · refine ((stack_limit_only_refuses callProgram hle callContext).resolve_right fun h => ?_).2
    rw [h, hfive] at hfour
    cases hfour
  · refine (stack_limit_only_refuses callProgram hdefault callContext).resolve_left fun h => ?_
    rw [hfive] at h
    cases h.1

end FactFold.Script
