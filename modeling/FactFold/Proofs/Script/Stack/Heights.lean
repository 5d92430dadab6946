import FactFold.Proofs.Script.Stack.Steps

/-!
Code is balanced if each of its places can be given the height that the stack has there, whichever way a run
comes to the place. A run of balanced code never finds too few operands.
-/

namespace FactFold.Script

section

variable {σ : Type} [Frame σ]

inductive Machine.Reaches (m : Machine) (ops : List Op) (start : σ) : Nat → List Value → σ → Prop
  | start : m.Reaches ops start 0 [] start
  | next {place skip : Nat} {stack stack' : List Value} {frame frame' : σ} {op : Op}
    (before : m.Reaches ops start place stack frame) (here : ops[place]? = some op)
    (goes : op.step m place stack frame = .go skip stack' frame') :
    m.Reaches ops start (place + 1 + skip) stack' frame'

theorem runFrom_ends {m : Machine} {ops : List Op} {start : σ} (code done : List Op) (skip : Nat)
    (stack : List Value) (frame : σ) (hops : ops = done ++ code)
    (hr : m.Reaches ops start (done.length + skip) stack frame) :
    ∃ place stack' frame', m.Reaches ops start place stack' frame' ∧
      (ops.length ≤ place ∧ m.runFrom code done.length skip stack frame = ⟨.ok none, frame'⟩ ∨
        ∃ op, ops[place]? = some op ∧
          op.step m place stack' frame' = .stop (m.runFrom code done.length skip stack frame)) := by
  induction code generalizing done skip stack frame with
  | nil =>
    refine ⟨_, stack, frame, hr, .inl ⟨?_, rfl⟩⟩
    rw [hops, List.append_nil]
    exact Nat.le_add_right _ _
  | cons op code ih =>
    have hops' : ops = (done ++ [op]) ++ code := by rw [hops, List.append_assoc, List.singleton_append]
    have hlength : (done ++ [op]).length = done.length + 1 := by simp
    cases skip with
    | succ skip =>
      have hplace : done.length + (skip + 1) = (done ++ [op]).length + skip := by omega
      have h := ih (done ++ [op]) skip stack frame hops' (hplace ▸ hr)
      rwa [hlength] at h
    | zero =>
      have hop : ops[done.length]? = some op := by rw [hops]; simp
      cases hstep : op.step m done.length stack frame with
      | stop outcome =>
        refine ⟨_, stack, frame, hr, .inr ⟨op, hop, ?_⟩⟩
        simp only [Machine.runFrom, hstep, Nat.add_zero]
      | go skip stack' frame' =>
        have h := ih (done ++ [op]) skip stack' frame' hops' (hlength ▸ hr.next hop hstep)
        simp only [Machine.runFrom, hstep]
        rwa [hlength] at h

theorem run_ends (m : Machine) (ops : List Op) (start : σ) :
    ∃ place stack frame, m.Reaches ops start place stack frame ∧
      (ops.length ≤ place ∧ m.runFrom ops 0 0 [] start = ⟨.ok none, frame⟩ ∨
        ∃ op, ops[place]? = some op ∧ op.step m place stack frame = .stop (m.runFrom ops 0 0 [] start)) :=
  runFrom_ends ops [] 0 [] start rfl .start

end

def heights (marked : List (Nat × Op)) (last : Nat) : List Nat :=
  marked.map Prod.fst ++ [last]

/-- Each instruction finds its operands, leaves at most `room`, and goes on where its height fits. -/
def Checked (m : Machine) (last room : Nat) : List (Nat × Op) → Prop
  | [] => True
  | (height, op) :: rest =>
    op.Known m ∧ op.takes ≤ height ∧ height + op.gives ≤ room + op.takes ∧
      (∀ skip ∈ op.skips, (heights rest last)[skip]? = some (height + op.gives - op.takes)) ∧
      Checked m last room rest

structure Balanced (m : Machine) (code : List Op) (first last room : Nat) (marked : List (Nat × Op)) : Prop where
  code : marked.map Prod.snd = code
  first : (heights marked last)[0]? = some first
  checked : Checked m last room marked

section

variable {m : Machine} {first middle last room room' : Nat} {marked marked' : List (Nat × Op)}
  {code code' : List Op} {op : Op}

theorem heights_append (marked marked' : List (Nat × Op)) (last : Nat) :
    heights (marked ++ marked') last = marked.map Prod.fst ++ heights marked' last := by
  rw [heights, heights, List.map_append, List.append_assoc]

theorem heights_end (marked : List (Nat × Op)) (last : Nat) :
    (heights marked last)[marked.length]? = some last := by
  simp [heights]

theorem heights_over (marked marked' : List (Nat × Op)) (last k : Nat) :
    (heights (marked ++ marked') last)[marked.length + k]? = (heights marked' last)[k]? := by
  rw [heights_append, List.getElem?_append_right] <;> simp

theorem heights_stay {k h : Nat} (hmiddle : (heights marked' last)[0]? = some middle)
    (hk : (heights marked middle)[k]? = some h) : (heights (marked ++ marked') last)[k]? = some h := by
  by_cases hlt : k < marked.length
  · rw [heights_append, List.getElem?_append_left (by simpa using hlt)]
    rwa [heights, List.getElem?_append_left (by simpa using hlt)] at hk
  · -- the only height that is not one of an instruction is the last one
    obtain rfl : k = marked.length := by
      obtain ⟨hlength, -⟩ := List.getElem?_eq_some_iff.mp hk
      simp only [heights, List.length_append, List.length_map, List.length_singleton] at hlength
      omega
    rw [heights_end] at hk
    rw [← Nat.add_zero marked.length, heights_over, hmiddle, hk]

theorem Checked.mono (h : Checked m last room marked) (hroom : room ≤ room') : Checked m last room' marked := by
  induction marked with
  | nil => exact trivial
  | cons mark marked ih =>
    obtain ⟨hknown, htakes, hgives, hskips, hrest⟩ := h
    exact ⟨hknown, htakes, by omega, hskips, ih hrest⟩

theorem Checked.append (h : Checked m middle room marked) (h' : Checked m last room marked')
    (hmiddle : (heights marked' last)[0]? = some middle) : Checked m last room (marked ++ marked') := by
  induction marked with
  | nil => exact h'
  | cons mark marked ih =>
    obtain ⟨hknown, htakes, hgives, hskips, hrest⟩ := h
    exact ⟨hknown, htakes, hgives, fun skip hskip => heights_stay hmiddle (hskips skip hskip), ih hrest⟩

theorem Checked.mark {i height : Nat} (h : Checked m last room marked)
    (hi : marked[i]? = some (height, op)) :
    op.Known m ∧ op.takes ≤ height ∧ height + op.gives ≤ room + op.takes ∧
      ∀ skip ∈ op.skips, (heights marked last)[i + 1 + skip]? = some (height + op.gives - op.takes) := by
  induction marked generalizing i with
  | nil => cases hi
  | cons mark marked ih =>
    obtain ⟨hknown, htakes, hgives, hskips, hrest⟩ := h
    have hover (k : Nat) : (heights (mark :: marked) last)[k + 1]? = (heights marked last)[k]? := rfl
    cases i with
    | zero =>
      cases hi
      refine ⟨hknown, htakes, hgives, fun skip hskip => ?_⟩
      rw [Nat.zero_add, Nat.add_comm, hover]
      exact hskips skip hskip
    | succ i =>
      obtain ⟨hknown, htakes, hgives, hnext⟩ := ih hrest hi
      refine ⟨hknown, htakes, hgives, fun skip hskip => ?_⟩
      rw [Nat.add_right_comm (i + 1), Nat.add_right_comm i, hover, Nat.add_right_comm]
      exact hnext skip hskip

end

section

variable {m : Machine} {code : List Op} {last room : Nat} {marked : List (Nat × Op)}

theorem Balanced.mark {first place height : Nat} {op : Op} (h : Balanced m code first last room marked)
    (hheight : (heights marked last)[place]? = some height) (hop : code[place]? = some op) :
    marked[place]? = some (height, op) := by
  rw [← h.code, List.getElem?_map, Option.map_eq_some_iff] at hop
  obtain ⟨⟨height', op'⟩, hmark, rfl⟩ := hop
  obtain ⟨hlt, -⟩ := List.getElem?_eq_some_iff.mp hmark
  rw [heights, List.getElem?_append_left (by simpa using hlt), List.getElem?_map, hmark] at hheight
  cases hheight
  exact hmark

variable {σ : Type} [Frame σ] {start frame : σ} {place : Nat} {stack : List Value}

theorem Balanced.reaches (h : Balanced m code 0 last room marked) (hr : m.Reaches code start place stack frame) :
    (heights marked last)[place]? = some stack.length := by
  induction hr with
  | start => exact h.first
  | next before here goes ih =>
    obtain ⟨-, htakes, -, hnext⟩ := h.checked.mark (h.mark ih here)
    obtain ⟨hskip, hlength⟩ := step_go goes
    rw [hnext _ hskip, Option.some.injEq]
    omega

theorem Balanced.fault {op : Op} {e : RunError} {frame' : σ} (h : Balanced m code 0 last room marked)
    (hr : m.Reaches code start place stack frame) (hop : code[place]? = some op)
    (hstop : op.step m place stack frame = .stop ⟨.error e, frame'⟩) (he : e.isFault = true) :
    op.Refused m frame e stack ∨ e = .stackOverflow m.limit ∧ m.limit < room := by
  obtain ⟨hknown, htakes, hgives, -⟩ := h.checked.mark (h.mark (h.reaches hr) hop)
  rcases step_stop hknown htakes hstop with hrefused | hno | ⟨hover, hfull⟩
  · exact .inl hrefused
  · rw [he] at hno
    cases hno
  · exact .inr ⟨hover, by omega⟩

theorem Balanced.lands {first : Nat} {op : Op} (h : Balanced m code first last room marked)
    (hop : code[place]? = some op) : ∀ skip ∈ op.skips, place + 1 + skip ≤ code.length := by
  intro skip hskip
  have hlength : (heights marked last).length = code.length + 1 := by simp [heights, ← h.code]
  obtain ⟨hlt, -⟩ := List.getElem?_eq_some_iff.mp hop
  obtain ⟨-, -, -, hnext⟩ := h.checked.mark (h.mark (List.getElem?_eq_getElem (by omega)) hop)
  obtain ⟨hland, -⟩ := List.getElem?_eq_some_iff.mp (hnext skip hskip)
  omega

end

end FactFold.Script
