import FactFold.Proofs.Script.Fragments
import FactFold.Proofs.Script.Stack.Heights

/-!
A check of the top of the stack keeps the value as it is, unless it widens an integer for a float place. Code
without such checks does what the code with them does, as far as a run of that ends in order. Its jumps are
shorter and its table of types is another one.
-/

namespace FactFold

theorem ValueType.coerce_eq {type : ValueType} (h : type ≠ .float) (v : Value) : type.coerce v = v := by
  cases type with
  | float => exact absurd rfl h
  | _ => rfl

namespace Script

def Yields {α : Type} (x y : Except RunError α) : Prop :=
  ∀ a, x = .ok a → y = .ok a

section

variable {α β : Type} {x y : Except RunError α}

theorem yields_self (x : Except RunError α) : Yields x x :=
  fun _ h => h

theorem Yields.bind {f g : α → Except RunError β} (hxy : Yields x y) (hfg : ∀ a, Yields (f a) (g a)) :
    Yields (x >>= f) (y >>= g) := by
  intro b h
  obtain ⟨a, ha, hb⟩ := bind_eq_ok.1 h
  exact bind_eq_ok.2 ⟨a, hxy a ha, hfg a b hb⟩

theorem Yields.map (hxy : Yields x y) (f : α → β) : Yields (x.map f) (y.map f) := by
  intro b h
  obtain ⟨a, ha, hb⟩ := map_eq_ok.1 h
  exact map_eq_ok.2 ⟨a, hxy a ha, hb⟩

variable {stack : List Value}

theorem pop_yields (place place' : Nat) : Yields (pop place stack) (pop place' stack) := by
  intro vs h
  cases stack with
  | nil => cases h
  | cons v stack => exact h

theorem popMany_yields (n place place' : Nat) : Yields (popMany n place stack) (popMany n place' stack) := by
  intro vs h
  unfold popMany at h ⊢
  split at h
  · cases h
  · next hlength => rw [if_neg hlength, h]

end

variable {σ : Type}

def Flow.Fine : Flow σ → Prop
  | .go .. => True
  | .stop outcome => ∃ v, outcome.result = .ok v

theorem not_fine {e : RunError} {frame : σ} : ¬ (Flow.stop ⟨.error e, frame⟩).Fine := by
  rintro ⟨v, ⟨⟩⟩

theorem Yields.onStack {x y : Except RunError (List Value)} {frame : σ} (hxy : Yields x y)
    (h : (Flow.onStack frame x).Fine) : Flow.onStack frame y = Flow.onStack frame x := by
  cases x with
  | error e => exact (not_fine h).elim
  | ok stack => rw [hxy stack rfl]

def Machine.retyped (m : Machine) (types : List ValueType) : Machine :=
  { m with tables := { m.tables with types } }

def Op.Untyped : Op → Prop
  | .declare _ (some _) => False
  | .checkType _ => False
  | _ => True

variable [Frame σ] {m : Machine} {types : List ValueType} {place place' : Nat} {stack : List Value} {frame : σ}

theorem declaration_yields (name : UInt16) :
    Yields (m.declaration name none place stack) ((m.retyped types).declaration name none place' stack) :=
  (yields_self _).bind fun _ => (pop_yields _ _).bind fun _ => yields_self _

theorem declaration_yields_typed {type : ValueType} {i k : UInt16} (index : m.tables.types[i.toNat]? = some type)
    (index' : types[k.toNat]? = some type) (name : UInt16) :
    Yields (m.declaration name (some i) place stack) ((m.retyped types).declaration name (some k) place' stack) := by
  have hi : entry .type m.tables.types i = .ok type := entry_of_getElem? index
  have hk : entry .type types k = .ok type := entry_of_getElem? index'
  refine (yields_self _).bind fun name => (pop_yields _ _).bind fun vs => ?_
  obtain ⟨v, below⟩ := vs
  simp only [Machine.retyped, hi, hk]
  exact yields_self _

theorem declare_fine {name : UInt16} {k k' : Option UInt16}
    (hasks : Yields (m.declaration name k place stack) ((m.retyped types).declaration name k' place' stack))
    (h : ((Op.declare name k).step m place stack frame).Fine) :
    (Op.declare name k').step (m.retyped types) place' stack frame = (Op.declare name k).step m place stack frame := by
  cases hd : m.declaration name k place stack with
  | error e =>
    simp only [Op.step, hd] at h
    exact (not_fine h).elim
  | ok declared => simp only [Op.step, hd, hasks declared hd]

theorem step_fine {op : Op} (hop : op.Untyped) (h : (op.step m place stack frame).Fine) :
    op.step (m.retyped types) place' stack frame = op.step m place stack frame := by
  cases op with
  | declare name k =>
    cases k with
    | none => exact declare_fine (declaration_yields name) h
    | some k => cases hop
  | checkType i => cases hop
  | storeName i =>
    cases hi : entry .name m.tables.names i with
    | error e =>
      simp only [Op.step, hi] at h
      exact (not_fine h).elim
    | ok name =>
      cases stack with
      | nil =>
        simp only [Op.step, hi, pop] at h
        exact (not_fine h).elim
      | cons v stack => rfl
  | storeSlot s =>
    cases stack with
    | nil => exact (not_fine h).elim
    | cons v stack => rfl
  | jumpIfFalse k =>
    cases stack with
    | nil => exact (not_fine h).elim
    | cons v stack => rfl
  | ret =>
    cases stack with
    | nil => exact (not_fine h).elim
    | cons v stack => rfl
  | loadField i =>
    exact Yields.onStack ((yields_self _).bind fun _ => (pop_yields _ _).bind fun _ => yields_self _) h
  | strict op =>
    exact Yields.onStack ((pop_yields _ _).bind fun _ => (pop_yields _ _).bind fun _ => yields_self _) h
  | unary op => exact Yields.onStack ((pop_yields _ _).bind fun _ => yields_self _) h
  | call function arity =>
    exact Yields.onStack ((yields_self _).bind fun _ => (yields_self _).bind fun _ =>
      (popMany_yields _ _ _).bind fun _ => yields_self _) h
  | discard => exact Yields.onStack ((pop_yields _ _).map _) h
  | _ => rfl

def Follows (σ : Type) [Frame σ] (m : Machine) (types : List ValueType) (a b : List Op) : Prop :=
  ∀ (place place' : Nat) (stack : List Value) (frame : σ) (v : Option Value),
    (m.runFrom a place 0 stack frame).result = .ok v →
      (m.retyped types).runFrom b place' 0 stack frame = m.runFrom a place 0 stack frame

def Landing (code : List Op) : Prop :=
  ∀ place op, code[place]? = some op → ∀ skip ∈ op.skips, place + 1 + skip ≤ code.length

variable {a b code : List Op} {op op' : Op}

theorem Landing.tail (h : Landing (op :: code)) : Landing code := by
  intro place op' hop skip hskip
  have hlands := h (place + 1) op' hop skip hskip
  rw [List.length_cons] at hlands
  omega

theorem Landing.head (h : Landing (op :: code)) {skip : Nat} (hskip : skip ∈ op.skips) : skip ≤ code.length := by
  have hlands := h 0 op rfl skip hskip
  rw [List.length_cons] at hlands
  omega

theorem landing_singleton (h : ∀ skip ∈ op.skips, skip = 0) : Landing [op] := by
  intro place op' hop skip hskip
  obtain ⟨hlt, rfl⟩ := List.getElem?_eq_some_iff.1 hop
  obtain rfl : place = 0 := Nat.lt_one_iff.1 hlt
  rw [h skip hskip]
  exact hlt

theorem runFrom_fine {v : Option Value} (h : (m.runFrom (op :: a) place 0 stack frame).result = .ok v) :
    (op.step m place stack frame).Fine := by
  simp only [Machine.runFrom] at h
  cases hstep : op.step m place stack frame with
  | go skip stack frame => exact trivial
  | stop outcome =>
    rw [hstep] at h
    exact ⟨v, h⟩

theorem follows_nil : Follows σ m types [] [] :=
  fun _ _ _ _ _ _ => rfl

theorem Follows.same (h : Follows σ m types a b) (hfree : ∀ op ∈ code, op.Untyped) (hlands : Landing code)
    {skip : Nat} (hskip : skip ≤ code.length) {v : Option Value}
    (hv : (m.runFrom (code ++ a) place skip stack frame).result = .ok v) :
    (m.retyped types).runFrom (code ++ b) place' skip stack frame = m.runFrom (code ++ a) place skip stack frame := by
  induction code generalizing place place' skip stack frame with
  | nil =>
    obtain rfl : skip = 0 := Nat.le_zero.1 hskip
    exact h place place' stack frame v hv
  | cons op code ih =>
    obtain ⟨hop, hfree⟩ := List.forall_mem_cons.1 hfree
    cases skip with
    | succ skip => exact ih hfree hlands.tail (Nat.le_of_succ_le_succ hskip) hv
    | zero =>
      have hstep : op.step (m.retyped types) place' stack frame = op.step m place stack frame :=
        step_fine hop (runFrom_fine hv)
      simp only [List.cons_append, Machine.runFrom] at hv ⊢
      rw [hstep]
      cases hflow : op.step m place stack frame with
      | stop outcome => rfl
      | go skip stack frame =>
        rw [hflow] at hv
        exact ih hfree hlands.tail (hlands.head (step_go hflow).1) hv

theorem Follows.step (h : Follows σ m types a b) (hskips : op.skips = [0])
    (hstep : ∀ (place place' : Nat) (stack : List Value) (frame : σ), (op.step m place stack frame).Fine →
      op'.step (m.retyped types) place' stack frame = op.step m place stack frame) :
    Follows σ m types (op :: a) (op' :: b) := by
  intro place place' stack frame v hv
  have hsame := hstep place place' stack frame (runFrom_fine hv)
  simp only [Machine.runFrom, hsame] at hv ⊢
  cases hflow : op.step m place stack frame with
  | stop outcome => rfl
  | go skip stack frame =>
    obtain rfl : skip = 0 := by simpa [hskips] using (step_go hflow).1
    rw [hflow] at hv
    exact h _ _ stack frame v hv

theorem Follows.check (h : Follows σ m types a b) {i : UInt16} {type : ValueType}
    (index : m.tables.types[i.toNat]? = some type) (kept : type ≠ .float) :
    Follows σ m types (.checkType i :: a) b := by
  intro place place' stack frame v hv
  cases stack with
  | nil =>
    simp only [Machine.runFrom, Op.step, entry_of_getElem? index, pop] at hv
    cases hv
  | cons w stack =>
    cases haccepts : type.accepts w with
    | true =>
      have hfits : fitted .assignment type w = .ok w := by rw [fitted, if_pos haccepts, type.coerce_eq kept]
      simp only [Machine.runFrom, Op.step, entry_of_getElem? index, pop, ok_bind, hfits] at hv ⊢
      exact h _ _ _ frame v hv
    | false =>
      have hfails : fitted .assignment type w = .error _ := if_neg (by simp [haccepts])
      simp only [Machine.runFrom, Op.step, entry_of_getElem? index, pop, ok_bind, hfails] at hv
      cases hv

theorem Follows.jumpIfFalse {first first' : List Op} (hyes : Follows σ m types (first ++ a) (first' ++ b))
    {rest rest' skipped skipped' : List Op} (hno : Follows σ m types rest rest') (hcode : first ++ a = skipped ++ rest)
    (hcode' : first' ++ b = skipped' ++ rest') {k k' : UInt16} (jump : k.toNat = skipped.length)
    (jump' : k'.toNat = skipped'.length) :
    Follows σ m types (.jumpIfFalse k :: (first ++ a)) (.jumpIfFalse k' :: (first' ++ b)) := by
  intro place place' stack frame v hv
  cases stack with
  | nil => cases hv
  | cons w stack =>
    rw [Machine.runFrom_jumpIfFalse] at hv ⊢
    rw [Machine.runFrom_jumpIfFalse]
    cases hw : w.condition with
    | error e => rfl
    | ok c =>
      rw [hw] at hv
      cases c with
      | true => exact hyes _ _ stack frame v hv
      | false =>
        simp only [Bool.false_eq_true, if_false] at hv ⊢
        rw [Machine.runFrom_over skipped rest hcode jump] at hv ⊢
        rw [Machine.runFrom_over skipped' rest' hcode' jump']
        exact hno _ _ stack frame v hv

theorem Follows.jump (h : Follows σ m types a b) {skipped skipped' : List Op} {k k' : UInt16}
    (jump : k.toNat = skipped.length) (jump' : k'.toNat = skipped'.length) :
    Follows σ m types (.jump k :: (skipped ++ a)) (.jump k' :: (skipped' ++ b)) := by
  intro place place' stack frame v hv
  rw [Machine.runFrom_jump, Machine.runFrom_over skipped a rfl jump] at hv
  rw [Machine.runFrom_jump, Machine.runFrom_jump, Machine.runFrom_over skipped a rfl jump,
    Machine.runFrom_over skipped' b rfl jump']
  exact h _ _ stack frame v hv

/-- The second piece of code is the first one without its checks. Each piece looks up its types in a table of its
own. -/
inductive Eased (types types' : List ValueType) : List Op → List Op → Prop
  | same {code : List Op} (free : ∀ op ∈ code, op.Untyped) (lands : Landing code) : Eased types types' code code
  | check {i : UInt16} {type : ValueType} (index : types[i.toNat]? = some type) (kept : type ≠ .float) :
    Eased types types' [.checkType i] []
  | declare {name i k : UInt16} {type : ValueType} (index : types[i.toNat]? = some type)
    (index' : types'[k.toNat]? = some type) :
    Eased types types' [.declare name (some i)] [.declare name (some k)]
  | append {first first' second second' : List Op} (one : Eased types types' first first')
    (two : Eased types types' second second') : Eased types types' (first ++ second) (first' ++ second')
  | branch {first first' : List Op} {toEnd toEnd' : UInt16} (one : Eased types types' first first')
    (jump : toEnd.toNat = first.length) (jump' : toEnd'.toNat = first'.length) :
    Eased types types' (.jumpIfFalse toEnd :: first) (.jumpIfFalse toEnd' :: first')
  | choice {first first' second second' : List Op} {toNo toNo' toEnd toEnd' : UInt16}
    (one : Eased types types' first first') (two : Eased types types' second second')
    (skip : toNo.toNat = first.length + 1) (skip' : toNo'.toNat = first'.length + 1)
    (jump : toEnd.toNat = second.length) (jump' : toEnd'.toNat = second'.length) :
    Eased types types' (.jumpIfFalse toNo :: first ++ .jump toEnd :: second)
      (.jumpIfFalse toNo' :: first' ++ .jump toEnd' :: second')

theorem Eased.follows {code code' : List Op} (he : Eased m.tables.types types code code')
    (h : Follows σ m types a b) : Follows σ m types (code ++ a) (code' ++ b) := by
  induction he generalizing a b with
  | same free lands => exact fun place place' stack frame v hv => h.same free lands (Nat.zero_le _) hv
  | check index kept => exact h.check index kept
  | @declare name i k type index index' =>
    exact h.step rfl fun place place' stack frame => declare_fine (declaration_yields_typed index index' name)
  | append one two ihone ihtwo =>
    rw [List.append_assoc, List.append_assoc]
    exact ihone (ihtwo h)
  | branch one jump jump' ih => exact (ih h).jumpIfFalse h rfl rfl jump jump'
  | @choice first first' second second' toNo toNo' toEnd toEnd' one two skip skip' jump jump' ihone ihtwo =>
    have hyes := ihone (h.jump jump jump')
    simp only [List.append_assoc, List.cons_append]
    have hcode : first ++ .jump toEnd :: (second ++ a) = (first ++ [.jump toEnd]) ++ (second ++ a) := by simp
    have hcode' : first' ++ .jump toEnd' :: (second' ++ b) = (first' ++ [.jump toEnd']) ++ (second' ++ b) := by simp
    exact hyes.jumpIfFalse (ihtwo h) hcode hcode' (by simpa using skip) (by simpa using skip')

end Script

end FactFold
