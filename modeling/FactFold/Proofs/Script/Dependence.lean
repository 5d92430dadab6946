import FactFold.Proofs.Equality
import FactFold.Proofs.Script.Bare
import FactFold.Proofs.Script.Correctness

namespace FactFold.Script

mutual

def Expr.Within (names functions : String → Prop) : Expr → Prop
  | .literal _ _ => True
  | .name n _ => names n
  | .field object _ _ => object.Within names functions
  | .call function args _ => functions function ∧ ArgsWithin names functions args
  | .unary _ operand _ => operand.Within names functions
  | .binary _ left right _ => left.Within names functions ∧ right.Within names functions
  | .conditional condition yes no _ =>
    condition.Within names functions ∧ yes.Within names functions ∧ no.Within names functions
termination_by structural e => e

def ArgsWithin (names functions : String → Prop) : List Expr → Prop
  | [] => True
  | e :: rest => e.Within names functions ∧ ArgsWithin names functions rest
termination_by structural es => es

end

section

variable {names names' functions functions' : String → Prop}

mutual

theorem Expr.Within.mono {e : Expr} (h : e.Within names functions) (hn : ∀ n, names n → names' n)
    (hf : ∀ f, functions f → functions' f) : e.Within names' functions' := by
  cases e with
  | literal l span => trivial
  | name n span => exact hn n h
  | field object name span => exact Expr.Within.mono (e := object) h hn hf
  | call function args span => exact ⟨hf function h.1, h.2.mono hn hf⟩
  | unary op operand span => exact Expr.Within.mono (e := operand) h hn hf
  | binary op left right span => exact ⟨h.1.mono hn hf, h.2.mono hn hf⟩
  | conditional condition yes no span => exact ⟨h.1.mono hn hf, h.2.1.mono hn hf, h.2.2.mono hn hf⟩
termination_by structural e

theorem ArgsWithin.mono {es : List Expr} (h : ArgsWithin names functions es) (hn : ∀ n, names n → names' n)
    (hf : ∀ f, functions f → functions' f) : ArgsWithin names' functions' es := by
  cases es with
  | nil => trivial
  | cons e rest => exact ⟨h.1.mono hn hf, h.2.mono hn hf⟩
termination_by structural es

end

mutual

theorem Expr.Within.and {e : Expr} (h : e.Within names functions) (h' : e.Within names' functions') :
    e.Within (fun n => names n ∧ names' n) fun f => functions f ∧ functions' f := by
  cases e with
  | literal l span => trivial
  | name n span => exact ⟨h, h'⟩
  | field object name span => exact Expr.Within.and (e := object) h h'
  | call function args span => exact ⟨⟨h.1, h'.1⟩, h.2.and h'.2⟩
  | unary op operand span => exact Expr.Within.and (e := operand) h h'
  | binary op left right span => exact ⟨h.1.and h'.1, h.2.and h'.2⟩
  | conditional condition yes no span => exact ⟨h.1.and h'.1, h.2.1.and h'.2.1, h.2.2.and h'.2.2⟩
termination_by structural e

theorem ArgsWithin.and {es : List Expr} (h : ArgsWithin names functions es)
    (h' : ArgsWithin names' functions' es) :
    ArgsWithin (fun n => names n ∧ names' n) (fun f => functions f ∧ functions' f) es := by
  cases es with
  | nil => trivial
  | cons e rest => exact ⟨h.1.and h'.1, h.2.and h'.2⟩
termination_by structural es

end

end

theorem Expr.Within.root {names functions : String → Prop} {e : Expr} {root : String}
    (h : e.Within names functions) (hr : e.root? = some root) : names root := by
  cases e with
  | name n span => exact Option.some.inj hr ▸ h
  | field object name span => exact Expr.Within.root (e := object) h hr
  | _ => cases hr
termination_by structural e

namespace Compiler

variable {c c' : Compiler} {names functions : String → Prop} {declared : List String}

theorem pathConstant?_bare (e : Expr) : c.pathConstant? declared e.bare = c.pathConstant? declared e := by
  rw [pathConstant?, e.root?_bare, e.path?_bare, pathConstant?]

section

variable {σ : Type} [Frame σ] {read : Value → Value} {frame : σ}

mutual

theorem eval_bare (e : Expr) : c.eval read declared frame e.bare = c.eval read declared frame e := by
  cases e with
  | literal l span => rfl
  | name n span => rfl
  | field object name span =>
    have hp : c.pathConstant? declared (.field object.bare name ⟨0, 0⟩) =
        c.pathConstant? declared (.field object name span) := pathConstant?_bare (.field object name span)
    simp only [Expr.bare, eval, hp, eval_bare object]
  | call function args span => simp only [Expr.bare, eval, evalAll_bare args]
  | unary op operand span => simp only [Expr.bare, eval, eval_bare operand]
  | binary op left right span =>
    cases op <;> simp only [Expr.bare, eval, eval_bare left, eval_bare right]
  | conditional condition yes no span =>
    simp only [Expr.bare, eval, eval_bare condition, eval_bare yes, eval_bare no]
termination_by structural e

theorem evalAll_bare (es : List Expr) :
    c.evalAll read declared frame (bareArgs es) = c.evalAll read declared frame es := by
  cases es with
  | nil => rfl
  | cons e rest => simp only [bareArgs, evalAll, eval_bare e, evalAll_bare rest]
termination_by structural es

end

end

mutual

theorem exprLiterals_bare (e : Expr) : c.exprLiterals declared e.bare = c.exprLiterals declared e := by
  cases e with
  | literal l span => rfl
  | name n span => rfl
  | field object name span =>
    have hp : c.pathConstant? declared (.field object.bare name ⟨0, 0⟩) =
        c.pathConstant? declared (.field object name span) := pathConstant?_bare (.field object name span)
    simp only [Expr.bare, exprLiterals, hp, exprLiterals_bare object]
  | call function args span => simp only [Expr.bare, exprLiterals, argLiterals_bare args]
  | unary op operand span => simp only [Expr.bare, exprLiterals, exprLiterals_bare operand]
  | binary op left right span =>
    cases op <;> simp only [Expr.bare, exprLiterals, exprLiterals_bare left, exprLiterals_bare right]
  | conditional condition yes no span =>
    simp only [Expr.bare, exprLiterals, exprLiterals_bare condition, exprLiterals_bare yes, exprLiterals_bare no]
termination_by structural e

theorem argLiterals_bare (es : List Expr) :
    c.argLiterals declared (bareArgs es) = c.argLiterals declared es := by
  cases es with
  | nil => rfl
  | cons e rest => simp only [bareArgs, argLiterals, exprLiterals_bare e, argLiterals_bare rest]
termination_by structural es

end

/-- A name means the same to both compilers: the same input, or no input of either, with the same constants
for both. -/
inductive SameName (c c' : Compiler) (name : String) : Prop where
  | input {target : UInt16 × ValueType} (h : c.symbols.input name = some target)
      (h' : c'.symbols.input name = some target)
  | free (h : c.symbols.input name = none) (h' : c'.symbols.input name = none)
      (constants : c.symbols.constant = c'.symbols.constant)

theorem SameName.refl (c : Compiler) (name : String) : SameName c c name := by
  cases h : c.symbols.input name with
  | none => exact .free h h rfl
  | some target => exact .input h h

theorem SameName.nameLiterals {name : String} (h : SameName c c' name) :
    c.nameLiterals declared name = c'.nameLiterals declared name := by
  cases h with
  | input h h' => simp only [Compiler.nameLiterals, h, h']
  | free h h' constants => simp only [Compiler.nameLiterals, h, h', constants]

theorem pathConstant?_congr {e : Expr} (hn : ∀ n, names n → SameName c c' n) (h : e.Within names functions) :
    c.pathConstant? declared e = c'.pathConstant? declared e := by
  unfold pathConstant?
  cases hr : e.root? with
  | none => rfl
  | some root =>
    cases e.path? with
    | none => rfl
    | some path =>
      cases hn root (h.root hr) with
      | input h h' => simp [h, h']
      | free h h' constants => simp only [h, h', constants]

mutual

theorem exprLiterals_congr {e : Expr} (hn : ∀ n, names n → SameName c c' n) (h : e.Within names functions) :
    c.exprLiterals declared e = c'.exprLiterals declared e := by
  cases e with
  | literal l span => rfl
  | name n span => exact (hn n h).nameLiterals
  | field object name span =>
    have hp : c.pathConstant? declared (.field object name span) =
        c'.pathConstant? declared (.field object name span) := pathConstant?_congr hn h
    simp only [exprLiterals, hp, exprLiterals_congr (e := object) hn h]
  | call function args span => exact argLiterals_congr hn h.2
  | unary op operand span => exact exprLiterals_congr (e := operand) hn h
  | binary op left right span =>
    have hl := exprLiterals_congr hn h.1
    have hr := exprLiterals_congr hn h.2
    cases op <;> simp only [exprLiterals, hl, hr]
  | conditional condition yes no span =>
    simp only [exprLiterals, exprLiterals_congr hn h.1, exprLiterals_congr hn h.2.1, exprLiterals_congr hn h.2.2]
termination_by structural e

theorem argLiterals_congr {es : List Expr} (hn : ∀ n, names n → SameName c c' n)
    (h : ArgsWithin names functions es) : c.argLiterals declared es = c'.argLiterals declared es := by
  cases es with
  | nil => rfl
  | cons e rest => simp only [argLiterals, exprLiterals_congr hn h.1, argLiterals_congr hn h.2]
termination_by structural es

end

def ProperName (c : Compiler) (name : String) : Prop :=
  (c.symbols.input name).isSome = true ∨ ∀ path v, c.symbols.constant path = some v → v.Proper

theorem ProperName.nameLiterals {name : String} (h : c.ProperName name) :
    ∀ v ∈ c.nameLiterals declared name, v.Proper := by
  intro v hv
  unfold Compiler.nameLiterals at hv
  split at hv
  · cases hv
  · next hnone =>
    split at hv
    · cases hv
    · have hconstants := h.resolve_left (by simp [hnone])
      exact hconstants name v (Option.mem_toList.1 hv)

theorem pathConstant?_proper {e : Expr} (hn : ∀ n, names n → c.ProperName n) (h : e.Within names functions)
    {v : Value} (hv : c.pathConstant? declared e = some v) : v.Proper := by
  unfold pathConstant? at hv
  cases hr : e.root? with
  | none => simp [hr] at hv
  | some root =>
    cases hp : e.path? with
    | none => simp [hr, hp] at hv
    | some path =>
      simp only [hr, hp] at hv
      split at hv
      · cases hv
      · next hroot =>
        have hconstants := (hn root (h.root hr)).resolve_left fun hi => hroot (.inl hi)
        exact hconstants path v hv

mutual

theorem exprLiterals_proper {e : Expr} (hn : ∀ n, names n → c.ProperName n) (h : e.Within names functions) :
    ∀ v ∈ c.exprLiterals declared e, v.Proper := by
  intro v hv
  cases e with
  | literal l span =>
    rw [List.mem_singleton.1 hv]
    cases l <;> trivial
  | name n span => exact (hn n h).nameLiterals v hv
  | field object name span =>
    simp only [exprLiterals] at hv
    split at hv
    · next w hw =>
      rw [List.mem_singleton.1 hv]
      exact pathConstant?_proper (e := .field object name span) hn h hw
    · exact exprLiterals_proper (e := object) hn h v hv
  | call function args span => exact argLiterals_proper hn h.2 v hv
  | unary op operand span => exact exprLiterals_proper (e := operand) hn h v hv
  | binary op left right span =>
    have hl := exprLiterals_proper hn h.1 v
    have hr := exprLiterals_proper hn h.2 v
    have hb (b : Bool) (hb : v = .bool b) : v.Proper := hb ▸ trivial
    cases op with
    | strict op => exact (List.mem_append.1 hv).elim hl hr
    | and =>
      simp only [exprLiterals, List.mem_append, List.mem_cons, List.not_mem_nil, or_false] at hv
      rcases hv with (hv | hv) | hv | hv
      · exact hl hv
      · exact hr hv
      · exact hb _ hv
      · exact hb _ hv
    | or =>
      simp only [exprLiterals, List.mem_append, List.mem_cons, List.not_mem_nil, or_false] at hv
      rcases hv with ((hv | hv) | hv) | hv | hv
      · exact hl hv
      · exact hb _ hv
      · exact hr hv
      · exact hb _ hv
      · exact hb _ hv
  | conditional condition yes no span =>
    rcases List.mem_append.1 hv with hv | hv
    · exact (List.mem_append.1 hv).elim (exprLiterals_proper hn h.1 v) (exprLiterals_proper hn h.2.1 v)
    · exact exprLiterals_proper hn h.2.2 v hv
termination_by structural e

theorem argLiterals_proper {es : List Expr} (hn : ∀ n, names n → c.ProperName n)
    (h : ArgsWithin names functions es) : ∀ v ∈ c.argLiterals declared es, v.Proper := by
  intro v hv
  cases es with
  | nil => cases hv
  | cons e rest =>
    exact (List.mem_append.1 hv).elim (exprLiterals_proper hn h.1 v) (argLiterals_proper hn h.2 v)
termination_by structural es

end

section

variable {σ : Type} [Frame σ] {read read' : Value → Value} {frame frame' : σ}

def SameLoad (c : Compiler) (frame frame' : σ) (name : String) : Prop :=
  match c.symbols.input name with
  | some (slot, _) => Frame.loadSlot frame slot = Frame.loadSlot frame' slot
  | none => Frame.loadName frame name = Frame.loadName frame' name

theorem SameName.nameValue {name : String} (h : SameName c c' name) (hl : c.SameLoad frame frame' name)
    (hr : ∀ v ∈ c.nameLiterals declared name, read v = read' v) :
    c.nameValue read declared frame name = c'.nameValue read' declared frame' name := by
  unfold SameLoad at hl
  cases h with
  | @input target h h' =>
    rw [h] at hl
    simp only [Compiler.nameValue, h, h', hl]
  | free h h' constants =>
    rw [h] at hl
    simp only [Compiler.nameLiterals, h] at hr
    simp only [Compiler.nameValue, h, h', hl, ← constants]
    split
    · rfl
    · next hd =>
      cases hc : c.symbols.constant name with
      | none => rfl
      | some v =>
        rw [if_neg hd, hc] at hr
        exact congrArg Except.ok (hr v (List.mem_singleton_self _))

mutual

theorem eval_congr {e : Expr} (hn : ∀ n, names n → SameName c c' n ∧ c.SameLoad frame frame' n)
    (hf : ∀ f, functions f → c.symbols.function f = c'.symbols.function f) (h : e.Within names functions)
    (hr : ∀ v ∈ c.exprLiterals declared e, read v = read' v) :
    c.eval read declared frame e = c'.eval read' declared frame' e := by
  cases e with
  | literal l span => exact congrArg Except.ok (hr l.value (List.mem_singleton_self _))
  | name n span => exact (hn n h).1.nameValue (hn n h).2 hr
  | field object name span =>
    have hp : c.pathConstant? declared (.field object name span) =
        c'.pathConstant? declared (.field object name span) := pathConstant?_congr (fun n hn' => (hn n hn').1) h
    simp only [exprLiterals] at hr
    simp only [eval, ← hp]
    split
    · next v hv =>
      rw [hv] at hr
      exact congrArg Except.ok (hr v (List.mem_singleton_self _))
    · next hv =>
      rw [hv] at hr
      rw [eval_congr (e := object) hn hf h hr]
  | call function args span =>
    simp only [eval, apply, hf function h.1, evalAll_congr hn hf h.2 hr]
  | unary op operand span => simp only [eval, eval_congr (e := operand) hn hf h hr]
  | binary op left right span =>
    cases op with
    | strict op =>
      simp only [exprLiterals, List.mem_append] at hr
      simp only [eval, eval_congr hn hf h.1 fun v hv => hr v (.inl hv),
        eval_congr hn hf h.2 fun v hv => hr v (.inr hv)]
    | and =>
      simp only [exprLiterals, List.append_assoc, List.mem_append] at hr
      simp only [eval, eval_congr hn hf h.1 fun v hv => hr v (.inl hv),
        eval_congr hn hf h.2 fun v hv => hr v (.inr (.inl hv))]
    | or =>
      simp only [exprLiterals, List.append_assoc, List.mem_append] at hr
      simp only [eval, eval_congr hn hf h.1 fun v hv => hr v (.inl hv),
        eval_congr hn hf h.2 fun v hv => hr v (.inr (.inr (.inl hv)))]
  | conditional condition yes no span =>
    simp only [exprLiterals, List.append_assoc, List.mem_append] at hr
    simp only [eval, eval_congr hn hf h.1 fun v hv => hr v (.inl hv),
      eval_congr hn hf h.2.1 fun v hv => hr v (.inr (.inl hv)),
      eval_congr hn hf h.2.2 fun v hv => hr v (.inr (.inr hv))]
termination_by structural e

theorem evalAll_congr {es : List Expr} (hn : ∀ n, names n → SameName c c' n ∧ c.SameLoad frame frame' n)
    (hf : ∀ f, functions f → c.symbols.function f = c'.symbols.function f) (h : ArgsWithin names functions es)
    (hr : ∀ v ∈ c.argLiterals declared es, read v = read' v) :
    c.evalAll read declared frame es = c'.evalAll read' declared frame' es := by
  cases es with
  | nil => rfl
  | cons e rest =>
    simp only [argLiterals, List.mem_append] at hr
    simp only [evalAll, eval_congr hn hf h.1 fun v hv => hr v (.inl hv),
      evalAll_congr hn hf h.2 fun v hv => hr v (.inr hv)]
termination_by structural es

end

end

end Compiler

def tableValue (table : List Value) (v : Value) : Value :=
  (table.find? (· == v)).getD v

def Regular (values : List Value) : Prop :=
  ∀ v ∈ values, ∀ w ∈ values, (v == w) = true → (w == w) = true

theorem regular_of_proper {values : List Value} (h : ∀ v ∈ values, v.Proper) : Regular values :=
  fun v hv w hw hvw => (h v hv).same_self (h w hw) hvw

theorem Regular.reads {literals : List Value} (h : Regular literals) {t : Tables}
    (ht : t.literals = literals.foldl interned []) {v : Value} (hv : v ∈ literals) :
    t.Reads (tableValue t.literals) v := by
  intro i hi
  rcases hi with hi | ⟨hself, hi⟩
  · obtain ⟨hlt, -⟩ := List.findIdx?_eq_some_iff_getElem.1 hi
    simp [tableValue, List.find?_eq_bind_findIdx?_getElem?, hi, List.getElem?_eq_getElem hlt]
  · -- what is not equal to itself is found under its index only
    have hnone : t.literals.find? (· == v) = none := by
      rw [List.find?_eq_none]
      intro w hmem hw
      rw [ht] at hmem
      have hmem : w ∈ literals := (mem_foldl_interned hmem).resolve_left (by simp)
      rw [h w hmem v hv hw] at hself
      cases hself
    rw [hi, tableValue, hnone]
    rfl

theorem Faithful.tableValue {literals : List Value} (h : Faithful literals) {v : Value} (hv : v ∈ literals) :
    tableValue (literals.foldl interned []) v = v := by
  unfold Script.tableValue
  cases hw : (literals.foldl interned []).find? (· == v) with
  | none => rfl
  | some w =>
    have hmem : w ∈ literals := (mem_foldl_interned (List.mem_of_find?_eq_some hw)).resolve_left (by simp)
    exact h w hmem v hv (List.find?_some (p := (· == v)) hw)

end FactFold.Script
