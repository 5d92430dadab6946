import FactFold.Proofs.Context

namespace FactFold

open Script

inductive Updates (op : ArithOp) : Entries String Expr → List Stmt → Prop where
  | nil : Updates op [] []
  | cons {x : String} {e e' : Expr} {span : Span} {pairs : Entries String Expr} {ss : List Stmt}
      (same : e'.bare = e.bare) (rest : Updates op pairs ss) :
      Updates op ((x, e) :: pairs) (.assign x (.update op) e' span :: ss)

theorem Updates.getLast? {op : ArithOp} {pairs : Entries String Expr} {ss : List Stmt}
    (hs : Updates op pairs ss) (e : Expr) : ss.getLast? ≠ some (.expr e) := by
  induction hs with
  | nil => simp
  | @cons _ _ _ _ _ ss _ _ ih =>
    cases ss with
    | nil => simp
    | cons s ss => simpa [List.getLast?_cons] using ih

def Exact (op : ArithOp) (f : Int → Int → Int) : Prop :=
  ∀ (a b : Int64) (v : Value), Value.arith op (.int a) (.int b) = .ok v →
    ∃ m, v = .int m ∧ m.toInt = f a.toInt b.toInt

theorem exact_of_int64? {f : Int → Int → Int} {a b : Int64} {e : RunError} {v : Value}
    (h : (match int64? (f a.toInt b.toInt) with
      | some n => Except.ok (Value.int n)
      | none => .error e) = .ok v) : ∃ m, v = .int m ∧ m.toInt = f a.toInt b.toInt := by
  cases hm : int64? (f a.toInt b.toInt) with
  | none => simp [hm] at h
  | some m =>
    rw [hm] at h
    exact ⟨m, (Except.ok.inj h).symm, (int64?_eq_some_iff _ _).1 hm⟩

theorem add_exact : Exact .add (· + ·) :=
  fun _ _ _ h => exact_of_int64? (f := (· + ·)) h

theorem sub_exact : Exact .sub (· - ·) :=
  fun _ _ _ h => exact_of_int64? (f := (· - ·)) h

structure Shifted (names keys : List String) (f : Int → Int → Int) (n : String → Int)
    (vars vars' : List Value) : Prop where
  moved : ∀ x ∈ keys, ∃ m m' : Int64, namedValue? names vars x = some (.int m) ∧
    namedValue? names vars' x = some (.int m') ∧ m'.toInt = f m.toInt (n x)
  kept : ∀ x, x ∉ keys → namedValue? names vars' x = namedValue? names vars x

namespace CompiledUnit

variable {u : CompiledUnit} {r : Registry}

def value (r : Registry) (u : CompiledUnit) (k : Context) (e : Expr) : Except RunError Value :=
  (u.compiler r).eval (tableValue u.program.chunk.literals) [] k e

structure Updatable (u : CompiledUnit) (pairs : Entries String Expr) : Prop where
  distinct : (pairs.map Prod.fst).Nodup
  targets : ∀ x ∈ pairs.map Prod.fst, x ∈ u.plan.others
  unwidened : u.plan.strict = true → ∀ x ∈ pairs.map Prod.fst, u.inputs.get? x ≠ some .float
  within : ∀ pair ∈ pairs, pair.2.Within (· ∉ u.plan.others) fun _ => True

theorem Updatable.tail {pair : String × Expr} {pairs : Entries String Expr}
    (h : u.Updatable (pair :: pairs)) : u.Updatable pairs :=
  ⟨(List.nodup_cons.1 h.distinct).2, fun x hx => h.targets x (List.mem_cons_of_mem _ hx),
    fun hs x hx => h.unwidened hs x (List.mem_cons_of_mem _ hx),
    fun p hp => h.within p (List.mem_cons_of_mem _ hp)⟩

variable {functions : String → Prop} {pairs : Entries String Expr} {k k' : Context} {front : Front}
  {vars vars' : List Value}

theorem Valid.sameLoad (hu : u.Valid) (h : k.Splits u front vars) (h' : k'.Splits u front vars') {name : String}
    (hn : name ∉ u.plan.others) : (u.compiler r).SameLoad k k' name := by
  unfold Compiler.SameLoad
  by_cases hi : name ∈ u.plan.inputs
  · obtain ⟨slot, type, hi, hlt⟩ := hu.input_front (r := r) hi hn
    rw [hi]
    exact h.loadSlot_front h' hlt
  · obtain ⟨hp, hi⟩ := hu.input_none (r := r) hi
    rw [hi]
    exact h.loadName h' hp

theorem Valid.value_front (hu : u.Valid) (h : k.Splits u front vars) (h' : k'.Splits u front vars') {e : Expr}
    (he : e.Within (· ∉ u.plan.others) functions) : u.value r k e = u.value r k' e :=
  Compiler.eval_congr (fun n hn => ⟨.refl _ n, hu.sameLoad h h' hn⟩) (fun _ _ => rfl) he fun _ _ => rfl

theorem Valid.write_int (hu : u.Valid) (h : k.Splits u front vars) {x : String} {i : Nat}
    (hx : u.plan.others.findIdx? (· == x) = some i) (hi : i < vars.length) (m : Int64) :
    (∃ e left, (u.compiler r).write k x (.int m) = .error ⟨.error e, left⟩) ∨
      ∃ v k', (u.compiler r).write k x (.int m) = .ok k' ∧ k'.Splits u front (vars.set i v) ∧
        ((u.plan.strict = true → u.inputs.get? x ≠ some .float) → v = .int m) := by
  obtain ⟨slot, type, ht, hinput, hslot⟩ := hu.input_variable (r := r) hx
  have hstore (v : Value) : ∃ k', settled (Frame.storeSlot k slot v) = .ok k' ∧
      k'.Splits u front (vars.set i v) := by
    obtain ⟨k', hstore, hsplits⟩ := h.storeSlot hslot hi v
    exact ⟨k', by rw [hstore]; rfl, hsplits⟩
  simp only [Compiler.write, hinput]
  by_cases htyped : ((u.compiler r).strict && type.isConstrained) = true
  · rw [if_pos htyped]
    by_cases ha : type.accepts (.int m) = true
    · obtain ⟨k', hk', hsplits⟩ := hstore (type.coerce (.int m))
      refine .inr ⟨_, k', ?_, hsplits, fun hunwidened => ?_⟩
      · simp only [fitted, ha, if_true, orEnd_ok, ok_bind]
        exact hk'
      · have hne : type ≠ .float := by
          rintro rfl
          exact hunwidened (Bool.and_eq_true_iff.1 htyped).1 ht
        cases type <;> first | rfl | exact absurd rfl hne
    · exact .inl ⟨_, k, by simp only [fitted, ha]; rfl⟩
  · rw [if_neg htyped]
    obtain ⟨k', hk', hsplits⟩ := hstore (.int m)
    exact .inr ⟨_, k', hk', hsplits, fun _ => rfl⟩

theorem Valid.exec_update (hu : u.Valid) (h : k.Splits u front vars) {x : String} {i : Nat} {e : Expr}
    {span : Span} {m n : Int64} {op : ArithOp} {f : Int → Int → Int} (hop : Exact op f)
    (hx : u.plan.others.findIdx? (· == x) = some i) (hm : namedValue? u.plan.others vars x = some (.int m))
    (he : u.value r k e = .ok (.int n)) (hf : u.plan.strict = true → u.inputs.get? x ≠ some .float) :
    (∃ e' left, (u.compiler r).exec (tableValue u.program.chunk.literals) [] k (.assign x (.update op) e span) =
        .error ⟨.error e', left⟩) ∨
      ∃ m' k', (u.compiler r).exec (tableValue u.program.chunk.literals) [] k (.assign x (.update op) e span) =
          .ok k' ∧ m'.toInt = f m.toInt n.toInt ∧ k'.Splits u front (vars.set i (.int m')) := by
  obtain ⟨slot, type, -, hi, hslot⟩ := hu.input_variable (r := r) hx
  have hv : vars[i]? = some (.int m) := by simpa [namedValue?, hx] using hm
  obtain ⟨hlt, -⟩ := List.getElem?_eq_some_iff.1 hv
  have hload : (u.compiler r).nameValue (tableValue u.program.chunk.literals) [] k x = .ok (.int m) := by
    simp only [Compiler.nameValue, hi, h.loadSlot_variable hslot hv]
  have he : (u.compiler r).eval (tableValue u.program.chunk.literals) [] k e = .ok (.int n) := he
  simp only [Compiler.exec, hload, he, orEnd_ok, ok_bind]
  cases hw : Value.arith op (.int m) (.int n) with
  | error e' => exact .inl ⟨e', k, rfl⟩
  | ok w =>
    obtain ⟨m', rfl, hm'⟩ := hop m n w hw
    simp only [orEnd_ok, ok_bind]
    rcases hu.write_int h hx hlt m' with ⟨e', left, herror⟩ | ⟨v, k', hok, hsplits, hv'⟩
    · exact .inl ⟨e', left, herror⟩
    · obtain rfl := hv' hf
      exact .inr ⟨m', k', hok, hm', hsplits⟩

theorem Valid.execAll_updates (hu : u.Valid) {op : ArithOp} {f : Int → Int → Int} (hop : Exact op f)
    {ss : List Stmt} (hs : Updates op pairs ss) (hp : u.Updatable pairs)
    (h : k.Splits u front vars) {n : String → Int}
    (hn : ∀ pair ∈ pairs, ∃ m : Int64, u.value r k pair.2 = .ok (.int m) ∧ m.toInt = n pair.1)
    (hv : ∀ x ∈ pairs.map Prod.fst, ∃ m, namedValue? u.plan.others vars x = some (.int m)) :
    (∃ e left, (u.compiler r).execAll (tableValue u.program.chunk.literals) [] k ss = .error ⟨.error e, left⟩) ∨
      ∃ k' vars', (u.compiler r).execAll (tableValue u.program.chunk.literals) [] k ss = .ok k' ∧
        k'.Splits u front vars' ∧ Shifted u.plan.others (pairs.map Prod.fst) f n vars vars' := by
  induction hs generalizing k vars with
  | nil => exact .inr ⟨k, vars, rfl, h, by simp, fun _ _ => rfl⟩
  | @cons x e e' span pairs ss same rest ih =>
    obtain ⟨m, hm⟩ := hv x (List.mem_cons_self ..)
    obtain ⟨i, -, hx⟩ := findIdx?_of_mem (hp.targets x (List.mem_cons_self ..))
    obtain ⟨w, hw, hwn⟩ := hn (x, e) (List.mem_cons_self ..)
    have hw : u.value r k e' = .ok (.int w) := by
      rw [value, ← Compiler.eval_bare, same, Compiler.eval_bare]
      exact hw
    have hfirst : x ∉ pairs.map Prod.fst := (List.nodup_cons.1 hp.distinct).1
    simp only [Compiler.execAll]
    rcases hu.exec_update h hop hx hm hw fun hs => hp.unwidened hs x (List.mem_cons_self ..) with
      ⟨e₁, left, herror⟩ | ⟨m', k₁, hok, hm', h₁⟩
    · exact .inl ⟨e₁, left, by rw [herror]; rfl⟩
    · obtain ⟨hlt, -⟩ : ∃ hlt : i < vars.length, _ := by
        simpa [namedValue?, hx, List.getElem?_eq_some_iff] using hm
      have hother {y : String} (hy : y ≠ x) :
          namedValue? u.plan.others (vars.set i (.int m')) y = namedValue? u.plan.others vars y :=
        namedValue?_set_of_ne hx hy _
      have hkept {y : String} (hy : y ∈ pairs.map Prod.fst) : y ≠ x := fun he => hfirst (he ▸ hy)
      rw [hok, ok_bind]
      -- the rest reads the same front, and its variables are not `x`
      rcases ih hp.tail h₁
          (fun pair hpair => by
            rw [← hu.value_front h h₁ (hp.within pair (List.mem_cons_of_mem _ hpair))]
            exact hn pair (List.mem_cons_of_mem _ hpair))
          (fun y hy => by
            rw [hother (hkept hy)]
            exact hv y (List.mem_cons_of_mem _ hy)) with
        ⟨e₁, left, herror⟩ | ⟨k', vars', hok', h', hshift⟩
      · exact .inl ⟨e₁, left, herror⟩
      · refine .inr ⟨k', vars', hok', h', ?_, ?_⟩
        · intro y hy
          rcases List.mem_cons.1 hy with rfl | hy
          · exact ⟨m, m', hm, (hshift.kept y hfirst).trans (namedValue?_set hx hlt _), by rw [hm', hwn]⟩
          · have := hshift.moved y hy
            rwa [hother (hkept hy)] at this
        · intro y hy
          have hyx : y ≠ x := fun he => hy (he ▸ List.mem_cons_self ..)
          exact (hshift.kept y fun hmem => hy (List.mem_cons_of_mem _ hmem)).trans (hother hyx)

def literals (r : Registry) (u : CompiledUnit) (pairs : Entries String Expr) : List Value :=
  pairs.flatMap fun pair => (u.compiler r).exprLiterals [] pair.2

theorem Valid.literals_updates (hu : u.Valid) {op : ArithOp} {ss : List Stmt} (hs : Updates op pairs ss)
    (hp : u.Updatable pairs) : (u.compiler r).literals [] ss = u.literals r pairs := by
  induction hs with
  | nil => rfl
  | @cons x e e' span pairs ss same rest ih =>
    obtain ⟨i, -, hx⟩ := findIdx?_of_mem (hp.targets x (List.mem_cons_self ..))
    obtain ⟨slot, type, -, hi, -⟩ := hu.input_variable (r := r) hx
    have he : (u.compiler r).exprLiterals [] e' = (u.compiler r).exprLiterals [] e := by
      rw [← Compiler.exprLiterals_bare, same, Compiler.exprLiterals_bare]
    have hname : (u.compiler r).nameLiterals [] x = [] := by simp only [Compiler.nameLiterals, hi]
    simp only [Compiler.literals, Compiler.stmtLiterals, hname, he, List.nil_append]
    exact congrArg _ (ih hp.tail)

structure Updating (r : Registry) (u : CompiledUnit) (names : List String) (op : ArithOp)
    (pairs : Entries String Expr) : Prop where
  valid : u.Valid
  others : u.plan.others = names
  updatable : u.Updatable pairs
  script : ∃ ss, Updates op pairs ss ∧ (u.compiler r).program ss = .ok u.program
  regular : Regular (u.literals r pairs)

variable {names : List String} {op : ArithOp}

theorem Updating.table (hu : u.Updating r names op pairs) :
    u.program.chunk.literals = (u.literals r pairs).foldl interned [] := by
  obtain ⟨ss, hs, hprogram⟩ := hu.script
  rw [Compiler.program_literals hprogram, hu.valid.literals_updates hs hu.updatable]

theorem Updating.run (hu : u.Updating r names op pairs) {f : Int → Int → Int} (hop : Exact op f)
    (h : k.Splits u front vars) {n : String → Int}
    (hn : ∀ pair ∈ pairs, ∃ m : Int64, u.value r k pair.2 = .ok (.int m) ∧ m.toInt = n pair.1)
    (hv : ∀ x ∈ pairs.map Prod.fst, ∃ m, namedValue? names vars x = some (.int m)) {v : Option Value}
    {left : Context} (hrun : u.run k = ⟨.ok v, left⟩) :
    ∃ vars', left.Splits u front vars' ∧ Shifted names (pairs.map Prod.fst) f n vars vars' := by
  obtain ⟨ss, hs, hprogram⟩ := hu.script
  have hreads : ∀ v ∈ (u.compiler r).literals [] ss,
      u.program.chunk.toTables.Reads (tableValue u.program.chunk.literals) v := by
    intro v hv
    rw [hu.valid.literals_updates hs hu.updatable] at hv
    exact hu.regular.reads hu.table hv
  rcases Compiler.run_program hprogram hreads u.maxStackDepth k with ⟨-, hover⟩ | heval
  · have hover : (u.run k).result = .error (.stackOverflow u.maxStackDepth) := hover
    rw [hrun] at hover
    cases hover
  · have heval : u.run k = (u.compiler r).evaluate (tableValue u.program.chunk.literals) [] k ss := heval
    rw [hrun, Compiler.evaluate_eq_execAll _ _ _ hs.getLast?] at heval
    rw [← hu.others] at hv ⊢
    rcases hu.valid.execAll_updates hop hs hu.updatable h hn hv with ⟨e, left', herror⟩ | ⟨k', vars', hok, h', hshift⟩
    · rw [herror] at heval
      cases heval
    · rw [hok] at heval
      cases heval
      exact ⟨vars', h', hshift⟩

end CompiledUnit

end FactFold
