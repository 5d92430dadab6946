import FactFold.Proofs.Held
import FactFold.Proofs.Script.Correctness
import FactFold.Proofs.Script.DefiniteAssignment
import FactFold.Proofs.Script.Operators

namespace FactFold.Script

section

variable (c : Compiler)

def Covered (sure : Option (List String)) (k : Context) : Prop :=
  ∃ names, sure = some names ∧ ∀ n ∈ names, c.symbols.input n = none → k.Holds n

def Misses (exposed : List String) (k : Context) (name : String) : Prop :=
  name ∈ exposed ∧ k.resolve name = .error (.unresolved name)

def Finds {α : Type} (sure : Option (List String)) (exposed : List String) (x : Context → Except RunError α) :
    Prop :=
  ∀ k n, Covered c sure k → x k = .error (.unresolved n) → Misses exposed k n

/-- What is performed leaves a context that holds what is surely written, and fails to find names exposed
only. -/
structure Keeps (sure sure' : Option (List String)) (exposed : List String)
    (f : Context → Except (Outcome Context) Context) : Prop where
  ok : ∀ k k', Covered c sure k → f k = .ok k' → Covered c sure' k'
  error : ∀ k o n, Covered c sure k → f k = .error o → o.result = .error (.unresolved n) →
    Misses exposed o.frame n

end

variable {c : Compiler} {sure sure' sure'' : Option (List String)} {exposed exposed' : List String}
  {α β : Type}

theorem Misses.mono {k : Context} {n : String} (h : Misses exposed k n) (hsub : exposed ⊆ exposed') :
    Misses exposed' k n :=
  ⟨hsub h.1, h.2⟩

theorem Finds.mono {x : Context → Except RunError α} (h : Finds c sure exposed x) (hsub : exposed ⊆ exposed') :
    Finds c sure exposed' x :=
  fun k n hk hx => (h k n hk hx).mono hsub

theorem Finds.const {a : Context → Except RunError α} (h : ∀ k n, a k ≠ .error (.unresolved n)) :
    Finds c sure exposed a :=
  fun k n _ ha => (h k n ha).elim

theorem Finds.operands {a : Context → Except RunError α} (h : ∀ k e, a k = .error e → e.ofOperands = true) :
    Finds c sure exposed a := by
  apply Finds.const
  intro k n ha
  cases h k _ ha

theorem Finds.ok (a : α) : Finds c sure exposed fun _ => .ok a :=
  .const nofun

theorem Finds.bind {x : Context → Except RunError α} {f : Context → α → Except RunError β}
    (hx : Finds c sure exposed x) (hf : ∀ a, Finds c sure exposed fun k => f k a) :
    Finds c sure exposed fun k => x k >>= f k := by
  intro k n hk h
  dsimp only at h
  cases hv : x k with
  | error e =>
    rw [hv] at h
    cases h
    exact hx k n hk hv
  | ok a =>
    rw [hv] at h
    exact hf a k n hk h

theorem fieldOf_error {field : String} {v : Value} {e : RunError} (h : Compiler.fieldOf field v = .error e) :
    e.ofOperands = true := by
  unfold Compiler.fieldOf at h
  cases hf : v.field? field with
  | some w => simp [hf] at h
  | none =>
    simp only [hf, Except.error.injEq] at h
    rw [← h]
    rfl

theorem Finds.condition {x : Context → Except RunError Value} (h : Finds c sure exposed x) :
    Finds c sure exposed fun k => x k >>= Value.condition :=
  h.bind fun _ => .operands fun _ _ => condition_error

theorem Finds.choose {x : Context → Except RunError Value} {y z : Context → Except RunError α}
    (hx : Finds c sure exposed x) (hy : Finds c sure exposed y) (hz : Finds c sure exposed z) :
    Finds c sure exposed fun k => (do if ← (← x k).condition then y k else z k) := by
  apply hx.bind
  intro a
  apply Finds.bind (.operands fun _ _ => condition_error)
  intro b
  cases b with
  | true => exact hy
  | false => exact hz

theorem Finds.truth {x : Context → Except RunError Value} (h : Finds c sure exposed x) :
    Finds c sure exposed fun k => do return Value.bool (← (← x k).condition) := by
  apply h.bind
  intro v
  apply Finds.bind (.operands fun _ _ => condition_error)
  exact fun b => .ok _

theorem missed_left (declared : List String) (sure : Option (List String)) (names names' : List String) :
    missed declared sure names ⊆ missed declared sure (names ++ names') := by
  rw [missed_append]
  exact List.subset_append_left _ _

theorem missed_right (declared : List String) (sure : Option (List String)) (names names' : List String) :
    missed declared sure names' ⊆ missed declared sure (names ++ names') := by
  rw [missed_append]
  exact List.subset_append_right _ _

section

variable {m : Machine} {declared : List String} {code : List Op}

theorem finds_name (sure : Option (List String)) {name : String} (hs : c.strict = true)
    (h : NameCode c m.tables declared name code) :
    ∃ x : Context → Except RunError Value, Computes m code 1 x ∧ Finds c sure (missed declared sure [name]) x := by
  cases h with
  | @slot slot type input =>
    refine ⟨fun k => Frame.loadSlot k slot, .of_step fun _ _ _ => rfl, .const ?_⟩
    intro k n h
    change k.readSlot slot = _ at h
    unfold Context.readSlot at h
    split at h <;> cases h
  | constant input fresh constant index =>
    obtain ⟨entry, he, -, -⟩ := index.exists_entry
    exact ⟨fun _ => .ok entry, computes_literal he, .ok entry⟩
  | @frame i input kept known index =>
    refine ⟨fun k => Frame.loadName k name, .of_step ?_, ?_⟩
    · intro place stack frame
      simp only [Op.step, entry_of_getElem? index]
      rfl
    · intro k n hk h
      change k.resolve name = _ at h
      obtain ⟨he, hnot⟩ := Context.resolve_eq_error h
      obtain rfl := RunError.unresolved.inj he
      obtain ⟨names, rfl, hheld⟩ := hk
      have hdeclared := known.resolve_right (by simp [hs])
      have hmissed : n ∉ names := fun hn => hnot (hheld n hn input)
      exact ⟨by simp [missed, hdeclared, hmissed], h⟩

theorem finds_literal (sure : Option (List String)) {v : Value} {i : UInt16} (h : Denotes m.tables.literals v i) :
    ∃ x : Context → Except RunError Value, Computes m [.literal i] 1 x ∧ Finds c sure exposed x := by
  obtain ⟨entry, he, -, -⟩ := h.exists_entry
  exact ⟨fun _ => .ok entry, computes_literal he, .ok entry⟩

mutual

theorem finds_expr {c : Compiler} {m : Machine} {declared : List String} (sure : Option (List String))
    {e : Expr} {code : List Op} (hs : c.strict = true) (hl : Linked c m.tables.functions m.natives)
    (h : ExprCode c m.tables declared e code) :
    ∃ x : Context → Except RunError Value,
      Computes m code e.depth x ∧ Finds c sure (missed declared sure e.names) x := by
  cases h with
  | literal index => exact finds_literal sure index
  | name load => exact finds_name sure hs load
  | @constantPath object name span v i constant index =>
    obtain ⟨x, hx, hfinds⟩ := finds_literal (c := c) sure index
    exact ⟨x, hx.mono object.depth_pos, hfinds⟩
  | @field object name span code i computed value index =>
    obtain ⟨x, hx, hfinds⟩ := finds_expr sure hs hl value
    exact ⟨_, hx.apply (loadField_step index), hfinds.bind fun _ => .operands fun _ _ => fieldOf_error⟩
  | @call function args span native code i known few values index =>
    obtain ⟨xs, hxs, hlength, hfinds⟩ := finds_args sure hs hl values
    have hcall (place : Nat) (vs stack : List Value) (hvs : vs.length = args.length) :
        m.call i (UInt8.ofNat args.length) place (vs.reverse ++ stack) =
          c.apply function vs >>= fun v => push m.limit v stack := by
      rw [← hvs]
      exact call_eq hl index known (hvs ▸ few) place stack
    refine ⟨_, hxs.call hlength hcall, hfinds.bind fun vs => .const fun k n => ?_⟩
    unfold Compiler.apply
    rw [known]
    cases hv : native vs <;> simp [Except.mapError, hv]
  | unary value =>
    obtain ⟨x, hx, hfinds⟩ := finds_expr sure hs hl value
    exact ⟨_, hx.apply fun _ _ _ _ => rfl, hfinds.bind fun _ => .operands fun _ _ => unary_error⟩
  | @strict op left right span first second one two =>
    obtain ⟨x, hx, hleft⟩ := finds_expr sure hs hl one
    obtain ⟨y, hy, hright⟩ := finds_expr sure hs hl two
    refine ⟨_, hx.strict hy op, (hleft.mono (missed_left ..)).bind fun a => ?_⟩
    exact (hright.mono (missed_right ..)).bind fun b => .operands fun _ _ => strict_error
  | and one two jump yesIndex noIndex =>
    obtain ⟨x, hx, hleft⟩ := finds_expr sure hs hl one
    obtain ⟨y, hy, hright⟩ := finds_expr sure hs hl two
    refine ⟨_, hx.and hy jump yesIndex noIndex, ?_⟩
    exact (hleft.mono (missed_left ..)).choose (hright.mono (missed_right ..)).truth (.ok _)
  | or one two jump yesIndex yesIndex' noIndex =>
    obtain ⟨x, hx, hleft⟩ := finds_expr sure hs hl one
    obtain ⟨y, hy, hright⟩ := finds_expr sure hs hl two
    refine ⟨_, hx.or hy jump yesIndex yesIndex' noIndex, ?_⟩
    exact (hleft.mono (missed_left ..)).choose (.ok _) (hright.mono (missed_right ..)).truth
  | @conditional condition yes no span test first second toNo toEnd value one two jump jump' =>
    obtain ⟨x, hx, htest⟩ := finds_expr sure hs hl value
    obtain ⟨y, hy, hyes⟩ := finds_expr sure hs hl one
    obtain ⟨z, hz, hno⟩ := finds_expr sure hs hl two
    refine ⟨_, hx.conditional hy hz jump jump', ?_⟩
    have hbranches := missed_right declared sure condition.names (yes.names ++ no.names)
    have hyes := (hyes.mono (missed_left ..)).mono hbranches
    have hno := (hno.mono (missed_right ..)).mono hbranches
    exact (htest.mono (missed_left ..)).choose hyes hno
termination_by structural e

theorem finds_args {c : Compiler} {m : Machine} {declared : List String} (sure : Option (List String))
    {es : List Expr} {code : List Op} (hs : c.strict = true) (hl : Linked c m.tables.functions m.natives)
    (h : ArgCode c m.tables declared es code) :
    ∃ xs : Context → Except RunError (List Value), ComputesAll m code (argDepth es) xs ∧
      (∀ k vs, xs k = .ok vs → vs.length = es.length) ∧ Finds c sure (missed declared sure (argNames es)) xs := by
  cases h with
  | nil =>
    refine ⟨_, computesAll_nil, fun k vs h => ?_, .ok []⟩
    cases h
    rfl
  | @cons e rest first others value values =>
    obtain ⟨x, hx, hfirst⟩ := finds_expr sure hs hl value
    obtain ⟨xs, hxs, hlength, hmore⟩ := finds_args sure hs hl values
    refine ⟨_, hx.cons hxs, fun k vs h => ?_, (hfirst.mono (missed_left ..)).bind fun v => ?_⟩
    · obtain ⟨v, hv, h⟩ := bind_eq_ok.1 h
      obtain ⟨vs, hvs, h⟩ := bind_eq_ok.1 h
      cases h
      rw [List.length_cons, List.length_cons, hlength k vs hvs]
    · exact (hmore.mono (missed_right ..)).bind fun vs => .ok _
termination_by structural es

end

theorem finds_initial (sure : Option (List String)) {value : Option Expr} (hs : c.strict = true)
    (hl : Linked c m.tables.functions m.natives) (h : InitialCode c m.tables declared value code) :
    ∃ x : Context → Except RunError Value,
      Computes m code (initialDepth value) x ∧ Finds c sure (missed declared sure (initialNames value)) x := by
  cases h with
  | value value => exact finds_expr sure hs hl value
  | null index => exact finds_literal sure index

end

variable {f g : Context → Except (Outcome Context) Context}

theorem Keeps.mono (h : Keeps c sure sure' exposed f) (hsub : exposed ⊆ exposed') :
    Keeps c sure sure' exposed' f where
  ok := h.ok
  error k o n hk ho hr := (h.error k o n hk ho hr).mono hsub

theorem keeps_ok (c : Compiler) (sure : Option (List String)) (exposed : List String) :
    Keeps c sure sure exposed .ok where
  ok k k' hk h := by
    cases h
    exact hk
  error k o n hk h := by cases h

theorem keeps_end {result : Option Value} : Keeps c sure none exposed fun k => .error ⟨.ok result, k⟩ where
  ok k k' hk h := by cases h
  error k o n hk h hr := by
    cases h
    cases hr

theorem Keeps.bind (hf : Keeps c sure sure' exposed f) (hg : Keeps c sure' sure'' exposed g) :
    Keeps c sure sure'' exposed fun k => f k >>= g where
  ok k k' hk h := by
    obtain ⟨k₁, hf₁, hg₁⟩ := bind_eq_ok.1 h
    exact hg.ok k₁ k' (hf.ok k k₁ hk hf₁) hg₁
  error k o n hk h hr := by
    cases hv : f k with
    | error o' =>
      rw [hv] at h
      cases h
      exact hf.error k o n hk hv hr
    | ok k₁ =>
      rw [hv] at h
      exact hg.error k₁ o n (hf.ok k k₁ hk hv) h hr

theorem Finds.consumed {x : Context → Except RunError α} {f : Context → α → Except (Outcome Context) Context}
    (hx : Finds c sure exposed x) (hf : ∀ a, Keeps c sure sure' exposed fun k => f k a) :
    Keeps c sure sure' exposed fun k => orEnd k (x k) >>= f k where
  ok k k' hk h := by
    cases hv : x k with
    | error e =>
      rw [hv] at h
      cases h
    | ok a =>
      rw [hv] at h
      exact (hf a).ok k k' hk h
  error k o n hk h hr := by
    cases hv : x k with
    | error e =>
      rw [hv] at h
      cases h
      cases hr
      exact hx k n hk hv
    | ok a =>
      rw [hv] at h
      exact (hf a).error k o n hk h hr

theorem Covered.left {k : Context} (h : Covered c sure k) : Covered c (meet sure sure') k := by
  obtain ⟨names, rfl, hk⟩ := h
  cases sure' with
  | none => exact ⟨names, rfl, hk⟩
  | some names' => exact ⟨_, rfl, fun n hn => hk n (List.mem_of_mem_filter hn)⟩

theorem Covered.right {k : Context} (h : Covered c sure' k) : Covered c (meet sure sure') k := by
  obtain ⟨names', rfl, hk⟩ := h
  cases sure with
  | none => exact ⟨names', rfl, hk⟩
  | some names => exact ⟨_, rfl, fun n hn => hk n (by simpa using List.of_mem_filter hn)⟩

theorem Keeps.choose {after after' : Option (List String)} (hf : Keeps c sure after exposed f)
    (hg : Keeps c sure after' exposed g) (b : Bool) :
    Keeps c sure (meet after after') exposed fun k => if b then f k else g k := by
  cases b with
  | true => exact ⟨fun k k' hk h => (hf.ok k k' hk h).left, hf.error⟩
  | false => exact ⟨fun k k' hk h => (hg.ok k k' hk h).right, hg.error⟩

theorem Covered.written {k k' : Context} {name : String} (h : Covered c sure k)
    (hk : ∀ n, c.symbols.input n = none → n = name ∨ k.Holds n → k'.Holds n) :
    Covered c (sure.map (name :: ·)) k' := by
  obtain ⟨names, rfl, hheld⟩ := h
  refine ⟨name :: names, rfl, fun n hn hi => hk n hi ?_⟩
  exact (List.mem_cons.1 hn).imp_right fun hn => hheld n hn hi

theorem keeps_settled {w : Context → Except RunError Context}
    (hok : ∀ k k', Covered c sure k → w k = .ok k' → Covered c sure' k')
    (hne : ∀ k n, w k ≠ .error (.unresolved n)) :
    Keeps c sure sure' exposed fun k => settled (k.after (w k)) where
  ok k k' hk h := by
    cases hw : w k with
    | error e =>
      rw [hw] at h
      cases h
    | ok k₁ =>
      rw [hw] at h
      cases h
      exact hok k k' hk hw
  error k o n hk h hr := by
    cases hw : w k with
    | error e =>
      rw [hw] at h
      cases h
      cases hr
      exact (hne k n hw).elim
    | ok k₁ =>
      rw [hw] at h
      cases h

theorem keeps_write (target : String) (v : Value) :
    Keeps c sure (sure.map (target :: ·)) exposed fun k => c.write k target v := by
  cases hi : c.symbols.input target with
  | some input =>
    obtain ⟨slot, type⟩ := input
    have hstore (v : Value) : Keeps c sure (sure.map (target :: ·)) exposed fun k =>
        settled (k.after (k.writeSlot slot.toNat v)) := by
      apply keeps_settled
      · intro k k' hk h
        apply hk.written
        -- the name of an input is not looked up
        rintro n hn (rfl | hheld)
        · rw [hi] at hn
          cases hn
        · exact Context.holds_writeSlot h hheld
      · exact fun k n => Context.writeSlot_ne_unresolved
    simp only [Compiler.write, hi]
    split
    · exact Finds.consumed (.operands fun _ _ => fitted_error) hstore
    · exact hstore v
  | none =>
    simp only [Compiler.write, hi]
    apply keeps_settled
    · exact fun k k' hk h => hk.written fun n _ => Context.holds_writeName h
    · exact fun k n => Context.writeName_ne_unresolved

theorem keeps_declare {m : Machine} {name : String} {type : Option String} {i : Option UInt16}
    (checked : TypeIndex c m.tables type i) (v : Value) :
    Keeps c sure (sure.map (name :: ·)) exposed fun k => c.declare k name type v := by
  have hdeclare (v : Value) : Keeps c sure (sure.map (name :: ·)) exposed fun k =>
      settled (k.after (k.declare name v)) := by
    apply keeps_settled
    · exact fun k k' hk h => hk.written fun n _ => Context.holds_declare h
    · exact fun k n => Context.declare_ne_unresolved
  cases checked with
  | untyped => exact hdeclare v
  | typed known index =>
    simp only [Compiler.declare, known]
    exact Finds.consumed (.operands fun _ _ => fitted_error) hdeclare

mutual

theorem keeps_stmt {c : Compiler} {m : Machine} {declared : List String} (sure : Option (List String))
    {s : Stmt} {code : List Op} (hs : c.strict = true) (hl : Linked c m.tables.functions m.natives)
    (h : StmtCode c m.tables declared s code) :
    ∃ f : Context → Except (Outcome Context) Context,
      Performs m code s.depth f ∧ Keeps c sure (s.writing sure) (s.exposed declared sure) f := by
  cases h with
  | expr value =>
    obtain ⟨x, hx, hfinds⟩ := finds_expr sure hs hl value
    exact ⟨_, hx.consumed consumes_discard, hfinds.consumed fun _ => keeps_ok c sure _⟩
  | set right store =>
    obtain ⟨x, hx, hfinds⟩ := finds_expr sure hs hl right
    rw [List.append_assoc]
    exact ⟨_, hx.consumed (consumes_writeCode store), hfinds.consumed fun v => keeps_write _ v⟩
  | @update declared target op value span old code write load right store =>
    obtain ⟨x, hx, hold⟩ := finds_name sure hs load
    obtain ⟨y, hy, hright⟩ := finds_expr sure hs hl right
    refine ⟨_, hx.update hy store op span, Finds.consumed ?_ fun v => keeps_write target v⟩
    apply (hold.mono (missed_left declared sure [target] value.names)).bind
    intro a
    apply (hright.mono (missed_right declared sure [target] value.names)).bind
    exact fun b => .operands fun _ _ => strict_error
  | declare right checked index =>
    obtain ⟨x, hx, hfinds⟩ := finds_initial sure hs hl right
    exact ⟨_, hx.consumed (consumes_declare checked index), hfinds.consumed fun v => keeps_declare checked v⟩
  | branch value one jump =>
    obtain ⟨x, hx, hfinds⟩ := finds_expr sure hs hl value
    obtain ⟨f, hf, hyes⟩ := keeps_block sure hs hl one
    refine ⟨_, hx.branch hf jump, (hfinds.mono ?_).condition.consumed fun b => Keeps.choose (hyes.mono ?_) ?_ b⟩
    · exact List.subset_append_left _ _
    · exact List.subset_append_right _ _
    · exact keeps_ok c sure _
  | branchElse value one two jump jump' =>
    obtain ⟨x, hx, hfinds⟩ := finds_expr sure hs hl value
    obtain ⟨f, hf, hyes⟩ := keeps_block sure hs hl one
    obtain ⟨g, hg, hno⟩ := keeps_block sure hs hl two
    refine ⟨_, hx.branchElse hf hg jump jump', ?_⟩
    refine (hfinds.mono ?_).condition.consumed fun b => Keeps.choose (hyes.mono ?_) (hno.mono ?_) b
    · exact List.subset_append_left _ _
    · exact List.subset_append_of_subset_right _ (List.subset_append_left _ _)
    · exact List.subset_append_of_subset_right _ (List.subset_append_right _ _)
  | ret right =>
    obtain ⟨x, hx, hfinds⟩ := finds_expr sure hs hl right
    exact ⟨_, hx.consumed consumes_ret, hfinds.consumed fun _ => keeps_end⟩
  | halt => exact ⟨_, performs_halt, keeps_end⟩
termination_by structural s

theorem keeps_block {c : Compiler} {m : Machine} {declared : List String} (sure : Option (List String))
    {ss : List Stmt} {code : List Op} (hs : c.strict = true) (hl : Linked c m.tables.functions m.natives)
    (h : BlockCode c m.tables declared ss code) :
    ∃ f : Context → Except (Outcome Context) Context,
      Performs m code (blockDepth ss) f ∧ Keeps c sure (writingAll sure ss) (exposedAll declared sure ss) f := by
  cases h with
  | nil => exact ⟨_, performs_nil, keeps_ok c sure _⟩
  | @cons declared s rest first others one more =>
    obtain ⟨f, hf, hfirst⟩ := keeps_stmt sure hs hl one
    obtain ⟨g, hg, hrest⟩ := keeps_block (s.writing sure) hs hl more
    refine ⟨_, hf.append hg, (hfirst.mono ?_).bind (hrest.mono ?_)⟩
    · exact List.subset_append_left _ _
    · exact List.subset_append_right _ _
termination_by structural ss

end

section

variable {m : Machine} {ss : List Stmt} {code : List Op} {p : Program}

theorem keeps_script (hs : c.strict = true) (hl : Linked c m.tables.functions m.natives)
    (h : ScriptCode c m.tables ss code) :
    ∃ sure' f, Performs (σ := Context) m code (blockDepth ss) f ∧ Keeps c (some []) sure' (exposedNames ss) f := by
  cases h with
  | plain last block => exact ⟨_, keeps_block _ hs hl block⟩
  | @valued ss e body value block last =>
    obtain ⟨f, hf, hblock⟩ := keeps_block (some []) hs hl block
    obtain ⟨x, hx, hvalue⟩ := finds_expr (writingAll (some []) ss) hs hl last
    have hexposed : exposedNames (ss ++ [.expr e]) = exposedAll [] (some []) ss ++
        missed (declaringAll [] ss) (writingAll (some []) ss) e.names := by
      simp [exposedNames, exposedAll_append, exposedAll, Stmt.exposed]
    have hreturn : Keeps c (writingAll (some []) ss) none (exposedNames (ss ++ [.expr e])) fun k =>
        orEnd k (x k) >>= fun v => .error ⟨.ok (some v), k⟩ := by
      rw [hexposed]
      exact (hvalue.mono (List.subset_append_right _ _)).consumed fun v => keeps_end
    refine ⟨none, _, ?_, (hblock.mono ?_).bind hreturn⟩
    · rw [List.append_assoc]
      apply (hf.append (hx.consumed consumes_ret)).mono
      rw [blockDepth_append, blockDepth, Stmt.depth, blockDepth, Nat.max_zero]
    · rw [hexposed]
      exact List.subset_append_left _ _

theorem misses_of_run (hs : c.strict = true) (h : c.program ss = .ok p) (limit : Nat) (k : Context) {n : String}
    (hr : (p.run limit k).result = .error (.unresolved n)) :
    Misses (exposedNames ss) (p.run limit k).frame n := by
  obtain ⟨⟨ops, d⟩, hd, rfl⟩ := map_eq_ok.1 h
  have ha := Compiler.script_added hd
  have hdeep (limit : Nat) (hlimit : blockDepth ss ≤ limit)
      (hr : ((Machine.mk d.toTables d.natives limit).runFrom ops 0 0 [] k).result = .error (.unresolved n)) :
      Misses (exposedNames ss) ((Machine.mk d.toTables d.natives limit).runFrom ops 0 0 [] k).frame n := by
    have hcode := ha.holds d.toTables (.refl _)
    obtain ⟨sure', f, hf, hkeeps⟩ :=
      keeps_script (m := ⟨d.toTables, d.natives, limit⟩) hs (ha.linked rfl) hcode
    have hrun := hf [] 0 [] k (by simpa using hlimit)
    rw [List.append_nil] at hrun
    rw [hrun] at hr ⊢
    cases hfk : f k with
    | ok k' =>
      rw [hfk] at hr
      cases hr
    | error o =>
      rw [hfk] at hr
      exact hkeeps.error k o n ⟨[], rfl, nofun⟩ hfk hr
  by_cases hlimit : blockDepth ss ≤ limit
  · exact hdeep limit hlimit hr
  · -- with too little stack a run may overflow, but it fails in no other way than one with enough
    have hle : limit ≤ blockDepth ss := by omega
    rcases runFrom_limit (m := ⟨d.toTables, d.natives, limit⟩) hle ops 0 0 [] k with hm | hm
    · cases hm.symm.trans hr
    · unfold Program.run at hr ⊢
      rw [hm] at hr ⊢
      exact hdeep _ (Nat.le_refl _) hr

end

end FactFold.Script
