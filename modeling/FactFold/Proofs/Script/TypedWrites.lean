import FactFold.Proofs.Script.Stack.Discipline
import FactFold.Proofs.Script.Unresolved

namespace FactFold

def ValueType.Holds (type : ValueType) (v : Value) : Prop :=
  v = .null ∨ type.accepts v = true ∧ type.coerce v = v

namespace ValueType

variable {type : ValueType} {v : Value}

theorem holds_null (type : ValueType) : type.Holds .null :=
  .inl rfl

theorem holds_any (v : Value) : ValueType.any.Holds v :=
  .inr ⟨rfl, rfl⟩

theorem eq_any_of_free (h : type.isConstrained = false) : type = .any := by
  cases type with
  | any => rfl
  | _ => cases h

theorem holds_coerce (h : type.accepts v = true) : type.Holds (type.coerce v) := by
  refine .inr ?_
  cases type with
  | float =>
    cases v with
    | int n => exact ⟨rfl, rfl⟩
    | float x => exact ⟨rfl, rfl⟩
    | _ => cases h
  | _ => exact ⟨h, rfl⟩

theorem Holds.float (h : ValueType.float.Holds v) : v = .null ∨ ∃ x, v = .float x := by
  rcases h with rfl | ⟨haccepts, hcoerce⟩
  · exact .inl rfl
  · cases v with
    | float x => exact .inr ⟨x, rfl⟩
    | int n => cases hcoerce
    | _ => cases haccepts

end ValueType

namespace Script

theorem fitted_holds {operation : Operation} {type : ValueType} {v w : Value}
    (h : fitted operation type v = .ok w) : type.Holds w := by
  unfold fitted at h
  split at h
  · next haccepts =>
    rw [← Except.ok.inj h]
    exact ValueType.holds_coerce haccepts
  · cases h

structure Guarded (c : Compiler) (P : Context → Prop) : Prop where
  storeSlot : ∀ {k k' name slot type v}, c.symbols.input name = some (slot, type) → type.Holds v → P k →
    k.writeSlot slot.toNat v = .ok k' → P k'
  storeName : ∀ {k k' name v}, c.symbols.input name = none → P k → k.writeName name v = .ok k' → P k'
  declare : ∀ {k k' name v}, P k → k.declare name v = .ok k' → P k'

structure Maintains (P : Context → Prop) (f : Context → Except (Outcome Context) Context) : Prop where
  ok : ∀ k k', P k → f k = .ok k' → P k'
  ended : ∀ k o v, P k → f k = .error o → o.result = .ok v → P o.frame

variable {c : Compiler} {P : Context → Prop} {f g : Context → Except (Outcome Context) Context} {α : Type}

theorem maintains_ok : Maintains P .ok where
  ok k k' hk h := by
    cases h
    exact hk
  ended k o v hk h := by cases h

theorem maintains_end {result : Option Value} : Maintains P fun k => .error ⟨.ok result, k⟩ where
  ok k k' hk h := by cases h
  ended k o v hk h hr := by
    cases h
    exact hk

theorem Maintains.bind (hf : Maintains P f) (hg : Maintains P g) : Maintains P fun k => f k >>= g where
  ok k k' hk h := by
    obtain ⟨k₁, hf₁, hg₁⟩ := bind_eq_ok.1 h
    exact hg.ok k₁ k' (hf.ok k k₁ hk hf₁) hg₁
  ended k o v hk h hr := by
    rcases bind_eq_error.1 h with hf₁ | ⟨k₁, hf₁, hg₁⟩
    · exact hf.ended k o v hk hf₁ hr
    · exact hg.ended k₁ o v (hf.ok k k₁ hk hf₁) hg₁ hr

theorem maintains_computed {x : Context → Except RunError α} {f : Context → α → Except (Outcome Context) Context}
    (hf : ∀ k a, x k = .ok a → Maintains P fun k => f k a) : Maintains P fun k => orEnd k (x k) >>= f k where
  ok k k' hk h := by
    cases hx : x k with
    | error e =>
      rw [hx] at h
      cases h
    | ok a =>
      rw [hx] at h
      exact (hf k a hx).ok k k' hk h
  ended k o v hk h hr := by
    cases hx : x k with
    | error e =>
      rw [hx] at h
      cases h
      cases hr
    | ok a =>
      rw [hx] at h
      exact (hf k a hx).ended k o v hk h hr

theorem Maintains.choose (hf : Maintains P f) (hg : Maintains P g) (b : Bool) :
    Maintains P fun k => if b then f k else g k := by
  cases b with
  | true => exact hf
  | false => exact hg

theorem maintains_settled {w : Context → Except RunError Context} (hw : ∀ k k', P k → w k = .ok k' → P k') :
    Maintains P fun k => settled (k.after (w k)) where
  ok k k' hk h := by
    cases hk' : w k with
    | error e =>
      rw [hk'] at h
      cases h
    | ok k₁ =>
      rw [hk'] at h
      cases h
      exact hw k k' hk hk'
  ended k o v hk h hr := by
    cases hk' : w k with
    | error e =>
      rw [hk'] at h
      cases h
      cases hr
    | ok k₁ =>
      rw [hk'] at h
      cases h

theorem maintains_write (hs : c.strict = true) (hP : Guarded c P) (target : String) (v : Value) :
    Maintains P fun k => c.write k target v := by
  cases hi : c.symbols.input target with
  | some input =>
    obtain ⟨slot, type⟩ := input
    have hstore {w : Value} (hw : type.Holds w) : Maintains P fun k => settled (k.after (k.writeSlot slot.toNat w)) :=
      maintains_settled fun k k' hk h => hP.storeSlot hi hw hk h
    simp only [Compiler.write, hi, hs, Bool.true_and]
    cases htype : type.isConstrained with
    | true => exact maintains_computed fun k w hw => hstore (fitted_holds hw)
    | false =>
      rw [ValueType.eq_any_of_free htype] at hstore
      exact hstore (ValueType.holds_any v)
  | none =>
    simp only [Compiler.write, hi]
    exact maintains_settled fun k k' hk h => hP.storeName hi hk h

theorem maintains_declare {m : Machine} (hP : Guarded c P) {name : String} {type : Option String} {i : Option UInt16}
    (checked : TypeIndex c m.tables type i) (v : Value) : Maintains P fun k => c.declare k name type v := by
  have hdeclare (v : Value) : Maintains P fun k => settled (k.after (k.declare name v)) :=
    maintains_settled fun k k' hk h => hP.declare hk h
  cases checked with
  | untyped => exact hdeclare v
  | typed known index =>
    simp only [Compiler.declare, known]
    exact maintains_computed fun k w hw => hdeclare w

mutual

theorem maintains_stmt {c : Compiler} {P : Context → Prop} {m : Machine} {declared : List String} {s : Stmt}
    {code : List Op} (hs : c.strict = true) (hP : Guarded c P) (hl : Linked c m.tables.functions m.natives)
    (h : StmtCode c m.tables declared s code) :
    ∃ f : Context → Except (Outcome Context) Context, Performs m code s.depth f ∧ Maintains P f := by
  cases h with
  | expr value =>
    obtain ⟨x, hx, -⟩ := finds_expr none hs hl value
    exact ⟨_, hx.consumed consumes_discard, maintains_computed fun k v hv => maintains_ok⟩
  | set right store =>
    obtain ⟨x, hx, -⟩ := finds_expr none hs hl right
    rw [List.append_assoc]
    exact ⟨_, hx.consumed (consumes_writeCode store), maintains_computed fun k v hv => maintains_write hs hP _ v⟩
  | @update declared target op value span old code write load right store =>
    obtain ⟨x, hx, -⟩ := finds_name none hs load
    obtain ⟨y, hy, -⟩ := finds_expr none hs hl right
    exact ⟨_, hx.update hy store op span, maintains_computed fun k v hv => maintains_write hs hP target v⟩
  | declare right checked index =>
    obtain ⟨x, hx, -⟩ := finds_initial none hs hl right
    exact ⟨_, hx.consumed (consumes_declare checked index),
      maintains_computed fun k v hv => maintains_declare hP checked v⟩
  | branch value one jump =>
    obtain ⟨x, hx, -⟩ := finds_expr none hs hl value
    obtain ⟨f, hf, hyes⟩ := maintains_block hs hP hl one
    exact ⟨_, hx.branch hf jump, maintains_computed fun k b hb => hyes.choose maintains_ok b⟩
  | branchElse value one two jump jump' =>
    obtain ⟨x, hx, -⟩ := finds_expr none hs hl value
    obtain ⟨f, hf, hyes⟩ := maintains_block hs hP hl one
    obtain ⟨g, hg, hno⟩ := maintains_block hs hP hl two
    exact ⟨_, hx.branchElse hf hg jump jump', maintains_computed fun k b hb => hyes.choose hno b⟩
  | ret right =>
    obtain ⟨x, hx, -⟩ := finds_expr none hs hl right
    exact ⟨_, hx.consumed consumes_ret, maintains_computed fun k v hv => maintains_end⟩
  | halt => exact ⟨_, performs_halt, maintains_end⟩
termination_by structural s

theorem maintains_block {c : Compiler} {P : Context → Prop} {m : Machine} {declared : List String} {ss : List Stmt}
    {code : List Op} (hs : c.strict = true) (hP : Guarded c P) (hl : Linked c m.tables.functions m.natives)
    (h : BlockCode c m.tables declared ss code) :
    ∃ f : Context → Except (Outcome Context) Context, Performs m code (blockDepth ss) f ∧ Maintains P f := by
  cases h with
  | nil => exact ⟨_, performs_nil, maintains_ok⟩
  | cons one more =>
    obtain ⟨f, hf, hfirst⟩ := maintains_stmt hs hP hl one
    obtain ⟨g, hg, hrest⟩ := maintains_block hs hP hl more
    exact ⟨_, hf.append hg, hfirst.bind hrest⟩
termination_by structural ss

end

theorem maintains_script {m : Machine} {ss : List Stmt} {code : List Op} (hs : c.strict = true) (hP : Guarded c P)
    (hl : Linked c m.tables.functions m.natives) (h : ScriptCode c m.tables ss code) :
    ∃ f, Performs (σ := Context) m code (blockDepth ss) f ∧ Maintains P f := by
  cases h with
  | plain last block => exact maintains_block hs hP hl block
  | @valued ss e body value block last =>
    obtain ⟨f, hf, hblock⟩ := maintains_block hs hP hl block
    obtain ⟨x, hx, -⟩ := finds_expr none hs hl last
    have hreturn : Maintains P fun k => orEnd k (x k) >>= fun v => .error ⟨.ok (some v), k⟩ :=
      maintains_computed fun k v hv => maintains_end
    refine ⟨_, ?_, hblock.bind hreturn⟩
    rw [List.append_assoc]
    apply (hf.append (hx.consumed consumes_ret)).mono
    rw [blockDepth_append, blockDepth, Stmt.depth, blockDepth, Nat.max_zero]

theorem Program.run_of_room {σ : Type} [Frame σ] {p : Program} {limit limit' : Nat} {frame : σ}
    (hle : limit ≤ limit') (h : (p.run limit frame).result ≠ .error (.stackOverflow limit)) :
    p.run limit frame = p.run limit' frame :=
  (runFrom_limit (m := p.machine limit) hle p.chunk.ops 0 0 [] frame).resolve_left h

theorem run_guarded (hs : c.strict = true) (hP : Guarded c P) {ss : List Stmt} {p : Program}
    (h : c.program ss = .ok p) (limit : Nat) {k : Context} (hk : P k) {v : Option Value}
    (hr : (p.run limit k).result = .ok v) : P (p.run limit k).frame := by
  have hroom : p.run limit k = p.run (max limit (blockDepth ss)) k :=
    Program.run_of_room (Nat.le_max_left ..) (by simp [hr])
  rw [hroom] at hr ⊢
  obtain ⟨⟨ops, d⟩, hd, rfl⟩ := map_eq_ok.1 h
  have ha := Compiler.script_added hd
  obtain ⟨f, hf, hmaintains⟩ := maintains_script (m := ⟨d.toTables, d.natives, max limit (blockDepth ss)⟩) hs hP
    (ha.linked rfl) (ha.holds d.toTables (.refl _))
  have hrun := hf [] 0 [] k (by simp)
  rw [List.append_nil] at hrun
  simp only [Program.run, hrun] at hr ⊢
  cases hfk : f k with
  | ok k' => exact hmaintains.ok k k' hk hfk
  | error o =>
    rw [hfk] at hr
    exact hmaintains.ended k o v hk hfk hr

end Script

end FactFold
