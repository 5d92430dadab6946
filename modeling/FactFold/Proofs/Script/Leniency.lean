import FactFold.Proofs.Script.Checks
import FactFold.Proofs.Script.Refusals

/-!
A script that compiles with strict typing compiles without it, to the same code less the checks of inputs. The
drafts of the two compilations differ in their types only: a strict store needs the type of its input, a lenient
one does not.
-/

namespace FactFold.Script

def Draft.retyped (d : Draft) (types : List ValueType) : Draft :=
  { d with types }

def Compiler.lenient (c : Compiler) : Compiler :=
  { c with strict := false }

def Compiler.NoFloat (c : Compiler) : Prop :=
  ∀ name slot type, c.symbols.input name = some (slot, type) → type ≠ .float

/-! ## Parts that add no types -/

def Repeats {α : Type} (types : List ValueType) (d : Draft) (x y : Except ScriptError (α × Draft)) : Prop :=
  ∀ a d', x = .ok (a, d') → d'.types = d.types ∧ y = .ok (a, d'.retyped types)

section

variable {α β : Type} {types : List ValueType} {d : Draft} {x y : Except ScriptError (α × Draft)}

theorem repeats_ok (a : α) : Repeats types d (.ok (a, d)) (.ok (a, d.retyped types)) := by
  intro a' d' h
  cases h
  exact ⟨rfl, rfl⟩

theorem repeats_error {e : ScriptError} : Repeats types d (.error e) y := by
  rintro a d' ⟨⟩

theorem Repeats.bind {f g : α × Draft → Except ScriptError (β × Draft)} (hxy : Repeats types d x y)
    (hfg : ∀ a d', Repeats types d' (f (a, d')) (g (a, d'.retyped types))) : Repeats types d (x >>= f) (y >>= g) := by
  intro b d₂ h
  obtain ⟨⟨a, d₁⟩, hx, hf⟩ := bind_eq_ok.1 h
  obtain ⟨htypes, hy⟩ := hxy a d₁ hx
  obtain ⟨htypes', hg⟩ := hfg a d₁ b d₂ hf
  exact ⟨htypes'.trans htypes, bind_eq_ok.2 ⟨_, hy, hg⟩⟩

theorem repeats_behind {γ : Type} {f g : γ → Except ScriptError (β × Draft)} (z : Except ScriptError γ)
    (hfg : ∀ k, Repeats types d (f k) (g k)) : Repeats types d (z >>= f) (z >>= g) := by
  intro b d₁ h
  obtain ⟨k, hz, hf⟩ := bind_eq_ok.1 h
  obtain ⟨htypes, hg⟩ := hfg k b d₁ hf
  exact ⟨htypes, bind_eq_ok.2 ⟨k, hz, hg⟩⟩

theorem Repeats.map (hxy : Repeats types d x y) (f : α → β) :
    Repeats types d (x.map fun (a, d) => (f a, d)) (y.map fun (a, d) => (f a, d)) := by
  intro b d₁ h
  obtain ⟨⟨a, d₁⟩, hx, he⟩ := map_eq_ok.1 h
  cases he
  obtain ⟨htypes, hy⟩ := hxy a d₁ hx
  exact ⟨htypes, map_eq_ok.2 ⟨_, hy, rfl⟩⟩

theorem add_repeats {entry entry' : Except CodeLimit (UInt16 × Tables)}
    (h : ∀ i t, entry = .ok (i, t) → t.types = d.types ∧ entry' = .ok (i, { t with types })) :
    Repeats types d (d.add entry) ((d.retyped types).add entry') := by
  intro i d₁ hi
  obtain ⟨t, ht, rfl⟩ := add_eq_ok hi
  obtain ⟨htypes, hentry⟩ := h i t ht
  exact ⟨htypes, by rw [hentry]; rfl⟩

theorem intern_repeats {γ : Type} [BEq γ] {kind : TableKind} {table : List γ} {item : γ} (put : List γ → Tables)
    (hput : ∀ table, (put table).types = d.types) :
    Repeats types d (d.add ((intern kind table item).map fun (i, table') => (i, put table')))
      ((d.retyped types).add ((intern kind table item).map fun (i, table') => (i, { put table' with types }))) := by
  apply add_repeats
  intro i t h
  obtain ⟨⟨j, table'⟩, hn, he⟩ := map_eq_ok.1 h
  cases he
  exact ⟨hput table', map_eq_ok.2 ⟨_, hn, rfl⟩⟩

end

variable {c : Compiler} {types : List ValueType} {d : Draft}

theorem literal_repeats (v : Value) : Repeats types d (d.literal v) ((d.retyped types).literal v) := by
  have hadd : Repeats types d (d.add (d.addLiteral v)) ((d.retyped types).add ((d.retyped types).addLiteral v)) :=
    intern_repeats (fun literals => { d.toTables with literals }) fun _ => rfl
  exact hadd.map fun i => [Op.literal i]

theorem addName_repeats (name : String) :
    Repeats types d (d.add (d.addName name)) ((d.retyped types).add ((d.retyped types).addName name)) :=
  intern_repeats (fun names => { d.toTables with names }) fun _ => rfl

theorem addField_repeats (field : String) :
    Repeats types d (d.add (d.addField field)) ((d.retyped types).add ((d.retyped types).addField field)) :=
  intern_repeats (fun fields => { d.toTables with fields }) fun _ => rfl

theorem addFunction_repeats (function : String) (native : Native) :
    Repeats types d (Compiler.addFunction function native d)
      (Compiler.addFunction function native (d.retyped types)) := by
  intro i d₁ h
  obtain ⟨⟨i, d₂⟩, hd, he⟩ := map_eq_ok.1 h
  cases he
  have hadd : Repeats types d (d.add (d.toTables.addFunction function))
      ((d.retyped types).add ((d.retyped types).toTables.addFunction function)) :=
    intern_repeats (fun functions => { d.toTables with functions }) fun _ => rfl
  obtain ⟨htypes, hadded⟩ := hadd i d₂ hd
  refine ⟨?_, map_eq_ok.2 ⟨_, hadded, ?_⟩⟩
  · split <;> exact htypes
  · by_cases hnew : i.toNat = d₂.natives.length <;> simp [Draft.retyped, hnew]

theorem load_repeats (c : Compiler) (name : String) (span : Span) :
    Repeats types d (c.load name span d) (c.lenient.load name span (d.retyped types)) := by
  have hc : c.lenient.classify (d.retyped types) name = c.classify d name := rfl
  unfold Compiler.load
  rw [hc]
  cases c.classify d name with
  | slot slot type => exact repeats_ok _
  | constant v => exact literal_repeats v
  | declared => exact (addName_repeats name).map fun i => [Op.loadName i]
  | unknown =>
    cases hs : c.strict with
    | true => exact repeats_error
    | false => exact (addName_repeats name).map fun i => [Op.loadName i]

namespace Compiler

mutual

theorem expr_repeats (c : Compiler) (types : List ValueType) (e : Expr) (d : Draft) :
    Repeats types d (c.expr e d) (c.lenient.expr e (d.retyped types)) := by
  cases e with
  | literal l span => exact literal_repeats l.value
  | name n span => exact load_repeats c n span
  | field object name span =>
    have hc : c.lenient.constantPath? (d.retyped types) = c.constantPath? d := rfl
    simp only [expr, hc]
    cases c.constantPath? d (.field object name span) with
    | some v => exact literal_repeats v
    | none =>
      refine (expr_repeats c types object d).bind fun code d => ?_
      refine (addField_repeats name).bind fun i d => ?_
      exact repeats_ok _
  | call function args span =>
    have hc : c.lenient.symbols.function = c.symbols.function := rfl
    simp only [expr, hc]
    cases c.symbols.function function with
    | none => exact repeats_error
    | some native =>
      dsimp only
      split
      · refine (arguments_repeats c types args d).bind fun code d => ?_
        refine (addFunction_repeats function native).bind fun i d => ?_
        exact repeats_ok _
      · exact repeats_error
  | unary op operand span => exact (expr_repeats c types operand d).bind fun code d => repeats_ok _
  | binary op left right span =>
    cases op with
    | strict op =>
      refine (expr_repeats c types left d).bind fun first d => ?_
      refine (expr_repeats c types right d).bind fun second d => ?_
      exact repeats_ok _
    | and =>
      refine (expr_repeats c types left d).bind fun first d => ?_
      refine (expr_repeats c types right d).bind fun second d => ?_
      refine (literal_repeats (.bool true)).bind fun yes d => ?_
      apply repeats_behind
      intro toNo
      refine (literal_repeats (.bool false)).bind fun no d => ?_
      exact repeats_ok _
    | or =>
      refine (expr_repeats c types left d).bind fun first d => ?_
      refine (literal_repeats (.bool true)).bind fun yes d => ?_
      refine (expr_repeats c types right d).bind fun second d => ?_
      refine (literal_repeats (.bool true)).bind fun yes' d => ?_
      refine (literal_repeats (.bool false)).bind fun no d => ?_
      apply repeats_behind
      intro toEnd
      exact repeats_ok _
  | conditional condition yes no span =>
    refine (expr_repeats c types condition d).bind fun test d => ?_
    refine (expr_repeats c types yes d).bind fun first d => ?_
    apply repeats_behind
    intro toNo
    refine (expr_repeats c types no d).bind fun second d => ?_
    apply repeats_behind
    intro toEnd
    exact repeats_ok _
termination_by structural e

theorem arguments_repeats (c : Compiler) (types : List ValueType) (args : List Expr) (d : Draft) :
    Repeats types d (c.arguments args d) (c.lenient.arguments args (d.retyped types)) := by
  cases args with
  | nil => exact repeats_ok _
  | cons e rest =>
    refine (expr_repeats c types e d).bind fun first d => ?_
    refine (arguments_repeats c types rest d).bind fun others d => ?_
    exact repeats_ok _
termination_by structural args

end

end Compiler

/-! ## Two compilations at one point -/

structure Parallel (c : Compiler) (d : Draft) (types : List ValueType) : Prop where
  linked : Linked c d.functions d.natives
  once : types.Nodup
  subset : types ⊆ d.types
  limit : d.types.length ≤ UInt16.size

variable {d₁ d₂ : Draft} {types₁ types₂ : List ValueType}

theorem Parallel.addType_strict (hd : Parallel c d types) {type : ValueType} {i : UInt16}
    (h : d.add (d.addType type) = .ok (i, d₁)) :
    Parallel c d₁ types ∧ d.types <+: d₁.types ∧ d₁.types[i.toNat]? = some type ∧
      d₁.retyped types = d.retyped types := by
  obtain ⟨hn, hi, rfl⟩ := add_intern (fun types => { d.toTables with types }) h
  have hle := prefix_interned d.types type
  exact ⟨⟨hd.linked, hd.once, fun a ha => hle.subset (hd.subset ha), interned_limit hn hd.limit⟩, hle, hi.getElem?,
    rfl⟩

theorem Parallel.addType (hd : Parallel c d types) {type : ValueType} {i : UInt16}
    (h : d.add (d.addType type) = .ok (i, d₁)) :
    ∃ k types₁, (d.retyped types).add ((d.retyped types).addType type) = .ok (k, d₁.retyped types₁) ∧
      Parallel c d₁ types₁ ∧ types <+: types₁ ∧ types₁[k.toNat]? = some type := by
  obtain ⟨hn, hi, rfl⟩ := add_intern (fun types => { d.toTables with types }) h
  have honce := nodup_interned hd.once type
  have hsubset := interned_subset hd.subset type
  have hlimit := interned_limit hn hd.limit
  obtain ⟨k, hk, hindex⟩ := exists_intern .type (((List.subperm_of_subset honce hsubset).length_le).trans hlimit)
  refine ⟨k, interned types type, ?_, ⟨hd.linked, honce, hsubset, hlimit⟩, prefix_interned types type, hindex⟩
  have hadd : (d.retyped types).addType type = .ok (k, { d.toTables with types := interned types type }) :=
    map_eq_ok.2 ⟨_, hk, rfl⟩
  rw [hadd]
  rfl

/-! ## Code of both compilations -/

/-- From one point to the next, the strict compilation gives `code` and the lenient one `code'`, which is `code`
without its checks. -/
structure Eases (c : Compiler) (d : Draft) (types : List ValueType) (code : List Op) (d' : Draft) (code' : List Op)
    (types' : List ValueType) : Prop where
  parallel : Parallel c d' types'
  le : d.types <+: d'.types
  le' : types <+: types'
  length : code'.length ≤ code.length
  eased : ∀ full full', d'.types <+: full → types' <+: full' → Eased full full' code code'

section

variable {code code' first first' second second' : List Op}

theorem eases_nil (hd : Parallel c d types) : Eases c d types [] d [] types :=
  ⟨hd, List.prefix_refl _, List.prefix_refl _, Nat.le_refl _, fun _ _ _ _ => .same nofun nofun⟩

theorem Eases.append (one : Eases c d types first d₁ first' types₁)
    (two : Eases c d₁ types₁ second d₂ second' types₂) :
    Eases c d types (first ++ second) d₂ (first' ++ second') types₂ where
  parallel := two.parallel
  le := one.le.trans two.le
  le' := one.le'.trans two.le'
  length := by
    rw [List.length_append, List.length_append]
    exact Nat.add_le_add one.length two.length
  eased full full' h h' := (one.eased full full' (two.le.trans h) (two.le'.trans h')).append (two.eased full full' h h')

theorem Eases.behind (one : Eases c d types first d₁ first' types₁)
    (two : Eases c d₁ types₁ second d₂ second' types₂) :
    Eases c d types (second ++ first) d₂ (second' ++ first') types₂ where
  parallel := two.parallel
  le := one.le.trans two.le
  le' := one.le'.trans two.le'
  length := by
    rw [List.length_append, List.length_append]
    exact Nat.add_le_add two.length one.length
  eased full full' h h' := (two.eased full full' h h').append (one.eased full full' (two.le.trans h) (two.le'.trans h'))

theorem Eases.same (h : Eases c d types code d₁ code' types₁) {piece : List Op} (hfree : ∀ op ∈ piece, op.Untyped)
    (hlands : Landing piece) : Eases c d types (code ++ piece) d₁ (code' ++ piece) types₁ :=
  h.append ⟨h.parallel, List.prefix_refl _, List.prefix_refl _, Nat.le_refl _, fun _ _ _ _ => .same hfree hlands⟩

theorem Eases.op (h : Eases c d types code d₁ code' types₁) (op : Op) (hop : op.Untyped)
    (hskips : op.skips ⊆ [0]) : Eases c d types (code ++ [op]) d₁ (code' ++ [op]) types₁ :=
  h.same (List.forall_mem_singleton.2 hop) (landing_singleton fun _ hskip => List.mem_singleton.1 (hskips hskip))

theorem Eases.branch (one : Eases c d types first d₁ first' types₁) {toEnd toEnd' : UInt16}
    (jump : distance first.length = .ok toEnd) (jump' : distance first'.length = .ok toEnd') :
    Eases c d types (.jumpIfFalse toEnd :: first) d₁ (.jumpIfFalse toEnd' :: first') types₁ where
  parallel := one.parallel
  le := one.le
  le' := one.le'
  length := Nat.succ_le_succ one.length
  eased full full' h h' :=
    .branch (one.eased full full' h h') (Compiler.distance_eq_ok jump) (Compiler.distance_eq_ok jump')

theorem Eases.choice (one : Eases c d types first d₁ first' types₁)
    (two : Eases c d₁ types₁ second d₂ second' types₂) {toNo toNo' toEnd toEnd' : UInt16}
    (skip : distance (first.length + 1) = .ok toNo) (skip' : distance (first'.length + 1) = .ok toNo')
    (jump : distance second.length = .ok toEnd) (jump' : distance second'.length = .ok toEnd') :
    Eases c d types (.jumpIfFalse toNo :: first ++ .jump toEnd :: second) d₂
      (.jumpIfFalse toNo' :: first' ++ .jump toEnd' :: second') types₂ where
  parallel := two.parallel
  le := one.le.trans two.le
  le' := one.le'.trans two.le'
  length := by
    have hone := one.length
    have htwo := two.length
    simp only [List.length_append, List.length_cons]
    omega
  eased full full' h h' :=
    .choice (one.eased full full' (two.le.trans h) (two.le'.trans h')) (two.eased full full' h h')
      (Compiler.distance_eq_ok skip) (Compiler.distance_eq_ok skip') (Compiler.distance_eq_ok jump)
      (Compiler.distance_eq_ok jump')

theorem Eases.redeclare (h : Eases c d types code d₁ code' types₁) (declared : List String) :
    Eases c d types code { d₁ with declared } code' types₁ :=
  ⟨⟨h.parallel.linked, h.parallel.once, h.parallel.subset, h.parallel.limit⟩, h.le, h.le', h.length, h.eased⟩

theorem Repeats.eases {α : Type} {x y : Except ScriptError (α × Draft)} {a : α} (h : Repeats types d x y)
    (hx : x = .ok (a, d₁)) (hd : Parallel c d types) (hl : Linked c d₁.functions d₁.natives) :
    y = .ok (a, d₁.retyped types) ∧ Eases c d types [] d₁ [] types := by
  obtain ⟨htypes, hy⟩ := h a d₁ hx
  have hd₁ : Parallel c d₁ types := ⟨hl, hd.once, htypes ▸ hd.subset, htypes ▸ hd.limit⟩
  exact ⟨hy, hd₁, htypes ▸ List.prefix_refl _, List.prefix_refl _, Nat.le_refl _, (eases_nil hd₁).eased⟩

theorem Op.OfExpr.untyped {op : Op} (h : op.OfExpr c) : op.Untyped := by
  cases h <;> trivial

theorem Balanced.landing {m : Machine} {a b room : Nat} {marked : List (Nat × Op)}
    (h : Balanced m code a b room marked) : Landing code :=
  fun _ _ hop => h.lands hop

end

namespace Compiler

section

variable {code : List Op} {name : String} {span : Span}

theorem expr_eases {e : Expr} (hd : Parallel c d types) (h : c.expr e d = .ok (code, d₁)) :
    c.lenient.expr e (d.retyped types) = .ok (code, d₁.retyped types) ∧ Eases c d types code d₁ code types := by
  have ha := expr_added h
  have hl := ha.linked hd.linked
  have hcode := ha.holds d₁.toTables (.refl _)
  obtain ⟨marked, hbalanced⟩ := balanced_expr (m := ⟨d₁.toTables, d₁.natives, 0⟩) hl hcode
  obtain ⟨hlenient, heases⟩ := (expr_repeats c types e d).eases h hd hl
  exact ⟨hlenient, heases.same (fun op hop => (hcode.ops op hop).untyped) hbalanced.landing⟩

theorem load_eases (hd : Parallel c d types) (h : c.load name span d = .ok (code, d₁)) :
    c.lenient.load name span (d.retyped types) = .ok (code, d₁.retyped types) ∧
      Eases c d types code d₁ code types :=
  expr_eases (e := .name name span) hd h

theorem initial_eases {value : Option Expr} (hd : Parallel c d types)
    (h : c.initialCode value d = .ok (code, d₁)) :
    c.lenient.initialCode value (d.retyped types) = .ok (code, d₁.retyped types) ∧
      Eases c d types code d₁ code types := by
  cases value with
  | some e => exact expr_eases hd h
  | none =>
    obtain ⟨i, rfl, hl⟩ := literal_added (c := c) h
    obtain ⟨hlenient, heases⟩ := (literal_repeats .null).eases h hd (hl.linked hd.linked)
    exact ⟨hlenient, heases.op (.literal i) trivial fun _ hskip => hskip⟩

theorem addName_eases {i : UInt16} (hd : Parallel c d types) (h : d.add (d.addName name) = .ok (i, d₁)) :
    (d.retyped types).add ((d.retyped types).addName name) = .ok (i, d₁.retyped types) ∧
      Eases c d types [] d₁ [] types :=
  (addName_repeats name).eases h hd ((addName_added (c := c) h).linked hd.linked)

theorem storeName_eases (hd : Parallel c d types)
    (h : ((d.add (d.addName name)).map fun (i, d) => ([Op.storeName i], d)) = .ok (code, d₁)) :
    (((d.retyped types).add ((d.retyped types).addName name)).map fun (i, d) => ([Op.storeName i], d)) =
        .ok (code, d₁.retyped types) ∧ Eases c d types code d₁ code types := by
  obtain ⟨⟨i, d₁⟩, hn, he⟩ := map_eq_ok.1 h
  cases he
  obtain ⟨hlenient, heases⟩ := addName_eases hd hn
  exact ⟨map_eq_ok.2 ⟨_, hlenient, rfl⟩, heases.op (.storeName i) trivial fun _ hskip => hskip⟩

theorem store_eases (hfloat : c.NoFloat)
    (hd : Parallel c d types) (h : c.store name span d = .ok (code, d₁)) :
    ∃ code', c.lenient.store name span (d.retyped types) = .ok (code', d₁.retyped types) ∧
      Eases c d types code d₁ code' types := by
  have hclass : c.lenient.classify (d.retyped types) name = c.classify d name := rfl
  unfold store at h ⊢
  rw [hclass]
  rcases classify_cases c d name with
    ⟨slot, type, hi, hc⟩ | ⟨hi, hn, hc⟩ | ⟨hi, hn, v, hv, hc⟩ | ⟨hi, hn, hv, hc⟩
  · have hstore {d : Draft} (hd : Parallel c d types) : Eases c d types [.storeSlot slot] d [.storeSlot slot] types :=
      (eases_nil hd).op (.storeSlot slot) trivial fun _ hskip => hskip
    simp only [hc] at h ⊢
    refine ⟨[.storeSlot slot], ?_⟩
    split at h
    · obtain ⟨⟨i, d₁⟩, hadd, he⟩ := map_eq_ok.1 h
      cases he
      obtain ⟨hd₁, hle, hindex, hsame⟩ := hd.addType_strict hadd
      have hcheck : Eases c d types [.checkType i] d₁ [] types :=
        ⟨hd₁, hle, List.prefix_refl _, Nat.zero_le _, fun full full' hfull hfull' =>
          .check (getElem?_extended hfull hindex) (hfloat name slot type hi)⟩
      exact ⟨by rw [hsame]; rfl, hcheck.append (hstore hd₁)⟩
    · cases h
      exact ⟨rfl, hstore hd⟩
  · simp only [hc, Bool.false_and, Bool.false_eq_true, if_false] at h ⊢
    exact ⟨code, storeName_eases hd h⟩
  · simp [hc] at h
  · simp only [hc] at h ⊢
    split at h
    · cases h
    · exact ⟨code, storeName_eases hd h⟩

theorem declare_eases {type : Option String} {k : Option UInt16} (hd : Parallel c d types)
    (h : c.declaredType type span d = .ok (k, d₁)) :
    ∃ k' types₁, c.lenient.declaredType type span (d.retyped types) = .ok (k', d₁.retyped types₁) ∧
      ∀ name, Eases c d types [.declare name k] d₁ [.declare name k'] types₁ := by
  cases type with
  | none =>
    cases h
    exact ⟨none, types, rfl, fun name =>
      (eases_nil hd).op (.declare name none) trivial fun _ hskip => hskip⟩
  | some type =>
    have hsymbols : c.lenient.symbols.type = c.symbols.type := rfl
    simp only [declaredType, hsymbols] at h ⊢
    cases ht : c.symbols.type type with
    | none => simp [ht] at h
    | some type =>
      simp only [ht] at h ⊢
      obtain ⟨⟨i, d₁⟩, hadd, he⟩ := map_eq_ok.1 h
      cases he
      obtain ⟨-, hle, hindex, -⟩ := hd.addType_strict hadd
      obtain ⟨k, types₁, hlenient, hd₁, hle', hindex'⟩ := hd.addType hadd
      refine ⟨some k, types₁, map_eq_ok.2 ⟨_, hlenient, rfl⟩, fun name => ?_⟩
      exact ⟨hd₁, hle, hle', Nat.le_refl _, fun full full' hfull hfull' =>
        .declare (getElem?_extended hfull hindex) (getElem?_extended hfull' hindex')⟩

theorem exists_distance {n n' : Nat} {k : UInt16} (h : distance n = .ok k) (hle : n' ≤ n) :
    ∃ k', distance n' = .ok k' := by
  have hn := distance_eq_ok h
  have hlt := k.toNat_lt_size
  exact ⟨_, mapError_eq_ok.2 (if_pos (by omega))⟩

end

mutual

theorem stmt_eases {c : Compiler} {s : Stmt} {d d₁ : Draft} {types : List ValueType} {code : List Op}
    (hfloat : c.NoFloat) (hd : Parallel c d types)
    (h : c.stmt s d = .ok (code, d₁)) :
    ∃ code' types₁, c.lenient.stmt s (d.retyped types) = .ok (code', d₁.retyped types₁) ∧
      Eases c d types code d₁ code' types₁ := by
  cases s with
  | expr e =>
    simp only [stmt] at h ⊢
    obtain ⟨⟨code, d₁⟩, h₁, h⟩ := bind_eq_ok.1 h
    cases h
    obtain ⟨hlenient, heases⟩ := expr_eases hd h₁
    simp only [hlenient, ok_bind]
    exact ⟨_, _, rfl, heases.op .discard trivial fun _ hskip => hskip⟩
  | assign target op value span =>
    cases op with
    | set =>
      simp only [stmt] at h ⊢
      obtain ⟨⟨code, d₁⟩, h₁, h⟩ := bind_eq_ok.1 h
      obtain ⟨⟨write, d₂⟩, h₂, h⟩ := bind_eq_ok.1 h
      cases h
      obtain ⟨hlenient, hvalue⟩ := expr_eases hd h₁
      obtain ⟨write', hlenient', hwrite⟩ := store_eases hfloat hvalue.parallel h₂
      simp only [hlenient, hlenient', ok_bind]
      exact ⟨_, _, rfl, (hvalue.append hwrite).op .discard trivial fun _ hskip => hskip⟩
    | update op =>
      simp only [stmt] at h ⊢
      obtain ⟨⟨old, d₁⟩, h₁, h⟩ := bind_eq_ok.1 h
      obtain ⟨⟨code, d₂⟩, h₂, h⟩ := bind_eq_ok.1 h
      obtain ⟨⟨write, d₃⟩, h₃, h⟩ := bind_eq_ok.1 h
      cases h
      obtain ⟨hlenient, hold⟩ := load_eases hd h₁
      obtain ⟨hlenient', hvalue⟩ := expr_eases hold.parallel h₂
      obtain ⟨write', hlenient'', hwrite⟩ := store_eases hfloat hvalue.parallel h₃
      have hoperator := (hold.append hvalue).op (.strict (.arith op)) trivial fun _ hskip => hskip
      have hall := (hoperator.append hwrite).op .discard trivial fun _ hskip => hskip
      simp only [hlenient, hlenient', hlenient'', ok_bind]
      refine ⟨_, _, rfl, ?_⟩
      simpa only [List.append_assoc, List.cons_append, List.nil_append] using hall
  | declare name type value span =>
    rw [stmt_declare] at h ⊢
    obtain ⟨⟨k, d₁⟩, h₁, h⟩ := bind_eq_ok.1 h
    obtain ⟨⟨code, d₂⟩, h₂, h⟩ := bind_eq_ok.1 h
    obtain ⟨⟨i, d₃⟩, h₃, h⟩ := bind_eq_ok.1 h
    cases h
    obtain ⟨k', types₁, hlenient, hdeclare⟩ := declare_eases hd h₁
    obtain ⟨hlenient', hvalue⟩ := initial_eases (hdeclare i).parallel h₂
    obtain ⟨hlenient'', hname⟩ := addName_eases hvalue.parallel h₃
    have hall := (((hdeclare i).behind hvalue).append hname).redeclare (name :: d₃.declared)
    rw [List.append_nil, List.append_nil] at hall
    simp only [hlenient, hlenient', hlenient'', ok_bind]
    exact ⟨_, types₁, rfl, hall⟩
  | branch condition yes no =>
    cases no with
    | none =>
      simp only [stmt] at h ⊢
      obtain ⟨⟨test, d₁⟩, h₁, h⟩ := bind_eq_ok.1 h
      obtain ⟨⟨first, d₂⟩, h₂, h⟩ := bind_eq_ok.1 h
      obtain ⟨toEnd, hto, h⟩ := bind_eq_ok.1 h
      cases h
      obtain ⟨hlenient, htest⟩ := expr_eases hd h₁
      obtain ⟨body, first', types₁, rfl, hlenient', hone⟩ := block_eases hfloat htest.parallel h₂ []
      obtain ⟨toEnd', hto'⟩ := exists_distance hto hone.length
      simp only [List.reverse_nil, List.flatten_nil, List.nil_append] at hlenient' hto ⊢
      simp only [hlenient, hlenient', hto', ok_bind]
      exact ⟨_, _, rfl, htest.append (hone.branch hto hto')⟩
    | some no =>
      simp only [stmt] at h ⊢
      obtain ⟨⟨test, d₁⟩, h₁, h⟩ := bind_eq_ok.1 h
      obtain ⟨⟨first, d₂⟩, h₂, h⟩ := bind_eq_ok.1 h
      obtain ⟨toNo, hno, h⟩ := bind_eq_ok.1 h
      obtain ⟨⟨second, d₃⟩, h₃, h⟩ := bind_eq_ok.1 h
      obtain ⟨toEnd, hto, h⟩ := bind_eq_ok.1 h
      cases h
      obtain ⟨hlenient, htest⟩ := expr_eases hd h₁
      obtain ⟨first, first', types₁, rfl, hlenient', hone⟩ := block_eases hfloat htest.parallel h₂ []
      obtain ⟨second, second', types₂, rfl, hlenient'', htwo⟩ := block_eases hfloat hone.parallel h₃ []
      obtain ⟨toNo', hno'⟩ := exists_distance hno (Nat.succ_le_succ hone.length)
      obtain ⟨toEnd', hto'⟩ := exists_distance hto htwo.length
      simp only [List.reverse_nil, List.flatten_nil, List.nil_append] at hlenient' hlenient'' hno hto ⊢
      have hall := htest.append (hone.choice htwo hno hno' hto hto')
      rw [← List.append_assoc, ← List.append_assoc] at hall
      simp only [hlenient, hlenient', hno', hlenient'', hto', ok_bind]
      exact ⟨_, _, rfl, hall⟩
  | ret value =>
    cases value with
    | some value =>
      simp only [stmt] at h ⊢
      obtain ⟨⟨code, d₁⟩, h₁, h⟩ := bind_eq_ok.1 h
      cases h
      obtain ⟨hlenient, heases⟩ := expr_eases hd h₁
      simp only [hlenient, ok_bind]
      exact ⟨_, _, rfl, heases.op .ret trivial nofun⟩
    | none =>
      cases h
      exact ⟨_, _, rfl, (eases_nil hd).op .halt trivial nofun⟩
termination_by structural s

theorem block_eases {c : Compiler} {ss : List Stmt} {d d₁ : Draft} {types : List ValueType} {done : List (List Op)}
    {code : List Op}
    (hfloat : c.NoFloat) (hd : Parallel c d types)
    (h : c.block ss d done = .ok (code, d₁)) (done' : List (List Op)) :
    ∃ body body' types₁, code = done.reverse.flatten ++ body ∧
      c.lenient.block ss (d.retyped types) done' = .ok (done'.reverse.flatten ++ body', d₁.retyped types₁) ∧
        Eases c d types body d₁ body' types₁ := by
  cases ss with
  | nil =>
    cases h
    exact ⟨[], [], types, by simp, by simp [block], eases_nil hd⟩
  | cons s rest =>
    simp only [block] at h ⊢
    obtain ⟨⟨first, d₁⟩, h₁, h⟩ := bind_eq_ok.1 h
    obtain ⟨first', types₁, hlenient, hone⟩ := stmt_eases hfloat hd h₁
    obtain ⟨others, others', types₂, rfl, hlenient', hmore⟩ := block_eases hfloat hone.parallel h (first' :: done')
    simp only [hlenient, hlenient', ok_bind]
    exact ⟨first ++ others, first' ++ others', types₂, by simp, by simp, hone.append hmore⟩
termination_by structural ss

end

/-! ## Scripts -/

theorem parallel_empty : Parallel c {} [] :=
  ⟨rfl, List.nodup_nil, List.nil_subset _, Nat.zero_le _⟩

theorem script_eases {ss : List Stmt} {code : List Op}
    (hfloat : c.NoFloat)
    (h : c.script ss = .ok (code, d)) :
    ∃ code' types, c.lenient.script ss = .ok (code', d.retyped types) ∧ Eases c {} [] code d code' types := by
  have hblock {ss : List Stmt} {d : Draft} {code : List Op} (h : c.block ss {} [] = .ok (code, d)) :
      ∃ code' types, c.lenient.block ss {} [] = .ok (code', d.retyped types) ∧
        Eases c {} [] code d code' types := by
    obtain ⟨body, body', types, rfl, hlenient, heases⟩ := block_eases hfloat parallel_empty h []
    exact ⟨body', types, hlenient, heases⟩
  unfold script at h ⊢
  split at h
  · next e he =>
    obtain ⟨⟨body, d₁⟩, h₁, h⟩ := bind_eq_ok.1 h
    obtain ⟨⟨value, d₂⟩, h₂, h⟩ := bind_eq_ok.1 h
    cases h
    obtain ⟨body', types, hlenient, hbody⟩ := hblock h₁
    obtain ⟨hlenient', hvalue⟩ := expr_eases hbody.parallel h₂
    simp only [hlenient, hlenient', ok_bind]
    exact ⟨_, _, rfl, (hbody.append hvalue).op .ret trivial nofun⟩
  · exact hblock h

theorem program_lenient {ss : List Stmt} {p : Program}
    (hfloat : c.NoFloat)
    (h : c.program ss = .ok p) :
    ∃ p', c.lenient.program ss = .ok p' ∧
      ∀ {σ : Type} [Frame σ] (limit : Nat) (frame : σ) (v : Option Value),
        (p.run limit frame).result = .ok v → p'.run limit frame = p.run limit frame := by
  obtain ⟨⟨code, d⟩, hd, rfl⟩ := map_eq_ok.1 h
  obtain ⟨code', types, hlenient, heases⟩ := script_eases hfloat hd
  refine ⟨_, map_eq_ok.2 ⟨_, hlenient, rfl⟩, fun {σ} _ limit frame v hv => ?_⟩
  have hcode := heases.eased d.types types (List.prefix_refl _) (List.prefix_refl _)
  have hfollows := Eased.follows (σ := σ) (m := ⟨d.toTables, d.natives, limit⟩) hcode follows_nil
  rw [List.append_nil, List.append_nil] at hfollows
  exact hfollows 0 0 [] frame v hv

end Compiler

end FactFold.Script
