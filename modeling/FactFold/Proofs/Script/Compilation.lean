import FactFold.Proofs.Script.Translation

/-!
Compiling a part of a script adds to the tables of the draft and never changes what is there: `Added` says
what it adds and what holds of every later table. The code it gives is code of the part.
-/

namespace FactFold.Script

structure Tables.Le (t t' : Tables) : Prop where
  names : t.names <+: t'.names
  fields : t.fields <+: t'.fields
  literals : t.literals <+: t'.literals
  types : t.types <+: t'.types
  functions : t.functions <+: t'.functions

theorem Tables.Le.refl (t : Tables) : t.Le t :=
  ⟨List.prefix_refl _, List.prefix_refl _, List.prefix_refl _, List.prefix_refl _, List.prefix_refl _⟩

theorem Tables.Le.trans {t t' t'' : Tables} (h : t.Le t') (h' : t'.Le t'') : t.Le t'' :=
  ⟨h.names.trans h'.names, h.fields.trans h'.fields, h.literals.trans h'.literals, h.types.trans h'.types,
    h.functions.trans h'.functions⟩

def Linked (c : Compiler) (functions : List String) (natives : List Native) : Prop :=
  functions.map c.symbols.function = natives.map some

/-- From the draft `d` to `d'` the literals `vs` are added, `declared` are the names declared behind it, and
`P` holds of the tables from there on. -/
structure Added (c : Compiler) (vs : List Value) (declared : List String) (P : Tables → Prop) (d d' : Draft) :
    Prop where
  le : d.toTables.Le d'.toTables
  literals : d'.literals = vs.foldl interned d.literals
  linked : Linked c d.functions d.natives → Linked c d'.functions d'.natives
  declared : d'.declared = declared
  holds : ∀ t, d'.toTables.Le t → P t

section

variable {c : Compiler} {vs ws : List Value} {declared declared' : List String} {P Q : Tables → Prop}
  {d d' d'' : Draft}

theorem Added.refl (c : Compiler) (d : Draft) (h : ∀ t, P t) : Added c [] d.declared P d d :=
  ⟨Tables.Le.refl _, rfl, id, rfl, fun t _ => h t⟩

theorem Added.mono (h : Added c vs declared P d d') (hPQ : ∀ t, P t → Q t) : Added c vs declared Q d d' :=
  ⟨h.le, h.literals, h.linked, h.declared, fun t ht => hPQ t (h.holds t ht)⟩

theorem Added.of_eq (h : Added c vs declared P d d') (he : vs = ws) : Added c ws declared P d d' :=
  he ▸ h

theorem Added.trans (h : Added c vs declared P d d') (h' : Added c ws declared' Q d' d'') :
    Added c (vs ++ ws) declared' (fun t => P t ∧ Q t) d d'' where
  le := h.le.trans h'.le
  literals := by rw [List.foldl_append, ← h.literals, h'.literals]
  linked := h'.linked ∘ h.linked
  declared := h'.declared
  holds t ht := ⟨h.holds t (h'.le.trans ht), h'.holds t ht⟩

theorem Added.redeclare (h : Added c vs declared P d d') (declared' : List String) :
    Added c vs declared' P d { d' with declared := declared' } :=
  ⟨h.le, h.literals, h.linked, rfl, h.holds⟩

end

section

variable {c : Compiler} {d d' : Draft} {i : UInt16} {code : List Op}

theorem add_eq_ok {entry : Except CodeLimit (UInt16 × Tables)} (h : d.add entry = .ok (i, d')) :
    ∃ t, entry = .ok (i, t) ∧ d' = { d with toTables := t } := by
  cases entry with
  | error e => simp [Draft.add] at h
  | ok it =>
    simp only [Draft.add, Except.ok.injEq, Prod.mk.injEq] at h
    exact ⟨it.2, by rw [← h.1], h.2.symm⟩

theorem add_intern {α : Type} [BEq α] {kind : TableKind} {table : List α} {item : α} (put : List α → Tables)
    (h : d.add ((intern kind table item).map fun (i, table') => (i, put table')) = .ok (i, d')) :
    intern kind table item = .ok (i, interned table item) ∧ Denotes (interned table item) item i ∧
      d' = { d with toTables := put (interned table item) } := by
  obtain ⟨t, ht, rfl⟩ := add_eq_ok h
  obtain ⟨⟨j, table'⟩, hn, he⟩ := map_eq_ok.1 ht
  obtain ⟨rfl, rfl⟩ := Prod.mk.inj he
  obtain ⟨rfl, hi⟩ := intern_eq_ok hn
  exact ⟨hn, hi, rfl⟩

theorem addName_added {name : String} (h : d.add (d.addName name) = .ok (i, d')) :
    Added c [] d.declared (fun t => t.names[i.toNat]? = some name) d d' := by
  obtain ⟨-, hi, rfl⟩ := add_intern (fun names => { d.toTables with names }) h
  have hle := prefix_interned d.names name
  exact ⟨{ Tables.Le.refl d.toTables with names := hle }, rfl, id, rfl,
    fun t ht => (hi.mono ht.names).getElem?⟩

theorem addField_added {field : String} (h : d.add (d.addField field) = .ok (i, d')) :
    Added c [] d.declared (fun t => t.fields[i.toNat]? = some field) d d' := by
  obtain ⟨-, hi, rfl⟩ := add_intern (fun fields => { d.toTables with fields }) h
  have hle := prefix_interned d.fields field
  exact ⟨{ Tables.Le.refl d.toTables with fields := hle }, rfl, id, rfl,
    fun t ht => (hi.mono ht.fields).getElem?⟩

theorem addType_added {type : ValueType} (h : d.add (d.addType type) = .ok (i, d')) :
    Added c [] d.declared (fun t => t.types[i.toNat]? = some type) d d' := by
  obtain ⟨-, hi, rfl⟩ := add_intern (fun types => { d.toTables with types }) h
  have hle := prefix_interned d.types type
  exact ⟨{ Tables.Le.refl d.toTables with types := hle }, rfl, id, rfl,
    fun t ht => (hi.mono ht.types).getElem?⟩

theorem literal_added {v : Value} (h : d.literal v = .ok (code, d')) :
    ∃ i, code = [.literal i] ∧ Added c [v] d.declared (fun t => Denotes t.literals v i) d d' := by
  obtain ⟨⟨i, d₁⟩, hd, he⟩ := map_eq_ok.1 h
  obtain ⟨rfl, rfl⟩ := Prod.mk.inj he
  obtain ⟨-, hi, rfl⟩ := add_intern (fun literals => { d.toTables with literals }) hd
  have hle := prefix_interned d.literals v
  exact ⟨i, rfl, { Tables.Le.refl d.toTables with literals := hle }, rfl, id, rfl,
    fun t ht => hi.mono ht.literals⟩

theorem addFunction_added {function : String} {native : Native}
    (hf : c.symbols.function function = some native)
    (h : Compiler.addFunction function native d = .ok (i, d')) :
    Added c [] d.declared (fun t => t.functions[i.toNat]? = some function) d d' := by
  obtain ⟨⟨j, d₁⟩, hd, he⟩ := map_eq_ok.1 h
  obtain ⟨rfl, rfl⟩ := Prod.mk.inj he
  obtain ⟨hn, hi, rfl⟩ := add_intern (fun functions => { d.toTables with functions }) hd
  have hle := prefix_interned d.functions function
  have hlinked (hl : Linked c d.functions d.natives) :
      Linked c (interned d.functions function)
        (if j.toNat = d.natives.length then d.natives ++ [native] else d.natives) := by
    -- both lists have one length, so a name that is new in the table is new among the functions
    have hlength : d.functions.length = d.natives.length := by simpa using congrArg List.length hl
    rcases intern_place hn with ⟨hlt, htable⟩ | ⟨heq, htable⟩
    · rw [htable, if_neg (by omega)]
      exact hl
    · rw [htable, if_pos (by omega)]
      simp only [Linked, List.map_append, List.map_cons, List.map_nil, hf] at hl ⊢
      rw [hl]
  dsimp only
  split
  · next hk =>
    rw [if_pos hk] at hlinked
    exact ⟨{ Tables.Le.refl d.toTables with functions := hle }, rfl, hlinked, rfl,
      fun t ht => (hi.mono ht.functions).getElem?⟩
  · next hk =>
    rw [if_neg hk] at hlinked
    exact ⟨{ Tables.Le.refl d.toTables with functions := hle }, rfl, hlinked, rfl,
      fun t ht => (hi.mono ht.functions).getElem?⟩

end

namespace Compiler

section

variable {c : Compiler} {d d' : Draft} {name : String} {span : Span} {code : List Op}

theorem classify_cases (c : Compiler) (d : Draft) (name : String) :
    (∃ slot type, c.symbols.input name = some (slot, type) ∧ c.classify d name = .slot slot type) ∨
      (c.symbols.input name = none ∧ name ∈ d.declared ∧ c.classify d name = .declared) ∨
      (c.symbols.input name = none ∧ name ∉ d.declared ∧
        ∃ v, c.symbols.constant name = some v ∧ c.classify d name = .constant v) ∨
      (c.symbols.input name = none ∧ name ∉ d.declared ∧ c.symbols.constant name = none ∧
        c.classify d name = .unknown) := by
  unfold classify
  cases hi : c.symbols.input name with
  | some target => exact .inl ⟨target.1, target.2, rfl, rfl⟩
  | none =>
    by_cases hd : name ∈ d.declared
    · simp [hd]
    · cases hc : c.symbols.constant name <;> simp [hd]

theorem constantPath?_eq (c : Compiler) (d : Draft) (e : Expr) :
    c.constantPath? d e = c.pathConstant? d.declared e := by
  unfold constantPath? pathConstant?
  cases e.root? with
  | none => rfl
  | some root =>
    rcases classify_cases c d root with
      ⟨_, _, hi, hc⟩ | ⟨hi, hd, hc⟩ | ⟨hi, hd, v, hv, hc⟩ | ⟨hi, hd, hv, hc⟩ <;>
      cases e.path? <;> simp [*]

theorem load_added (h : c.load name span d = .ok (code, d')) :
    Added c (c.nameLiterals d.declared name) d.declared (fun t => NameCode c t d.declared name code) d d' := by
  unfold load at h
  unfold nameLiterals
  rcases classify_cases c d name with
    ⟨slot, type, hi, hc⟩ | ⟨hi, hd, hc⟩ | ⟨hi, hd, v, hv, hc⟩ | ⟨hi, hd, hv, hc⟩
  · simp only [hc, Except.ok.injEq, Prod.mk.injEq] at h
    obtain ⟨rfl, rfl⟩ := h
    simpa only [hi] using Added.refl c d fun t => .slot hi
  · simp only [hc, Bool.false_and, Bool.false_eq_true, if_false] at h
    obtain ⟨⟨i, d₁⟩, hn, he⟩ := map_eq_ok.1 h
    obtain ⟨rfl, rfl⟩ := Prod.mk.inj he
    simpa only [hi, hd, if_true] using (addName_added hn).mono fun t ht => .frame hi (.inl hd) (.inl hd) ht
  · simp only [hc] at h
    obtain ⟨i, rfl, hl⟩ := literal_added (c := c) h
    simpa only [hi, hd, if_false, hv, Option.toList_some] using hl.mono fun t ht => .constant hi hd hv ht
  · simp only [hc, Bool.true_and] at h
    split at h
    · cases h
    · next hlax =>
      obtain ⟨⟨i, d₁⟩, hn, he⟩ := map_eq_ok.1 h
      obtain ⟨rfl, rfl⟩ := Prod.mk.inj he
      simpa only [hi, hd, if_false, hv, Option.toList_none] using
        (addName_added hn).mono fun t ht => .frame hi (.inr hv) (.inr (by simpa using hlax)) ht

theorem store_added (h : c.store name span d = .ok (code, d')) :
    Added c [] d.declared (fun t => WriteCode c t name code) d d' := by
  unfold store at h
  rcases classify_cases c d name with
    ⟨slot, type, hi, hc⟩ | ⟨hi, hd, hc⟩ | ⟨hi, hd, v, hv, hc⟩ | ⟨hi, hd, hv, hc⟩
  · simp only [hc] at h
    split at h
    · next htyped =>
      obtain ⟨⟨i, d₁⟩, hn, he⟩ := map_eq_ok.1 h
      obtain ⟨rfl, rfl⟩ := Prod.mk.inj he
      exact (addType_added hn).mono fun t ht => .typedSlot hi htyped ht
    · next hfree =>
      obtain ⟨rfl, rfl⟩ := Prod.mk.inj (Except.ok.inj h)
      exact Added.refl c d fun t => .slot hi (by simpa using hfree)
  · simp only [hc, Bool.false_and, Bool.false_eq_true, if_false] at h
    obtain ⟨⟨i, d₁⟩, hn, he⟩ := map_eq_ok.1 h
    obtain ⟨rfl, rfl⟩ := Prod.mk.inj he
    exact (addName_added hn).mono fun t ht => .frame hi ht
  · simp [hc] at h
  · simp only [hc, Bool.true_and] at h
    split at h
    · cases h
    · obtain ⟨⟨i, d₁⟩, hn, he⟩ := map_eq_ok.1 h
      obtain ⟨rfl, rfl⟩ := Prod.mk.inj he
      exact (addName_added hn).mono fun t ht => .frame hi ht

end

theorem distance_eq_ok {n : Nat} {k : UInt16} (h : distance n = .ok k) : k.toNat = n :=
  index16_eq_ok (mapError_eq_ok.1 h)

mutual

theorem expr_added {c : Compiler} {e : Expr} {d d' : Draft} {code : List Op} (h : c.expr e d = .ok (code, d')) :
    Added c (c.exprLiterals d.declared e) d.declared (fun t => ExprCode c t d.declared e code) d d' := by
  cases e with
  | literal l span =>
    obtain ⟨i, rfl, hl⟩ := literal_added (c := c) h
    exact hl.mono fun t ht => .literal ht
  | name n span => exact (load_added h).mono fun t ht => .name ht
  | field object name span =>
    simp only [expr, constantPath?_eq] at h
    simp only [exprLiterals]
    cases hp : c.pathConstant? d.declared (.field object name span) with
    | some v =>
      simp only [hp] at h
      obtain ⟨i, rfl, hl⟩ := literal_added (c := c) h
      exact hl.mono fun t ht => .constantPath hp ht
    | none =>
      simp only [hp] at h
      obtain ⟨⟨first, d₁⟩, h₁, h⟩ := bind_eq_ok.1 h
      obtain ⟨⟨i, d₂⟩, h₂, h⟩ := bind_eq_ok.1 h
      obtain ⟨rfl, rfl⟩ := Prod.mk.inj (Except.ok.inj h)
      have ho := expr_added h₁
      have hf := addField_added (c := c) h₂
      rw [ho.declared] at hf
      exact ((ho.trans hf).mono fun t ht => .field hp ht.1 ht.2).of_eq (List.append_nil _)
  | call function args span =>
    simp only [expr] at h
    cases hf : c.symbols.function function with
    | none => simp [hf] at h
    | some native =>
      simp only [hf] at h
      split at h
      · next hn =>
        obtain ⟨⟨first, d₁⟩, h₁, h⟩ := bind_eq_ok.1 h
        obtain ⟨⟨i, d₂⟩, h₂, h⟩ := bind_eq_ok.1 h
        obtain ⟨rfl, rfl⟩ := Prod.mk.inj (Except.ok.inj h)
        have ha := arguments_added h₁
        have hc := addFunction_added hf h₂
        rw [ha.declared] at hc
        exact ((ha.trans hc).mono fun t ht => .call hf hn ht.1 ht.2).of_eq (List.append_nil _)
      · cases h
  | unary op operand span =>
    simp only [expr] at h
    obtain ⟨⟨first, d₁⟩, h₁, h⟩ := bind_eq_ok.1 h
    obtain ⟨rfl, rfl⟩ := Prod.mk.inj (Except.ok.inj h)
    exact (expr_added h₁).mono fun t ht => .unary ht
  | binary op left right span =>
    cases op with
    | strict op =>
      simp only [expr] at h
      obtain ⟨⟨first, d₁⟩, h₁, h⟩ := bind_eq_ok.1 h
      obtain ⟨⟨second, d₂⟩, h₂, h⟩ := bind_eq_ok.1 h
      obtain ⟨rfl, rfl⟩ := Prod.mk.inj (Except.ok.inj h)
      have hl := expr_added h₁
      have hr := expr_added h₂
      rw [hl.declared] at hr
      exact (hl.trans hr).mono fun t ht => .strict ht.1 ht.2
    | and =>
      simp only [expr] at h
      obtain ⟨⟨first, d₁⟩, h₁, h⟩ := bind_eq_ok.1 h
      obtain ⟨⟨second, d₂⟩, h₂, h⟩ := bind_eq_ok.1 h
      obtain ⟨⟨yes, d₃⟩, h₃, h⟩ := bind_eq_ok.1 h
      obtain ⟨toNo, hto, h⟩ := bind_eq_ok.1 h
      obtain ⟨⟨no, d₄⟩, h₄, h⟩ := bind_eq_ok.1 h
      obtain ⟨rfl, rfl⟩ := Prod.mk.inj (Except.ok.inj h)
      have hl := expr_added h₁
      have hr := expr_added h₂
      obtain ⟨i, rfl, hy⟩ := literal_added (c := c) h₃
      obtain ⟨j, rfl, hn⟩ := literal_added (c := c) h₄
      rw [hl.declared] at hr
      rw [hr.declared] at hy
      rw [hy.declared] at hn
      refine ((hl.trans (hr.trans (hy.trans hn))).mono fun t ht => ?_).of_eq (by simp [exprLiterals])
      exact .and ht.1 ht.2.1 (distance_eq_ok hto) ht.2.2.1 ht.2.2.2
    | or =>
      simp only [expr] at h
      obtain ⟨⟨first, d₁⟩, h₁, h⟩ := bind_eq_ok.1 h
      obtain ⟨⟨yes, d₂⟩, h₂, h⟩ := bind_eq_ok.1 h
      obtain ⟨⟨second, d₃⟩, h₃, h⟩ := bind_eq_ok.1 h
      obtain ⟨⟨yes', d₄⟩, h₄, h⟩ := bind_eq_ok.1 h
      obtain ⟨⟨no, d₅⟩, h₅, h⟩ := bind_eq_ok.1 h
      obtain ⟨toEnd, hto, h⟩ := bind_eq_ok.1 h
      obtain ⟨rfl, rfl⟩ := Prod.mk.inj (Except.ok.inj h)
      have hl := expr_added h₁
      have hr := expr_added h₃
      obtain ⟨i, rfl, hy⟩ := literal_added (c := c) h₂
      obtain ⟨j, rfl, hy'⟩ := literal_added (c := c) h₄
      obtain ⟨k, rfl, hn⟩ := literal_added (c := c) h₅
      rw [hl.declared] at hy
      rw [hy.declared] at hr
      rw [hr.declared] at hy'
      rw [hy'.declared] at hn
      refine ((hl.trans (hy.trans (hr.trans (hy'.trans hn)))).mono fun t ht => ?_).of_eq (by simp [exprLiterals])
      exact .or ht.1 ht.2.2.1 (distance_eq_ok hto) ht.2.1 ht.2.2.2.1 ht.2.2.2.2
  | conditional condition yes no span =>
    simp only [expr] at h
    obtain ⟨⟨test, d₁⟩, h₁, h⟩ := bind_eq_ok.1 h
    obtain ⟨⟨first, d₂⟩, h₂, h⟩ := bind_eq_ok.1 h
    obtain ⟨toNo, hto, h⟩ := bind_eq_ok.1 h
    obtain ⟨⟨second, d₃⟩, h₃, h⟩ := bind_eq_ok.1 h
    obtain ⟨toEnd, hto', h⟩ := bind_eq_ok.1 h
    obtain ⟨rfl, rfl⟩ := Prod.mk.inj (Except.ok.inj h)
    have hc := expr_added h₁
    have hy := expr_added h₂
    have hn := expr_added h₃
    rw [hc.declared] at hy
    rw [hy.declared] at hn
    refine ((hc.trans (hy.trans hn)).mono fun t ht => ?_).of_eq (by simp [exprLiterals])
    exact .conditional ht.1 ht.2.1 ht.2.2 (distance_eq_ok hto) (distance_eq_ok hto')
termination_by structural e

theorem arguments_added {c : Compiler} {es : List Expr} {d d' : Draft} {code : List Op}
    (h : c.arguments es d = .ok (code, d')) :
    Added c (c.argLiterals d.declared es) d.declared (fun t => ArgCode c t d.declared es code) d d' := by
  cases es with
  | nil =>
    obtain ⟨rfl, rfl⟩ := Prod.mk.inj (Except.ok.inj h)
    exact Added.refl c d fun t => .nil
  | cons e rest =>
    simp only [arguments] at h
    obtain ⟨⟨first, d₁⟩, h₁, h⟩ := bind_eq_ok.1 h
    obtain ⟨⟨others, d₂⟩, h₂, h⟩ := bind_eq_ok.1 h
    obtain ⟨rfl, rfl⟩ := Prod.mk.inj (Except.ok.inj h)
    have he := expr_added h₁
    have hr := arguments_added h₂
    rw [he.declared] at hr
    exact (he.trans hr).mono fun t ht => .cons ht.1 ht.2
termination_by structural es

end

theorem declaredType_added {c : Compiler} {type : Option String} {span : Span} {d d' : Draft}
    {k : Option UInt16} (h : c.declaredType type span d = .ok (k, d')) :
    Added c [] d.declared (fun t => TypeIndex c t type k) d d' := by
  cases type with
  | none =>
    obtain ⟨rfl, rfl⟩ := Prod.mk.inj (Except.ok.inj h)
    exact Added.refl c d fun t => .untyped
  | some name =>
    simp only [declaredType] at h
    cases ht : c.symbols.type name with
    | none => simp [ht] at h
    | some type =>
      simp only [ht] at h
      obtain ⟨⟨i, d₁⟩, hn, he⟩ := map_eq_ok.1 h
      obtain ⟨rfl, rfl⟩ := Prod.mk.inj he
      exact (addType_added hn).mono fun t hi => .typed ht hi

def initialCode (c : Compiler) (value : Option Expr) (d : Draft) : Compiled :=
  match value with
  | some value => c.expr value d
  | none => d.literal .null

theorem stmt_declare (c : Compiler) (name : String) (type : Option String) (value : Option Expr) (span : Span)
    (d : Draft) :
    c.stmt (.declare name type value span) d = do
      let (type, d) ← c.declaredType type span d
      let (code, d) ← c.initialCode value d
      let (i, d) ← d.add (d.addName name)
      return (code ++ [.declare i type], { d with declared := name :: d.declared }) := by
  cases value <;> rfl

theorem initial_added {c : Compiler} {value : Option Expr} {d d' : Draft} {code : List Op}
    (h : c.initialCode value d = .ok (code, d')) :
    Added c (c.initialLiterals d.declared value) d.declared (fun t => InitialCode c t d.declared value code)
      d d' := by
  cases value with
  | some e => exact (expr_added h).mono fun t ht => .value ht
  | none =>
    obtain ⟨i, rfl, hl⟩ := literal_added (c := c) h
    exact hl.mono fun t ht => .null ht

mutual

theorem stmt_added {c : Compiler} {s : Stmt} {d d' : Draft} {code : List Op} (h : c.stmt s d = .ok (code, d')) :
    Added c (c.stmtLiterals d.declared s) (s.declaring d.declared) (fun t => StmtCode c t d.declared s code)
      d d' := by
  cases s with
  | expr e =>
    simp only [stmt] at h
    obtain ⟨⟨code, d₁⟩, h₁, h⟩ := bind_eq_ok.1 h
    obtain ⟨rfl, rfl⟩ := Prod.mk.inj (Except.ok.inj h)
    exact (expr_added h₁).mono fun t ht => .expr ht
  | assign target op value span =>
    cases op with
    | set =>
      simp only [stmt] at h
      obtain ⟨⟨code, d₁⟩, h₁, h⟩ := bind_eq_ok.1 h
      obtain ⟨⟨write, d₂⟩, h₂, h⟩ := bind_eq_ok.1 h
      obtain ⟨rfl, rfl⟩ := Prod.mk.inj (Except.ok.inj h)
      have hv := expr_added h₁
      have hw := store_added h₂
      rw [hv.declared] at hw
      exact ((hv.trans hw).mono fun t ht => .set ht.1 ht.2).of_eq (List.append_nil _)
    | update op =>
      simp only [stmt] at h
      obtain ⟨⟨old, d₁⟩, h₁, h⟩ := bind_eq_ok.1 h
      obtain ⟨⟨code, d₂⟩, h₂, h⟩ := bind_eq_ok.1 h
      obtain ⟨⟨write, d₃⟩, h₃, h⟩ := bind_eq_ok.1 h
      obtain ⟨rfl, rfl⟩ := Prod.mk.inj (Except.ok.inj h)
      have hn := load_added h₁
      have hv := expr_added h₂
      have hw := store_added h₃
      rw [hn.declared] at hv
      rw [hv.declared] at hw
      refine ((hn.trans (hv.trans hw)).mono fun t ht => ?_).of_eq (by simp [stmtLiterals])
      exact .update ht.1 ht.2.1 ht.2.2
  | declare name type value span =>
    rw [stmt_declare] at h
    obtain ⟨⟨k, d₁⟩, h₁, h⟩ := bind_eq_ok.1 h
    obtain ⟨⟨code, d₂⟩, h₂, h⟩ := bind_eq_ok.1 h
    obtain ⟨⟨i, d₃⟩, h₃, h⟩ := bind_eq_ok.1 h
    obtain ⟨rfl, rfl⟩ := Prod.mk.inj (Except.ok.inj h)
    have ht := declaredType_added h₁
    have hv := initial_added h₂
    have hn := addName_added (c := c) h₃
    rw [ht.declared] at hv
    rw [hv.declared] at hn
    have hall := (ht.trans (hv.trans hn)).redeclare (name :: d.declared)
    rw [hn.declared]
    refine (hall.mono fun t ht => ?_).of_eq (by simp [stmtLiterals])
    exact .declare ht.2.1 ht.1 ht.2.2
  | branch condition yes no =>
    cases no with
    | none =>
      simp only [stmt] at h
      obtain ⟨⟨test, d₁⟩, h₁, h⟩ := bind_eq_ok.1 h
      obtain ⟨⟨first, d₂⟩, h₂, h⟩ := bind_eq_ok.1 h
      obtain ⟨toEnd, hto, h⟩ := bind_eq_ok.1 h
      obtain ⟨rfl, rfl⟩ := Prod.mk.inj (Except.ok.inj h)
      have hc := expr_added h₁
      obtain ⟨body, rfl, hy⟩ := block_added h₂
      rw [hc.declared] at hy
      exact (hc.trans hy).mono fun t ht => .branch ht.1 ht.2 (distance_eq_ok hto)
    | some no =>
      simp only [stmt] at h
      obtain ⟨⟨test, d₁⟩, h₁, h⟩ := bind_eq_ok.1 h
      obtain ⟨⟨first, d₂⟩, h₂, h⟩ := bind_eq_ok.1 h
      obtain ⟨toNo, hto, h⟩ := bind_eq_ok.1 h
      obtain ⟨⟨second, d₃⟩, h₃, h⟩ := bind_eq_ok.1 h
      obtain ⟨toEnd, hto', h⟩ := bind_eq_ok.1 h
      obtain ⟨rfl, rfl⟩ := Prod.mk.inj (Except.ok.inj h)
      have hc := expr_added h₁
      obtain ⟨body, rfl, hy⟩ := block_added h₂
      obtain ⟨body', rfl, hn⟩ := block_added h₃
      rw [hc.declared] at hy
      rw [hy.declared] at hn
      refine ((hc.trans (hy.trans hn)).mono fun t ht => ?_).of_eq (by simp [stmtLiterals])
      exact .branchElse ht.1 ht.2.1 ht.2.2 (distance_eq_ok hto) (distance_eq_ok hto')
  | ret value =>
    cases value with
    | some value =>
      simp only [stmt] at h
      obtain ⟨⟨code, d₁⟩, h₁, h⟩ := bind_eq_ok.1 h
      obtain ⟨rfl, rfl⟩ := Prod.mk.inj (Except.ok.inj h)
      exact (expr_added h₁).mono fun t ht => .ret ht
    | none =>
      obtain ⟨rfl, rfl⟩ := Prod.mk.inj (Except.ok.inj h)
      exact Added.refl c d fun t => .halt
termination_by structural s

theorem block_added {c : Compiler} {ss : List Stmt} {d d' : Draft} {done : List (List Op)} {code : List Op}
    (h : c.block ss d done = .ok (code, d')) :
    ∃ body, code = done.reverse.flatten ++ body ∧
      Added c (c.literals d.declared ss) (declaringAll d.declared ss)
        (fun t => BlockCode c t d.declared ss body) d d' := by
  cases ss with
  | nil =>
    obtain ⟨rfl, rfl⟩ := Prod.mk.inj (Except.ok.inj h)
    exact ⟨[], by simp, Added.refl c d fun t => .nil⟩
  | cons s rest =>
    simp only [block] at h
    obtain ⟨⟨first, d₁⟩, h₁, h⟩ := bind_eq_ok.1 h
    have hs := stmt_added h₁
    obtain ⟨others, rfl, hr⟩ := block_added h
    rw [hs.declared] at hr
    exact ⟨first ++ others, by simp, (hs.trans hr).mono fun t ht => .cons ht.1 ht.2⟩
termination_by structural ss

end

end Compiler

end FactFold.Script
