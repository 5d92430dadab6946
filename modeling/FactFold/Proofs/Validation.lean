import FactFold.Proofs.Slots

namespace FactFold

namespace Plan

structure Consistent (p : Plan) : Prop where
  typed : p.inputs.length = p.inputTypes.length
  indexed : p.inputs.length ≤ UInt16.size
  once : p.inputs.Nodup
  apart : ∀ b ∈ p.previous, ∀ b' ∈ p.locals, b.id ≠ b'.id
  -- A fact may stand in front of the names that the inputs end with.
  named : p.inputs = p.named ∨ ∃ fact, p.inputs = fact :: p.named

end Plan

structure SlotLayout.Covers (l : SlotLayout) (p : Plan) : Prop where
  fact : l.length .fact ≤ 1
  engine : l.length .engine = p.engine.length
  globals : l.length .globals = p.globals.length
  previous : l.length .previous = p.previous.length
  locals : l.length .locals = p.locals.length
  other : l.length .other = p.others.length
  first : l.start .fact = 0
  adjacent : List.IsChain (fun s t => l.stop s = l.start t) Segment.all
  last : l.stop .other = p.inputs.length
  hasFact : l.hasFact = true ↔ ∃ fact, p.inputs = fact :: p.named

theorem repeated?_of_nodup {seen names : List String} (h : names.Nodup) (hseen : ∀ n ∈ names, n ∉ seen) :
    repeated? seen names = none := by
  induction names generalizing seen with
  | nil => rfl
  | cons n names ih =>
    obtain ⟨hn, hnames⟩ := List.nodup_cons.1 h
    have hfresh : seen.contains n = false := by simpa using hseen n List.mem_cons_self
    have hrest : ∀ m ∈ names, m ∉ n :: seen := by
      intro m hm hmem
      rcases List.mem_cons.1 hmem with rfl | hmem
      · exact hn hm
      · exact hseen m (List.mem_cons_of_mem n hm) hmem
    rw [repeated?, hfresh]
    exact ih hnames hrest

theorem mismatch?_self (slot : Nat) (names : List String) : mismatch? slot names names = none := by
  induction names generalizing slot with
  | nil => rfl
  | cons n names ih => rw [mismatch?, if_pos rfl, ih]

namespace Plan

variable {p : Plan} {l : SlotLayout}

theorem find?_shared :
    (p.previous.find? fun b => p.locals.any (·.id == b.id)) = none ↔
      ∀ b ∈ p.previous, ∀ b' ∈ p.locals, b.id ≠ b'.id := by
  simp only [List.find?_eq_none, List.any_eq_true, beq_iff_eq, not_exists, not_and]
  exact forall₄_congr fun _ _ _ _ => ne_comm

theorem length_named : p.named.length =
    p.engine.length + p.globals.length + p.previous.length + p.locals.length + p.others.length := by
  simp only [named, List.length_append, List.length_map]

theorem layout_named (h : p.layout = .ok l) :
    l.fact = 0 ∧ p.inputs = p.named ∨ l.fact = 1 ∧ ∃ fact, p.inputs = fact :: p.named := by
  obtain ⟨-, hone, hinputs, hle, -⟩ := layout_eq_ok h
  rcases Nat.le_one_iff_eq_zero_or_eq_one.1 hone with hfact | hfact <;> rw [hfact] at hinputs hle
  · exact .inl ⟨hfact, hinputs⟩
  · obtain ⟨fact, rest, hcons⟩ := List.exists_cons_of_length_pos hle
    rw [hcons] at hinputs ⊢
    exact .inr ⟨hfact, fact, hinputs⟩

theorem exists_layout (hindexed : p.inputs.length ≤ UInt16.size)
    (hnamed : p.inputs = p.named ∨ ∃ fact, p.inputs = fact :: p.named) : ∃ l, p.layout = .ok l := by
  unfold layout
  dsimp only
  rw [if_neg (Nat.not_lt.2 hindexed)]
  rcases hnamed with h | ⟨fact, h⟩
  · rw [h, if_neg (by omega), Nat.sub_self, List.drop_zero, mismatch?_self]
    exact ⟨_, rfl⟩
  · have hone : (fact :: p.named).length - p.named.length = 1 := by rw [List.length_cons]; omega
    rw [h, if_neg (by rw [List.length_cons]; omega), hone, List.drop_one, List.tail_cons, mismatch?_self]
    exact ⟨_, rfl⟩

theorem layout_covers (h : p.layout = .ok l) : l.Covers p := by
  obtain ⟨-, hone, -, -, he, hg, hp, hl, ho⟩ := layout_eq_ok h
  have hadjacent : List.IsChain (fun s t => l.stop s = l.start t) Segment.all := by
    simp [Segment.all, SlotLayout.stop, SlotLayout.start, SlotLayout.length]
  have hlast : l.stop .other = l.fact + p.named.length := by
    rw [length_named, ← he, ← hg, ← hp, ← hl, ← ho]
    simp only [SlotLayout.stop, SlotLayout.start, SlotLayout.length]
    omega
  refine ⟨hone, he, hg, hp, hl, ho, rfl, hadjacent, ?_, ?_⟩
  · rcases layout_named h with ⟨hfact, hinputs⟩ | ⟨hfact, fact, hinputs⟩
    · rw [hlast, hfact, hinputs, Nat.zero_add]
    · rw [hlast, hfact, hinputs, List.length_cons, Nat.add_comm]
  · rw [SlotLayout.hasFact, beq_iff_eq]
    rcases layout_named h with ⟨hfact, hinputs⟩ | ⟨hfact, hinputs⟩
    · rw [hfact, hinputs]
      constructor
      · intro hone
        cases hone
      · rintro ⟨fact, hcons⟩
        exact absurd hcons.symm (List.cons_ne_self fact p.named)
    · exact ⟨fun _ => hinputs, fun _ => hfact⟩

theorem validate_iff : p.validate = .ok l ↔
    p.inputs.length = p.inputTypes.length ∧ p.inputs.Nodup ∧
      (∀ b ∈ p.previous, ∀ b' ∈ p.locals, b.id ≠ b'.id) ∧ p.layout = .ok l := by
  constructor
  · intro h
    obtain ⟨hnodup, htyped, hlayout⟩ := validate_eq_ok h
    refine ⟨htyped, hnodup, ?_, hlayout⟩
    unfold validate at h
    rw [if_neg (not_not.2 htyped), repeated?_of_nodup hnodup (by simp)] at h
    dsimp only at h
    split at h
    · cases h
    · next hnone => exact find?_shared.1 hnone
  · rintro ⟨htyped, hnodup, hapart, hlayout⟩
    unfold validate
    rw [if_neg (not_not.2 htyped), repeated?_of_nodup hnodup (by simp)]
    dsimp only
    rw [find?_shared.2 hapart]
    exact hlayout

theorem validate_exact (p : Plan) :
    ((∃ l, p.validate = .ok l) ↔ p.Consistent) ∧ ∀ l, p.validate = .ok l → l.Covers p := by
  refine ⟨⟨?_, ?_⟩, fun l h => layout_covers (validate_iff.1 h).2.2.2⟩
  · rintro ⟨l, h⟩
    obtain ⟨htyped, hnodup, hapart, hlayout⟩ := validate_iff.1 h
    refine ⟨htyped, (layout_eq_ok hlayout).1, hnodup, hapart, ?_⟩
    exact (layout_named hlayout).imp And.right And.right
  · intro h
    obtain ⟨l, hlayout⟩ := exists_layout h.indexed h.named
    exact ⟨l, validate_iff.2 ⟨h.typed, h.once, h.apart, hlayout⟩⟩

theorem validate_exact_order : orderPlan.validate = .ok ⟨1, 1, 1, 1, 1, 1⟩ ∧ orderPlan.Consistent ∧
    SlotLayout.Covers ⟨1, 1, 1, 1, 1, 1⟩ orderPlan :=
  have h : orderPlan.validate = .ok ⟨1, 1, 1, 1, 1, 1⟩ := by decide
  ⟨h, (validate_exact orderPlan).1.1 ⟨_, h⟩, (validate_exact orderPlan).2 _ h⟩

end Plan

end FactFold
