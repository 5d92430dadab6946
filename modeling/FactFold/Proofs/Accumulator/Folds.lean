import FactFold.Proofs.Accumulator.Invertible

namespace FactFold

open Script

namespace Shifted

variable {names keys : List String} {f g f' : Int → Int → Int} {n m n' : String → Int}
  {vars vars' vars'' : List Value}

theorem refl (h : ∀ x ∈ keys, ∃ m, namedValue? names vars x = some (.int m)) :
    Shifted names keys (· + ·) 0 vars vars where
  moved x hx := by
    obtain ⟨i, hi⟩ := h x hx
    exact ⟨i, i, hi, hi, (Int.add_zero _).symm⟩
  kept _ _ := rfl

theorem ints (h : Shifted names keys f n vars vars') :
    ∀ x ∈ keys, ∃ m, namedValue? names vars' x = some (.int m) := by
  intro x hx
  obtain ⟨-, i, -, hi, -⟩ := h.moved x hx
  exact ⟨i, hi⟩

theorem trans (h : Shifted names keys f n vars vars') (h' : Shifted names keys g m vars' vars'')
    (hf : ∀ x i, g (f i (n x)) (m x) = f' i (n' x)) : Shifted names keys f' n' vars vars'' where
  moved x hx := by
    obtain ⟨i, j, hi, hj, hij⟩ := h.moved x hx
    obtain ⟨j', k, hj', hk, hjk⟩ := h'.moved x hx
    obtain rfl : j = j' := by simpa [hj] using hj'
    exact ⟨i, k, hi, hk, by rw [hjk, hij, hf]⟩
  kept x hx := (h'.kept x hx).trans (h.kept x hx)

theorem unique (hn : names.Nodup) (hl : vars'.length = names.length) (hl' : vars''.length = names.length)
    (h : Shifted names keys f n vars vars') (h' : Shifted names keys f n vars vars'') : vars' = vars'' := by
  apply vars_ext hn hl hl'
  intro x _
  by_cases hx : x ∈ keys
  · obtain ⟨i, j, hi, hj, hij⟩ := h.moved x hx
    obtain ⟨i', j', hi', hj', hij'⟩ := h'.moved x hx
    obtain rfl : i = i' := by simpa [hi] using hi'
    have hj'' : j = j' := Int64.toInt_inj.1 (hij.trans hij'.symm)
    rw [hj, hj', hj'']
  · rw [h.kept x hx, h'.kept x hx]

end Shifted

namespace CompiledUnit

def payloadAddend (r : Registry) (u : CompiledUnit) (pairs : Entries String Expr) (tuple : List Fact)
    (memory : Memory) (v : Value) : String → Int :=
  match u.context (some ⟨0, v⟩) tuple memory (List.replicate u.layout.other .null) with
  | .ok k => u.addend r pairs k
  | .error _ => 0

def Integers (r : Registry) (u : CompiledUnit) (pairs : Entries String Expr) (tuple : List Fact)
    (memory : Memory) (v : Value) : Prop :=
  ∀ id vars k, u.context (some ⟨id, v⟩) tuple memory vars = .ok k →
    ∀ pair ∈ pairs, ∃ n, u.value r k pair.2 = .ok (.int n)

variable {r : Registry} {u : CompiledUnit} {pairs : Entries String Expr} {tuple : List Fact} {memory : Memory}
  {fact : Fact}

theorem Updating.payload_value {names : List String} {op : ArithOp} (hu : u.Updating r names op pairs)
    (hi : u.Integers r pairs tuple memory fact.value) {vars : List Value} {k : Context}
    (hk : u.context (some fact) tuple memory vars = .ok k) :
    ∀ pair ∈ pairs, ∃ m : Int64, u.value r k pair.2 = .ok (.int m) ∧
      m.toInt = u.payloadAddend r pairs tuple memory fact.value pair.1 := by
  obtain ⟨front, hsplits, hother⟩ := hu.valid.context hk
  obtain ⟨k₀, hk₀, hsplits₀⟩ := hother (List.replicate u.layout.other .null) List.length_replicate
  have hk₀ : u.context (some ⟨0, fact.value⟩) tuple memory (List.replicate u.layout.other .null) = .ok k₀ := hk₀
  intro pair hpair
  obtain ⟨m, hm, hadd⟩ := addend_eq hu.updatable.distinct (hi 0 _ k₀ hk₀) pair hpair
  refine ⟨m, ?_, ?_⟩
  · rw [hu.valid.value_front hsplits hsplits₀ (hu.updatable.within pair hpair), hm]
  · rw [hadd, payloadAddend, hk₀]

end CompiledUnit

end FactFold
