import FactFold.Proofs.Accumulator.Invertible
import FactFold.Proofs.Entries

/-!
An accumulator whose action adds to its variables and whose reversal takes the same away keeps them exact:
they are what the last `reset` left and what the folds since then have added that are not undone, whatever
the order of the calls and whatever has changed around the group in between.
-/

namespace FactFold

open Script

/-- A course of calls that work: `start` is the group that the last `reset` left, with an integer in every
variable that is added to, `pending` has the folds since then that are not undone, each with what it added,
and the last group is the one now. A fact is folded only if it is not folded yet, and only integers are added.
The tuple, the memory and the payloads may be others in every call. -/
inductive Course (r : Registry) (a : Accumulator) (units : CompiledUnits) (pairs : Entries String Expr) :
    Group → Entries UInt64 (String → Int) → Group → Prop where
  | reset {g start : Group} (before : Reachable a g) (tuple : List Fact) (memory : Memory)
      (call : a.reset g tuple memory = (.ok (), start))
      (ints : ∀ x ∈ pairs.map Prod.fst, ∃ n, start.value? x = some (.int n)) :
      Course r a units pairs start [] start
  | accumulate {start g g' : Group} {pending : Entries UInt64 (String → Int)} {k : Context}
      (before : Course r a units pairs start pending g) (tuple : List Fact) (fact : Fact) (memory : Memory)
      (fresh : g.snapshot? fact.id = none)
      (context : units.action.context (some fact) tuple memory g.vars = .ok k)
      (ints : ∀ pair ∈ pairs, ∃ n, units.action.value r k pair.2 = .ok (.int n))
      (call : a.accumulate g tuple fact memory = (.ok (), g')) :
      Course r a units pairs start (pending.put fact.id (units.action.addend r pairs k)) g'
  | reverseFold {start g g' : Group} {pending : Entries UInt64 (String → Int)}
      (before : Course r a units pairs start pending g) (fact : Fact)
      (call : a.reverseFold g fact = (.ok (), g')) :
      Course r a units pairs start (pending.erase fact.id) g'

theorem Course.reachable {r : Registry} {a : Accumulator} {units : CompiledUnits} {pairs : Entries String Expr}
    {start g : Group} {pending : Entries UInt64 (String → Int)} (h : Course r a units pairs start pending g) :
    Reachable a g := by
  induction h with
  | reset before tuple memory call _ =>
    have h := before.reset tuple memory
    rwa [call] at h
  | accumulate _ tuple fact memory _ _ _ call ih =>
    have h := ih.accumulate tuple fact memory
    rwa [call] at h
  | reverseFold _ fact call ih =>
    have h := ih.reverseFold fact
    rwa [call] at h

def total (pending : Entries UInt64 (String → Int)) (x : String) : Int :=
  (pending.map fun fold => fold.2 x).sum

theorem total_put {pending : Entries UInt64 (String → Int)} {id : UInt64} (h : pending.get? id = none)
    (n : String → Int) (x : String) : total (pending.put id n) x = total pending x + n x :=
  Entries.weigh_put_of_none (fun n : String → Int => n x) h n

theorem total_erase {pending : Entries UInt64 (String → Int)} {id : UInt64} {n : String → Int}
    (h : pending.get? id = some n) (x : String) : total (pending.erase id) x = total pending x - n x :=
  Entries.weigh_erase (fun n : String → Int => n x) h

structure Tracks (r : Registry) (a : Accumulator) (units : CompiledUnits) (pairs : Entries String Expr)
    (start : Group) (pending : Entries UInt64 (String → Int)) (g : Group) : Prop where
  names : start.identifiers = a.init.others
  lengths : start.vars.length = a.init.others.length ∧ g.vars.length = a.init.others.length
  sums : ∀ x ∈ pairs.map Prod.fst, ∃ n m : Int64, start.value? x = some (.int n) ∧ g.value? x = some (.int m) ∧
    m.toInt = n.toInt + total pending x
  kept : ∀ x, x ∉ pairs.map Prod.fst → g.value? x = start.value? x
  facts : ∃ s, g.snapshots = some s ∧ s.map Prod.fst = pending.map Prod.fst
  contexts : ∀ id k, g.snapshot? id = some k →
    ∃ n, pending.get? id = some n ∧ FoldedWith r units.action pairs k n

section

variable {config : Config} {r : Registry} {a : Accumulator} {units : CompiledUnits} {reverse : CompiledUnit}
  {pairs back : Entries String Expr} {start g g' : Group} {pending : Entries UInt64 (String → Int)}

theorem value?_eq (h : g.identifiers = a.init.others) (x : String) :
    g.value? x = namedValue? a.init.others g.vars x := by
  rw [Group.value?, h]
  rfl

theorem Tracks.reset (h : Invertible config r a units reverse pairs back) {tuple : List Fact} {memory : Memory}
    (hg : g.Sound a) (hcall : a.reset g tuple memory = (.ok (), g'))
    (hints : ∀ x ∈ pairs.map Prod.fst, ∃ n, g'.value? x = some (.int n)) : Tracks r a units pairs g' [] g' := by
  obtain ⟨-, hinit, -, -⟩ := Accumulator.units_eq_ok h.made
  obtain ⟨hplan, hvalid, -⟩ := CompiledUnit.compile_eq_ok hinit
  rcases Accumulator.reset_cases a g tuple memory with ⟨e, he⟩ | ⟨units', k, v, left, hu, hk, hrun, hr⟩
  · simp [he] at hcall
  · obtain rfl : units = units' := Option.some.inj (h.compiled.symm.trans hu)
    obtain rfl : g.cleared left.others = g' := by simpa [hr] using hcall
    obtain ⟨front, hsplits, -⟩ := hvalid.context hk
    have hlength : left.others.length = a.init.others.length := by
      have hlength := CompiledUnit.run_others_length hsplits
      rw [hrun] at hlength
      rw [hlength, hvalid.layout_other, hplan]
    obtain ⟨s, hs⟩ := Option.isSome_iff_exists.1 (hg.kept.trans h.isReversible)
    refine ⟨hg.names, ⟨hlength, hlength⟩, ?_, fun _ _ => rfl, ⟨[], by rw [Group.cleared, hs]; rfl, rfl⟩, ?_⟩
    · intro x hx
      obtain ⟨n, hn⟩ := hints x hx
      exact ⟨n, n, hn, hn, by simp [total]⟩
    · intro id k hk
      simp [Group.cleared, Group.snapshot?, hs, Entries.get?] at hk

theorem Tracks.ints (ht : Tracks r a units pairs start pending g) (hg : g.Sound a) :
    ∀ x ∈ pairs.map Prod.fst, ∃ m, namedValue? a.init.others g.vars x = some (.int m) := by
  intro x hx
  obtain ⟨n, m, -, hm, -⟩ := ht.sums x hx
  exact ⟨m, by rw [← value?_eq hg.names, hm]⟩

theorem Tracks.shifted (ht : Tracks r a units pairs start pending g) (hg : g.Sound a) (hg' : g'.Sound a)
    {f : Int → Int → Int} {n : String → Int} (pending' : Entries UInt64 (String → Int))
    (hshift : Shifted a.init.others (pairs.map Prod.fst) f n g.vars g'.vars)
    (htotal : ∀ x y, f (y + total pending x) (n x) = y + total pending' x) :
    (∀ x ∈ pairs.map Prod.fst, ∃ n m : Int64, start.value? x = some (.int n) ∧ g'.value? x = some (.int m) ∧
      m.toInt = n.toInt + total pending' x) ∧ ∀ x, x ∉ pairs.map Prod.fst → g'.value? x = start.value? x := by
  constructor
  · intro x hx
    obtain ⟨n₀, m, hn₀, hm, hsum⟩ := ht.sums x hx
    obtain ⟨m₁, m', hm₁, hm', hf⟩ := hshift.moved x hx
    rw [value?_eq hg.names, hm₁] at hm
    obtain rfl : m₁ = m := by simpa using hm
    exact ⟨n₀, m', hn₀, by rw [value?_eq hg'.names, hm'], by rw [hf, hsum, htotal]⟩
  · intro x hx
    rw [value?_eq hg'.names, hshift.kept x hx, ← value?_eq hg.names, ht.kept x hx]

theorem Tracks.accumulate (h : Invertible config r a units reverse pairs back) {tuple : List Fact} {fact : Fact}
    {memory : Memory} {k : Context} (ht : Tracks r a units pairs start pending g) (hg : g.Sound a)
    (hfresh : g.snapshot? fact.id = none) (hk : units.action.context (some fact) tuple memory g.vars = .ok k)
    (hints : ∀ pair ∈ pairs, ∃ n, units.action.value r k pair.2 = .ok (.int n))
    (hcall : a.accumulate g tuple fact memory = (.ok (), g')) (hg' : g'.Sound a) :
    Tracks r a units pairs start (pending.put fact.id (units.action.addend r pairs k)) g' := by
  have hadds : ∀ k', units.action.context (some fact) tuple memory g.vars = .ok k' → ∀ pair ∈ pairs,
      ∃ m : Int64, units.action.value r k' pair.2 = .ok (.int m) ∧ m.toInt = units.action.addend r pairs k pair.1 := by
    intro k' hk'
    obtain rfl : k = k' := Except.ok.inj (hk.symm.trans hk')
    exact addend_eq h.distinct hints
  obtain ⟨left, rfl, hlength, hfolded, hshift⟩ :=
    accumulate_ok h.inverse.adds h.compiled hadds (ht.ints hg) hcall
  obtain ⟨s, hs, hkeys⟩ := ht.facts
  have hnone : pending.get? fact.id = none := by
    rw [Entries.get?_eq_none_iff, ← hkeys, ← Entries.get?_eq_none_iff]
    simpa [Group.snapshot?, hs] using hfresh
  obtain ⟨hsums, hkept⟩ := ht.shifted hg hg' (pending.put fact.id (units.action.addend r pairs k)) hshift
    fun x y => by rw [total_put hnone, Int.add_assoc]
  refine ⟨ht.names, ⟨ht.lengths.1, hlength⟩, hsums, hkept, ⟨s.put fact.id left, ?_, ?_⟩, ?_⟩
  · simp [Group.remember, hs]
  · rw [Entries.keys_put, Entries.keys_put, hkeys]
  · intro id k' hk'
    rw [Entries.get?_put]
    by_cases hid : id = fact.id
    · subst hid
      have hleft : (g.remember fact.id left).snapshot? fact.id = some left :=
        Group.snapshot?_remember (by rw [hs]; rfl)
      obtain rfl : left = k' := Option.some.inj (hleft.symm.trans hk')
      exact ⟨_, if_pos rfl, hfolded⟩
    · rw [if_neg hid]
      exact ht.contexts id k' ((Group.snapshot?_remember_of_ne hid).symm.trans hk')

theorem Tracks.reverseFold (h : Invertible config r a units reverse pairs back) {fact : Fact}
    (ht : Tracks r a units pairs start pending g) (hg : g.Sound a) (hcall : a.reverseFold g fact = (.ok (), g'))
    (hg' : g'.Sound a) : Tracks r a units pairs start (pending.erase fact.id) g' := by
  obtain ⟨k, vars', hs, rfl, htaken⟩ := h.inverse.reverseFold_ok (ht.ints hg) hcall
  obtain ⟨n, hpending, hfolded⟩ := ht.contexts fact.id k hs
  obtain ⟨hlength, hshift⟩ := htaken n hfolded
  obtain ⟨s, hsome, hids⟩ := ht.facts
  obtain ⟨hsums, hkept⟩ := ht.shifted hg hg' (pending.erase fact.id) hshift fun x y => by
    rw [total_erase hpending]
    omega
  refine ⟨ht.names, ⟨ht.lengths.1, hlength⟩, hsums, hkept, ⟨s.erase fact.id, ?_, ?_⟩, ?_⟩
  · simp [Group.forget, hsome]
  · rw [Entries.keys_erase, Entries.keys_erase, hids]
  · intro id k₁ hk₁
    have hid : id ≠ fact.id := by
      rintro rfl
      have hgone : (g.forget fact.id).snapshot? fact.id = none := hg.snapshot?_forget
      cases hgone.symm.trans hk₁
    rw [Entries.get?_erase_of_ne pending hid]
    exact ht.contexts id k₁ ((Group.snapshot?_forget_of_ne hid).symm.trans hk₁)

theorem Course.tracks (h : Invertible config r a units reverse pairs back)
    (hc : Course r a units pairs start pending g) : Tracks r a units pairs start pending g := by
  induction hc with
  | reset before _ _ call ints => exact Tracks.reset h before.sound call ints
  | accumulate before tuple fact memory fresh context ints call ih =>
    exact ih.accumulate h before.reachable.sound fresh context ints call
      (Course.accumulate before tuple fact memory fresh context ints call).reachable.sound
  | reverseFold before fact call ih =>
    exact ih.reverseFold h before.reachable.sound call (Course.reverseFold before fact call).reachable.sound

theorem Course.origin (hc : Course r a units pairs start pending g) :
    Course r a units pairs start [] start := by
  induction hc with
  | reset before tuple memory call ints => exact .reset before tuple memory call ints
  | accumulate _ _ _ _ _ _ _ _ ih => exact ih
  | reverseFold _ _ _ ih => exact ih

theorem Tracks.vars_eq (h : Invertible config r a units reverse pairs back) {start' : Group}
    {pending' : Entries UInt64 (String → Int)} (ht : Tracks r a units pairs start pending g) (hg : g.Sound a)
    (ht' : Tracks r a units pairs start' pending' g') (hg' : g'.Sound a) (hstart : start'.vars = start.vars)
    (htotal : ∀ x, total pending' x = total pending x) : g'.vars = g.vars := by
  have hnodup : a.init.others.Nodup := h.inverse.adds.others ▸ h.inverse.adds.valid.others_nodup
  have hstart (x : String) : start'.value? x = start.value? x := by
    rw [value?_eq ht'.names, value?_eq ht.names, hstart]
  apply vars_ext hnodup ht'.lengths.2 ht.lengths.2
  intro x _
  rw [← value?_eq hg'.names, ← value?_eq hg.names]
  by_cases hx : x ∈ pairs.map Prod.fst
  · obtain ⟨n, m, hn, hm, hsum⟩ := ht.sums x hx
    obtain ⟨n', m', hn', hm', hsum'⟩ := ht'.sums x hx
    obtain rfl : n' = n := by simpa [hn, hn'] using hstart x
    have hm : m'.toInt = m.toInt := by rw [hsum', hsum, htotal]
    rw [‹g'.value? x = _›, ‹g.value? x = _›, Int64.toInt_inj.1 hm]
  · rw [ht'.kept x hx, ht.kept x hx, hstart]

theorem total_perm {pending' : Entries UInt64 (String → Int)} (h : pending'.Perm pending) (x : String) :
    total pending' x = total pending x :=
  Entries.weigh_perm h fun n => n x

/-- Behind every call, each variable that is added to is what the last `reset` left and what the folds since
then have added that are not undone, and the other variables are as the `reset` left them. Without such folds
all variables are as it left them, and with the same such folds they are the same whatever the order of the
calls was. -/
theorem maintenance_exact (h : Invertible config r a units reverse pairs back)
    (hc : Course r a units pairs start pending g) :
    (∀ x ∈ pairs.map Prod.fst, ∃ n m : Int64, start.value? x = some (.int n) ∧ g.value? x = some (.int m) ∧
        m.toInt = n.toInt + total pending x) ∧
      (∀ x, x ∉ pairs.map Prod.fst → g.value? x = start.value? x) ∧
      (g.snapshotCount = 0 → g.vars = start.vars) ∧
      ∀ start' pending' g', Course r a units pairs start' pending' g' → start'.vars = start.vars →
        pending'.Perm pending → g'.vars = g.vars := by
  have ht := hc.tracks h
  refine ⟨ht.sums, ht.kept, fun hnone => ?_, fun start' pending' g' hc' hstart hperm => ?_⟩
  · obtain ⟨s, hs, hkeys⟩ := ht.facts
    have hs : s = [] := by simpa [Group.snapshotCount, hs] using hnone
    rw [hs, List.map_nil] at hkeys
    have hpending : pending = [] := List.map_eq_nil_iff.1 hkeys.symm
    have hstart := hc.origin
    apply Tracks.vars_eq h (hstart.tracks h) hstart.reachable.sound ht hc.reachable.sound rfl
    intro x
    rw [hpending]
  · exact ht.vars_eq h hc.reachable.sound (hc'.tracks h) hc'.reachable.sound hstart (total_perm hperm)

end

def sumPairs : Entries String Expr :=
  [("total", .name "$value" ⟨9, 15⟩)]

def sumReverse : CompiledUnit :=
  sumUnit "sum.reverse" "total -= $value;" true
    [.loadSlot 2, .loadSlot 1, .strict (.arith .sub), .storeSlot 2, .discard] []

theorem sum_mirrored : Mirrored {} sumRegistry sum sumUnits sumReverse sumPairs sumPairs where
  compiled := rfl
  made := sum_units
  reversible := rfl
  adds := ⟨[.assign "total" (.update .add) (.name "$value" ⟨9, 15⟩) ⟨0, 15⟩], .of_toOption (by cbv),
    .cons rfl .nil⟩
  subtracts := ⟨[.assign "total" (.update .sub) (.name "$value" ⟨9, 15⟩) ⟨0, 15⟩], .of_toOption (by cbv),
    .cons rfl .nil⟩
  perm := .refl _
  distinct := by decide
  targets := by decide
  within := by
    intro pair hpair
    rw [List.mem_singleton.1 hpair]
    exact ⟨by decide, by decide⟩

theorem sum_invertible : Invertible {} sumRegistry sum sumUnits sumReverse sumPairs sumPairs where
  toMirrored := sum_mirrored
  unwidened := by decide
  functions := by
    intro pair hpair
    rw [List.mem_singleton.1 hpair]
    trivial
  order := .inl rfl

def sumOfTwo : Group :=
  (sum.accumulate (sum.accumulate sumStart [] ⟨1, .int 7⟩ {}).2 [] ⟨2, .int 5⟩ {}).2

def sumOfOne : Group :=
  (sum.reverseFold sumOfTwo ⟨1, .null⟩).2

theorem sumOfOne_course :
    ∃ pending, Course sumRegistry sum sumUnits sumPairs sumStart pending sumOfOne ∧
      total pending "total" = 5 := by
  have h₀ : Course sumRegistry sum sumUnits sumPairs sumStart [] sumStart := by
    apply Course.reset (.new sum) [] {} rfl
    intro x hx
    rw [List.mem_singleton.1 hx]
    exact ⟨0, rfl⟩
  have h₁ := h₀.accumulate [] ⟨1, .int 7⟩ {} rfl rfl
    (fun _ hp => ⟨7, by rw [List.mem_singleton.1 hp]; rfl⟩) rfl
  have h₂ := h₁.accumulate [] ⟨2, .int 5⟩ {} rfl rfl
    (fun _ hp => ⟨5, by rw [List.mem_singleton.1 hp]; rfl⟩) rfl
  have h₃ := h₂.reverseFold ⟨1, .null⟩ rfl
  exact ⟨_, h₃, rfl⟩

theorem maintenance_exact_sum :
    ∃ pending, Course sumRegistry sum sumUnits sumPairs sumStart pending sumOfOne ∧
      ∃ n m : Int64, sumStart.value? "total" = some (.int n) ∧ sumOfOne.value? "total" = some (.int m) ∧
        m.toInt = n.toInt + 5 := by
  obtain ⟨pending, hc, htotal⟩ := sumOfOne_course
  obtain ⟨sums, -⟩ := maintenance_exact sum_invertible hc
  exact ⟨pending, hc, htotal ▸ sums "total" (by decide)⟩

def widened (p : Plan) : Plan :=
  { p with inputTypes := ["Object", "Object", "double"], strict := true }

def widenedUnit (u : CompiledUnit) (op : ArithOp) : CompiledUnit where
  plan := widened u.plan
  layout := u.layout
  inputs := [("$fact", .any), ("$value", .any), ("total", .float)]
  program := ⟨{
    ops := [.loadSlot 2, .loadSlot 1, .strict (.arith op), .checkType 0, .storeSlot 2, .discard]
    types := [.float]
    strict := true }, []⟩
  maxStackDepth := u.maxStackDepth

def floatUnits : CompiledUnits :=
  { sumUnits with action := widenedUnit sumUnits.action .add, reverse := some (widenedUnit sumReverse .sub) }

def floatSum : Accumulator :=
  { sum with action := widened sum.action, reverse := sum.reverse.map widened, compiled := some floatUnits }

set_option maxRecDepth 100000 in
theorem floatSum_mirrored :
    Mirrored {} sumRegistry floatSum floatUnits (widenedUnit sumReverse .sub) sumPairs sumPairs where
  compiled := rfl
  made := by cbv
  reversible := rfl
  adds := sum_mirrored.adds
  subtracts := sum_mirrored.subtracts
  perm := .refl _
  distinct := sum_mirrored.distinct
  targets := sum_mirrored.targets
  within := sum_mirrored.within

def mixedPairs : Entries String Expr :=
  [("total", .call "f" [.name "$value" ⟨11, 17⟩] ⟨9, 18⟩)]

def mixedPlan (p : Plan) (source owner : String) : Plan :=
  { p with expression := source, importedMethods := [owner ++ ".f"] }

def firstArgument : Script.Native
  | v :: _ => .ok v
  | [] => .error "no arguments"

def argumentCount : Script.Native :=
  fun args => .ok (.int (Int64.ofNat args.length))

def mixedRegistry : Registry :=
  (sumRegistry.withMethod "A" "f" firstArgument).withMethod "B" "f" argumentCount

def mixedUnit (u : CompiledUnit) (source owner : String) (op : ArithOp) (native : Script.Native) :
    CompiledUnit :=
  { u with
    plan := mixedPlan u.plan source owner
    program := ⟨{
      ops := [.loadSlot 2, .loadSlot 1, .call 0 1, .strict (.arith op), .storeSlot 2, .discard]
      functions := ["f"] }, [native]⟩ }

def mixedReverse : CompiledUnit :=
  mixedUnit sumReverse "total -= f($value);" "B" .sub argumentCount

def mixedUnits : CompiledUnits :=
  { sumUnits with
    action := mixedUnit sumUnits.action "total += f($value);" "A" .add firstArgument
    reverse := some mixedReverse }

def mixedSum : Accumulator :=
  { sum with
    action := mixedPlan sum.action "total += f($value);" "A"
    reverse := sum.reverse.map fun p => mixedPlan p "total -= f($value);" "B"
    compiled := some mixedUnits }

set_option maxRecDepth 100000 in
theorem mixedSum_mirrored :
    Mirrored {} mixedRegistry mixedSum mixedUnits mixedReverse mixedPairs mixedPairs where
  compiled := rfl
  made := by cbv
  reversible := rfl
  adds := ⟨[.assign "total" (.update .add) (.call "f" [.name "$value" ⟨11, 17⟩] ⟨9, 18⟩) ⟨0, 18⟩],
    .of_toOption (by cbv), .cons rfl .nil⟩
  subtracts := ⟨[.assign "total" (.update .sub) (.call "f" [.name "$value" ⟨11, 17⟩] ⟨9, 18⟩) ⟨0, 18⟩],
    .of_toOption (by cbv), .cons rfl .nil⟩
  perm := .refl _
  distinct := by decide
  targets := by decide
  within := by
    intro pair hpair
    rw [List.mem_singleton.1 hpair]
    exact ⟨trivial, ⟨by decide, by decide⟩, trivial⟩

/-- Exactness takes more than an action and a reversal that mirror each other: a store that widens leaves no
integer, and a function that is another one for the reversal takes away something else. -/
theorem mirrored_not_exact :
    (Mirrored {} sumRegistry floatSum floatUnits (widenedUnit sumReverse .sub) sumPairs sumPairs ∧
      ∃ start pending g, Course sumRegistry floatSum floatUnits sumPairs start pending g ∧
        start.value? "total" = some (.int 0) ∧ ∀ n, g.value? "total" ≠ some (.int n)) ∧
    Mirrored {} mixedRegistry mixedSum mixedUnits mixedReverse mixedPairs mixedPairs ∧
      ∃ start g, Course mixedRegistry mixedSum mixedUnits mixedPairs start [] g ∧
        start.vars = [.int 0] ∧ g.vars = [.int 6] := by
  refine ⟨⟨floatSum_mirrored, ?_⟩, mixedSum_mirrored, ?_⟩
  · have h₀ : Course sumRegistry floatSum floatUnits sumPairs sumStart [] sumStart := by
      apply Course.reset (.new floatSum) [] {} rfl
      intro x hx
      rw [List.mem_singleton.1 hx]
      exact ⟨0, rfl⟩
    have h₁ := h₀.accumulate [] ⟨1, .int 9007199254740993⟩ {} rfl rfl
      (fun _ hp => ⟨9007199254740993, by rw [List.mem_singleton.1 hp]; rfl⟩) rfl
    exact ⟨_, _, _, h₁, rfl, fun n hn => by cases hn⟩
  · have h₀ : Course mixedRegistry mixedSum mixedUnits mixedPairs sumStart [] sumStart := by
      apply Course.reset (.new mixedSum) [] {} rfl
      intro x hx
      rw [List.mem_singleton.1 hx]
      exact ⟨0, rfl⟩
    have h₁ := h₀.accumulate [] ⟨1, .int 7⟩ {} rfl rfl
      (fun _ hp => ⟨7, by rw [List.mem_singleton.1 hp]; rfl⟩) rfl
    have h₂ := h₁.reverseFold ⟨1, .null⟩ rfl
    exact ⟨_, _, h₂, rfl, rfl⟩

end FactFold
