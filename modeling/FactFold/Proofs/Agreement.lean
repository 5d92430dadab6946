import FactFold.Proofs.Binary64.Nearness
import FactFold.Proofs.Json.Values
import FactFold.Scenario.Replay

namespace FactFold

open Float.Model

theorem compare_swap (u v : UnpackedFloat) : v.compare u = (u.compare v).map Ordering.swap := by
  cases u with
  | notANumber => cases v <;> rfl
  | infinity s =>
    cases v with
    | infinity s' => cases s <;> cases s' <;> rfl
    | zero s' => cases s <;> rfl
    | finite s' m' e' hm' => cases s <;> cases s' <;> rfl
    | notANumber => cases s <;> rfl
  | zero s =>
    cases v with
    | infinity s' => cases s' <;> rfl
    | finite s' m' e' hm' => cases s' <;> rfl
    | _ => rfl
  | finite s m e hm =>
    cases v with
    | infinity s' => cases s <;> cases s' <;> rfl
    | zero s' => cases s <;> rfl
    | notANumber => cases s <;> rfl
    | finite s' m' e' hm' =>
      have hcomm := Binary64.compare_finite_comm m m' e e'
      cases s <;> cases s' <;> simp [UnpackedFloat.compare, hcomm]

theorem float_beq_comm {x y : Float} (h : (x == y) = true) : (y == x) = true := by
  have h : (x.toModel.unpack.compare y.toModel.unpack == some .eq) = true := h
  change (y.toModel.unpack.compare x.toModel.unpack == some .eq) = true
  rw [compare_swap, eq_of_beq h]
  rfl

namespace Value

mutual

theorem Proper.same_symm {v w : Value} (hv : v.Proper) (hw : w.Proper) (h : same v w = true) : same w v = true := by
  cases v with
  | null =>
    cases w with
    | null => rfl
    | _ => cases h
  | bool b =>
    cases w with
    | bool b' => exact BEq.symm h
    | _ => cases h
  | int n =>
    cases w with
    | int n' => exact BEq.symm h
    | _ => cases h
  | float x =>
    cases w with
    | float y => exact float_beq_comm h
    | _ => cases h
  | text s =>
    cases w with
    | text s' => exact BEq.symm h
    | _ => cases h
  | list items =>
    cases w with
    | list items' => exact ItemsProper.same_symm hv hw h
    | _ => cases h
  | record fields =>
    cases w with
    | record fields' =>
      obtain ⟨hl, h⟩ := Bool.and_eq_true_iff.1 h
      have hl : fields.length = fields'.length := eq_of_beq hl
      refine Bool.and_eq_true_iff.2 ⟨beq_iff_eq.2 hl.symm, sameFields_iff.2 fun field hfield => ?_⟩
      obtain ⟨v, hmem, hsame⟩ := field_of_sameFields hv.1 hw.1 hl h hfield
      exact ⟨v, Entries.get?_eq_some_of_mem hv.1 hmem,
        FieldsProper.same_symm hv.2 _ hmem (hw.2.of_mem hfield) hsame⟩
    | _ => cases h
termination_by structural v

theorem ItemsProper.same_symm {vs ws : List Value} (hv : ItemsProper vs) (hw : ItemsProper ws)
    (h : sameItems vs ws = true) : sameItems ws vs = true := by
  cases vs with
  | nil =>
    cases ws with
    | nil => rfl
    | cons w ws => cases h
  | cons v vs =>
    cases ws with
    | nil => cases h
    | cons w ws =>
      obtain ⟨h, hrest⟩ := Bool.and_eq_true_iff.1 h
      exact Bool.and_eq_true_iff.2 ⟨hv.1.same_symm hw.1 h, ItemsProper.same_symm hv.2 hw.2 hrest⟩
termination_by structural vs

theorem FieldsProper.same_symm {fields : List (String × Value)} (hf : FieldsProper fields) :
    ∀ field ∈ fields, ∀ {w : Value}, w.Proper → same field.2 w = true → same w field.2 = true := by
  cases fields with
  | nil => simp
  | cons first rest =>
    obtain ⟨name, v⟩ := first
    intro field hfield w hw h
    rcases List.mem_cons.1 hfield with rfl | hfield
    · exact hf.1.same_symm hw h
    · exact FieldsProper.same_symm hf.2 field hfield hw h
termination_by structural fields

end

theorem same_comm {v w : Value} (hv : v.Proper) (hw : w.Proper) : same v w = same w v := by
  rw [Bool.eq_iff_iff]
  exact ⟨hv.same_symm hw, hw.same_symm hv⟩

mutual

theorem Proper.same_refl {v : Value} (hv : v.Proper) (hf : ∀ x ∈ v.floats, x.isNaN = false) : same v v = true := by
  cases v with
  | null => rfl
  | bool b => exact beq_self_eq_true b
  | int n => exact beq_self_eq_true n
  | float x => exact float_beq_refl (Decimal.unpack_ne (hf x (List.mem_singleton_self x)))
  | text s => exact beq_self_eq_true s
  | list items => exact ItemsProper.same_refl hv hf
  | record fields =>
    refine Bool.and_eq_true_iff.2 ⟨beq_self_eq_true _, sameFields_iff.2 fun field hfield => ?_⟩
    exact ⟨field.2, Entries.get?_eq_some_of_mem hv.1 hfield, FieldsProper.same_refl hv.2 hf field hfield⟩
termination_by structural v

theorem ItemsProper.same_refl {vs : List Value} (hv : ItemsProper vs) (hf : ∀ x ∈ itemFloats vs, x.isNaN = false) :
    sameItems vs vs = true := by
  cases vs with
  | nil => rfl
  | cons v vs =>
    rw [itemFloats, List.forall_mem_append] at hf
    exact Bool.and_eq_true_iff.2 ⟨hv.1.same_refl hf.1, ItemsProper.same_refl hv.2 hf.2⟩
termination_by structural vs

theorem FieldsProper.same_refl {fields : List (String × Value)} (hv : FieldsProper fields)
    (hf : ∀ x ∈ fieldFloats fields, x.isNaN = false) : ∀ field ∈ fields, same field.2 field.2 = true := by
  cases fields with
  | nil => simp
  | cons first rest =>
    obtain ⟨name, v⟩ := first
    rw [fieldFloats, List.forall_mem_append] at hf
    intro field hfield
    rcases List.mem_cons.1 hfield with rfl | hfield
    · exact hv.1.same_refl hf.1
    · exact FieldsProper.same_refl hv.2 hf.2 field hfield
termination_by structural fields

end

theorem agrees_comm {v w : Value} (hv : v.Proper) (hw : w.Proper) : v.agrees w = w.agrees v := by
  unfold agrees
  cases hx : v.asFloat? with
  | none => exact (same_comm hv hw).trans (by cases w.asFloat? <;> rfl)
  | some x =>
    cases hy : w.asFloat? with
    | none => exact same_comm hv hw
    | some y => exact Binary64.nearlyEqual_comm x y

def widened (n : Int64) : ℚ :=
  Binary64.value (Float.ofInt n.toInt).toModel.unpack

theorem whole_widened (n : Int64) : ∃ w : Int, Binary64.Whole (Float.ofInt n.toInt) w ∧ widened n = w ∧
    2 ^ 52 * |w - n.toInt| ≤ |n.toInt| ∧ (|n.toInt| ≤ 2 ^ 53 → w = n.toInt) := by
  have hn : |n.toInt| ≤ 2 ^ 63 := abs_le.2 ⟨n.le_toInt, n.toInt_lt.le⟩
  obtain ⟨w, hw, hnear, hexact⟩ := Binary64.ofInt_whole hn
  exact ⟨w, hw, hw.value, hnear, hexact⟩

theorem agrees_int_iff (x y : Int64) : (int x).agrees (int y) = true ↔
    2 ^ 52 * |widened x - widened y| ≤ max (max |widened x| |widened y|) 1 := by
  obtain ⟨a, ha, hwa, -⟩ := whole_widened x
  obtain ⟨b, hb, hwb, -⟩ := whole_widened y
  rw [hwa, hwb]
  refine (Binary64.nearlyEqual_whole ha hb).trans ?_
  exact_mod_cast Iff.rfl

theorem agrees_self_iff {v : Value} (hv : v.Proper) (hf : ∀ x ∈ v.floats, x.isNaN = false) :
    v.agrees v = true ↔ ∀ x, v = float x → x.isInf = false := by
  cases v with
  | int n =>
    refine iff_of_true ?_ (by simp)
    rw [agrees_int_iff, sub_self, abs_zero, mul_zero]
    exact le_max_of_le_right zero_le_one
  | float x =>
    refine (Binary64.nearlyEqual_self (hf x (List.mem_singleton_self x))).trans ?_
    simp
  | _ => exact iff_of_true (hv.same_refl hf) (by simp)

theorem widened_near (n : Int64) : 2 ^ 52 * |widened n - n.toInt| ≤ |(n.toInt : ℚ)| := by
  obtain ⟨w, -, hw, hnear, -⟩ := whole_widened n
  rw [hw]
  exact_mod_cast hnear

theorem widened_eq {n : Int64} (hn : |n.toInt| ≤ 2 ^ 53) : widened n = n.toInt := by
  obtain ⟨w, -, hw, -, hexact⟩ := whole_widened n
  rw [hw, hexact hn]

theorem near_of_agrees {x y : Int64} (h : (int x).agrees (int y) = true) :
    2 ^ 50 * |x.toInt - y.toInt| ≤ max |x.toInt| |y.toInt| := by
  have hx := widened_near x
  have hy := widened_near y
  rw [agrees_int_iff] at h
  generalize widened x = a at hx h
  generalize widened y = b at hy h
  generalize x.toInt = x at hx ⊢
  generalize y.toInt = y at hy ⊢
  rcases lt_or_ge (max |x| |y|) 1 with hzero | hone
  · obtain ⟨hx, hy⟩ := max_lt_iff.1 hzero
    rw [Int.abs_lt_one_iff.1 hx, Int.abs_lt_one_iff.1 hy]
    simp
  · have hone' : (1 : ℚ) ≤ max |(x : ℚ)| |(y : ℚ)| := by exact_mod_cast hone
    have hxmax := le_max_left |(x : ℚ)| |(y : ℚ)|
    have hymax := le_max_right |(x : ℚ)| |(y : ℚ)|
    have ha : |a| ≤ |a - x| + |(x : ℚ)| := by simpa using abs_add_le (a - x) x
    have hb : |b| ≤ |b - y| + |(y : ℚ)| := by simpa using abs_add_le (b - y) y
    have hdist : |(x : ℚ) - y| ≤ |a - x| + |a - b| + |b - y| := by
      have hsplit : (x : ℚ) - y = -(a - x) + ((a - b) + (b - y)) := by ring
      have hfirst := abs_add_le (-(a - x)) ((a - b) + (b - y))
      have hrest := abs_add_le (a - b) (b - y)
      rw [hsplit]
      rw [abs_neg] at hfirst
      linarith
    have hbound : max (max |a| |b|) 1 ≤ 2 * max |(x : ℚ)| |(y : ℚ)| :=
      max_le (max_le (by linarith) (by linarith)) (by linarith)
    have hnear : 2 ^ 50 * |(x : ℚ) - y| ≤ max |(x : ℚ)| |(y : ℚ)| := by linarith
    exact_mod_cast hnear

theorem agrees_int_iff_eq {x y : Int64} (hx : |x.toInt| < 2 ^ 52) (hy : |y.toInt| < 2 ^ 52) :
    (int x).agrees (int y) = true ↔ x = y := by
  rw [agrees_int_iff, widened_eq (by omega), widened_eq (by omega), ← Int64.toInt_inj]
  constructor
  · intro h
    have h : 2 ^ 52 * |x.toInt - y.toInt| ≤ max (max |x.toInt| |y.toInt|) 1 := by exact_mod_cast h
    have hmax : max (max |x.toInt| |y.toInt|) 1 < 2 ^ 52 := max_lt (max_lt hx hy) (by norm_num)
    have hzero : |x.toInt - y.toInt| < 1 := by omega
    exact Int.sub_eq_zero.1 (Int.abs_lt_one_iff.1 hzero)
  · intro h
    rw [h, sub_self, abs_zero, mul_zero]
    exact le_max_of_le_right zero_le_one

theorem results_compared {v w : Value} (hv : v.Proper) (hw : w.Proper) :
    (∀ step : StepOutcome, step.answer = some v → step.expected? = some w → step.matched? = some (v.agrees w)) ∧
    v.agrees w = w.agrees v ∧
    ((∀ x ∈ v.floats, x.isNaN = false) → (v.agrees v = true ↔ ∀ x, v = float x → x.isInf = false)) ∧
    ∀ x y : Int64, v = int x → w = int y →
      (v.agrees w = true ↔ 2 ^ 52 * |widened x - widened y| ≤ max (max |widened x| |widened y|) 1) ∧
      (v.agrees w = true → 2 ^ 50 * |x.toInt - y.toInt| ≤ max |x.toInt| |y.toInt|) ∧
      (|x.toInt| < 2 ^ 52 → |y.toInt| < 2 ^ 52 → (v.agrees w = true ↔ x = y)) := by
  refine ⟨fun step hanswer hexpected => ?_, agrees_comm hv hw, agrees_self_iff hv, ?_⟩
  · rw [StepOutcome.matched?, hanswer, hexpected]
    rfl
  · rintro x y rfl rfl
    exact ⟨agrees_int_iff x y, near_of_agrees, agrees_int_iff_eq⟩

theorem results_compared_seven :
    (int 7).agrees (list [int 7]) = (list [int 7]).agrees (int 7) ∧ (list [int 7]).agrees (list [int 7]) = true ∧
    StepOutcome.matched? ⟨0, .result (some (int 8)), [], some (int 7), false⟩ = some false := by
  have hitems : (list [int 7]).Proper := ⟨trivial, trivial⟩
  obtain ⟨-, hcomm, -, -⟩ := results_compared (v := int 7) (w := list [int 7]) trivial hitems
  obtain ⟨-, -, hself, -⟩ := results_compared (v := list [int 7]) (w := int 7) hitems trivial
  obtain ⟨hstep, -, -, hints⟩ := results_compared (v := int 7) (w := int 8) trivial trivial
  obtain ⟨-, -, hexact⟩ := hints 7 8 rfl rfl
  refine ⟨hcomm, (hself (by simp [floats, itemFloats])).2 (by simp), ?_⟩
  rw [hstep _ rfl rfl, Bool.eq_false_iff.2 (mt (hexact (by decide) (by decide)).1 (by decide))]

theorem infinity_missed :
    (Float.ofBits 0x7FF0000000000000).isNaN = false ∧
    (float (Float.ofBits 0x7FF0000000000000)).agrees (float (Float.ofBits 0x7FF0000000000000)) = false ∧
    (int 9007199254740992).agrees (int 9007199254740993) = true ∧
    (int 4503599627370495).agrees (int 4503599627370496) = true := by
  decide +kernel

end Value

end FactFold
