import Mathlib
import FactFold.Value.Basic

namespace FactFold

open Float.Model

theorem float_beq_refl {x : Float} (h : x.toModel.unpack ≠ .notANumber) : (x == x) = true := by
  change (x.toModel.unpack.compare x.toModel.unpack == some .eq) = true
  cases hx : x.toModel.unpack with
  | notANumber => exact absurd hx h
  | infinity s => cases s <;> rfl
  | zero s => rfl
  | finite s m e hm => cases s <;> simp [UnpackedFloat.compare]

theorem float_beq_self {x y : Float} (h : (x == y) = true) : (y == y) = true := by
  have h : (x.toModel.unpack.compare y.toModel.unpack == some .eq) = true := h
  apply float_beq_refl
  intro hy
  -- nothing is equal to a NaN
  rw [hy] at h
  cases hx : x.toModel.unpack <;> rw [hx] at h <;> cases h

namespace Value

mutual

def Proper : Value → Prop
  | list items => ItemsProper items
  | record fields => (fields.map Prod.fst).Nodup ∧ FieldsProper fields
  | _ => True
termination_by structural v => v

def ItemsProper : List Value → Prop
  | [] => True
  | v :: rest => v.Proper ∧ ItemsProper rest
termination_by structural vs => vs

def FieldsProper : List (String × Value) → Prop
  | [] => True
  | (_, v) :: rest => v.Proper ∧ FieldsProper rest
termination_by structural fields => fields

end

theorem FieldsProper.of_mem {fields : List (String × Value)} (h : FieldsProper fields) {field : String × Value}
    (hmem : field ∈ fields) : field.2.Proper := by
  induction fields with
  | nil => cases hmem
  | cons first rest ih =>
    rcases List.mem_cons.1 hmem with rfl | hmem
    · exact h.1
    · exact ih h.2 hmem

theorem sameFields_iff {fields other : List (String × Value)} : sameFields fields other = true ↔
    ∀ field ∈ fields, ∃ w, other.lookup field.1 = some w ∧ same field.2 w = true := by
  induction fields with
  | nil => simp [sameFields]
  | cons field rest ih =>
    obtain ⟨name, v⟩ := field
    cases h : other.lookup name <;> simp [sameFields, ih, h]

theorem names_of_sameFields {a b : List (String × Value)} (ha : (a.map Prod.fst).Nodup)
    (hl : a.length = b.length) (h : sameFields a b = true) : ∀ name ∈ b.map Prod.fst, name ∈ a.map Prod.fst := by
  have hsub : a.map Prod.fst ⊆ b.map Prod.fst := by
    intro name hname
    obtain ⟨field, hfield, rfl⟩ := List.mem_map.1 hname
    obtain ⟨w, hw, -⟩ := sameFields_iff.1 h field hfield
    by_contra hnot
    have hnone : b.lookup field.1 = none := (Entries.get?_eq_none_iff b field.1).2 hnot
    simp [hnone] at hw
  have hperm : (a.map Prod.fst).Perm (b.map Prod.fst) := by
    apply (List.subperm_of_subset ha hsub).perm_of_length_le
    simp [hl]
  exact fun name hname => hperm.mem_iff.2 hname

theorem field_of_sameFields {a b : List (String × Value)} (ha : (a.map Prod.fst).Nodup) (hb : (b.map Prod.fst).Nodup)
    (hl : a.length = b.length) (h : sameFields a b = true) {field : String × Value} (hfield : field ∈ b) :
    ∃ v, (field.1, v) ∈ a ∧ same v field.2 = true := by
  have hname := names_of_sameFields ha hl h field.1 (List.mem_map_of_mem hfield)
  obtain ⟨⟨name, v⟩, hmem, rfl⟩ := List.mem_map.1 hname
  obtain ⟨w, hlookup, hsame⟩ := sameFields_iff.1 h _ hmem
  have hfound : b.lookup field.1 = some field.2 := Entries.get?_eq_some_of_mem hb hfield
  obtain rfl : field.2 = w := Option.some.inj (hfound.symm.trans hlookup)
  exact ⟨v, hmem, hsame⟩

mutual

theorem Proper.same_self {v w : Value} (hv : v.Proper) (hw : w.Proper) (h : same v w = true) :
    same w w = true := by
  cases w with
  | null => rfl
  | bool b => exact beq_self_eq_true b
  | int n => exact beq_self_eq_true n
  | float y =>
    cases v with
    | float x => exact float_beq_self h
    | _ => cases h
  | text s => exact beq_self_eq_true s
  | list items =>
    cases v with
    | list items' =>
      have hitems : sameItems items' items = true := h
      exact ItemsProper.same_self hv hw hitems
    | _ => cases h
  | record fields =>
    cases v with
    | record fields' =>
      obtain ⟨hl, h⟩ := Bool.and_eq_true_iff.1 h
      have hl : fields'.length = fields.length := eq_of_beq hl
      have hequals : ∀ field ∈ fields, ∃ v : Value, v.Proper ∧ same v field.2 = true := by
        intro field hfield
        obtain ⟨v, hmem, hsame⟩ := field_of_sameFields hv.1 hw.1 hl h hfield
        exact ⟨v, hv.2.of_mem hmem, hsame⟩
      have hself := FieldsProper.same_self hw.2 hequals
      refine Bool.and_eq_true_iff.2 ⟨beq_self_eq_true _, sameFields_iff.2 fun field hfield => ?_⟩
      exact ⟨field.2, Entries.get?_eq_some_of_mem hw.1 hfield, hself field hfield⟩
    | _ => cases h
termination_by structural w

theorem ItemsProper.same_self {vs ws : List Value} (hv : ItemsProper vs) (hw : ItemsProper ws)
    (h : sameItems vs ws = true) : sameItems ws ws = true := by
  cases ws with
  | nil => rfl
  | cons w ws =>
    cases vs with
    | nil => cases h
    | cons v vs =>
      obtain ⟨h, hrest⟩ := Bool.and_eq_true_iff.1 h
      exact Bool.and_eq_true_iff.2 ⟨hv.1.same_self hw.1 h, ItemsProper.same_self hv.2 hw.2 hrest⟩
termination_by structural ws

theorem FieldsProper.same_self {fields : List (String × Value)} (hf : FieldsProper fields)
    (h : ∀ field ∈ fields, ∃ v : Value, v.Proper ∧ same v field.2 = true) :
    ∀ field ∈ fields, same field.2 field.2 = true := by
  cases fields with
  | nil => simp
  | cons first rest =>
    obtain ⟨name, w⟩ := first
    intro field hfield
    rcases List.mem_cons.1 hfield with rfl | hfield
    · obtain ⟨v, hv, hsame⟩ := h _ (List.mem_cons_self ..)
      exact hv.same_self hf.1 hsame
    · exact FieldsProper.same_self hf.2 (fun field hfield => h field (List.mem_cons_of_mem _ hfield)) field hfield
termination_by structural fields

end

end Value

end FactFold
