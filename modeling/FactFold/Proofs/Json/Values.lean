import FactFold.Proofs.Entries
import FactFold.Proofs.Equality
import FactFold.Proofs.Json.Trees
import FactFold.Value.Json

namespace FactFold.Value

mutual

def floats : Value → List Float
  | float x => [x]
  | list items => itemFloats items
  | record fields => fieldFloats fields
  | _ => []
termination_by structural v => v

def itemFloats : List Value → List Float
  | [] => []
  | v :: rest => floats v ++ itemFloats rest
termination_by structural vs => vs

def fieldFloats : List (String × Value) → List Float
  | [] => []
  | (_, v) :: rest => floats v ++ fieldFloats rest
termination_by structural fields => fields

end

mutual

def nesting : Value → Nat
  | list items => itemsNesting items + 1
  | record fields => fieldsNesting fields + 1
  | _ => 0
termination_by structural v => v

def itemsNesting : List Value → Nat
  | [] => 0
  | v :: rest => max (nesting v) (itemsNesting rest)
termination_by structural vs => vs

def fieldsNesting : List (String × Value) → Nat
  | [] => 0
  | (_, v) :: rest => max (nesting v) (fieldsNesting rest)
termination_by structural fields => fields

end

/-- A value that a chunk has room for: no record has two fields of one name, lists and records are nested
no deeper than the reader allows inside a chunk, and no float is NaN. -/
structure Storable (v : Value) : Prop where
  proper : v.Proper
  nesting : v.nesting ≤ 125
  notNaN : ∀ x ∈ v.floats, x.isNaN = false

mutual

theorem ofJson_toJson {v : Value} (h : v.Proper) : ofJson v.toJson = v := by
  cases v with
  | null => rfl
  | bool b => rfl
  | int n =>
    rw [toJson, ofJson, (int64?_eq_some_iff n.toInt n).2 rfl]
    rfl
  | float x => rfl
  | text s => rfl
  | list items =>
    rw [toJson, ofJson, itemsOfJson_toJson h]
  | record fields =>
    rw [toJson, ofJson, fieldsOfJson_toJson h.2, ofFields, Entries.ofList_of_nodup h.1]
termination_by structural v

theorem itemsOfJson_toJson {vs : List Value} (h : ItemsProper vs) : itemsOfJson (itemsToJson vs) = vs := by
  cases vs with
  | nil => rfl
  | cons v rest => rw [itemsToJson, itemsOfJson, ofJson_toJson h.1, itemsOfJson_toJson h.2]
termination_by structural vs

theorem fieldsOfJson_toJson {fields : List (String × Value)} (h : FieldsProper fields) :
    fieldsOfJson (fieldsToJson fields) = fields := by
  cases fields with
  | nil => rfl
  | cons field rest => rw [fieldsToJson, fieldsOfJson, ofJson_toJson h.1, fieldsOfJson_toJson h.2]
termination_by structural fields

end

open Json (Readable ReadsBack)

mutual

theorem readable_toJson {v : Value} {depth : Nat} (hn : v.nesting ≤ depth) (hf : ∀ x ∈ v.floats, ReadsBack x) :
    Readable depth v.toJson := by
  cases v with
  | null => exact .null depth
  | bool b => exact .bool depth b
  | int n => exact .int depth n.le_toInt (n.toInt_lt.trans (by decide))
  | float x => exact .float depth (hf x (List.mem_singleton_self x))
  | text s => exact .text depth s
  | list items =>
    obtain ⟨depth, rfl⟩ := Nat.exists_eq_add_of_le' (Nat.le_of_add_left_le hn)
    exact .array (readable_itemsToJson (Nat.le_of_succ_le_succ hn) hf)
  | record fields =>
    obtain ⟨depth, rfl⟩ := Nat.exists_eq_add_of_le' (Nat.le_of_add_left_le hn)
    exact .object (readable_fieldsToJson (Nat.le_of_succ_le_succ hn) hf)
termination_by structural v

theorem readable_itemsToJson {vs : List Value} {depth : Nat} (hn : itemsNesting vs ≤ depth)
    (hf : ∀ x ∈ itemFloats vs, ReadsBack x) : ∀ j ∈ itemsToJson vs, Readable depth j := by
  cases vs with
  | nil => simp [itemsToJson]
  | cons v rest =>
    rw [itemsNesting, Nat.max_le] at hn
    rw [itemFloats, List.forall_mem_append] at hf
    exact List.forall_mem_cons.2 ⟨readable_toJson hn.1 hf.1, readable_itemsToJson hn.2 hf.2⟩
termination_by structural vs

theorem readable_fieldsToJson {fields : List (String × Value)} {depth : Nat} (hn : fieldsNesting fields ≤ depth)
    (hf : ∀ x ∈ fieldFloats fields, ReadsBack x) : ∀ m ∈ fieldsToJson fields, Readable depth m.2 := by
  cases fields with
  | nil => simp [fieldsToJson]
  | cons field rest =>
    rw [fieldsNesting, Nat.max_le] at hn
    rw [fieldFloats, List.forall_mem_append] at hf
    exact List.forall_mem_cons.2 ⟨readable_toJson hn.1 hf.1, readable_fieldsToJson hn.2 hf.2⟩
termination_by structural fields

end

end FactFold.Value
