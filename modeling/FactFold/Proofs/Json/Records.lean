import Mathlib
import FactFold.Json.Document

namespace FactFold.Json

variable {α : Type}

theorem lift_some (a : α) : (liftM (some a) : Reading α) = pure a :=
  rfl

theorem namedParts_object {names : List String} {members : List (String × Json)}
    (hnames : ∀ m ∈ members, m.1 ∈ names) (hnodup : (members.map Prod.fst).Nodup) :
    (object members).asNamedParts? names = some members := by
  have hknown {known : String × Json → Bool} (h : ∀ m, known m = names.contains m.1) :
      members.filter known = members :=
    List.filter_eq_self.2 fun m hm => by rw [h, List.contains_iff_mem.2 (hnames m hm)]
  simp only [asNamedParts?, hknown fun _ => rfl, if_pos hnodup]

theorem parts_object {names : List String} {members : List (String × Json)}
    (hnames : ∀ m ∈ members, m.1 ∈ names) (hnodup : (members.map Prod.fst).Nodup) :
    (Document.parts names (object members) : Reading (Entries String Json)) = pure members := by
  have hparts : (object members).asParts? names = some members := namedParts_object hnames hnodup
  simp only [Document.parts, hparts, lift_some]

theorem text_eq (s : String) : (Document.text (text s) : Reading String) = pure s :=
  rfl

theorem flag_eq (b : Bool) : (Document.flag (bool b) : Reading Bool) = pure b :=
  rfl

theorem count_eq {n : Nat} (h : n < UInt64.size) :
    (Document.count (nat n) : Reading UInt64) = pure (UInt64.ofNat n) := by
  have hcount : (nat n).asCount? = some (UInt64.ofNat n) := by
    simp [nat, asCount?, h]
  simp only [Document.count, hcount]
  rfl

theorem count_below {n size : Nat} {narrow : UInt64 → α} (h : n < size) (hsize : size ≤ UInt64.size) :
    ((Document.count (nat n) : Reading UInt64) >>= fun m => if m.toNat < size then pure (narrow m) else failure) =
      pure (narrow (UInt64.ofNat n)) := by
  have hn : (UInt64.ofNat n).toNat = n := UInt64.toNat_ofNat_of_lt (h.trans_le hsize)
  rw [count_eq (h.trans_le hsize), pure_bind, if_pos (hn.symm ▸ h)]

theorem count32_eq (n : UInt32) : count32 (nat n.toNat) = (pure n : Reading UInt32) := by
  have hn : (UInt64.ofNat n.toNat).toUInt32 = n := by simp
  exact (count_below n.toNat_lt (by decide)).trans (congrArg pure hn)

theorem mapM_eq {β : Type} {read : Json → Reading α} {f : β → Json} {g : β → α} {items : List β}
    (h : ∀ b ∈ items, read (f b) = pure (g b)) : (items.map f).mapM read = pure (items.map g) := by
  induction items with
  | nil => rfl
  | cons b items ih =>
    rw [List.map_cons, List.mapM_cons, h b (List.mem_cons_self ..), pure_bind,
      ih fun b hb => h b (List.mem_cons_of_mem _ hb), pure_bind]
    rfl

theorem listOf_eq {read : Json → Reading α} {write : α → Json} {items : List α}
    (h : ∀ a ∈ items, read (write a) = pure a) : listOf read (array (items.map write)) = pure items := by
  have hitems : (Document.items (array (items.map write)) : Reading (List Json)) = pure (items.map write) := rfl
  rw [listOf, hitems, pure_bind]
  simpa using mapM_eq h

theorem listOf_texts (items : List String) : listOf Document.text (texts items) = pure items :=
  listOf_eq fun s _ => text_eq s

theorem present_eq {j : Json} (h : j ≠ null) : (Document.present j : Reading (Option Json)) = pure (some j) := by
  cases j <;> first | exact absurd rfl h | rfl

theorem optional_eq {parts : Entries String Json} {name : String} {read : Json → Reading α} {write : α → Json}
    {a : Option α} (hpart : parts.get? name = some (ofOption write a)) (hnull : ∀ a, write a ≠ null)
    (hread : ∀ a, read (write a) = pure a) : optional parts name read = pure a := by
  rw [optional, hpart]
  cases a with
  | none => rfl
  | some a =>
    change (Document.present (write a) >>= _) = _
    rw [present_eq (hnull a), pure_bind]
    simp [hread]

theorem read?_eq {read : Json → Reading α} {j : Json} {a : α} (h : read j = pure a) : read? read j = some a := by
  rw [read?, h]
  rfl

end FactFold.Json
