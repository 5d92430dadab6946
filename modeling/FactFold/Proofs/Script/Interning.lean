import FactFold.Proofs.Results
import FactFold.Proofs.Script.Literals

/-!
An index that a table has given for an item stays the index of one entry, however many items are added later.
The entry is the item, unless the item is a literal that is equal to one added before without being the same:
then it is the one added before.
-/

namespace FactFold.Script

inductive Item where
  | name (s : String)
  | field (s : String)
  | literal (v : Value)
  | type (t : ValueType)
  | function (s : String)
deriving BEq

def Item.kind : Item → TableKind
  | name _ => .name
  | field _ => .field
  | literal _ => .literal
  | type _ => .type
  | function _ => .function

theorem Item.eq_of_beq {x y : Item} (h : (x == y) = true) :
    x = y ∨ ∃ v w, x = .literal v ∧ y = .literal w ∧ (v == w) = true := by
  cases x <;> cases y <;> try cases h
  case literal v w => exact .inr ⟨v, w, rfl, rfl, h⟩
  all_goals exact .inl (congrArg _ (LawfulBEq.eq_of_beq h))

theorem Value.kind_of_same {v w : Value} (h : (v == w) = true) : v.kind = w.kind := by
  cases v <;> cases w <;> first | rfl | cases h

namespace Tables

def items (t : Tables) : TableKind → List Item
  | .name => t.names.map .name
  | .field => t.fields.map .field
  | .literal => t.literals.map .literal
  | .type => t.types.map .type
  | .function => t.functions.map .function

def add (t : Tables) : Item → Except CodeLimit (UInt16 × Tables)
  | .name s => t.addName s
  | .field s => t.addField s
  | .literal v => t.addLiteral v
  | .type type => t.addType type
  | .function s => t.addFunction s

def after (t : Tables) (x : Item) : Tables :=
  match t.add x with
  | .ok (_, t') => t'
  | .error _ => t

def behind (t : Tables) (xs : List Item) : Tables :=
  xs.foldl after t

end Tables

section

variable {α : Type} [BEq α] {kind : TableKind} {f : α → Item}

theorem intern_map (hf : ∀ a b, (f a == f b) = (a == b)) (table : List α) (item : α) :
    intern kind (table.map f) (f item) = (intern kind table item).map fun (i, t) => (i, t.map f) := by
  have hfind : (table.map f).findIdx? (· == f item) = table.findIdx? (· == item) := by
    rw [List.findIdx?_map]
    congr 1
    funext a
    exact hf a item
  unfold intern
  rw [hfind]
  cases table.findIdx? (· == item) with
  | some j => cases h : index16 (.table kind) j <;> simp [Except.map, h]
  | none => cases h : index16 (.table kind) table.length <;> simp [Except.map, h]

theorem intern_items (hf : ∀ a b, (f a == f b) = (a == b)) {table : List α} {item : α} (set : List α → Tables)
    (hset : ∀ t, (set t).items kind = t.map f) :
    intern kind (table.map f) (f item) =
      ((intern kind table item).map fun (i, t) => (i, set t)).map fun (i, t') => (i, t'.items kind) := by
  rw [intern_map hf]
  cases intern kind table item with
  | error limit => rfl
  | ok result => simp [Except.map, hset]

end

namespace Tables

variable {t t' : Tables} {x : Item} {i : UInt16} {kind : TableKind} {limit : CodeLimit}

theorem intern_eq (t : Tables) (x : Item) :
    intern x.kind (t.items x.kind) x = (t.add x).map fun (i, t') => (i, t'.items x.kind) := by
  cases x with
  | name s => exact intern_items (f := .name) (fun _ _ => rfl) (fun names => { t with names }) fun _ => rfl
  | field s => exact intern_items (f := .field) (fun _ _ => rfl) (fun fields => { t with fields }) fun _ => rfl
  | literal v => exact intern_items (f := .literal) (fun _ _ => rfl) (fun literals => { t with literals }) fun _ => rfl
  | type type => exact intern_items (f := .type) (fun _ _ => rfl) (fun types => { t with types }) fun _ => rfl
  | function s => exact intern_items (f := .function) (fun _ _ => rfl) (fun functions => { t with functions }) fun _ => rfl

theorem intern_of_add (h : t.add x = .ok (i, t')) :
    intern x.kind (t.items x.kind) x = .ok (i, t'.items x.kind) := by
  rw [intern_eq, h]
  rfl

theorem items_of_ne (h : t.add x = .ok (i, t')) (hkind : kind ≠ x.kind) : t'.items kind = t.items kind := by
  cases x
  all_goals
    obtain ⟨_, -, he⟩ := map_eq_ok.1 h
    cases he
    cases kind <;> first | rfl | exact absurd rfl hkind

theorem prefix_add (h : t.add x = .ok (i, t')) (kind : TableKind) : t.items kind <+: t'.items kind := by
  by_cases hkind : kind = x.kind
  · subst hkind
    rw [(intern_eq_ok (intern_of_add h)).1]
    exact prefix_interned _ _
  · rw [items_of_ne h hkind]

theorem mem_add (h : t.add x = .ok (i, t')) {entry : Item} (hentry : entry ∈ t'.items kind) :
    entry ∈ t.items kind ∨ entry = x := by
  by_cases hkind : kind = x.kind
  · subst hkind
    rw [(intern_eq_ok (intern_of_add h)).1] at hentry
    exact mem_interned hentry
  · rw [items_of_ne h hkind] at hentry
    exact .inl hentry

theorem limit_add (h : t.add x = .ok (i, t')) (hlimit : (t.items kind).length ≤ UInt16.size) :
    (t'.items kind).length ≤ UInt16.size := by
  by_cases hkind : kind = x.kind
  · subst hkind
    exact interned_limit (intern_of_add h) hlimit
  · rwa [items_of_ne h hkind]

theorem after_cases (t : Tables) (x : Item) : (∃ i, t.add x = .ok (i, t.after x)) ∨ t.after x = t := by
  unfold after
  cases t.add x with
  | error limit => exact .inr rfl
  | ok result => exact .inl ⟨result.1, rfl⟩

theorem prefix_behind (t : Tables) (xs : List Item) (kind : TableKind) :
    t.items kind <+: (t.behind xs).items kind := by
  induction xs generalizing t with
  | nil => exact List.prefix_refl _
  | cons x xs ih =>
    have hstep : t.items kind <+: (t.after x).items kind := by
      rcases t.after_cases x with ⟨i, h⟩ | h
      · exact prefix_add h kind
      · rw [h]
    exact hstep.trans (ih (t.after x))

theorem mem_behind (t : Tables) (xs : List Item) {entry : Item} (h : entry ∈ (t.behind xs).items kind) :
    entry ∈ t.items kind ∨ entry ∈ xs := by
  induction xs generalizing t with
  | nil => exact .inl h
  | cons x xs ih =>
    rcases ih (t.after x) h with h | h
    · rcases t.after_cases x with ⟨i, hx⟩ | hx
      · rcases mem_add hx h with h | rfl
        · exact .inl h
        · exact .inr (List.mem_cons_self ..)
      · exact .inl (hx ▸ h)
    · exact .inr (List.mem_cons_of_mem _ h)

theorem limit_behind (xs : List Item) (hlimit : (t.items kind).length ≤ UInt16.size) :
    ((t.behind xs).items kind).length ≤ UInt16.size := by
  induction xs generalizing t with
  | nil => exact hlimit
  | cons x xs ih =>
    apply ih
    rcases t.after_cases x with ⟨i, h⟩ | h
    · exact limit_add h hlimit
    · rwa [h]

theorem items_empty (kind : TableKind) : ({} : Tables).items kind = [] := by
  cases kind <;> rfl

theorem full_of_error (h : t.add x = .error limit) (hlimit : (t.items x.kind).length ≤ UInt16.size) :
    limit = .table x.kind ∧ (t.items x.kind).length = UInt16.size := by
  have hintern : intern x.kind (t.items x.kind) x = .error limit := by
    rw [intern_eq, h]
    rfl
  unfold intern at hintern
  split at hintern
  · next j hj =>
    obtain ⟨hlt, -⟩ := List.findIdx?_eq_some_iff_getElem.1 hj
    rw [index16, if_pos (by omega)] at hintern
    cases hintern
  · by_cases hroom : (t.items x.kind).length < UInt16.size
    · rw [index16, if_pos hroom] at hintern
      cases hintern
    · rw [index16, if_neg hroom] at hintern
      cases hintern
      exact ⟨rfl, by omega⟩

theorem added_entry (before : List Item) (x : Item) :
    (∀ kind, ((behind {} before).items kind).length ≤ UInt16.size) ∧
      match (behind {} before).add x with
      | .ok (i, t) => ∃ entry, (∀ later, ((t.behind later).items x.kind)[i.toNat]? = some entry) ∧
          (entry ≠ x → ∃ v w, x = .literal v ∧ entry = .literal w ∧ .literal w ∈ before ∧ (w == v) = true ∧
            w.kind = v.kind)
      | .error limit => limit = .table x.kind ∧ ((behind {} before).items x.kind).length = UInt16.size ∧
          (behind {} before).after x = behind {} before := by
  have hlimit (kind : TableKind) : ((behind {} before).items kind).length ≤ UInt16.size := by
    apply limit_behind
    rw [items_empty]
    exact Nat.zero_le _
  refine ⟨hlimit, ?_⟩
  split
  · next i t h =>
    obtain ⟨entry, hentry, hmem, heq⟩ := (intern_eq_ok (intern_of_add h)).2.exists_entry
    refine ⟨entry, fun later => getElem?_extended (prefix_behind t later x.kind) hentry, fun hne => ?_⟩
    obtain ⟨w, v, rfl, rfl, hwv⟩ := (Item.eq_of_beq (heq.resolve_right hne)).resolve_left hne
    refine ⟨v, w, rfl, rfl, ?_, hwv, Value.kind_of_same hwv⟩
    rcases mem_behind {} before ((mem_add h hmem).resolve_right hne) with hnone | hbefore
    · rw [items_empty] at hnone
      cases hnone
    · exact hbefore
  · next limit h =>
    obtain ⟨hl, hfull⟩ := full_of_error h (hlimit x.kind)
    exact ⟨hl, hfull, by rw [after, h]⟩

theorem negative_zero_lost :
    ¬ ∀ before x i t, (behind {} before).add x = .ok (i, t) → (t.items x.kind)[i.toNat]? = some x := by
  intro h
  have hzero := h [.literal (.float 0.0)] (.literal (.float (-0.0))) 0 { literals := [.float 0.0] } (by rfl)
  have hbits : (0.0 : Float).toBits = (-0.0 : Float).toBits := by
    injection hzero with hitem
    injection hitem with hvalue
    injection hvalue with hfloat
    exact congrArg Float.toBits hfloat
  exact absurd hbits (by decide)

end Tables

end FactFold.Script
