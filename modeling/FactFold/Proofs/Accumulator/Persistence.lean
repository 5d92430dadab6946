import FactFold.Accumulator.Persisted
import FactFold.Proofs.Json.Records
import FactFold.Proofs.Json.Trees

namespace FactFold

open Json

theorem Extractor.ofJson_toJson (e : Extractor) : Extractor.ofJson e.toJson = pure e := by
  cases e <;> rfl

namespace Binding

theorem ofJson_toJson (b : Binding) : Binding.ofJson b.toJson = pure b := by
  rw [ofJson, toJson, parts_object (by simp) (by simp), pure_bind]
  simp [required, Entries.get?, List.lookup, count32_eq, text_eq, count_eq b.offset.toNat_lt, Extractor.ofJson_toJson]

end Binding

namespace Plan

theorem nodup_partNames : partNames.Nodup := by
  decide

theorem ofJson_toJson (p : Plan) : Plan.ofJson p.toJson = pure p := by
  have hbindings (bindings : List Binding) :
      listOf Binding.ofJson (.array (bindings.map Binding.toJson)) = pure bindings :=
    listOf_eq fun b _ => b.ofJson_toJson
  rw [ofJson, toJson, parts_object (fun m hm => (List.of_mem_zip hm).1)
    (by rw [List.map_fst_zip (by simp [partNames])]; exact nodup_partNames), pure_bind]
  simp [required, textsOf, withDefault, Entries.get?, partNames, List.lookup, count32_eq, text_eq, flag_eq,
    listOf_texts, hbindings]

end Plan

namespace Accumulator

theorem ofJson_toJson (a : Accumulator) : Accumulator.ofJson a.toJson = pure a.uncompiled := by
  have hreverse : ∀ parts : Entries String Json, parts.get? "reverse" = some (.ofOption Plan.toJson a.reverse) →
      optional parts "reverse" Plan.ofJson = pure a.reverse := fun _ hpart =>
    optional_eq hpart nofun Plan.ofJson_toJson
  rw [ofJson, toJson, parts_object (by simp) (by simp), pure_bind, hreverse _ rfl]
  simp [required, Entries.get?, List.lookup, Plan.ofJson_toJson]
  rfl

end Accumulator

theorem readable_extractor (e : Extractor) : Readable 1 e.toJson := by
  cases e with
  | whole => exact .text ..
  | field name => exact .object (by simpa using .text 0 name)

theorem readable_binding (b : Binding) : Readable 2 b.toJson := by
  have hid := readable_nat 1 (b.id.toNat_lt.trans (by decide))
  have hoffset := readable_nat 1 b.offset.toNat_lt
  exact .object (by simp [hid, hoffset, Readable.text, readable_extractor])

theorem readable_bindings (bindings : List Binding) : Readable 3 (.array (bindings.map Binding.toJson)) := by
  refine .array fun j hj => ?_
  obtain ⟨b, -, rfl⟩ := List.mem_map.1 hj
  exact readable_binding b

theorem readable_plan (p : Plan) : Readable 4 p.toJson := by
  have htexts (items : List String) : Readable 3 (.texts items) := (readable_texts items).mono (by omega)
  have hlevel := readable_nat 3 (p.languageLevel.toNat_lt.trans (by decide))
  refine .object fun m hm => ?_
  replace hm := (List.of_mem_zip hm).2
  revert m
  simp [Readable.text, Readable.bool, htexts, readable_bindings, hlevel]

theorem readable_accumulator (a : Accumulator) : Readable 5 a.toJson := by
  have hreverse : Readable 4 (.ofOption Plan.toJson a.reverse) := by
    cases a.reverse with
    | none => exact .null 4
    | some p => exact readable_plan p
  exact .object (by simp [readable_plan, hreverse])

def Plan.ofPersisted? (s : String) : Option Plan :=
  (Json.parse? nestingLimit s).bind (Json.read? Plan.ofJson)

theorem Plan.ofPersisted?_persisted (p : Plan) : Plan.ofPersisted? p.persisted = some p := by
  have hparse := parse?_compact ((readable_plan p).mono (by decide) : Readable nestingLimit p.toJson)
  rw [ofPersisted?, persisted, hparse]
  exact read?_eq p.ofJson_toJson

theorem Accumulator.ofPersisted?_persisted (a : Accumulator) :
    Accumulator.ofPersisted? a.persisted = some a.uncompiled := by
  have hparse := parse?_compact ((readable_accumulator a).mono (by decide) : Readable nestingLimit a.toJson)
  rw [ofPersisted?, persisted, hparse]
  exact read?_eq a.ofJson_toJson

theorem persistence_keeps_plans :
    (∀ a : Accumulator, Accumulator.ofPersisted? a.persisted = some a.uncompiled) ∧
      ∀ s p, Plan.ofPersisted? s = some p → Plan.ofPersisted? p.persisted = some p :=
  ⟨Accumulator.ofPersisted?_persisted, fun _ p _ => p.ofPersisted?_persisted⟩

theorem persistence_keeps_plans_reordered :
    Plan.ofPersisted? "\x7b\"later\":[],\"expression\":\"x\",\"name\":\"e\"\x7d" =
        some { name := "e", expression := "x" } ∧
      Plan.ofPersisted? (Plan.persisted { name := "e", expression := "x" }) =
        some { name := "e", expression := "x" } := by
  have hparse : Json.parse? nestingLimit "\x7b\"later\":[],\"expression\":\"x\",\"name\":\"e\"\x7d" =
      some (.object [("later", .array []), ("expression", .text "x"), ("name", .text "e")]) := by
    cbv
  have hread : Plan.ofPersisted? "\x7b\"later\":[],\"expression\":\"x\",\"name\":\"e\"\x7d" =
      some { name := "e", expression := "x" } := by
    rw [Plan.ofPersisted?, hparse]
    rfl
  exact ⟨hread, persistence_keeps_plans.2 _ _ hread⟩

end FactFold
