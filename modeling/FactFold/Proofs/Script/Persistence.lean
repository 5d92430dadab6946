import FactFold.Proofs.Json.Records
import FactFold.Proofs.Json.Values
import FactFold.Proofs.Registry
import FactFold.Proofs.Script.Correctness
import FactFold.Proofs.Script.FloatLiterals
import FactFold.Proofs.Unit
import FactFold.Script.Persisted

namespace FactFold

open Json

theorem ValueType.ofJson?_toJson (t : ValueType) : ValueType.ofJson? t.toJson = some t := by
  cases t <;> rfl

namespace Script

theorem count16_eq (n : UInt16) : count16 (nat n.toNat) = (pure n : Reading UInt16) := by
  have hn : (UInt64.ofNat n.toNat).toUInt16 = n := by simp
  exact (count_below n.toNat_lt (by decide)).trans (congrArg pure hn)

theorem count8_eq (n : UInt8) : count8 (nat n.toNat) = (pure n : Reading UInt8) := by
  have hn : (UInt64.ofNat n.toNat).toUInt8 = n := by simp
  exact (count_below n.toNat_lt (by decide)).trans (congrArg pure hn)

namespace Op

theorem ofJson_indexed (i : UInt16) :
    ∀ entry ∈ indexedOps, Op.ofJson (.object [(entry.1, .nat i.toNat)]) = pure (entry.2 i) := by
  simp [Op.ofJson, asChoice?, lift_some, plainOps, indexedOps, List.lookup, count16_eq]

theorem ofJson_toJson (op : Op) : Op.ofJson op.toJson = pure op := by
  cases op with
  | declare i t =>
    have htype : optional [("name", .nat i.toNat), ("ty", .ofOption (.nat ·.toNat) t)] "ty" count16 = pure t :=
      optional_eq rfl nofun count16_eq
    simp [Op.ofJson, Op.toJson, Op.toChoice, asChoice?, lift_some, namedParts_object, required, Entries.get?,
      List.lookup, count16_eq, htype]
  | call f n =>
    simp [Op.ofJson, Op.toJson, Op.toChoice, asChoice?, lift_some, namedParts_object, required, Entries.get?,
      List.lookup, count16_eq, count8_eq]
  | strict op =>
    cases op with
    | arith op => cases op <;> rfl
    | eq => rfl
    | ne => rfl
    | order op => cases op <;> rfl
  | unary op => cases op <;> rfl
  | ret => rfl
  | halt => rfl
  | discard => rfl
  | _ => exact ofJson_indexed _ (_, _) (by simp [indexedOps])

end Op

theorem Chunk.ofJson_toJson {c : Chunk} (h : ∀ v ∈ c.literals, v.Proper) :
    Chunk.ofJson (c.toJson Value.toJson) = pure c := by
  rw [ofJson, toJson, parts_object (by simp) (by simp), pure_bind]
  have hops : listOf Op.ofJson (.array (c.ops.map Op.toJson)) = pure c.ops :=
    listOf_eq fun op _ => op.ofJson_toJson
  have hliterals : listOf Document.value (Json.array (c.literals.map Value.toJson)) = pure c.literals :=
    listOf_eq fun v hv => congrArg pure (Value.ofJson_toJson (h v hv))
  have htypes : listOf (fun type => liftM (ValueType.ofJson? type)) (Json.array (c.types.map ValueType.toJson)) =
      (pure c.types : Reading _) :=
    listOf_eq fun t _ => by rw [t.ofJson?_toJson]; rfl
  simp [required, Entries.get?, List.lookup, hops, hliterals, htypes, listOf_texts, flag_eq]

theorem readable_op (op : Op) : Readable 2 op.toJson := by
  have hindex (depth : Nat) (i : UInt16) : Readable depth (.nat i.toNat) :=
    readable_nat depth (i.toNat_lt.trans (by decide))
  cases op with
  | declare i t =>
    have htype : Readable 0 (.ofOption (.nat ·.toNat) t) := by
      cases t with
      | none => exact .null 0
      | some t => exact hindex 0 t
    have hparts : Readable 1 (.object [("name", .nat i.toNat), ("ty", .ofOption (.nat ·.toNat) t)]) :=
      .object (by simp [hindex, htype])
    exact .object (List.forall_mem_singleton.2 hparts)
  | call f n =>
    have harity := readable_nat 0 (n.toNat_lt.trans (by decide))
    have hparts : Readable 1 (.object [("function", .nat f.toNat), ("arity", .nat n.toNat)]) :=
      .object (by simp [hindex, harity])
    exact .object (List.forall_mem_singleton.2 hparts)
  | strict op =>
    cases op with
    | arith op => cases op <;> exact .text ..
    | order op => cases op <;> exact .text ..
    | _ => exact .text ..
  | unary op => cases op <;> exact .text ..
  | ret => exact .text ..
  | halt => exact .text ..
  | discard => exact .text ..
  | _ => exact .object (List.forall_mem_singleton.2 (hindex 1 _))

theorem readable_type (t : ValueType) : Readable 1 t.toJson := by
  cases t with
  | record name => exact .object (List.forall_mem_singleton.2 (.text 0 name))
  | _ => exact .text ..

theorem readable_chunk {c : Chunk} (h : ∀ v ∈ c.literals, Readable 125 v.toJson) :
    Readable nestingLimit (c.toJson Value.toJson) := by
  have harray {α : Type} {write : α → Json} {items : List α} (hitems : ∀ a ∈ items, Readable 125 (write a)) :
      Readable 126 (.array (items.map write)) :=
    .array (List.forall_mem_map.2 hitems)
  have hops := harray fun op (_ : op ∈ c.ops) => (readable_op op).mono (by omega : 2 ≤ 125)
  have htypes := harray fun t (_ : t ∈ c.types) => (readable_type t).mono (by omega : 1 ≤ 125)
  have htexts (items : List String) : Readable 126 (.texts items) := harray fun s _ => .text 125 s
  exact .object (by simp [hops, htypes, htexts, harray h, Readable.bool])

theorem Chunk.ofPersisted?_persisted {c : Chunk} (hp : ∀ v ∈ c.literals, v.Proper)
    (hr : ∀ v ∈ c.literals, Readable 125 v.toJson) : Chunk.ofPersisted? c.persisted = some c := by
  rw [ofPersisted?, persisted, parse?_compact (readable_chunk hr)]
  exact read?_eq (Chunk.ofJson_toJson hp)

theorem Literal.storable_value {l : Literal} (h : l.FloatsAll fun x => x.isNaN = false) : l.value.Storable := by
  cases l with
  | float x => exact ⟨trivial, Nat.zero_le _, List.forall_mem_singleton.2 h⟩
  | _ => exact ⟨trivial, Nat.zero_le _, nofun⟩

theorem Compiler.literals_storable {c : Compiler} {depth : Nat} {text : String} {p : Program}
    (h : c.source depth text = .ok p) (hc : ∀ path v, c.symbols.constant path = some v → v.Storable) :
    ∀ v ∈ p.chunk.literals, v.Storable := by
  obtain ⟨ls, hls, h⟩ := bind_eq_ok.1 h
  obtain ⟨ss, hss, h⟩ := bind_eq_ok.1 h
  have hfloats := parseScript_floats (mapError_eq_ok.1 hss) (lexemes_isNaN (mapError_eq_ok.1 hls))
  intro v hv
  rw [program_literals h] at hv
  rcases mem_foldl_interned hv with hv | hv
  · cases hv
  · cases literals_drawn (c := c) hfloats [] v hv with
    | literal hl => exact Literal.storable_value hl
    | constant hconstant => exact hc _ _ hconstant

end Script

/-- The chunk of a compiled plan is read back from its persisted text as it was, and runs as it did. The
constants have to fit into a chunk, no literal may hold an infinite float, and the finite floats of the
literals are taken to be read back from their texts. -/
theorem compiled_chunk_kept {p : Plan} {config : Config} {r : Registry} {u : CompiledUnit}
    (h : p.compile config r = .ok u) (hr : ∀ entry ∈ r.fields, entry.2.Storable)
    (hfinite : ∀ v ∈ u.program.chunk.literals, ∀ x ∈ v.floats, x.isInf = false)
    (hread : ∀ v ∈ u.program.chunk.literals, ∀ x ∈ v.floats, x.isNaN = false → x.isInf = false → ReadsBack x) :
    ∃ chunk, Script.Chunk.ofPersisted? u.program.chunk.persisted = some chunk ∧ chunk = u.program.chunk ∧
      ∀ natives limit (k : Context),
        (Script.Program.mk chunk natives).run limit k = (Script.Program.mk u.program.chunk natives).run limit k := by
  obtain ⟨rfl, -, ⟨imports, hi, -⟩, hsource⟩ := CompiledUnit.compile_steps h
  have hconstants (path : String) (v : Value) (hv : (u.compiler r).symbols.constant path = some v) : v.Storable := by
    have hconstant : imports.constant? r path = some v := by
      rw [← hv, CompiledUnit.compiler, hi]
      rfl
    exact Imports.ofPlan_constant?_forall hr hi hconstant
  have hliterals := Script.Compiler.literals_storable hsource hconstants
  have hreadable (v : Value) (hv : v ∈ u.program.chunk.literals) : Readable 125 v.toJson :=
    Value.readable_toJson (hliterals v hv).nesting fun x hx =>
      hread v hv x hx ((hliterals v hv).notNaN x hx) (hfinite v hv x hx)
  exact ⟨_, Script.Chunk.ofPersisted?_persisted (fun v hv => (hliterals v hv).proper) hreadable, rfl,
    fun _ _ _ => rfl⟩

def tablePlan : Plan :=
  { name := "rate", expression := "table", importedFields := ["Rate.table"] }

def tableRegistry (table : Value) : Registry :=
  { types := [], methods := [], fields := [("Rate.table", table)] }

def literalUnit (p : Plan) (v : Value) : CompiledUnit where
  plan := p
  layout := ⟨0, 0, 0, 0, 0, 0⟩
  inputs := []
  program := ⟨{ ops := [.literal 0, .ret], literals := [v] }, []⟩
  maxStackDepth := 1024

theorem tablePlan_compile (table : Value) :
    tablePlan.compile {} (tableRegistry table) = .ok (literalUnit tablePlan table) := by
  cbv

def sampleTable : Value :=
  .record [("low", .float 0.25), ("steps", .list [.int 2, .null])]

theorem compiled_chunk_kept_table :
    tablePlan.compile {} (tableRegistry sampleTable) = .ok (literalUnit tablePlan sampleTable) ∧
      ∃ chunk, Script.Chunk.ofPersisted? (literalUnit tablePlan sampleTable).program.chunk.persisted = some chunk ∧
        chunk.literals = [sampleTable] := by
  have hfloat : ReadsBack 0.25 := by
    unfold ReadsBack
    rfl
  have hstorable : sampleTable.Storable :=
    ⟨by simp [sampleTable, Value.Proper, Value.FieldsProper, Value.ItemsProper], by decide, by decide⟩
  obtain ⟨chunk, hchunk, rfl, -⟩ := compiled_chunk_kept (tablePlan_compile sampleTable)
    (List.forall_mem_singleton.2 hstorable) (List.forall_mem_singleton.2 (by decide))
    (List.forall_mem_singleton.2 (List.forall_mem_singleton.2 fun _ _ => hfloat))
  exact ⟨tablePlan_compile sampleTable, _, hchunk, rfl⟩

def nested : Nat → Value
  | 0 => .null
  | n + 1 => .list [nested n]

theorem compact_nested (n : Nat) :
    (nested n).toJson.compact.toList = List.replicate n '[' ++ "null".toList ++ List.replicate n ']' := by
  induction n with
  | zero => rfl
  | succ n ih =>
    rw [List.replicate_succ, List.replicate_succ']
    simp [nested, Value.toJson, Value.itemsToJson, compact, compactItems, String.toList_append, ih]

theorem toList_persisted (p : Plan) (v : Value) : (literalUnit p v).program.chunk.persisted.toList =
    "\x7b\"ops\":[\x7b\"Literal\":0\x7d,\"Return\"],\"names\":[],\"fields\":[],\"literals\":[".toList ++
      v.toJson.compact.toList ++ "],\"types\":[],\"functions\":[],\"strict\":false\x7d".toList := by
  simp [Script.Chunk.persisted, Script.Chunk.toJson, Script.Op.toJson, Script.Op.toChoice, literalUnit, compact,
    compactMembers, compactItems, String.toList_append, toList_quote, texts, nat, escape]
  rfl

def beyondPlan : Plan :=
  { name := "beyond", expression := "1e999" }

def infinity : Float :=
  1.0 / 0.0

set_option maxRecDepth 100000 in
theorem lexemes_beyond : Script.lexemes "1e999" = .ok [⟨.float infinity, ⟨0, 5⟩⟩] := by
  have htext : "1e999".toList = ['1', 'e', '9', '9', '9'] := rfl
  have hpiece : Script.piece '1' ['e', '9', '9', '9'] = (.token (.float infinity), 4) := rfl
  rw [Script.lexemes, htext, Script.lexemesFrom_known [] hpiece (by simp), List.drop_eq_nil_of_le (by decide),
    Script.lexemesFrom]
  rfl

theorem beyondPlan_compile : beyondPlan.compile {} ⟨[], [], []⟩ = .ok (literalUnit beyondPlan (.float infinity)) := by
  refine Plan.compile_iff.2 ⟨by decide, ⟨0, 0, 0, 0, 0, 0⟩, ⟨[], [], [], []⟩, [], _, rfl, rfl, rfl, ?_, rfl⟩
  have htrim : Text.trim "1e999" = "1e999" := by cbv
  have hparse (x : Float) :
      Script.parseScript 256 [⟨.float x, ⟨0, 5⟩⟩] = .ok [.expr (.literal (.float x) ⟨0, 5⟩)] := by
    cbv
  refine bind_eq_ok.2 ⟨_, mapError_eq_ok.2 (htrim ▸ lexemes_beyond), ?_⟩
  refine bind_eq_ok.2 ⟨_, mapError_eq_ok.2 (hparse _), ?_⟩
  -- no step from here on looks at the float
  generalize infinity = x
  rfl

set_option maxRecDepth 100000 in
theorem parse?_nested :
    Json.parse? nestingLimit (literalUnit tablePlan (nested 126)).program.chunk.persisted = none := by
  rw [parse?, toList_persisted, compact_nested]
  rfl

theorem compiled_chunk_lost :
    (beyondPlan.compile {} ⟨[], [], []⟩ = .ok (literalUnit beyondPlan (.float infinity)) ∧
        (Script.Chunk.ofPersisted? (literalUnit beyondPlan (.float infinity)).program.chunk.persisted).map
          (·.literals) = some [.null]) ∧
      tablePlan.compile {} (tableRegistry (nested 126)) = .ok (literalUnit tablePlan (nested 126)) ∧
        Script.Chunk.ofPersisted? (literalUnit tablePlan (nested 126)).program.chunk.persisted = none := by
  have hnull : (literalUnit beyondPlan (.float infinity)).program.chunk.persisted =
      (literalUnit beyondPlan .null).program.chunk.persisted := by
    apply String.toList_injective
    rw [toList_persisted, toList_persisted]
    rfl
  have hread := Script.Chunk.ofPersisted?_persisted (c := (literalUnit beyondPlan .null).program.chunk)
    (List.forall_mem_singleton.2 trivial) (List.forall_mem_singleton.2 (.null 125))
  refine ⟨⟨beyondPlan_compile, ?_⟩, tablePlan_compile _, ?_⟩
  · rw [hnull, hread]
    rfl
  · rw [Script.Chunk.ofPersisted?, parse?_nested]
    rfl

end FactFold
