import FactFold.Clause
import FactFold.Proofs.Context
import FactFold.Proofs.Registry

namespace FactFold

open Script

namespace Clause

variable {c : Clause} {config : Config} {r : Registry} {name name' source source' : String} {sees sees' : Bool}
  {u u' : CompiledUnit}

theorem zip_inputs (c : Clause) (config : Config) (name source : String) (sees : Bool) :
    (c.plan config name source sees).inputs.zip (c.plan config name source sees).inputTypes = c.inputs sees :=
  (List.zip_of_prod rfl rfl).symm

theorem compiler_eq (h : u.plan = c.plan config name source sees) (h' : u'.plan = c.plan config name' source' sees')
    (hi : u'.inputs = u.inputs) : u'.compiler r = u.compiler r := by
  rw [CompiledUnit.compiler, CompiledUnit.compiler, h, h', hi]
  rfl

theorem variable_type (h : (c.plan config name source sees).compile config r = .ok u)
    (h' : (c.plan config name' source' sees').compile config r = .ok u') {x : String}
    (hx : x ∈ c.vars.map Prod.fst) : u'.inputs.get? x = u.inputs.get? x := by
  obtain ⟨imports, hi, htypes⟩ := CompiledUnit.compile_types h
  obtain ⟨imports', hi', htypes'⟩ := CompiledUnit.compile_types h'
  obtain rfl : imports = imports' := Except.ok.inj (hi.symm.trans hi')
  obtain ⟨input, hinput, rfl⟩ := List.mem_map.1 hx
  have hmem (sees : Bool) : input ∈ c.inputs sees := List.mem_append_right _ hinput
  rw [zip_inputs] at htypes htypes'
  rw [htypes input (hmem sees), htypes' input (hmem sees')]

end Clause

theorem CompiledUnit.properName {r : Registry} (hr : r.Proper) {p : Plan} {config : Config} {u : CompiledUnit}
    (h : p.compile config r = .ok u) (name : String) : (u.compiler r).ProperName name := by
  obtain ⟨rfl, -, ⟨imports, hi, -⟩, -⟩ := compile_steps h
  refine .inr fun path v hv => ?_
  have hconstant : imports.constant? r path = some v := by
    rw [← hv, compiler, hi]
    rfl
  exact Imports.ofPlan_constant? hr hi hconstant

end FactFold
