import FactFold.Script.Compile
import FactFold.Script.Machine

/-!
A script tree is evaluated on a frame without any code: operands from left to right, and only those that
are needed. Expressions read the frame, statements write it. The function `read` says which value stands for
a literal or a constant; it is the identity unless a literal table is in between.
-/

namespace FactFold.Script

mutual

def Stmt.declaring (declared : List String) : Stmt → List String
  | .declare name _ _ _ => name :: declared
  | .branch _ yes none => declaringAll declared yes
  | .branch _ yes (some no) => declaringAll (declaringAll declared yes) no
  | _ => declared
termination_by structural s => s

def declaringAll (declared : List String) : List Stmt → List String
  | [] => declared
  | s :: rest => declaringAll (s.declaring declared) rest
termination_by structural ss => ss

end

def settled {σ : Type} (write : Except RunError Unit × σ) : Except (Outcome σ) σ :=
  match write with
  | (.ok (), frame) => .ok frame
  | (.error e, frame) => .error ⟨.error e, frame⟩

def orEnd {σ α : Type} (frame : σ) (a : Except RunError α) : Except (Outcome σ) α :=
  a.mapError fun e => ⟨.error e, frame⟩

theorem orEnd_ok {σ α : Type} (frame : σ) (a : α) : orEnd frame (.ok a) = .ok a :=
  rfl

theorem orEnd_bind {σ α β : Type} (frame : σ) (x : Except RunError α) (f : α → Except RunError β) :
    orEnd frame (x >>= f) = orEnd frame x >>= fun a => orEnd frame (f a) := by
  cases x <;> rfl

namespace Compiler

variable {σ : Type} [Frame σ] (c : Compiler) (read : Value → Value) (declared : List String)

def pathConstant? (e : Expr) : Option Value :=
  match e.root?, e.path? with
  | some root, some path =>
    if (c.symbols.input root).isSome ∨ root ∈ declared then none else c.symbols.constant path
  | _, _ => none

def nameValue (frame : σ) (name : String) : Except RunError Value :=
  match c.symbols.input name with
  | some (slot, _) => Frame.loadSlot frame slot
  | none =>
    if name ∈ declared then Frame.loadName frame name
    else
      match c.symbols.constant name with
      | some v => .ok (read v)
      | none => Frame.loadName frame name

def fieldOf (name : String) (v : Value) : Except RunError Value :=
  match v.field? name with
  | some w => .ok w
  | none => .error (.noField name v.kind)

def apply (function : String) (args : List Value) : Except RunError Value :=
  match c.symbols.function function with
  | some native => (native args).mapError (.functionFailed function)
  | none => .error (.unresolved function)

mutual

def eval (frame : σ) : Expr → Except RunError Value
  | .literal l _ => .ok (read l.value)
  | .name n _ => c.nameValue read declared frame n
  | .field object name span =>
    match c.pathConstant? declared (.field object name span) with
    | some v => .ok (read v)
    | none => do fieldOf name (← eval frame object)
  | .call function args _ => do c.apply function (← evalAll frame args)
  | .unary op operand _ => do Value.unary op (← eval frame operand)
  | .binary (.strict op) left right _ => do
    let a ← eval frame left
    let b ← eval frame right
    Value.strict op a b
  | .binary .and left right _ => do
    if ← (← eval frame left).condition then return .bool (← (← eval frame right).condition)
    else return .bool false
  | .binary .or left right _ => do
    if ← (← eval frame left).condition then return .bool true
    else return .bool (← (← eval frame right).condition)
  | .conditional condition yes no _ => do
    if ← (← eval frame condition).condition then eval frame yes else eval frame no
termination_by structural e => e

def evalAll (frame : σ) : List Expr → Except RunError (List Value)
  | [] => .ok []
  | e :: rest => do
    let v ← eval frame e
    let vs ← evalAll frame rest
    return v :: vs
termination_by structural es => es

end

def initial (frame : σ) : Option Expr → Except RunError Value
  | some value => c.eval read declared frame value
  | none => .ok .null

def write (frame : σ) (name : String) (v : Value) : Except (Outcome σ) σ :=
  match c.symbols.input name with
  | some (slot, type) => do
    let v ← if c.strict && type.isConstrained then orEnd frame (fitted .assignment type v) else .ok v
    settled (Frame.storeSlot frame slot v)
  | none => settled (Frame.storeName frame name v)

def declare (frame : σ) (name : String) (type : Option String) (v : Value) : Except (Outcome σ) σ :=
  match type with
  | none => settled (Frame.declare frame name v none)
  | some typeName =>
    match c.symbols.type typeName with
    | none => orEnd frame (.error (.unresolved typeName))
    | some type => do
      let v ← orEnd frame (fitted (.declaration name) type v)
      settled (Frame.declare frame name v (some type))

mutual

def exec (declared : List String) (frame : σ) : Stmt → Except (Outcome σ) σ
  | .expr e => do
    let _ ← orEnd frame (c.eval read declared frame e)
    return frame
  | .assign target .set value _ => do
    let v ← orEnd frame (c.eval read declared frame value)
    c.write frame target v
  | .assign target (.update op) value _ => do
    let old ← orEnd frame (c.nameValue read declared frame target)
    let v ← orEnd frame (c.eval read declared frame value)
    let new ← orEnd frame (Value.arith op old v)
    c.write frame target new
  | .declare name type value _ => do
    let v ← orEnd frame (c.initial read declared frame value)
    c.declare frame name type v
  | .branch condition yes none => do
    let b ← orEnd frame (c.eval read declared frame condition >>= Value.condition)
    if b then execAll declared frame yes else return frame
  | .branch condition yes (some no) => do
    let b ← orEnd frame (c.eval read declared frame condition >>= Value.condition)
    if b then execAll declared frame yes else execAll (declaringAll declared yes) frame no
  | .ret (some value) => do
    let v ← orEnd frame (c.eval read declared frame value)
    .error ⟨.ok (some v), frame⟩
  | .ret none => .error ⟨.ok none, frame⟩
termination_by structural s => s

def execAll (declared : List String) (frame : σ) : List Stmt → Except (Outcome σ) σ
  | [] => .ok frame
  | s :: rest => do
    let frame ← exec declared frame s
    execAll (s.declaring declared) frame rest
termination_by structural ss => ss

end

def evaluate (declared : List String) (frame : σ) : List Stmt → Outcome σ
  | [] => ⟨.ok none, frame⟩
  | [.expr e] => ⟨(c.eval read declared frame e).map some, frame⟩
  | s :: rest =>
    match c.exec read declared frame s with
    | .ok frame => evaluate (s.declaring declared) frame rest
    | .error outcome => outcome

end Compiler

end FactFold.Script
