import FactFold.Script.Code
import FactFold.Script.Parser

/-!
Every name is looked up once, while the script is compiled: an input becomes its slot, a constant
becomes a literal, and all else is left to the frame. With strict typing, a name has to be an input, a
constant or declared earlier in the text, and stores to typed inputs are checked.
-/

namespace FactFold.Script

structure Symbols where
  input : String → Option (UInt16 × ValueType)
  constant : String → Option Value
  function : String → Option Native
  type : String → Option ValueType

inductive ScriptError where
  | lex (e : LexError)
  | parse (e : ParseError)
  | unknownName (name : String) (span : Span)
  | unknownType (name : String) (span : Span)
  | unknownFunction (name : String) (span : Span)
  | notAssignable (target : String) (span : Span)
  | tooLarge (limit : CodeLimit)

def ScriptError.message : ScriptError → String
  | lex e => e.message
  | parse e => e.message
  | unknownName name span => "unknown identifier `" ++ name ++ "` at " ++ span.toText
  | unknownType name span => "unknown type `" ++ name ++ "` at " ++ span.toText
  | unknownFunction name span => "unknown function `" ++ name ++ "` at " ++ span.toText
  | notAssignable target span => "cannot assign to `" ++ target ++ "` at " ++ span.toText
  | tooLarge limit => limit.message

structure Compiler where
  symbols : Symbols
  strict : Bool

structure Draft extends Tables where
  natives : List Native := []
  declared : List String := []

inductive Target where
  | slot (slot : UInt16) (type : ValueType)
  | declared
  | constant (v : Value)
  | unknown

abbrev Compiled :=
  Except ScriptError (List Op × Draft)

def Draft.add (d : Draft) (entry : Except CodeLimit (UInt16 × Tables)) : Except ScriptError (UInt16 × Draft) :=
  match entry with
  | .ok (i, tables) => .ok (i, { d with toTables := tables })
  | .error limit => .error (.tooLarge limit)

def Draft.literal (d : Draft) (v : Value) : Compiled :=
  (d.add (d.addLiteral v)).map fun (i, d) => ([.literal i], d)

def distance (n : Nat) : Except ScriptError UInt16 :=
  (index16 .jump n).mapError .tooLarge

namespace Compiler

def classify (c : Compiler) (d : Draft) (name : String) : Target :=
  match c.symbols.input name with
  | some (slot, type) => .slot slot type
  | none =>
    if d.declared.contains name then .declared
    else
      match c.symbols.constant name with
      | some v => .constant v
      | none => .unknown

def load (c : Compiler) (name : String) (span : Span) (d : Draft) : Compiled :=
  match c.classify d name with
  | .slot slot _ => .ok ([.loadSlot slot], d)
  | .constant v => d.literal v
  | target =>
    if target matches .unknown && c.strict then .error (.unknownName name span)
    else (d.add (d.addName name)).map fun (i, d) => ([.loadName i], d)

def store (c : Compiler) (name : String) (span : Span) (d : Draft) : Compiled :=
  match c.classify d name with
  | .slot slot type =>
    if c.strict && type.isConstrained then
      (d.add (d.addType type)).map fun (i, d) => ([.checkType i, .storeSlot slot], d)
    else .ok ([.storeSlot slot], d)
  | .constant _ => .error (.notAssignable name span)
  | target =>
    if target matches .unknown && c.strict then .error (.unknownName name span)
    else (d.add (d.addName name)).map fun (i, d) => ([.storeName i], d)

def constantPath? (c : Compiler) (d : Draft) (e : Expr) : Option Value := do
  match c.classify d (← e.root?) with
  | .slot _ _ => none
  | .declared => none
  | _ => c.symbols.constant (← e.path?)

def addFunction (function : String) (native : Native) (d : Draft) : Except ScriptError (UInt16 × Draft) :=
  (d.add (d.toTables.addFunction function)).map fun (i, d) =>
    (i, if i.toNat = d.natives.length then { d with natives := d.natives ++ [native] } else d)

mutual

def expr (c : Compiler) (e : Expr) (d : Draft) : Compiled :=
  match e with
  | .literal l _ => d.literal l.value
  | .name n span => c.load n span d
  | .field object name span =>
    match c.constantPath? d (.field object name span) with
    | some v => d.literal v
    | none => do
      let (code, d) ← c.expr object d
      let (i, d) ← d.add (d.addField name)
      return (code ++ [.loadField i], d)
  | .call function args span =>
    match c.symbols.function function with
    | none => .error (.unknownFunction function span)
    | some native =>
      if args.length < UInt8.size then do
        let (code, d) ← c.arguments args d
        let (i, d) ← addFunction function native d
        return (code ++ [.call i (UInt8.ofNat args.length)], d)
      else .error (.tooLarge .arguments)
  | .unary op operand _ => do
    let (code, d) ← c.expr operand d
    return (code ++ [.unary op], d)
  | .binary (.strict op) left right _ => do
    let (first, d) ← c.expr left d
    let (second, d) ← c.expr right d
    return (first ++ second ++ [.strict op], d)
  | .binary .and left right _ => do
    let (first, d) ← c.expr left d
    let (second, d) ← c.expr right d
    let (yes, d) ← d.literal (.bool true)
    let toNo ← distance (second.length + 3)
    let (no, d) ← d.literal (.bool false)
    return (first ++ .jumpIfFalse toNo :: second ++ .jumpIfFalse 2 :: yes ++ .jump 1 :: no, d)
  | .binary .or left right _ => do
    let (first, d) ← c.expr left d
    let (yes, d) ← d.literal (.bool true)
    let (second, d) ← c.expr right d
    let (yes', d) ← d.literal (.bool true)
    let (no, d) ← d.literal (.bool false)
    let toEnd ← distance (second.length + 4)
    return (first ++ .jumpIfFalse 2 :: yes ++ .jump toEnd :: second ++ .jumpIfFalse 2 :: yes' ++ .jump 1 :: no, d)
  | .conditional condition yes no _ => do
    let (test, d) ← c.expr condition d
    let (first, d) ← c.expr yes d
    let toNo ← distance (first.length + 1)
    let (second, d) ← c.expr no d
    let toEnd ← distance second.length
    return (test ++ .jumpIfFalse toNo :: first ++ .jump toEnd :: second, d)
termination_by structural e

def arguments (c : Compiler) (args : List Expr) (d : Draft) : Compiled :=
  match args with
  | [] => .ok ([], d)
  | e :: rest => do
    let (first, d) ← c.expr e d
    let (others, d) ← c.arguments rest d
    return (first ++ others, d)
termination_by structural args

end

def declaredType (c : Compiler) (type : Option String) (span : Span) (d : Draft) :
    Except ScriptError (Option UInt16 × Draft) :=
  match type with
  | none => .ok (none, d)
  | some type =>
    match c.symbols.type type with
    | none => .error (.unknownType type span)
    | some type => (d.add (d.addType type)).map fun (i, d) => (some i, d)

mutual

def stmt (c : Compiler) (s : Stmt) (d : Draft) : Compiled :=
  match s with
  | .expr e => do
    let (code, d) ← c.expr e d
    return (code ++ [.discard], d)
  | .assign target .set value span => do
    let (code, d) ← c.expr value d
    let (write, d) ← c.store target span d
    return (code ++ write ++ [.discard], d)
  | .assign target (.update op) value span => do
    let (old, d) ← c.load target span d
    let (code, d) ← c.expr value d
    let (write, d) ← c.store target span d
    return (old ++ code ++ .strict (.arith op) :: write ++ [.discard], d)
  | .declare name type value span => do
    let (type, d) ← c.declaredType type span d
    let (code, d) ← match value with
      | some value => c.expr value d
      | none => d.literal .null
    let (i, d) ← d.add (d.addName name)
    return (code ++ [.declare i type], { d with declared := name :: d.declared })
  | .branch condition yes none => do
    let (test, d) ← c.expr condition d
    let (first, d) ← c.block yes d []
    let toEnd ← distance first.length
    return (test ++ .jumpIfFalse toEnd :: first, d)
  | .branch condition yes (some no) => do
    let (test, d) ← c.expr condition d
    let (first, d) ← c.block yes d []
    let toNo ← distance (first.length + 1)
    let (second, d) ← c.block no d []
    let toEnd ← distance second.length
    return (test ++ .jumpIfFalse toNo :: first ++ .jump toEnd :: second, d)
  | .ret (some value) => do
    let (code, d) ← c.expr value d
    return (code ++ [.ret], d)
  | .ret none => .ok ([.halt], d)
termination_by structural s

/-- Code for statements one after the other, behind the pieces of code already `done`, which stand
last first. -/
def block (c : Compiler) (ss : List Stmt) (d : Draft) (done : List (List Op)) : Compiled :=
  match ss with
  | [] => .ok (done.reverse.flatten, d)
  | s :: rest => do
    let (code, d) ← c.stmt s d
    c.block rest d (code :: done)
termination_by structural ss

end

def script (c : Compiler) (ss : List Stmt) : Compiled :=
  match ss.getLast? with
  | some (.expr e) => do
    let (code, d) ← c.block ss.dropLast {} []
    let (value, d) ← c.expr e d
    return (code ++ value ++ [.ret], d)
  | _ => c.block ss {} []

def program (c : Compiler) (ss : List Stmt) : Except ScriptError Program :=
  (c.script ss).map fun (ops, d) => ⟨{ d.toTables with ops, strict := c.strict }, d.natives⟩

def source (c : Compiler) (depth : Nat) (text : String) : Except ScriptError Program := do
  let ls ← (lexemes text).mapError .lex
  let ss ← (parseScript depth ls).mapError .parse
  c.program ss

end Compiler

end FactFold.Script
