import FactFold.Proofs.Results
import FactFold.Proofs.Script.Literals

/-!
The code of a part of a script is described by the tables that it runs with and the names declared before
it, apart from the order in which the tables came about. What the compiler makes fits this description.
-/

namespace FactFold.Script

inductive NameCode (c : Compiler) (t : Tables) (declared : List String) (name : String) : List Op → Prop
  | slot {slot : UInt16} {type : ValueType} (input : c.symbols.input name = some (slot, type)) :
    NameCode c t declared name [.loadSlot slot]
  | constant {v : Value} {i : UInt16} (input : c.symbols.input name = none) (fresh : name ∉ declared)
    (constant : c.symbols.constant name = some v) (index : Denotes t.literals v i) :
    NameCode c t declared name [.literal i]
  | frame {i : UInt16} (input : c.symbols.input name = none)
    (kept : name ∈ declared ∨ c.symbols.constant name = none) (known : name ∈ declared ∨ c.strict = false)
    (index : t.names[i.toNat]? = some name) : NameCode c t declared name [.loadName i]

inductive WriteCode (c : Compiler) (t : Tables) (name : String) : List Op → Prop
  | slot {slot : UInt16} {type : ValueType} (input : c.symbols.input name = some (slot, type))
    (free : (c.strict && type.isConstrained) = false) : WriteCode c t name [.storeSlot slot]
  | typedSlot {slot i : UInt16} {type : ValueType} (input : c.symbols.input name = some (slot, type))
    (typed : (c.strict && type.isConstrained) = true) (index : t.types[i.toNat]? = some type) :
    WriteCode c t name [.checkType i, .storeSlot slot]
  | frame {i : UInt16} (input : c.symbols.input name = none) (index : t.names[i.toNat]? = some name) :
    WriteCode c t name [.storeName i]

mutual

inductive ExprCode (c : Compiler) (t : Tables) (declared : List String) : Expr → List Op → Prop
  | literal {l : Literal} {span : Span} {i : UInt16} (index : Denotes t.literals l.value i) :
    ExprCode c t declared (.literal l span) [.literal i]
  | name {n : String} {span : Span} {code : List Op} (load : NameCode c t declared n code) :
    ExprCode c t declared (.name n span) code
  | constantPath {object : Expr} {name : String} {span : Span} {v : Value} {i : UInt16}
    (constant : c.pathConstant? declared (.field object name span) = some v)
    (index : Denotes t.literals v i) : ExprCode c t declared (.field object name span) [.literal i]
  | field {object : Expr} {name : String} {span : Span} {code : List Op} {i : UInt16}
    (computed : c.pathConstant? declared (.field object name span) = none)
    (value : ExprCode c t declared object code) (index : t.fields[i.toNat]? = some name) :
    ExprCode c t declared (.field object name span) (code ++ [.loadField i])
  | call {function : String} {args : List Expr} {span : Span} {native : Native} {code : List Op}
    {i : UInt16} (known : c.symbols.function function = some native) (few : args.length < UInt8.size)
    (values : ArgCode c t declared args code) (index : t.functions[i.toNat]? = some function) :
    ExprCode c t declared (.call function args span) (code ++ [.call i (UInt8.ofNat args.length)])
  | unary {op : UnaryOp} {operand : Expr} {span : Span} {code : List Op}
    (value : ExprCode c t declared operand code) :
    ExprCode c t declared (.unary op operand span) (code ++ [.unary op])
  | strict {op : StrictOp} {left right : Expr} {span : Span} {first second : List Op}
    (one : ExprCode c t declared left first) (two : ExprCode c t declared right second) :
    ExprCode c t declared (.binary (.strict op) left right span) (first ++ second ++ [.strict op])
  | and {left right : Expr} {span : Span} {first second : List Op} {toNo yes no : UInt16}
    (one : ExprCode c t declared left first) (two : ExprCode c t declared right second)
    (jump : toNo.toNat = second.length + 3) (yesIndex : Denotes t.literals (.bool true) yes)
    (noIndex : Denotes t.literals (.bool false) no) :
    ExprCode c t declared (.binary .and left right span)
      (first ++ .jumpIfFalse toNo :: second ++ .jumpIfFalse 2 :: [.literal yes] ++ .jump 1 :: [.literal no])
  | or {left right : Expr} {span : Span} {first second : List Op} {toEnd yes yes' no : UInt16}
    (one : ExprCode c t declared left first) (two : ExprCode c t declared right second)
    (jump : toEnd.toNat = second.length + 4) (yesIndex : Denotes t.literals (.bool true) yes)
    (yesIndex' : Denotes t.literals (.bool true) yes') (noIndex : Denotes t.literals (.bool false) no) :
    ExprCode c t declared (.binary .or left right span)
      (first ++ .jumpIfFalse 2 :: [.literal yes] ++ .jump toEnd :: second ++ .jumpIfFalse 2 :: [.literal yes']
        ++ .jump 1 :: [.literal no])
  | conditional {condition yes no : Expr} {span : Span} {test first second : List Op} {toNo toEnd : UInt16}
    (value : ExprCode c t declared condition test) (one : ExprCode c t declared yes first)
    (two : ExprCode c t declared no second) (jump : toNo.toNat = first.length + 1)
    (jump' : toEnd.toNat = second.length) :
    ExprCode c t declared (.conditional condition yes no span)
      (test ++ .jumpIfFalse toNo :: first ++ .jump toEnd :: second)

inductive ArgCode (c : Compiler) (t : Tables) (declared : List String) : List Expr → List Op → Prop
  | nil : ArgCode c t declared [] []
  | cons {e : Expr} {rest : List Expr} {first others : List Op} (value : ExprCode c t declared e first)
    (values : ArgCode c t declared rest others) : ArgCode c t declared (e :: rest) (first ++ others)

end

inductive InitialCode (c : Compiler) (t : Tables) (declared : List String) : Option Expr → List Op → Prop
  | value {e : Expr} {code : List Op} (value : ExprCode c t declared e code) :
    InitialCode c t declared (some e) code
  | null {i : UInt16} (index : Denotes t.literals .null i) : InitialCode c t declared none [.literal i]

inductive TypeIndex (c : Compiler) (t : Tables) : Option String → Option UInt16 → Prop
  | untyped : TypeIndex c t none none
  | typed {name : String} {type : ValueType} {i : UInt16} (known : c.symbols.type name = some type)
    (index : t.types[i.toNat]? = some type) : TypeIndex c t (some name) (some i)

mutual

inductive StmtCode (c : Compiler) (t : Tables) : List String → Stmt → List Op → Prop
  | expr {declared : List String} {e : Expr} {code : List Op} (value : ExprCode c t declared e code) :
    StmtCode c t declared (.expr e) (code ++ [.discard])
  | set {declared : List String} {target : String} {value : Expr} {span : Span} {code write : List Op}
    (right : ExprCode c t declared value code) (store : WriteCode c t target write) :
    StmtCode c t declared (.assign target .set value span) (code ++ write ++ [.discard])
  | update {declared : List String} {target : String} {op : ArithOp} {value : Expr} {span : Span}
    {old code write : List Op} (load : NameCode c t declared target old)
    (right : ExprCode c t declared value code) (store : WriteCode c t target write) :
    StmtCode c t declared (.assign target (.update op) value span)
      (old ++ code ++ .strict (.arith op) :: write ++ [.discard])
  | declare {declared : List String} {name : String} {type : Option String} {value : Option Expr} {span : Span}
    {code : List Op} {i : UInt16} {k : Option UInt16} (right : InitialCode c t declared value code)
    (checked : TypeIndex c t type k) (index : t.names[i.toNat]? = some name) :
    StmtCode c t declared (.declare name type value span) (code ++ [.declare i k])
  | branch {declared : List String} {condition : Expr} {yes : List Stmt} {test first : List Op}
    {toEnd : UInt16} (value : ExprCode c t declared condition test) (one : BlockCode c t declared yes first)
    (jump : toEnd.toNat = first.length) :
    StmtCode c t declared (.branch condition yes none) (test ++ .jumpIfFalse toEnd :: first)
  | branchElse {declared : List String} {condition : Expr} {yes no : List Stmt} {test first second : List Op}
    {toNo toEnd : UInt16} (value : ExprCode c t declared condition test)
    (one : BlockCode c t declared yes first) (two : BlockCode c t (declaringAll declared yes) no second)
    (jump : toNo.toNat = first.length + 1) (jump' : toEnd.toNat = second.length) :
    StmtCode c t declared (.branch condition yes (some no))
      (test ++ .jumpIfFalse toNo :: first ++ .jump toEnd :: second)
  | ret {declared : List String} {value : Expr} {code : List Op} (right : ExprCode c t declared value code) :
    StmtCode c t declared (.ret (some value)) (code ++ [.ret])
  | halt {declared : List String} : StmtCode c t declared (.ret none) [.halt]

inductive BlockCode (c : Compiler) (t : Tables) : List String → List Stmt → List Op → Prop
  | nil {declared : List String} : BlockCode c t declared [] []
  | cons {declared : List String} {s : Stmt} {rest : List Stmt} {first others : List Op}
    (one : StmtCode c t declared s first) (more : BlockCode c t (s.declaring declared) rest others) :
    BlockCode c t declared (s :: rest) (first ++ others)

end

end FactFold.Script
