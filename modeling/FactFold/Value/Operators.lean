namespace FactFold

inductive ArithOp where
  | add | sub | mul | div | rem
deriving DecidableEq

inductive OrderOp where
  | lt | le | gt | ge
deriving DecidableEq

inductive StrictOp where
  | arith (op : ArithOp)
  | order (op : OrderOp)
  | eq
  | ne
deriving DecidableEq

def ArithOp.sign : ArithOp → String
  | add => "+"
  | sub => "-"
  | mul => "*"
  | div => "/"
  | rem => "%"

def OrderOp.sign : OrderOp → String
  | lt => "<"
  | le => "<="
  | gt => ">"
  | ge => ">="

def OrderOp.holds : OrderOp → Ordering → Bool
  | lt, o => o.isLT
  | le, o => o.isLE
  | gt, o => o.isGT
  | ge, o => o.isGE

inductive UnaryOp where
  | neg
  | not
deriving DecidableEq

def UnaryOp.sign : UnaryOp → String
  | neg => "-"
  | not => "!"

end FactFold
