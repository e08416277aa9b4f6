/-!
Literals and operators of expressions.
-/
namespace RowCheck

/-- A literal value. A float is held by the 64 bits of its double. -/
inductive Literal where
  | int (value : Int)
  | float (bits : UInt64)
  | bool (value : Bool)
  | string (value : String)
  | unit
  deriving DecidableEq, Repr, Inhabited

inductive BinOp where
  | add | sub | mul | div
  | eq | ne | lt | le | gt | ge
  | and | or
  deriving DecidableEq, Repr, Inhabited

def BinOp.symbol : BinOp → String
  | .add => "+"
  | .sub => "-"
  | .mul => "*"
  | .div => "/"
  | .eq => "="
  | .ne => "<>"
  | .lt => "<"
  | .le => "<="
  | .gt => ">"
  | .ge => ">="
  | .and => "&&"
  | .or => "||"

def BinOp.all : List BinOp :=
  [.add, .sub, .mul, .div, .eq, .ne, .lt, .le, .gt, .ge, .and, .or]

/-- The operator with a given symbol. -/
def BinOp.ofSymbol? (symbol : String) : Option BinOp :=
  BinOp.all.find? (fun op => op.symbol = symbol)

inductive UnOp where
  | neg
  | not
  deriving DecidableEq, Repr, Inhabited

def UnOp.name : UnOp → String
  | .neg => "neg"
  | .not => "not"

theorem BinOp.ofSymbol?_symbol (op : BinOp) : BinOp.ofSymbol? op.symbol = some op := by
  cases op <;> decide +kernel

end RowCheck
