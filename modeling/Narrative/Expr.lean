import Narrative.Value

/-! Expressions: the trees that directives are read into. -/

namespace Narrative

inductive UnaryOp where
  | neg
  | not
  deriving DecidableEq

inductive BinaryOp where
  | add
  | sub
  | mul
  | div
  | floorDiv
  | rem
  | concat
  | eq
  | ne
  | lt
  | le
  | gt
  | ge
  | inside
  | outside
  | and
  | or
  deriving DecidableEq

/-- An expression. A choice `body if test else otherwise` may lack its last part. -/
inductive Expr where
  | lit (v : Value)
  | list (items : List Expr)
  | var (name : String)
  | attr (target : Expr) (name : String)
  | index (target key : Expr)
  | call (name : String) (args : List Expr)
  | unary (op : UnaryOp) (e : Expr)
  | binary (op : BinaryOp) (left right : Expr)
  | when (body test : Expr)
  | choose (body test otherwise : Expr)
  deriving Inhabited

end Narrative
