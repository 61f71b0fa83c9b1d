import RowTyping.Expr.Basic
import RowTyping.Scheme

namespace RowTyping

inductive InferRule where
  | literal
  | varLookup
  | instantiate (scheme : Scheme)
  | lambda
  | apply
  | letIn
  | letRec
  | cond
  | binaryOp
  | unaryOp
  | record
  | fieldAccess
  | update
  | list
  | tuple
  | caseOf
  | generalize (scheme : Scheme)
  | default (types : List Ty)
  | resolve (className : String)
  deriving DecidableEq, Inhabited

namespace InferRule

def name : InferRule → String
  | .literal => "literal"
  | .varLookup => "var_lookup"
  | .instantiate _ => "instantiate"
  | .lambda => "lambda"
  | .apply => "apply"
  | .letIn => "let"
  | .letRec => "let_rec"
  | .cond => "if"
  | .binaryOp => "binary_op"
  | .unaryOp => "unary_op"
  | .record => "record"
  | .fieldAccess => "field_access"
  | .update => "update"
  | .list => "list"
  | .tuple => "tuple"
  | .caseOf => "match"
  | .generalize _ => "generalize"
  | .default _ => "default"
  | .resolve _ => "resolve"

def detail : InferRule → String
  | .instantiate scheme => scheme.text
  | .generalize scheme => scheme.text
  | .default types => ", ".intercalate (types.map Ty.text)
  | .resolve className => className
  | _ => ""

def ofExpr : Expr → InferRule
  | .lit _ _ => .literal
  | .var _ _ => .varLookup
  | .lambda _ _ _ => .lambda
  | .app _ _ _ => .apply
  | .letIn _ _ _ _ => .letIn
  | .letRec _ _ _ => .letRec
  | .cond _ _ _ _ => .cond
  | .binary _ _ _ _ => .binaryOp
  | .unary _ _ _ => .unaryOp
  | .record _ _ => .record
  | .field _ _ _ => .fieldAccess
  | .update _ _ _ => .update
  | .list _ _ => .list
  | .tuple _ _ => .tuple
  | .caseOf _ _ _ => .caseOf

end InferRule

structure InferStep where
  node : NodeId
  ty : Ty
  rule : InferRule
  deriving DecidableEq, Inhabited

end RowTyping
