import RowTyping.Diagnostic.Basic
import RowTyping.Expr.Basic
import RowTyping.Unify.Error

namespace RowTyping

inductive Reason where
  | binaryOp (op : BinaryOp)
  | unaryOp (op : UnaryOp)
  | functionArg (index : Nat)
  | application
  | ifCondition
  | ifBranches
  | matchArms
  | patternMatch
  | recordField (label : Label)
  | listElement
  | letRec
  | declaredEffects
  | effectJoin
  deriving DecidableEq, Repr, Inhabited

def Reason.mismatch (expected actual : String) : Reason → String
  | .binaryOp op => "operands of `" ++ op.symbol ++ "` have incompatible types: " ++ expected ++ " and " ++ actual
  | .unaryOp op => "operand of `" ++ op.symbol ++ "` must be " ++ expected ++ ", got " ++ actual
  | .functionArg i => "argument " ++ toString (i + 1) ++ " has type " ++ actual ++ ", expected " ++ expected
  | .application => "expected a function " ++ expected ++ ", got " ++ actual
  | .ifCondition => "if condition must be " ++ expected ++ ", got " ++ actual
  | .ifBranches => "if branches have incompatible types: " ++ expected ++ " and " ++ actual
  | .matchArms => "match arms have incompatible types: " ++ expected ++ " and " ++ actual
  | .patternMatch => "pattern of type " ++ actual ++ " cannot match " ++ expected
  | .recordField l => "field `" ++ l ++ "` has type " ++ actual ++ ", expected " ++ expected
  | .listElement => "list elements have incompatible types: " ++ expected ++ " and " ++ actual
  | .letRec => "recursive use expects " ++ expected ++ ", got " ++ actual
  | .declaredEffects => "expected " ++ expected ++ ", got " ++ actual
  | .effectJoin => "expected " ++ expected ++ ", got " ++ actual

structure Provenance where
  node : NodeId
  path : SourcePath
  reason : Reason
  deriving DecidableEq, Repr, Inhabited

namespace UnifyError

def rowDiff (missing extra : List Label) : List FieldDiff :=
  missing.map FieldDiff.missing ++ extra.map FieldDiff.extra

def effectHelp (missing extra : List Label) : String :=
  let handle := "handle effect " ++ ", ".intercalate extra ++ " or add capability " ++ ", ".intercalate extra
    ++ " to the signature"
  let add := "add capability " ++ ", ".intercalate missing
  "; ".intercalate ((if extra.isEmpty then [] else [handle]) ++ if missing.isEmpty then [] else [add])

def fieldsMessage (missing extra : List Label) : String :=
  let missed := "missing field(s) " ++ ", ".intercalate missing
  let added := "extra field(s) " ++ ", ".intercalate extra
  "record fields do not match: "
    ++ ", ".intercalate ((if missing.isEmpty then [] else [missed]) ++ if extra.isEmpty then [] else [added])

def rowsDiagnostic (kind : Kind) (missing extra : List Label) : Diagnostic :=
  if kind.isEffectRow then
    ((Diagnostic.error .effectMismatch "effect rows do not match").withDiff (rowDiff missing extra)).withHelp
      (effectHelp missing extra)
  else
    ((Diagnostic.error .fieldMismatch (fieldsMessage missing extra)).withDiff (rowDiff missing extra)).withHelp
      Category.fieldMismatch.exampleFix

def fieldDetail : UnifyError → String
  | .mismatch e a =>
      let (e, a) := Ty.displayPair e a
      "expected " ++ e ++ ", got " ++ a
  | other => other.text

def unplaced (reason : Reason) : UnifyError → Diagnostic
  | .mismatch e a =>
      let (e, a) := Ty.displayPair e a
      .error .typeMismatch (reason.mismatch e a)
  | .kind e a =>
      (Diagnostic.error .kindMismatch ("kind mismatch: expected " ++ e.text ++ ", found " ++ a.text)).withHelp
        "an effect row and a record row can never be unified"
  | .occurs v t =>
      let (v, t) := Ty.displayPair (.var v) t
      .error .infiniteType ("infinite type detected: `" ++ v ++ "` occurs in `" ++ t ++ "`")
  | .rowOccurs _ r =>
      .error .infiniteType
        ("infinite row detected: a row would contain itself in `" ++ (Ty.record r).display ++ "`")
  | .arity e a =>
      .error .arityMismatch
        ("expected a function of " ++ toString e ++ " parameters, got one of " ++ toString a)
  | .tupleArity e a =>
      .error .arityMismatch ("expected a tuple of " ++ toString e ++ " elements, got " ++ toString a)
  | .rows rowKind missing extra => rowsDiagnostic rowKind missing extra
  | .field l source =>
      (Diagnostic.error .fieldMismatch ("field `" ++ l ++ "` does not match: " ++ source.fieldDetail)).withDiff
        [.mismatched l source.fieldDetail]
  | .representation _ _ =>
      (Diagnostic.error .representationMismatch "a legacy positional record met a row-based record").withHelp
        Category.representationMismatch.exampleFix
  | .circular => .error .infiniteType (UnifyError.text .circular)

def diagnostic (e : UnifyError) (expected actual : String) (p : Provenance) : Diagnostic :=
  ((e.unplaced p.reason).located p.path (some p.node)).withTypes expected actual

end UnifyError

end RowTyping
