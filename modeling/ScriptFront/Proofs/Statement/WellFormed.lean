import ScriptFront.Proofs.Expr.WellFormed
import ScriptFront.Proofs.Statement.Grammar

/-! # Programs that can be written -/

namespace ScriptFront

def Declaration.isWellFormed (d : Declaration) : Bool :=
  !d.name.toList.contains '\n' && d.value.isWellFormed

def ForInit.isWellFormed : ForInit → Bool
  | declaration d => d.isWellFormed
  | expression e => e.isWellFormed

namespace Parameter

def isWellFormed : Parameter → Bool
  | named name default => isName name && default.all Expr.isWellFormed
  | variadic => true

/-- Parameters that a function may have. -/
def allWellFormed (ps : List Parameter) : Bool := ps.all isWellFormed && decide (Ordered ps)

end Parameter

namespace Segment

/-- Nothing stands behind a wildcard. -/
def isTail : List Segment → Bool
  | [] | [wildcard] => true
  | name s :: ss => isName s && isTail ss
  | _ => false

/-- An import path, which starts with a name. -/
def isPath : List Segment → Bool
  | name s :: ss => isName s && isTail ss
  | _ => false

end Segment

mutual

def Statement.isWellFormed : Statement → Bool
  | .expression e => e.isWellFormed
  | .declaration d => d.isWellFormed
  | .ifElse first elseIfs otherwise =>
    first.isWellFormed && Arm.allWellFormed elseIfs && Block.optionWellFormed otherwise
  | .switch subject cases default =>
    subject.isWellFormed && Arm.allWellFormed cases && Block.optionWellFormed default
  | .forEach binding source body =>
    isName binding && source.isWellFormed && Block.isWellFormed body
  | .forLoop init condition increment body =>
    init.all ForInit.isWellFormed && condition.all Expr.isWellFormed &&
      increment.all Expr.isWellFormed && Block.isWellFormed body
  | .whileLoop condition body => condition.isWellFormed && Block.isWellFormed body
  | .doWhile body condition => Block.isWellFormed body && condition.isWellFormed
  | .breakLoop | .continueLoop => true
  | .returnValues values => !values.isEmpty && Expr.allWellFormed values
  | .function name parameters body =>
    isName name && Parameter.allWellFormed parameters && Block.optionWellFormed body
  | .importPath path => Segment.isPath path

def Arm.isWellFormed : Arm → Bool
  | .mk guard body => guard.isWellFormed && Block.isWellFormed body

def Arm.allWellFormed : List Arm → Bool
  | [] => true
  | a :: as => a.isWellFormed && Arm.allWellFormed as

def Block.isWellFormed : List Statement → Bool
  | [] => true
  | s :: ss => s.isWellFormed && Block.isWellFormed ss

def Block.optionWellFormed : Option (List Statement) → Bool
  | none => true
  | some b => Block.isWellFormed b

end

end ScriptFront
