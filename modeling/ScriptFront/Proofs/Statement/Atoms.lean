import ScriptFront.Statement.Basic

/-! # The atoms of a tree

What a tree holds besides its shape: its literals, and its names. A name that is written as a string
is a string here, and any other one an identifier. -/

namespace ScriptFront

mutual

def Expr.atoms : Expr → List Literal
  | .literal value => [value]
  | .unary _ e => e.atoms
  | .binary _ a b | .assign _ a b | .element a b => a.atoms ++ b.atoms
  | .conditional a b c => a.atoms ++ b.atoms ++ c.atoms
  | .call e es => e.atoms ++ Expr.atomsAll es
  | .member e name => e.atoms ++ [.identifier name]
  | .array es => Expr.atomsAll es

def Expr.atomsAll : List Expr → List Literal
  | [] => []
  | e :: es => e.atoms ++ Expr.atomsAll es

end

def Declaration.atoms (d : Declaration) : List Literal := .string d.name :: d.value.atoms

def ForInit.atoms : ForInit → List Literal
  | declaration d => d.atoms
  | expression e => e.atoms

def Parameter.atoms : Parameter → List Literal
  | named name default => .identifier name :: default.elim [] Expr.atoms
  | variadic => []

def Segment.atoms : Segment → List Literal
  | .name part => [.identifier part]
  | .wildcard => []

mutual

def Statement.atoms : Statement → List Literal
  | .expression e => e.atoms
  | .declaration d => d.atoms
  | .ifElse a as o => a.atoms ++ Arm.atomsAll as ++ Block.atomsOptional o
  | .switch e as o => e.atoms ++ Arm.atomsAll as ++ Block.atomsOptional o
  | .forEach binding source body => .identifier binding :: (source.atoms ++ Block.atoms body)
  | .forLoop init condition increment body =>
    init.elim [] ForInit.atoms ++ condition.elim [] Expr.atoms ++ increment.elim [] Expr.atoms ++
      Block.atoms body
  | .whileLoop e b => e.atoms ++ Block.atoms b
  | .doWhile b e => Block.atoms b ++ e.atoms
  | .breakLoop | .continueLoop => []
  | .returnValues es => Expr.atomsAll es
  | .function name ps o => .identifier name :: (ps.flatMap Parameter.atoms ++ Block.atomsOptional o)
  | .importPath path => path.flatMap Segment.atoms

def Arm.atoms : Arm → List Literal
  | .mk e b => e.atoms ++ Block.atoms b

def Arm.atomsAll : List Arm → List Literal
  | [] => []
  | a :: as => a.atoms ++ Arm.atomsAll as

def Block.atoms : List Statement → List Literal
  | [] => []
  | s :: ss => s.atoms ++ Block.atoms ss

def Block.atomsOptional : Option (List Statement) → List Literal
  | none => []
  | some b => Block.atoms b

end

end ScriptFront
