import ScriptFront.Expr.Basic

/-! # Statements -/

namespace ScriptFront

structure Declaration where
  isConst : Bool
  name : String
  value : Expr

inductive Parameter where
  | named (name : String) (default : Option Expr)
  /-- The place of all further arguments. -/
  | variadic

/-- A part of an import path. -/
inductive Segment where
  | name (name : String)
  | wildcard
  deriving DecidableEq, Repr

/-- The first clause of a counting loop. -/
inductive ForInit where
  | declaration (d : Declaration)
  | expression (e : Expr)

mutual

/-- A block is a list of statements. A function without a body is declared ahead. -/
inductive Statement where
  | expression (e : Expr)
  | declaration (d : Declaration)
  | ifElse (first : Arm) (elseIfs : List Arm) (otherwise : Option (List Statement))
  | switch (subject : Expr) (cases : List Arm) (default : Option (List Statement))
  | forEach (binding : String) (source : Expr) (body : List Statement)
  | forLoop (init : Option ForInit) (condition increment : Option Expr) (body : List Statement)
  | whileLoop (condition : Expr) (body : List Statement)
  | doWhile (body : List Statement) (condition : Expr)
  | breakLoop
  | continueLoop
  | returnValues (values : List Expr)
  | function (name : String) (parameters : List Parameter) (body : Option (List Statement))
  | importPath (path : List Segment)

/-- A block and the expression that selects it: a condition, or the label of a case. -/
inductive Arm where
  | mk (guard : Expr) (body : List Statement)

end

abbrev Block := List Statement

abbrev Program := List Statement

namespace Arm

def guard : Arm → Expr
  | mk guard _ => guard

def body : Arm → Block
  | mk _ body => body

end Arm

namespace Parameter

def name? : Parameter → Option String
  | named name _ => some name
  | variadic => none

def default? : Parameter → Option Expr
  | named _ default => default
  | variadic => none

def isVariadic : Parameter → Bool
  | variadic => true
  | _ => false

end Parameter

end ScriptFront
