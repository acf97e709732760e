import ScriptFront.Expr.Printer
import ScriptFront.Statement.Basic

/-! # Writing statements

A statement is a list of lines, and a block stands between braces with its lines four spaces
further in. A line feed inside a string is part of its line. -/

namespace ScriptFront

def indent (line : String) : String := "    " ++ line

/-- A block behind what opens it, with what follows its closing brace. -/
def braced (before : String) (body : List String) (behind : String) : List String :=
  (before ++ "\x7b") :: (body.map indent ++ ["\x7d" ++ behind])

def Declaration.text (d : Declaration) : String :=
  (if d.isConst then "const " else "var ") ++ Quoted.encode d.name ++ " = " ++ d.value.text

def ForInit.text : ForInit → String
  | declaration d => d.text
  | expression e => e.text

def Parameter.text : Parameter → String
  | named name none => name
  | named name (some default) => name ++ " = " ++ default.text
  | variadic => "..."

def Segment.text : Segment → String
  | .name part => part
  | .wildcard => "*"

/-- An expression that may be missing. -/
def Expr.optionText : Option Expr → String
  | some e => e.text
  | none => ""

def ForInit.optionText : Option ForInit → String
  | some init => init.text
  | none => ""

namespace Statement

def functionHeader (name : String) (parameters : List Parameter) : String :=
  "function " ++ name ++ "(" ++ ", ".intercalate (parameters.map Parameter.text) ++ ")"

def forHeader (init : Option ForInit) (condition increment : Option Expr) : String :=
  "for (" ++ ForInit.optionText init ++ "; " ++ Expr.optionText condition ++ "; " ++
    Expr.optionText increment ++ ") "

mutual

def lines : Statement → List String
  | expression e => [e.text ++ ";"]
  | declaration d => [d.text ++ ";"]
  | ifElse (.mk condition body) elseIfs otherwise =>
    ("if (" ++ condition.text ++ ") \x7b") ::
      ((blockLines body).map indent ++ elseIfLines elseIfs ++ elseLines otherwise)
  | switch subject cases default =>
    braced ("switch (" ++ subject.text ++ ") ") (caseLines cases ++ defaultLines default) ""
  | forEach binding source body =>
    braced ("for (" ++ binding ++ " in " ++ source.text ++ ") ") (blockLines body) ""
  | forLoop init condition increment body =>
    braced (forHeader init condition increment) (blockLines body) ""
  | whileLoop condition body => braced ("while (" ++ condition.text ++ ") ") (blockLines body) ""
  | doWhile body condition => braced "do " (blockLines body) (" while (" ++ condition.text ++ ");")
  | breakLoop => ["break;"]
  | continueLoop => ["continue;"]
  | returnValues values => ["return " ++ " : ".intercalate (Expr.texts values) ++ ";"]
  | function name parameters none => [functionHeader name parameters ++ ";"]
  | function name parameters (some body) =>
    braced (functionHeader name parameters ++ " ") (blockLines body) ""
  | importPath path => ["import " ++ ".".intercalate (path.map Segment.text) ++ ";"]

/-- The further conditions, each from the brace that closes the block before it. -/
def elseIfLines : List Arm → List String
  | [] => []
  | .mk condition body :: arms =>
    ("\x7d else if (" ++ condition.text ++ ") \x7b") ::
      ((blockLines body).map indent ++ elseIfLines arms)

/-- The block for when no condition holds, from the brace that closes the block before it. -/
def elseLines : Option (List Statement) → List String
  | none => ["\x7d"]
  | some body => braced "\x7d else " (blockLines body) ""

def caseLines : List Arm → List String
  | [] => []
  | .mk label body :: arms =>
    ("case " ++ label.text ++ ":") :: ((blockLines body).map indent ++ caseLines arms)

def defaultLines : Option (List Statement) → List String
  | none => []
  | some body => "default:" :: (blockLines body).map indent

def blockLines : List Statement → List String
  | [] => []
  | s :: ss => s.lines ++ blockLines ss

end

/-- A statement without the line feed that ends it. -/
def text (s : Statement) : String := "\n".intercalate s.lines

end Statement

/-- Every line ends with a line feed. -/
def unlines (lines : List String) : String := String.join (lines.map (· ++ "\n"))

/-- A block between its braces. -/
def Block.text (b : Block) : String :=
  "\n".intercalate (braced "" (Statement.blockLines b) "")

/-- A whole program. -/
def Program.text (p : Program) : String := unlines (Statement.blockLines p)

end ScriptFront
