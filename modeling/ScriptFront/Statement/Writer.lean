import ScriptFront.Statement.Printer
import ScriptFront.Text.Ranges

/-! # Writing with a running indentation

A writer appends to what is written so far. It keeps the level of the indentation, and at the start
of a line puts the indentation in front of the first text. A program, a statement and a block are
displayed by what a new writer has written, a statement without the white space at its end. -/

namespace ScriptFront

/-- The spaces for one level. -/
def indentWidth : Nat := 4

def spaces (n : Nat) : String := String.ofList (List.replicate n ' ')

namespace Text

/-- The code points that Unicode counts as white space. -/
def whiteSpace : List (Nat × Nat) := [
  (0x09, 0x0d), (0x20, 0x20), (0x85, 0x85), (0xa0, 0xa0), (0x1680, 0x1680), (0x2000, 0x200a),
  (0x2028, 0x2029), (0x202f, 0x202f), (0x205f, 0x205f), (0x3000, 0x3000)]

def isWhiteSpace (c : Char) : Bool := inRanges whiteSpace c.toNat

/-- A text without the white space at its end. -/
def trimEnd (s : String) : String :=
  String.ofList (s.toList.reverse.dropWhile isWhiteSpace).reverse

end Text

structure Writer where
  output : String
  level : Nat
  atLineStart : Bool

namespace Writer

def empty : Writer := ⟨"", 0, true⟩

def indent (w : Writer) : Writer := { w with level := w.level + 1 }

def dedent (w : Writer) : Writer := { w with level := w.level - 1 }

/-- Nothing is put in front of an empty text. -/
def write (w : Writer) (s : String) : Writer :=
  if s.isEmpty then w
  else if w.atLineStart then
    { w with output := w.output ++ spaces (w.level * indentWidth) ++ s, atLineStart := false }
  else { w with output := w.output ++ s }

def newline (w : Writer) : Writer := { w with output := w.output ++ "\n", atLineStart := true }

def writeln (w : Writer) (s : String) : Writer := (w.write s).newline

/-- What is written inside stands one level further in. -/
def inside (w : Writer) (body : Writer → Writer) : Writer := (body w.indent).dedent

/-- The line of the closing brace is not ended. -/
def braces (w : Writer) (body : Writer → Writer) : Writer :=
  ((w.writeln "\x7b").inside body).write "\x7d"

mutual

def statement (w : Writer) : Statement → Writer
  | .expression e => w.writeln (e.text ++ ";")
  | .declaration d => w.writeln (d.text ++ ";")
  | .ifElse first elseIfs otherwise => (((w.link first).links elseIfs).otherwise otherwise).newline
  | .switch subject cases default =>
    ((w.writeln ("switch (" ++ subject.text ++ ") \x7b")).inside fun w =>
      (w.cases cases).default default).writeln "\x7d"
  | .forEach binding source body =>
    ((w.write ("for (" ++ binding ++ " in " ++ source.text ++ ") ")).braces
      fun w => w.statements body).newline
  | .forLoop init condition increment body =>
    ((w.write (Statement.forHeader init condition increment)).braces
      fun w => w.statements body).newline
  | .whileLoop condition body =>
    ((w.write ("while (" ++ condition.text ++ ") ")).braces fun w => w.statements body).newline
  | .doWhile body condition =>
    ((w.write "do ").braces fun w => w.statements body).writeln
      (" while (" ++ condition.text ++ ");")
  | .breakLoop => w.writeln "break;"
  | .continueLoop => w.writeln "continue;"
  | .returnValues values =>
    w.writeln ("return " ++ " : ".intercalate (Expr.texts values) ++ ";")
  | .function name parameters none =>
    w.writeln (Statement.functionHeader name parameters ++ ";")
  | .function name parameters (some body) =>
    (((w.write (Statement.functionHeader name parameters)).write " ").braces
      fun w => w.statements body).newline
  | .importPath path => w.writeln ("import " ++ ".".intercalate (path.map Segment.text) ++ ";")

/-- A condition and its block. -/
def link (w : Writer) : Arm → Writer
  | .mk condition body =>
    (w.write ("if (" ++ condition.text ++ ") ")).braces fun w => w.statements body

/-- Goes down a chain of conditions. -/
def links (w : Writer) : List Arm → Writer
  | [] => w
  | arm :: arms => ((w.write " else ").link arm).links arms

def otherwise (w : Writer) : Option (List Statement) → Writer
  | none => w
  | some body => (w.write " else ").braces fun w => w.statements body

def cases (w : Writer) : List Arm → Writer
  | [] => w
  | .mk label body :: arms =>
    ((w.writeln ("case " ++ label.text ++ ":")).inside fun w => w.statements body).cases arms

def default (w : Writer) : Option (List Statement) → Writer
  | none => w
  | some body => (w.writeln "default:").inside fun w => w.statements body

def statements (w : Writer) : List Statement → Writer
  | [] => w
  | s :: ss => (w.statement s).statements ss

end

end Writer

/-- A whole program, one statement behind the other. -/
def Program.display (p : Program) : String := (Writer.empty.statements p).output

def Statement.display (s : Statement) : String := Text.trimEnd (Writer.empty.statement s).output

def Block.display (b : Block) : String := (Writer.empty.braces fun w => w.statements b).output

end ScriptFront
