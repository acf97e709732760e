import ScriptFront.Proofs.Expr.Grammar
import ScriptFront.Statement.Basic

/-! # The grammar of statements

```text
statement   = ";" | expression ";" | declaration | "break" ";" | "continue" ";"
            | "return" expression { ":" expression } ";"
            | "import" NAME { "." ( NAME | "*" ) } ";"
            | "function" NAME "(" parameters ")" ( ";" | body )
            | if | switch | for | "while" "(" expression ")" body
            | "do" body "while" "(" expression ")" ";"
if          = "if" "(" expression ")" body [ "else" ( if | body ) ]
switch      = "switch" "(" expression ")" "{" { case } "}"
case        = ( "case" constant | "default" ) ":" { statement }
for         = "for" "(" NAME "in" expression ")" body
            | "for" "(" init clause ";" clause ")" body
init        = declaration | clause ";"
clause      = [ expression ]
declaration = ( "var" | "const" ) STRING "=" expression ";"
parameters  = [ parameter { "," parameter } ]
parameter   = NAME [ "=" constant ] | "..."
body        = "{" { statement } "}" | statement
```

Each clause of a counting loop may be missing, but neither semicolon: the rule is that of section
4.2 of the specification, and not the shorter one that brackets the first clause with its semicolon.

A phrase is open where it ends with an `if` that an `else` behind it would continue. What stands in
front of an `else` is not open, so an `else` belongs to the nearest `if`. -/

namespace ScriptFront

open Terminal

inductive Parameter.Phrase : List Terminal → Parameter → Type where
  | variadic : Phrase [fixed .ellipsis] .variadic
  | required (name : String) : Phrase [carrying .identifier name] (.named name none)
  | defaulted (name : String) {w : List Terminal} {e : Expr} (d : Expr.Phrase .conditional w e) :
      Phrase (carrying .identifier name :: fixed .assign :: w) (.named name (some e))

/-- Parameters between commas. -/
inductive Parameter.Listed : List Terminal → List Parameter → Type where
  | nil : Listed [] []
  | single {w : List Terminal} {p : Parameter} (d : Parameter.Phrase w p) : Listed w [p]
  | cons {v w : List Terminal} {p q : Parameter} {ps : List Parameter} (d : Parameter.Phrase v p)
      (ds : Listed w (q :: ps)) : Listed (v ++ fixed .comma :: w) (p :: q :: ps)

/-- Nothing stands behind an ellipsis, and behind a default only what has one or an ellipsis. -/
def Parameter.MayPrecede (p q : Parameter) : Prop :=
  p.isVariadic = false ∧ (p.default?.isSome → q.isVariadic ∨ q.default?.isSome)

instance (p q : Parameter) : Decidable (p.MayPrecede q) :=
  inferInstanceAs (Decidable (_ ∧ (_ → _)))

/-- A list of parameters that a function may have. -/
def Parameter.Ordered (ps : List Parameter) : Prop := ps.Pairwise MayPrecede

instance (ps : List Parameter) : Decidable (Parameter.Ordered ps) :=
  inferInstanceAs (Decidable (List.Pairwise _ _))

/-- The parts of an import path behind the first. Nothing stands behind a wildcard. -/
inductive Segment.Tail : List Terminal → List Segment → Prop where
  | nil : Tail [] []
  | name (name : String) {w : List Terminal} {ss : List Segment} (h : Tail w ss) :
      Tail (fixed .period :: carrying .identifier name :: w) (.name name :: ss)
  | wildcard : Tail [fixed .period, fixed .multiply] [.wildcard]

inductive Declaration.Phrase : List Terminal → Declaration → Type where
  | mk (isConst : Bool) (name : String) {w : List Terminal} {e : Expr}
      (d : Expr.Phrase .assignment w e) :
      Phrase (fixed (if isConst then .kwConst else .kwVar) :: carrying .string name ::
        fixed .assign :: (w ++ [fixed .semicolon])) ⟨isConst, name, e⟩

/-- An expression that may be missing, and the token behind it. -/
inductive Expr.Clause (close : TokenKind) : List Terminal → Option Expr → Type where
  | none : Clause close [fixed close] none
  | some {w : List Terminal} {e : Expr} (d : Expr.Phrase .assignment w e) :
      Clause close (w ++ [fixed close]) (some e)

/-- The first clause of a counting loop, and its semicolon. -/
inductive ForInit.Phrase : List Terminal → Option ForInit → Type where
  | none : Phrase [fixed .semicolon] none
  | declaration {w : List Terminal} {x : Declaration} (d : Declaration.Phrase w x) :
      Phrase w (some (.declaration x))
  | expression {w : List Terminal} {e : Expr} (d : Expr.Phrase .assignment w e) :
      Phrase (w ++ [fixed .semicolon]) (some (.expression e))

/-- Expressions between colons. -/
inductive Expr.Values : List Terminal → List Expr → Type where
  | single {w : List Terminal} {e : Expr} (d : Expr.Phrase .assignment w e) : Values w [e]
  | cons {v w : List Terminal} {e : Expr} {es : List Expr} (d : Expr.Phrase .assignment v e)
      (ds : Values w es) : Values (v ++ fixed .colon :: w) (e :: es)

namespace Statement

mutual

/-- A statement, or nothing for a semicolon alone, and whether it is open. -/
inductive Phrase : Bool → List Terminal → Option Statement → Type where
  | empty : Phrase false [fixed .semicolon] none
  | expression {w : List Terminal} {e : Expr} (d : Expr.Phrase .assignment w e) :
      Phrase false (w ++ [fixed .semicolon]) (some (.expression e))
  | declaration {w : List Terminal} {x : Declaration} (d : Declaration.Phrase w x) :
      Phrase false w (some (.declaration x))
  | breakLoop : Phrase false [fixed .kwBreak, fixed .semicolon] (some .breakLoop)
  | continueLoop : Phrase false [fixed .kwContinue, fixed .semicolon] (some .continueLoop)
  | returnValues {w : List Terminal} {es : List Expr} (ds : Expr.Values w es) :
      Phrase false (fixed .kwReturn :: (w ++ [fixed .semicolon])) (some (.returnValues es))
  | importPath (first : String) {w : List Terminal} {ss : List Segment} (h : Segment.Tail w ss) :
      Phrase false (fixed .kwImport :: carrying .identifier first :: (w ++ [fixed .semicolon]))
        (some (.importPath (.name first :: ss)))
  | forward (name : String) {w : List Terminal} {ps : List Parameter}
      (ds : Parameter.Listed w ps) (h : Parameter.Ordered ps) :
      Phrase false (fixed .kwFunction :: carrying .identifier name :: fixed .openParen ::
        (w ++ [fixed .closeParen, fixed .semicolon])) (some (.function name ps none))
  | function (name : String) {v w : List Terminal} {ps : List Parameter} {o : Bool}
      {b : List Statement} (ds : Parameter.Listed v ps) (h : Parameter.Ordered ps)
      (body : Body o w b) (hw : w ≠ [fixed .semicolon]) :
      Phrase o (fixed .kwFunction :: carrying .identifier name :: fixed .openParen ::
        (v ++ fixed .closeParen :: w)) (some (.function name ps (some b)))
  | ifElse {u v w : List Terminal} {e : Expr} {o r : Bool} {b : List Statement}
      {arms : List Arm} {otherwise : Option (List Statement)} (d : Expr.Phrase .assignment u e)
      (body : Body o v b) (rest : Elses r w arms otherwise) (h : o = true → w = []) :
      Phrase r (fixed .kwIf :: fixed .openParen :: (u ++ fixed .closeParen :: (v ++ w)))
        (some (.ifElse (.mk e b) arms otherwise))
  | switch {v w : List Terminal} {e : Expr} {cases : List Arm} {default : Option (List Statement)}
      (d : Expr.Phrase .assignment v e) (parts : Parts w cases default) :
      Phrase false (fixed .kwSwitch :: fixed .openParen :: (v ++ fixed .closeParen ::
        fixed .openBrace :: (w ++ [fixed .closeBrace]))) (some (.switch e cases default))
  | forEach (binding : String) {v w : List Terminal} {e : Expr} {o : Bool} {b : List Statement}
      (d : Expr.Phrase .assignment v e) (body : Body o w b) :
      Phrase o (fixed .kwFor :: fixed .openParen :: carrying .identifier binding :: fixed .kwIn ::
        (v ++ fixed .closeParen :: w)) (some (.forEach binding e b))
  | forLoop {u v w x : List Terminal} {init : Option ForInit} {condition increment : Option Expr}
      {o : Bool} {b : List Statement} (di : ForInit.Phrase u init)
      (dc : Expr.Clause .semicolon v condition) (dn : Expr.Clause .closeParen w increment)
      (body : Body o x b) :
      Phrase o (fixed .kwFor :: fixed .openParen :: (u ++ (v ++ (w ++ x))))
        (some (.forLoop init condition increment b))
  | whileLoop {v w : List Terminal} {e : Expr} {o : Bool} {b : List Statement}
      (d : Expr.Phrase .assignment v e) (body : Body o w b) :
      Phrase o (fixed .kwWhile :: fixed .openParen :: (v ++ fixed .closeParen :: w))
        (some (.whileLoop e b))
  | doWhile {v w : List Terminal} {e : Expr} {o : Bool} {b : List Statement} (body : Body o v b)
      (d : Expr.Phrase .assignment w e) :
      Phrase false (fixed .kwDo :: (v ++ fixed .kwWhile :: fixed .openParen ::
        (w ++ [fixed .closeParen, fixed .semicolon]))) (some (.doWhile b e))

/-- A block between braces, or one statement. -/
inductive Body : Bool → List Terminal → List Statement → Type where
  | braces {w : List Terminal} {b : List Statement} (ds : Sequence w b) :
      Body false (fixed .openBrace :: (w ++ [fixed .closeBrace])) b
  | single {o : Bool} {w : List Terminal} {s : Option Statement} (d : Phrase o w s) :
      Body o w s.toList

/-- Statements one behind the other. -/
inductive Sequence : List Terminal → List Statement → Type where
  | nil : Sequence [] []
  | cons {o : Bool} {v w : List Terminal} {s : Option Statement} {b : List Statement}
      (d : Phrase o v s) (ds : Sequence w b) : Sequence (v ++ w) (s.toList ++ b)

/-- What follows the first block of an `if`. An `else` in front of an `if` goes on with the
chain. -/
inductive Elses : Bool → List Terminal → List Arm → Option (List Statement) → Type where
  | none : Elses true [] [] none
  | otherwise {o : Bool} {w : List Terminal} {b : List Statement} (body : Body o w b)
      (h : lead w .eof ≠ .kwIf) : Elses o (fixed .kwElse :: w) [] (some b)
  | elseIf {u v w : List Terminal} {e : Expr} {o r : Bool} {b : List Statement}
      {arms : List Arm} {otherwise : Option (List Statement)} (d : Expr.Phrase .assignment u e)
      (body : Body o v b) (rest : Elses r w arms otherwise) (h : o = true → w = []) :
      Elses r (fixed .kwElse :: fixed .kwIf :: fixed .openParen ::
        (u ++ fixed .closeParen :: (v ++ w))) (.mk e b :: arms) otherwise

/-- The labelled parts of a `switch`, at most one of them the default. -/
inductive Parts : List Terminal → List Arm → Option (List Statement) → Type where
  | nil : Parts [] [] none
  | case {u v w : List Terminal} {e : Expr} {b : List Statement} {cases : List Arm}
      {default : Option (List Statement)} (d : Expr.Phrase .conditional u e) (ds : Sequence v b)
      (rest : Parts w cases default) :
      Parts (fixed .kwCase :: (u ++ fixed .colon :: (v ++ w))) (.mk e b :: cases) default
  | default {v w : List Terminal} {b : List Statement} {cases : List Arm} (ds : Sequence v b)
      (rest : Parts w cases none) :
      Parts (fixed .kwDefault :: fixed .colon :: (v ++ w)) cases (some b)

end

end Statement

/-- Some terminals are a program. -/
def Program.Derives (w : List Terminal) (p : Program) : Prop := Nonempty (Statement.Sequence w p)

end ScriptFront
