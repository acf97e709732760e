import ScriptFront.Proofs.Expr.Printed
import ScriptFront.Proofs.Statement.Nesting
import ScriptFront.Proofs.Statement.WellFormed

/-! # The terminals of a written program

Every body stands between braces, so no statement is open in front of an `else`. -/

namespace ScriptFront

open Terminal

def Declaration.printed (d : Declaration) : List Terminal :=
  fixed (if d.isConst then .kwConst else .kwVar) :: carrying .string d.name :: fixed .assign ::
    (d.value.printed ++ [fixed .semicolon])

namespace Parameter

def printed : Parameter → List Terminal
  | named name none => [carrying .identifier name]
  | named name (some default) => carrying .identifier name :: fixed .assign :: default.printed
  | variadic => [fixed .ellipsis]

def printedNeed : Parameter → Nat
  | named _ (some default) => default.printedNeed + 1
  | _ => 0

def printedListNeed : List Parameter → Nat
  | [] => 0
  | p :: ps => max p.printedNeed (printedListNeed ps)

end Parameter

def Segment.printedTail : List Segment → List Terminal
  | [] => []
  | .name s :: ss => fixed .period :: carrying .identifier s :: printedTail ss
  | .wildcard :: ss => fixed .period :: fixed .multiply :: printedTail ss

def Segment.printedPath : List Segment → List Terminal
  | .name s :: ss => carrying .identifier s :: printedTail ss
  | ss => printedTail ss

/-- An expression that may be missing, and the token behind it. -/
def Expr.printedClause (close : TokenKind) : Option Expr → List Terminal
  | none => [fixed close]
  | some e => e.printed ++ [fixed close]

def Expr.printedClauseNeed : Option Expr → Nat
  | none => 0
  | some e => e.printedNeed + 1

def ForInit.printed : Option ForInit → List Terminal
  | none => [fixed .semicolon]
  | some (declaration d) => d.printed
  | some (expression e) => e.printed ++ [fixed .semicolon]

def ForInit.printedNeed : Option ForInit → Nat
  | none => 0
  | some (declaration d) => d.value.printedNeed + 1
  | some (expression e) => e.printedNeed + 1

/-- A block between braces. -/
def enclosed (w : List Terminal) : List Terminal :=
  fixed .openBrace :: (w ++ [fixed .closeBrace])

namespace Statement

mutual

def printed : Statement → List Terminal
  | expression e => e.printed ++ [fixed .semicolon]
  | declaration d => d.printed
  | ifElse (.mk condition body) elseIfs otherwise =>
    fixed .kwIf :: fixed .openParen :: (condition.printed ++ fixed .closeParen ::
      (enclosed (printedBlock body) ++ (printedElses elseIfs (printedOtherwise otherwise))))
  | switch subject cases default =>
    fixed .kwSwitch :: fixed .openParen :: (subject.printed ++ fixed .closeParen ::
      enclosed (printedCases cases (printedDefault default)))
  | forEach binding source body =>
    fixed .kwFor :: fixed .openParen :: carrying .identifier binding :: fixed .kwIn ::
      (source.printed ++ fixed .closeParen :: enclosed (printedBlock body))
  | forLoop init condition increment body =>
    fixed .kwFor :: fixed .openParen :: (ForInit.printed init ++
      (Expr.printedClause .semicolon condition ++ (Expr.printedClause .closeParen increment ++
        enclosed (printedBlock body))))
  | whileLoop condition body =>
    fixed .kwWhile :: fixed .openParen :: (condition.printed ++ fixed .closeParen ::
      enclosed (printedBlock body))
  | doWhile body condition =>
    fixed .kwDo :: (enclosed (printedBlock body) ++ fixed .kwWhile :: fixed .openParen ::
      (condition.printed ++ [fixed .closeParen, fixed .semicolon]))
  | breakLoop => [fixed .kwBreak, fixed .semicolon]
  | continueLoop => [fixed .kwContinue, fixed .semicolon]
  | returnValues values =>
    fixed .kwReturn :: (separatedBy .colon (Expr.printedAll values) ++ [fixed .semicolon])
  | function name parameters none =>
    fixed .kwFunction :: carrying .identifier name :: fixed .openParen ::
      (separatedBy .comma (parameters.map Parameter.printed) ++
        [fixed .closeParen, fixed .semicolon])
  | function name parameters (some body) =>
    fixed .kwFunction :: carrying .identifier name :: fixed .openParen ::
      (separatedBy .comma (parameters.map Parameter.printed) ++ fixed .closeParen ::
        enclosed (printedBlock body))
  | importPath path => fixed .kwImport :: (Segment.printedPath path ++ [fixed .semicolon])

/-- The further conditions, with what follows them. -/
def printedElses : List Arm → List Terminal → List Terminal
  | [], w => w
  | .mk condition body :: arms, w =>
    fixed .kwElse :: fixed .kwIf :: fixed .openParen :: (condition.printed ++ fixed .closeParen ::
      (enclosed (printedBlock body) ++ printedElses arms w))

def printedOtherwise : Option (List Statement) → List Terminal
  | none => []
  | some body => fixed .kwElse :: enclosed (printedBlock body)

/-- The cases, with what follows them. -/
def printedCases : List Arm → List Terminal → List Terminal
  | [], w => w
  | .mk label body :: cases, w =>
    fixed .kwCase :: (label.printed ++ fixed .colon :: (printedBlock body ++ printedCases cases w))

def printedDefault : Option (List Statement) → List Terminal
  | none => []
  | some body => fixed .kwDefault :: fixed .colon :: printedBlock body

def printedBlock : List Statement → List Terminal
  | [] => []
  | s :: ss => s.printed ++ printedBlock ss

end

mutual

/-- The nesting levels that a written statement takes. -/
def printedNeed : Statement → Nat
  | expression e => e.printedNeed + 1
  | declaration d => d.value.printedNeed + 1
  | ifElse first elseIfs otherwise =>
    max (printedArmNeed first) (max (printedArmsNeed elseIfs) (printedOptionNeed otherwise))
  | switch subject cases default =>
    max (subject.printedNeed + 1) (max (printedArmsNeed cases) (printedOptionNeed default))
  | forEach _ source body => max (source.printedNeed + 1) (printedBlockNeed body + 1)
  | forLoop init condition increment body =>
    max (ForInit.printedNeed init) (max (Expr.printedClauseNeed condition)
      (max (Expr.printedClauseNeed increment) (printedBlockNeed body + 1)))
  | whileLoop condition body => max (condition.printedNeed + 1) (printedBlockNeed body + 1)
  | doWhile body condition => max (printedBlockNeed body + 1) (condition.printedNeed + 1)
  | breakLoop | continueLoop | importPath _ => 0
  | returnValues values => Expr.printedItemsNeed values
  | function _ parameters body =>
    max (Parameter.printedListNeed parameters) (printedOptionNeed body)

def printedArmNeed : Arm → Nat
  | .mk guard body => max (guard.printedNeed + 1) (printedBlockNeed body + 1)

def printedArmsNeed : List Arm → Nat
  | [] => 0
  | arm :: arms => max (printedArmNeed arm) (printedArmsNeed arms)

def printedOptionNeed : Option (List Statement) → Nat
  | none => 0
  | some body => printedBlockNeed body + 1

def printedBlockNeed : List Statement → Nat
  | [] => 0
  | s :: ss => max s.printedNeed (printedBlockNeed ss)

end

end Statement

theorem Declaration.phrase_printed {x : Declaration} (h : x.isWellFormed = true) :
    ∃ d : Declaration.Phrase x.printed x, d.need = x.value.printedNeed + 1 := by
  rw [isWellFormed, Bool.and_eq_true] at h
  obtain ⟨d, hd⟩ := Expr.needs_printed h.2
  exact ⟨.mk x.isConst x.name d, congrArg (· + 1) hd⟩

theorem ForInit.phrase_printed {o : Option ForInit} (h : o.all ForInit.isWellFormed = true) :
    ∃ d : ForInit.Phrase (printed o) o, d.need = printedNeed o := by
  match o, h with
  | none, _ => exact ⟨.none, rfl⟩
  | some (.declaration x), h =>
    obtain ⟨d, hd⟩ := Declaration.phrase_printed (x := x) h
    exact ⟨.declaration d, hd⟩
  | some (.expression e), h =>
    obtain ⟨d, hd⟩ := Expr.needs_printed (e := e) h
    exact ⟨.expression d, congrArg (· + 1) hd⟩

theorem Expr.clause_printed (close : TokenKind) {o : Option Expr}
    (h : o.all Expr.isWellFormed = true) :
    ∃ d : Expr.Clause close (printedClause close o) o, d.need = printedClauseNeed o := by
  match o, h with
  | none, _ => exact ⟨.none, rfl⟩
  | some e, h =>
    obtain ⟨d, hd⟩ := Expr.needs_printed (e := e) h
    exact ⟨.some d, congrArg (· + 1) hd⟩

theorem Parameter.phrase_printed {p : Parameter} (h : p.isWellFormed = true) :
    ∃ d : Parameter.Phrase p.printed p, d.need = p.printedNeed := by
  match p, h with
  | .variadic, _ => exact ⟨.variadic, rfl⟩
  | .named name none, _ => exact ⟨.required name, rfl⟩
  | .named name (some e), h =>
    rw [isWellFormed, Bool.and_eq_true, Option.all_some] at h
    obtain ⟨d, hd⟩ := (Expr.chained_printed e h.2).conditional
    exact ⟨.defaulted name d, congrArg (· + 1) hd⟩

theorem Parameter.listed_printed {ps : List Parameter} (h : ∀ p ∈ ps, p.isWellFormed = true) :
    ∃ ds : Parameter.Listed (separatedBy .comma (ps.map printed)) ps,
      ds.need = printedListNeed ps := by
  induction ps with
  | nil => exact ⟨.nil, rfl⟩
  | cons p ps ih =>
    obtain ⟨d, hd⟩ := phrase_printed (h p List.mem_cons_self)
    obtain ⟨ds, hds⟩ := ih fun q hq => h q (List.mem_cons_of_mem _ hq)
    cases ps with
    | nil =>
      refine ⟨.single d, ?_⟩
      show d.need = max p.printedNeed 0
      omega
    | cons q qs =>
      refine ⟨.cons d ds, ?_⟩
      show max d.need ds.need = max p.printedNeed (printedListNeed (q :: qs))
      rw [hd, hds]

theorem Segment.tail_printed {ss : List Segment} (h : isTail ss = true) :
    Segment.Tail (printedTail ss) ss := by
  induction ss with
  | nil => exact .nil
  | cons s ss ih =>
    match s, ss, h with
    | .wildcard, [], _ => exact .wildcard
    | .wildcard, _ :: _, h => cases h
    | .name s, ss, h =>
      rw [isTail, Bool.and_eq_true] at h
      exact .name s (ih h.2)

theorem Expr.values_printed {es : List Expr} (hes : es ≠ []) (h : Expr.allWellFormed es = true) :
    ∃ ds : Expr.Values (separatedBy .colon (printedAll es)) es, ds.need = printedItemsNeed es := by
  induction es with
  | nil => exact absurd rfl hes
  | cons e es ih =>
    rw [Expr.allWellFormed, Bool.and_eq_true] at h
    obtain ⟨d, hd⟩ := Expr.needs_printed h.1
    cases es with
    | nil =>
      refine ⟨.single d, ?_⟩
      show d.need + 1 = max (e.printedNeed + 1) 0
      omega
    | cons f es =>
      obtain ⟨ds, hds⟩ := ih (List.cons_ne_nil _ _) h.2
      refine ⟨.cons d ds, ?_⟩
      show max (d.need + 1) ds.need = max (e.printedNeed + 1) (printedItemsNeed (f :: es))
      rw [hd, hds]

namespace Statement

/-- Some terminals are a statement that takes `n` levels. -/
def Needs (w : List Terminal) (s : Statement) (n : Nat) : Prop :=
  ∃ o, ∃ d : Phrase o w (some s), d.need = n

/-- Some terminals are a block that takes `n` levels. -/
def BlockNeeds (w : List Terminal) (b : List Statement) (n : Nat) : Prop :=
  ∃ ds : Sequence w b, ds.need = n

theorem BlockNeeds.enclosed {w : List Terminal} {b : List Statement} {n : Nat}
    (h : BlockNeeds w b n) : ∃ d : Body false (enclosed w) b, d.need = n := by
  obtain ⟨ds, rfl⟩ := h
  exact ⟨.braces ds, rfl⟩

mutual

/-- A well-formed statement is derived from the terminals it is written as. -/
theorem needs_printed : (s : Statement) → s.isWellFormed = true →
    Needs s.printed s s.printedNeed
  | expression e, h => by
    obtain ⟨d, hd⟩ := Expr.needs_printed (e := e) h
    exact ⟨_, .expression d, congrArg (· + 1) hd⟩
  | declaration x, h => by
    obtain ⟨d, hd⟩ := Declaration.phrase_printed (x := x) h
    exact ⟨_, .declaration d, hd⟩
  | ifElse (.mk e b) arms otherwise, h => by
    rw [isWellFormed, Arm.isWellFormed, Bool.and_eq_true, Bool.and_eq_true, Bool.and_eq_true] at h
    obtain ⟨d, hd⟩ := Expr.needs_printed h.1.1.1
    obtain ⟨body, hbody⟩ := (block_printed b h.1.1.2).enclosed
    obtain ⟨r, rest, hrest⟩ := elses_printed arms h.1.2 (otherwise_printed otherwise h.2)
    refine ⟨r, .ifElse d body rest nofun, ?_⟩
    show max (d.need + 1) (max (body.need + 1) rest.need) = _
    rw [hd, hbody, hrest]
    exact (Nat.max_assoc _ _ _).symm
  | switch e cases default, h => by
    rw [isWellFormed, Bool.and_eq_true, Bool.and_eq_true] at h
    obtain ⟨d, hd⟩ := Expr.needs_printed h.1.1
    obtain ⟨parts, hparts⟩ := cases_printed cases h.1.2 (default_printed default h.2)
    refine ⟨_, .switch d parts, ?_⟩
    show max (d.need + 1) parts.need = _
    rw [hd, hparts]
    rfl
  | forEach x e b, h => by
    rw [isWellFormed, Bool.and_eq_true, Bool.and_eq_true] at h
    obtain ⟨d, hd⟩ := Expr.needs_printed h.1.2
    obtain ⟨body, hbody⟩ := (block_printed b h.2).enclosed
    refine ⟨_, .forEach x d body, ?_⟩
    show max (d.need + 1) (body.need + 1) = _
    rw [hd, hbody]
    rfl
  | forLoop init condition increment b, h => by
    rw [isWellFormed, Bool.and_eq_true, Bool.and_eq_true, Bool.and_eq_true] at h
    obtain ⟨di, hdi⟩ := ForInit.phrase_printed h.1.1.1
    obtain ⟨dc, hdc⟩ := Expr.clause_printed .semicolon h.1.1.2
    obtain ⟨dn, hdn⟩ := Expr.clause_printed .closeParen h.1.2
    obtain ⟨body, hbody⟩ := (block_printed b h.2).enclosed
    refine ⟨_, .forLoop di dc dn body, ?_⟩
    show max di.need (max dc.need (max dn.need (body.need + 1))) = _
    rw [hdi, hdc, hdn, hbody]
    rfl
  | whileLoop e b, h => by
    rw [isWellFormed, Bool.and_eq_true] at h
    obtain ⟨d, hd⟩ := Expr.needs_printed h.1
    obtain ⟨body, hbody⟩ := (block_printed b h.2).enclosed
    refine ⟨_, .whileLoop d body, ?_⟩
    show max (d.need + 1) (body.need + 1) = _
    rw [hd, hbody]
    rfl
  | doWhile b e, h => by
    rw [isWellFormed, Bool.and_eq_true] at h
    obtain ⟨d, hd⟩ := Expr.needs_printed h.2
    obtain ⟨body, hbody⟩ := (block_printed b h.1).enclosed
    refine ⟨_, .doWhile body d, ?_⟩
    show max (body.need + 1) (d.need + 1) = _
    rw [hd, hbody]
    rfl
  | breakLoop, _ => ⟨_, .breakLoop, rfl⟩
  | continueLoop, _ => ⟨_, .continueLoop, rfl⟩
  | returnValues es, h => by
    rw [isWellFormed, Bool.and_eq_true, Bool.not_eq_true', List.isEmpty_eq_false_iff] at h
    obtain ⟨ds, hds⟩ := Expr.values_printed h.1 h.2
    exact ⟨_, .returnValues ds, hds⟩
  | function name ps none, h => by
    rw [isWellFormed, Parameter.allWellFormed, Bool.and_eq_true, Bool.and_eq_true,
      Bool.and_eq_true, List.all_eq_true, decide_eq_true_eq] at h
    obtain ⟨ds, hds⟩ := Parameter.listed_printed h.1.2.1
    refine ⟨_, .forward name ds h.1.2.2, ?_⟩
    show ds.need = max (Parameter.printedListNeed ps) 0
    omega
  | function name ps (some b), h => by
    rw [isWellFormed, Parameter.allWellFormed, Bool.and_eq_true, Bool.and_eq_true,
      Bool.and_eq_true, List.all_eq_true, decide_eq_true_eq] at h
    obtain ⟨ds, hds⟩ := Parameter.listed_printed h.1.2.1
    obtain ⟨body, hbody⟩ := (block_printed b h.2).enclosed
    refine ⟨_, .function name ds h.1.2.2 body nofun, ?_⟩
    show max ds.need (body.need + 1) = _
    rw [hds, hbody]
    rfl
  | importPath path, h => by
    match path, h with
    | .name s :: ss, h =>
      rw [isWellFormed, Segment.isPath, Bool.and_eq_true] at h
      exact ⟨_, .importPath s (Segment.tail_printed h.2), rfl⟩

theorem elses_printed : (arms : List Arm) → Arm.allWellFormed arms = true →
    {w : List Terminal} → {otherwise : Option (List Statement)} → {n : Nat} →
    (∃ o, ∃ d : Elses o w [] otherwise, d.need = n) →
    ∃ o, ∃ d : Elses o (printedElses arms w) arms otherwise, d.need = max (printedArmsNeed arms) n
  | [], _, w, otherwise, n, hw => by
    obtain ⟨o, d, hd⟩ := hw
    refine ⟨o, d, ?_⟩
    show d.need = max 0 n
    omega
  | .mk e b :: arms, h, w, otherwise, n, hw => by
    rw [Arm.allWellFormed, Arm.isWellFormed, Bool.and_eq_true, Bool.and_eq_true] at h
    obtain ⟨d, hd⟩ := Expr.needs_printed h.1.1
    obtain ⟨body, hbody⟩ := (block_printed b h.1.2).enclosed
    obtain ⟨r, rest, hrest⟩ := elses_printed arms h.2 hw
    refine ⟨r, .elseIf d body rest nofun, ?_⟩
    show max (d.need + 1) (max (body.need + 1) rest.need) = _
    rw [hd, hbody, hrest, printedArmsNeed, printedArmNeed]
    omega

theorem otherwise_printed : (o : Option (List Statement)) → Block.optionWellFormed o = true →
    ∃ r, ∃ d : Elses r (printedOtherwise o) [] o, d.need = printedOptionNeed o
  | none, _ => ⟨_, .none, rfl⟩
  | some b, h => by
    obtain ⟨body, hbody⟩ := (block_printed b h).enclosed
    exact ⟨_, .otherwise body nofun, congrArg (· + 1) hbody⟩

theorem cases_printed : (arms : List Arm) → Arm.allWellFormed arms = true →
    {w : List Terminal} → {default : Option (List Statement)} → {n : Nat} →
    (∃ d : Parts w [] default, d.need = n) →
    ∃ d : Parts (printedCases arms w) arms default, d.need = max (printedArmsNeed arms) n
  | [], _, w, default, n, hw => by
    obtain ⟨d, hd⟩ := hw
    refine ⟨d, ?_⟩
    show d.need = max 0 n
    omega
  | .mk e b :: arms, h, w, default, n, hw => by
    rw [Arm.allWellFormed, Arm.isWellFormed, Bool.and_eq_true, Bool.and_eq_true] at h
    obtain ⟨d, hd⟩ := (Expr.chained_printed e h.1.1).conditional
    obtain ⟨ds, hds⟩ := block_printed b h.1.2
    obtain ⟨rest, hrest⟩ := cases_printed arms h.2 hw
    refine ⟨.case d ds rest, ?_⟩
    show max (d.need + 1) (max (ds.need + 1) rest.need) = _
    rw [hd, hds, hrest, printedArmsNeed, printedArmNeed, Expr.printedNeed]
    omega

theorem default_printed : (o : Option (List Statement)) → Block.optionWellFormed o = true →
    ∃ d : Parts (printedDefault o) [] o, d.need = printedOptionNeed o
  | none, _ => ⟨.nil, rfl⟩
  | some b, h => by
    obtain ⟨ds, hds⟩ := block_printed b h
    have hdefault : ∃ d : Parts (fixed .kwDefault :: fixed .colon :: (printedBlock b ++ [])) []
        (some b), d.need = max (printedBlockNeed b + 1) 0 :=
      ⟨.default ds .nil, by rw [← hds]; rfl⟩
    rw [List.append_nil, Nat.max_zero] at hdefault
    exact hdefault

theorem block_printed : (b : List Statement) → Block.isWellFormed b = true →
    BlockNeeds (printedBlock b) b (printedBlockNeed b)
  | [], _ => ⟨.nil, rfl⟩
  | s :: ss, h => by
    rw [Block.isWellFormed, Bool.and_eq_true] at h
    obtain ⟨o, d, hd⟩ := needs_printed s h.1
    obtain ⟨ds, hds⟩ := block_printed ss h.2
    refine ⟨.cons d ds, ?_⟩
    show max d.need ds.need = _
    rw [hd, hds]
    rfl

end

end Statement

end ScriptFront
