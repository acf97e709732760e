import ScriptFront.Proofs.Expr.Congruence
import ScriptFront.Statement.Rules

/-! # Relations that the rules for statements keep

A statement takes a token. A body stands one level deeper than the statement it belongs to, behind
the first token of that statement. -/

namespace ScriptFront.Rule

/-- The rules of the next level are related. -/
structure Inner.Related (R : Congruence) (m n : Nat) (inner inner' : Inner) : Prop where
  expression : R.Always m n 1 1 inner.expression inner'.expression
  constant : R.Always m n 1 1 inner.constant inner'.constant
  body : R.Always m n 2 0 inner.body inner'.body
  caseBody : R.Always m n 2 0 inner.caseBody inner'.caseBody

namespace Congruence

variable {R : Congruence} {m n : Nat} {x : Terminal}

section

variable {expression expression' constant constant' : Rule Expr}

theorem namedParameter (hC : R.Always m n 1 1 constant constant') (seen : ParametersSeen)
    {l l' : Location} (hl : R.Place x l l') :
    R.Holds m n x 1 (fun _ => 1) (Rule.namedParameter constant seen l)
      (Rule.namedParameter constant' seen l') := by
  refine R.peek fun kind hx => ?_
  split
  · rename_i hseen
    have hkind : kind = .identifier := by
      rw [Bool.and_eq_true, decide_eq_true_eq] at hseen
      exact hseen.2
    exact R.failAt hl (hx.trans hkind)
  · refine name fun text hx y => accept nofun (fun y => ?_) ?_
    · exact R.bind (hC y) (by decide) fun default y => R.pure rfl
    · show R.Holds _ _ _ _ _ (if seen.default then _ else _) (if seen.default then _ else _)
      split
      · refine R.failAt hl ?_
        rw [hx]
        exact ⟨rfl, rfl⟩
      · exact R.pure rfl

theorem parameter (hC : R.Always m n 1 1 constant constant') (seen : ParametersSeen) :
    R.Always m n 1 1 (Rule.parameter constant seen) (Rule.parameter constant' seen) := by
  refine fun x => R.here fun l l' hl => R.peek fun kind hx => ?_
  split
  · rename_i hkind
    refine expect nofun fun y => ?_
    split
    · exact R.failAt hl (hx.trans hkind)
    · exact R.pure rfl
  · exact namedParameter hC seen hl

theorem parameters (hC : R.Always m n 1 1 constant constant') :
    R.Always m n 1 0 (parametersWith constant) (parametersWith constant') := by
  refine fun x => R.peek fun kind hx => ?_
  split
  · exact R.pure rfl
  · refine R.bind (parameter hC _ x) (Nat.le_refl _) fun first x => ?_
    refine R.bind (R.iterate ?_) (Nat.le_succ 1) fun seen x => R.pure rfl
    exact behind nofun (parameter hC) (by decide)

variable (hE : R.Always m n 1 1 expression expression')

include hE

theorem declaration :
    R.Always m n 1 1 (declarationWith expression) (declarationWith expression') := by
  have rest (isConst : Bool) : R.Always m n 1 1 (do
        let name := (← Rule.expect .string).content
        discard (Rule.expect .assign)
        let value ← expression
        discard (Rule.expect .semicolon)
        return (⟨isConst, name, value⟩ : Declaration)) (do
        let name := (← Rule.expect .string).content
        discard (Rule.expect .assign)
        let value ← expression'
        discard (Rule.expect .semicolon)
        return (⟨isConst, name, value⟩ : Declaration)) := by
    refine fun x => expect_text rfl fun t u htu _ y => expect nofun fun y => ?_
    refine R.bind (hE y) (by decide) fun value y => expect nofun fun y => ?_
    rw [htu]
    exact R.pure rfl
  refine fun x => accept nofun (fun x => ?_) (expect nofun fun x => ?_)
  · exact weaken (rest true x) (by decide) fun _ => Nat.zero_le _
  · exact weaken (rest false x) (by decide) fun _ => Nat.zero_le _

theorem parenthesized :
    R.Always m n 1 1 (Rule.parenthesized expression) (Rule.parenthesized expression') := by
  refine fun x => expect nofun fun x => R.bind (hE x) (by decide) fun e x => ?_
  exact expect nofun fun x => R.pure rfl

theorem returnValues : R.Always m n 1 1 (returnWith expression) (returnWith expression') := by
  refine fun x => expect nofun fun x => ?_
  refine R.bind (separated (by decide) hE (Nat.le_refl _) x) (by decide) fun values x => ?_
  exact expect nofun fun x => R.pure rfl

theorem forInit : R.Always m n 1 0 (Rule.forInit expression) (Rule.forInit expression') := by
  refine fun x => R.peek fun kind hx => ?_
  split
  · exact discard_advance hx nofun fun y => R.pure rfl
  · exact R.bind (declaration hE _) (Nat.le_refl _) fun d y => R.pure rfl
  · exact R.bind (declaration hE _) (Nat.le_refl _) fun d y => R.pure rfl
  · refine R.bind (hE x) (Nat.le_refl _) fun e y => ?_
    exact expect nofun fun y => R.pure rfl

theorem forClause {close : TokenKind} (hclose : close ≠ .eof) :
    R.Always m n 1 0 (Rule.forClause expression close) (Rule.forClause expression' close) := by
  refine fun x => accept hclose (fun x => R.pure rfl) ?_
  refine R.bind (hE x) (Nat.le_refl _) fun e x => ?_
  exact expect hclose fun x => R.pure rfl

end

theorem segment (read : List Segment) (x : Terminal) :
    R.Holds m n x 1 (fun o => o.isSome.toNat) (Rule.segment read) (Rule.segment read) := by
  refine R.peek fun kind hx => ?_
  by_cases hperiod : kind = .period
  · rw [hperiod] at hx
    simp only [if_pos hperiod]
    show R.Holds _ _ _ _ _ (if read.head? = some .wildcard then _ else _)
      (if read.head? = some .wildcard then _ else _)
    split
    · exact fail hx
    · refine discard_advance hx nofun fun y => ?_
      exact accept nofun (fun y => R.pure rfl) (name fun text _ y => R.pure rfl)
  · simp only [if_neg hperiod]
    exact R.pure rfl

theorem importPath : R.Always m n 1 1 importRule importRule := by
  refine fun x => expect nofun fun x => name fun first _ x => ?_
  refine R.bind (i := 1) (R.iterate segment) (by decide) fun path x => ?_
  exact expect nofun fun x => R.pure rfl

theorem single {statement : Statement} {kind : TokenKind} (hx : x.kind = kind)
    (hk : kind ≠ .eof) :
    R.Holds m n x 1 (fun _ => 1) (Rule.single statement) (Rule.single statement) :=
  discard_advance hx hk fun _ => expect nofun fun _ => R.pure rfl

section

variable {inner inner' : Inner} (h : inner.Related R m n inner')

include h

theorem function : R.Always m n 1 1 (functionWith inner) (functionWith inner') := by
  refine fun x => expect nofun fun x => name fun text _ x => expect nofun fun x => ?_
  refine R.bind (parameters h.constant x) (by decide) fun parameters x => ?_
  refine expect nofun fun x => accept nofun (fun x => R.pure rfl) ?_
  exact R.bind (h.body x) (by decide) fun body x => R.pure rfl

theorem ifArm : R.Always m n 1 1 (Rule.ifArm inner) (Rule.ifArm inner') := by
  refine fun x => expect nofun fun x => ?_
  refine R.bind (parenthesized h.expression x) (by decide) fun condition x => ?_
  exact R.bind (h.body x) (by decide) fun body x => R.pure rfl

theorem elsePart (read : List Arm × Option Block) (x : Terminal) :
    R.Holds m n x 1 (fun o => o.isSome.toNat) (Rule.elsePart inner read)
      (Rule.elsePart inner' read) := by
  obtain ⟨arms, _ | otherwise⟩ := read
  · refine accept nofun (fun y => R.peek fun kind hy => ?_) (R.pure rfl)
    split
    · exact R.bind (ifArm h y) (by decide) fun arm y => R.pure rfl
    · exact R.bind (h.body y) (by decide) fun body y => R.pure rfl
  · exact R.pure rfl

theorem ifElse : R.Always m n 1 1 (ifWith inner) (ifWith inner') := by
  refine fun x => R.bind (ifArm h x) (Nat.le_refl _) fun first x => ?_
  exact R.bind (i := 1) (R.iterate (elsePart h)) (by decide) fun rest x => R.pure rfl

theorem switchPart (read : List Arm × Option Block) (x : Terminal) :
    R.Holds m n x 1 (fun o => o.isSome.toNat) (Rule.switchPart inner read)
      (Rule.switchPart inner' read) := by
  obtain ⟨cases, default⟩ := read
  refine R.peek fun kind hx => ?_
  split
  · exact R.pure rfl
  · exact R.pure rfl
  · refine discard_advance hx nofun fun y => ?_
    refine R.bind (h.constant y) (by decide) fun label y => expect nofun fun y => ?_
    exact R.bind (h.caseBody y) (by decide) fun body y => R.pure rfl
  · split
    · exact fail hx
    · refine discard_advance hx nofun fun y => expect nofun fun y => ?_
      exact R.bind (h.caseBody y) (by decide) fun body y => R.pure rfl
  · rename_i hcase _
    exact fail ⟨hx.symm, hcase⟩

theorem switch : R.Always m n 1 1 (switchWith inner) (switchWith inner') := by
  refine fun x => expect nofun fun x => ?_
  refine R.bind (parenthesized h.expression x) (by decide) fun subject x => ?_
  refine expect nofun fun x => ?_
  refine R.bind (i := 1) (R.iterate (switchPart h)) (by decide) fun parts x => ?_
  exact expect nofun fun x => R.pure rfl

theorem forEach : R.Always m n 1 0 (forEachWith inner) (forEachWith inner') := by
  refine fun x => name fun binding _ x => expect nofun fun x => ?_
  refine R.bind (h.expression x) (by decide) fun source x => expect nofun fun x => ?_
  exact R.bind (h.body x) (by decide) fun body x => R.pure rfl

theorem forLoop : R.Always m n 2 0 (forLoopWith inner) (forLoopWith inner') := by
  refine fun x => R.bind (forInit h.expression x) (by decide) fun init x => ?_
  refine R.bind (forClause h.expression (by decide) x) (by decide) fun condition x => ?_
  refine R.bind (forClause h.expression (by decide) x) (by decide) fun increment x => ?_
  exact R.bind (h.body x) (by decide) fun body x => R.pure rfl

theorem forStatement : R.Always m n 1 1 (forWith inner) (forWith inner') := by
  refine fun x => expect nofun fun x => expect nofun fun x => R.peek fun kind hx => ?_
  split
  · rename_i hfound
    refine R.peekNext (by rw [hx, hfound]; decide) fun next => ?_
    split
    · exact weaken (forEach h x) (by decide) fun _ => Nat.zero_le _
    · exact weaken (forLoop h x) (by decide) fun _ => Nat.zero_le _
  · exact weaken (forLoop h x) (by decide) fun _ => Nat.zero_le _

theorem whileLoop : R.Always m n 1 1 (whileWith inner) (whileWith inner') := by
  refine fun x => expect nofun fun x => ?_
  refine R.bind (parenthesized h.expression x) (by decide) fun condition x => ?_
  exact R.bind (h.body x) (by decide) fun body x => R.pure rfl

theorem doWhile : R.Always m n 1 1 (doWhileWith inner) (doWhileWith inner') := by
  refine fun x => expect nofun fun x => R.bind (h.body x) (by decide) fun body x => ?_
  refine expect nofun fun x => ?_
  refine R.bind (parenthesized h.expression x) (by decide) fun condition x => ?_
  exact expect nofun fun x => R.pure rfl

theorem statementWith :
    R.Always m n 1 1 (Rule.statementWith inner) (Rule.statementWith inner') := by
  refine fun x => R.peek fun kind hx => ?_
  split
  · exact discard_advance hx nofun fun y => R.pure rfl
  · exact map (function h x)
  · exact map (importPath x)
  · exact R.bind (declaration h.expression x) (Nat.le_refl _) fun d y => R.pure rfl
  · exact R.bind (declaration h.expression x) (Nat.le_refl _) fun d y => R.pure rfl
  · exact map (single hx nofun)
  · exact map (single hx nofun)
  · exact map (returnValues h.expression x)
  · exact map (ifElse h x)
  · exact map (switch h x)
  · exact map (forStatement h x)
  · exact map (whileLoop h x)
  · exact map (doWhile h x)
  · refine R.bind (h.expression x) (Nat.le_refl _) fun e y => ?_
    exact expect nofun fun y => R.pure rfl

theorem body : R.Always m n 1 0 (bodyWith (Rule.statementWith inner))
    (bodyWith (Rule.statementWith inner')) := by
  refine fun x => accept nofun (fun x => ?_) ?_
  · refine R.bind (manyUntil (statementWith h) x) (by decide) fun block x => ?_
    exact expect nofun fun x => R.pure rfl
  · exact R.bind (statementWith h x) (Nat.le_refl _) fun s x => R.pure rfl

theorem caseBody : R.Always m n 1 0 (caseBodyWith (Rule.statementWith inner))
    (caseBodyWith (Rule.statementWith inner')) :=
  manyUntil (statementWith h)

end

theorem innerWithin (m n : Nat) : (Rule.innerWithin m).Related R m n (Rule.innerWithin n) := by
  have body_eq (n : Nat) : bodyWithin n =
      Rule.descend (fun n => bodyWith (Rule.statementWith (Rule.innerWithin n))) n := by
    cases n <;> rfl
  have caseBody_eq (n : Nat) : caseBodyWithin n =
      Rule.descend (fun n => caseBodyWith (Rule.statementWith (Rule.innerWithin n))) n := by
    cases n <;> rfl
  induction m generalizing n with
  | zero =>
    refine ⟨expressionWithin 0 n, constantWithin 0 n, ?_, ?_⟩
    · show R.Always _ _ _ _ (bodyWithin 0) (bodyWithin n)
      rw [body_eq, body_eq]
      exact fun x => R.descend nofun
    · show R.Always _ _ _ _ (caseBodyWithin 0) (caseBodyWithin n)
      rw [caseBody_eq, caseBody_eq]
      exact fun x => R.descend nofun
  | succ m ih =>
    refine ⟨expressionWithin (m + 1) n, constantWithin (m + 1) n, ?_, ?_⟩
    · show R.Always _ _ _ _ (bodyWithin (m + 1)) (bodyWithin n)
      rw [body_eq, body_eq]
      refine fun x => R.descend fun i j hi hj => ?_
      cases hi
      exact body (ih j) x
    · show R.Always _ _ _ _ (caseBodyWithin (m + 1)) (caseBodyWithin n)
      rw [caseBody_eq, caseBody_eq]
      refine fun x => R.descend fun i j hi hj => ?_
      cases hi
      exact caseBody (ih j) x

theorem statement (m n : Nat) : R.Always m n 1 1 Rule.statement Rule.statement := by
  intro x
  exact R.levels (f := fun levels => Rule.statementWith (Rule.innerWithin levels))
    (g := fun levels => Rule.statementWith (Rule.innerWithin levels))
    (statementWith (innerWithin m n) x)

/-- What each way to build a rule keeps holds between two runs of the rule for programs. -/
theorem program (m n : Nat) : R.Always m n 1 0 Rule.program Rule.program :=
  manyUntil (statement m n)

end Congruence

end ScriptFront.Rule
