import ScriptFront.Statement.Equality

/-! # Chains of conditions

An if statement is a link of a chain: a condition, its block, and what stands behind `else`. A chain
has no bound on its length, so two chains are compared in a loop that goes down both link by link,
and not part by part. All other statements are compared as before. -/

namespace ScriptFront

/-- An if statement, with the links behind the first one in a list. -/
structure IfStatement where
  first : Arm
  elseIfs : List Arm
  otherwise : Option Block

/-- What stands behind `else`. -/
inductive ElseBranch where
  | elseIf (next : IfStatement)
  | otherwise (body : Block)

namespace IfStatement

def branch? : IfStatement → Option ElseBranch
  | ⟨_, next :: rest, otherwise⟩ => some (.elseIf ⟨next, rest, otherwise⟩)
  | ⟨_, [], some body⟩ => some (.otherwise body)
  | ⟨_, [], none⟩ => none

/-- The next link of the chain. -/
def elseIf? (x : IfStatement) : Option IfStatement :=
  match x.branch? with
  | some (.elseIf next) => some next
  | _ => none

/-- The block for when the condition does not hold, where no link follows. -/
def elseBody? (x : IfStatement) : Option Block :=
  match x.branch? with
  | some (.otherwise body) => some body
  | _ => none

def statement (x : IfStatement) : Statement := .ifElse x.first x.elseIfs x.otherwise

theorem sizeOf_elseIf {x next : IfStatement} (h : x.branch? = some (.elseIf next)) :
    sizeOf next < sizeOf x := by
  obtain ⟨a, as, o⟩ := x
  cases as with
  | cons b bs =>
    cases h
    simp only [mk.sizeOf_spec, List.cons.sizeOf_spec]
    omega
  | nil => cases o <;> cases h

theorem sizeOf_otherwise {x : IfStatement} {body : Block}
    (h : x.branch? = some (.otherwise body)) : sizeOf body < sizeOf x := by
  obtain ⟨a, as, o⟩ := x
  cases as with
  | cons b bs => cases h
  | nil =>
    cases o <;> cases h
    simp only [mk.sizeOf_spec, Option.some.sizeOf_spec]
    omega

theorem sizeOf_body (x : IfStatement) : sizeOf x.first.body < sizeOf x := by
  obtain ⟨⟨c, b⟩, as, o⟩ := x
  simp only [Arm.body, mk.sizeOf_spec, Arm.mk.sizeOf_spec]
  omega

end IfStatement

mutual

def Statement.equal : Statement → Statement → Bool
  | .expression a, .expression b => a.same b
  | .declaration a, .declaration b => a.same b
  | .ifElse a as x, .ifElse b bs y => IfStatement.equal ⟨a, as, x⟩ ⟨b, bs, y⟩
  | .switch a as x, .switch b bs y => a.same b && Arm.equalAll as bs && Block.equalOptional x y
  | .forEach m a x, .forEach n b y => m = n && a.same b && Block.equal x y
  | .forLoop i a b x, .forLoop j c d y =>
    sameOptional ForInit.same i j && sameOptional Expr.same a c &&
      sameOptional Expr.same b d && Block.equal x y
  | .whileLoop a x, .whileLoop b y => a.same b && Block.equal x y
  | .doWhile x a, .doWhile y b => Block.equal x y && a.same b
  | .breakLoop, .breakLoop => true
  | .continueLoop, .continueLoop => true
  | .returnValues as, .returnValues bs => Expr.sameAll as bs
  | .function m ps x, .function n qs y =>
    m = n && Parameter.sameAll ps qs && Block.equalOptional x y
  | .importPath p, .importPath q => p = q
  | _, _ => false
termination_by s => (sizeOf s, 1)

/-- Goes down two chains as long as both have a next link and all is equal. -/
def IfStatement.equal (x y : IfStatement) : Bool :=
  if !(x.first.guard.same y.first.guard) || !(Block.equal x.first.body y.first.body) then false
  else
    match _h : x.branch?, y.branch? with
    | some (.elseIf next), some (.elseIf next') => next.equal next'
    | some (.otherwise body), some (.otherwise body') => Block.equal body body'
    | none, none => true
    | _, _ => false
termination_by (sizeOf x, 0)
decreasing_by
  · exact .left _ _ x.sizeOf_body
  · exact .left _ _ (IfStatement.sizeOf_elseIf ‹_›)
  · exact .left _ _ (IfStatement.sizeOf_otherwise ‹_›)

def Arm.equal : Arm → Arm → Bool
  | .mk a x, .mk b y => a.same b && Block.equal x y
termination_by a => (sizeOf a, 0)

def Arm.equalAll : List Arm → List Arm → Bool
  | [], [] => true
  | a :: as, b :: bs => a.equal b && Arm.equalAll as bs
  | _, _ => false
termination_by as => (sizeOf as, 0)

def Block.equal : List Statement → List Statement → Bool
  | [], [] => true
  | a :: as, b :: bs => a.equal b && Block.equal as bs
  | _, _ => false
termination_by b => (sizeOf b, 0)

def Block.equalOptional : Option (List Statement) → Option (List Statement) → Bool
  | some x, some y => Block.equal x y
  | none, none => true
  | _, _ => false
termination_by o => (sizeOf o, 0)

end

end ScriptFront
