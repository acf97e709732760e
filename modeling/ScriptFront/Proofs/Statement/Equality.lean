import Mathlib.Data.List.Forall2
import ScriptFront.Proofs.Statement.Atoms
import ScriptFront.Statement.Chain

/-! # Equality of trees

Two trees are equal when both hold numbers only and they differ in no more than the signs of zeros.
So equality is symmetric and transitive, and a tree that holds something that is no number is the
only kind that differs from itself. -/

namespace ScriptFront

/-- The zero without a sign, in place of either. -/
def Binary32.plain (x : Binary32) : Binary32 := if x.magnitude = 0 then ⟨0⟩ else x

theorem Binary32.same_iff {x y : Binary32} :
    x.same y = true ↔ x.isNaN = false ∧ y.isNaN = false ∧ x.plain = y.plain := by
  have hplain : x.plain = y.plain ↔ x.bits = y.bits ∨ x.magnitude = 0 ∧ y.magnitude = 0 := by
    have hzero {z : Binary32} (h : ⟨0⟩ = z) : z.magnitude = 0 := by
      rw [← h]
      rfl
    have hbits : x = y ↔ x.bits = y.bits := by
      cases x
      cases y
      simp
    unfold plain
    by_cases hx : x.magnitude = 0
    · by_cases hy : y.magnitude = 0
      · simp [hx, hy]
      · rw [if_pos hx, if_neg hy, ← hbits]
        constructor
        · exact fun h => absurd (hzero h) hy
        · rintro (rfl | h)
          · exact absurd hx hy
          · exact absurd h.2 hy
    · by_cases hy : y.magnitude = 0
      · rw [if_neg hx, if_pos hy, ← hbits]
        constructor
        · exact fun h => absurd (hzero h.symm) hx
        · rintro (rfl | h)
          · exact absurd hy hx
          · exact absurd h.1 hx
      · rw [if_neg hx, if_neg hy, hbits]
        simp [hx]
  rw [hplain]
  simp only [same, Bool.and_eq_true, Bool.not_eq_true', Bool.or_eq_true, decide_eq_true_eq,
    and_assoc]

namespace Literal

/-- No float that is not a number. -/
def isComparable : Literal → Bool
  | float x => !x.isNaN
  | _ => true

def plain : Literal → Literal
  | float x => float x.plain
  | v => v

theorem same_iff {u v : Literal} :
    u.same v = true ↔ u.isComparable = true ∧ v.isComparable = true ∧ u.plain = v.plain := by
  cases u <;> cases v <;> simp [same, isComparable, plain, Binary32.same_iff]

end Literal

/-- A part holds numbers only. -/
def Comparable (atoms : List Literal) : Prop := ∀ v ∈ atoms, v.isComparable = true

namespace Comparable

variable {u v x y : List Literal} {n : String} {P Q : Prop}

@[simp] theorem nil : Comparable [] := nofun

@[simp] theorem append : Comparable (u ++ v) ↔ Comparable u ∧ Comparable v :=
  List.forall_mem_append

@[simp] theorem string : Comparable (.string n :: u) ↔ Comparable u := by
  simp [Comparable, Literal.isComparable]

@[simp] theorem identifier : Comparable (.identifier n :: u) ↔ Comparable u := by
  simp [Comparable, Literal.isComparable]

/-- Two trees are equal in both of two parts. -/
theorem and_iff : (Comparable u ∧ Comparable v ∧ P) ∧ (Comparable x ∧ Comparable y ∧ Q) ↔
    Comparable (u ++ x) ∧ Comparable (v ++ y) ∧ P ∧ Q := by
  rw [append, append]
  constructor
  · rintro ⟨⟨hu, hv, hP⟩, hx, hy, hQ⟩
    exact ⟨⟨hu, hx⟩, ⟨hv, hy⟩, hP, hQ⟩
  · rintro ⟨⟨hu, hx⟩, ⟨hv, hy⟩, hP, hQ⟩
    exact ⟨⟨hu, hv, hP⟩, hx, hy, hQ⟩

/-- Two trees are equal in a part without literals and in another part. -/
theorem and_left_iff :
    P ∧ Comparable u ∧ Comparable v ∧ Q ↔ Comparable u ∧ Comparable v ∧ P ∧ Q := by
  rw [and_left_comm, and_left_comm (a := P)]

end Comparable

namespace Expr

mutual

def plain : Expr → Expr
  | literal value => literal value.plain
  | unary op e => unary op e.plain
  | binary op a b => binary op a.plain b.plain
  | assign op a b => assign op a.plain b.plain
  | conditional a b c => conditional a.plain b.plain c.plain
  | call e es => call e.plain (plainAll es)
  | element a b => element a.plain b.plain
  | member e name => member e.plain name
  | array es => array (plainAll es)

def plainAll : List Expr → List Expr
  | [] => []
  | e :: es => e.plain :: plainAll es

end

mutual

theorem same_iff : (e f : Expr) →
    (e.same f = true ↔ Comparable e.atoms ∧ Comparable f.atoms ∧ e.plain = f.plain)
  | literal u, f => by
    cases f with
    | literal v => simp [same, plain, Literal.same_iff, atoms, Comparable]
    | _ => simp [same, plain]
  | unary op a, f => by
    cases f with
    | unary op' b =>
      simp only [same, plain, atoms, Bool.and_eq_true, decide_eq_true_eq, same_iff a b, unary.injEq]
      rw [Comparable.and_left_iff]
    | _ => simp [same, plain]
  | binary op a b, f => by
    cases f with
    | binary op' c d =>
      simp only [same, plain, atoms, Bool.and_eq_true, decide_eq_true_eq, same_iff a c,
        same_iff b d, binary.injEq]
      rw [and_assoc, Comparable.and_iff, Comparable.and_left_iff]
    | _ => simp [same, plain]
  | assign op a b, f => by
    cases f with
    | assign op' c d =>
      simp only [same, plain, atoms, Bool.and_eq_true, decide_eq_true_eq, same_iff a c,
        same_iff b d, assign.injEq]
      rw [and_assoc, Comparable.and_iff, Comparable.and_left_iff]
    | _ => simp [same, plain]
  | conditional a b c, f => by
    cases f with
    | conditional d e f =>
      simp only [same, plain, atoms, Bool.and_eq_true, same_iff a d, same_iff b e, same_iff c f,
        conditional.injEq]
      rw [Comparable.and_iff, Comparable.and_iff, and_assoc]
    | _ => simp [same, plain]
  | call a as, f => by
    cases f with
    | call b bs =>
      simp only [same, plain, atoms, Bool.and_eq_true, same_iff a b, sameAll_iff as bs, call.injEq,
        Comparable.and_iff]
    | _ => simp [same, plain]
  | element a b, f => by
    cases f with
    | element c d =>
      simp only [same, plain, atoms, Bool.and_eq_true, same_iff a c, same_iff b d, element.injEq,
        Comparable.and_iff]
    | _ => simp [same, plain]
  | member a name, f => by
    cases f with
    | member b name' => simp [same, plain, atoms, same_iff a b, and_assoc]
    | _ => simp [same, plain]
  | array as, f => by
    cases f with
    | array bs => simp [same, plain, atoms, sameAll_iff as bs]
    | _ => simp [same, plain]

theorem sameAll_iff : (es fs : List Expr) → (sameAll es fs = true ↔
    Comparable (atomsAll es) ∧ Comparable (atomsAll fs) ∧ plainAll es = plainAll fs)
  | [], [] => by simp [sameAll, atomsAll]
  | [], _ :: _ | _ :: _, [] => by simp [sameAll, plainAll]
  | e :: es, f :: fs => by
    simp only [sameAll, plainAll, atomsAll, Bool.and_eq_true, same_iff e f, sameAll_iff es fs,
      List.cons.injEq, Comparable.and_iff]

end

end Expr

theorem sameOptional_iff {α : Type} {same : α → α → Bool} {atoms : α → List Literal} {plain : α → α}
    (h : ∀ a b, same a b = true ↔ Comparable (atoms a) ∧ Comparable (atoms b) ∧ plain a = plain b)
    (o p : Option α) : sameOptional same o p = true ↔
      Comparable (o.elim [] atoms) ∧ Comparable (p.elim [] atoms) ∧ o.map plain = p.map plain := by
  cases o <;> cases p <;> simp [sameOptional, h]

def Declaration.plain (d : Declaration) : Declaration := { d with value := d.value.plain }

theorem Declaration.same_iff (d d' : Declaration) :
    d.same d' = true ↔ Comparable d.atoms ∧ Comparable d'.atoms ∧ d.plain = d'.plain := by
  simp only [same, plain, atoms, Bool.and_eq_true, decide_eq_true_eq, Expr.same_iff,
    Declaration.mk.injEq, Comparable.string]
  rw [Comparable.and_left_iff, and_assoc]

namespace ForInit

def plain : ForInit → ForInit
  | declaration d => declaration d.plain
  | expression e => expression e.plain

theorem same_iff (i j : ForInit) :
    i.same j = true ↔ Comparable i.atoms ∧ Comparable j.atoms ∧ i.plain = j.plain := by
  cases i <;> cases j <;> simp [same, plain, atoms, Declaration.same_iff, Expr.same_iff]

end ForInit

namespace Parameter

def plain : Parameter → Parameter
  | named name default => named name (default.map Expr.plain)
  | variadic => variadic

theorem same_iff (p q : Parameter) :
    p.same q = true ↔ Comparable p.atoms ∧ Comparable q.atoms ∧ p.plain = q.plain := by
  cases p with
  | variadic => cases q <;> simp [same, plain, atoms]
  | named name default =>
    cases q with
    | variadic => simp [same, plain]
    | named name' default' =>
      simp only [same, plain, atoms, Bool.and_eq_true, decide_eq_true_eq,
        sameOptional_iff Expr.same_iff, named.injEq, Comparable.identifier]
      rw [Comparable.and_left_iff]

theorem sameAll_iff (ps qs : List Parameter) : sameAll ps qs = true ↔
    Comparable (ps.flatMap atoms) ∧ Comparable (qs.flatMap atoms) ∧
      ps.map plain = qs.map plain := by
  induction ps generalizing qs with
  | nil => cases qs <;> simp [sameAll]
  | cons p ps ih =>
    cases qs with
    | nil => simp [sameAll]
    | cons q qs =>
      simp only [sameAll, Bool.and_eq_true, same_iff, ih, List.flatMap_cons, List.map_cons,
        List.cons.injEq, Comparable.and_iff]

end Parameter

mutual

def Statement.plain : Statement → Statement
  | .expression e => .expression e.plain
  | .declaration d => .declaration d.plain
  | .ifElse a as o => .ifElse a.plain (Arm.plainAll as) (Block.plainOptional o)
  | .switch e as o => .switch e.plain (Arm.plainAll as) (Block.plainOptional o)
  | .forEach binding source body => .forEach binding source.plain (Block.plain body)
  | .forLoop init condition increment body =>
    .forLoop (init.map ForInit.plain) (condition.map Expr.plain) (increment.map Expr.plain)
      (Block.plain body)
  | .whileLoop e b => .whileLoop e.plain (Block.plain b)
  | .doWhile b e => .doWhile (Block.plain b) e.plain
  | .breakLoop => .breakLoop
  | .continueLoop => .continueLoop
  | .returnValues es => .returnValues (Expr.plainAll es)
  | .function name ps o => .function name (ps.map Parameter.plain) (Block.plainOptional o)
  | .importPath path => .importPath path

def Arm.plain : Arm → Arm
  | .mk e b => .mk e.plain (Block.plain b)

def Arm.plainAll : List Arm → List Arm
  | [] => []
  | a :: as => a.plain :: Arm.plainAll as

def Block.plain : List Statement → List Statement
  | [] => []
  | s :: ss => s.plain :: Block.plain ss

def Block.plainOptional : Option (List Statement) → Option (List Statement)
  | none => none
  | some b => some (Block.plain b)

end

theorem Segment.comparable_atoms (path : List Segment) :
    Comparable (path.flatMap Segment.atoms) := by
  intro v hv
  obtain ⟨s, -, hs⟩ := List.mem_flatMap.mp hv
  cases s with
  | name =>
    obtain rfl := List.mem_singleton.mp hs
    rfl
  | wildcard => cases hs

mutual

theorem Statement.same_iff : (s t : Statement) →
    (s.same t = true ↔ Comparable s.atoms ∧ Comparable t.atoms ∧ s.plain = t.plain)
  | .expression e, t => by
    cases t with
    | expression f => simp [Statement.same, Statement.plain, Statement.atoms, Expr.same_iff]
    | _ => simp [Statement.same, Statement.plain]
  | .declaration d, t => by
    cases t with
    | declaration d' =>
      simp [Statement.same, Statement.plain, Statement.atoms, Declaration.same_iff]
    | _ => simp [Statement.same, Statement.plain]
  | .ifElse a as o, t => by
    cases t with
    | ifElse b bs p =>
      simp only [Statement.same, Statement.plain, Statement.atoms, Bool.and_eq_true,
        Arm.same_iff a b, Arm.sameAll_iff as bs, Block.sameOptional_iff o p, Statement.ifElse.injEq]
      rw [Comparable.and_iff, Comparable.and_iff, and_assoc]
    | _ => simp [Statement.same, Statement.plain]
  | .switch e as o, t => by
    cases t with
    | switch f bs p =>
      simp only [Statement.same, Statement.plain, Statement.atoms, Bool.and_eq_true,
        Expr.same_iff e f, Arm.sameAll_iff as bs, Block.sameOptional_iff o p,
        Statement.switch.injEq]
      rw [Comparable.and_iff, Comparable.and_iff, and_assoc]
    | _ => simp [Statement.same, Statement.plain]
  | .forEach binding e b, t => by
    cases t with
    | forEach binding' f c =>
      simp only [Statement.same, Statement.plain, Statement.atoms, Bool.and_eq_true,
        decide_eq_true_eq, Expr.same_iff e f, Block.same_iff b c, Statement.forEach.injEq,
        Comparable.identifier]
      rw [and_assoc, Comparable.and_iff, Comparable.and_left_iff]
    | _ => simp [Statement.same, Statement.plain]
  | .forLoop i c n b, t => by
    cases t with
    | forLoop i' c' n' b' =>
      simp only [Statement.same, Statement.plain, Statement.atoms, Bool.and_eq_true,
        sameOptional_iff ForInit.same_iff, sameOptional_iff Expr.same_iff, Block.same_iff b b',
        Statement.forLoop.injEq]
      rw [Comparable.and_iff, Comparable.and_iff, Comparable.and_iff, and_assoc, and_assoc]
    | _ => simp [Statement.same, Statement.plain]
  | .whileLoop e b, t => by
    cases t with
    | whileLoop f c =>
      simp only [Statement.same, Statement.plain, Statement.atoms, Bool.and_eq_true,
        Expr.same_iff e f, Block.same_iff b c, Statement.whileLoop.injEq, Comparable.and_iff]
    | _ => simp [Statement.same, Statement.plain]
  | .doWhile b e, t => by
    cases t with
    | doWhile c f =>
      simp only [Statement.same, Statement.plain, Statement.atoms, Bool.and_eq_true,
        Block.same_iff b c, Expr.same_iff e f, Statement.doWhile.injEq, Comparable.and_iff]
    | _ => simp [Statement.same, Statement.plain]
  | .breakLoop, t | .continueLoop, t => by
    cases t <;> simp [Statement.same, Statement.plain, Statement.atoms]
  | .returnValues es, t => by
    cases t with
    | returnValues fs => simp [Statement.same, Statement.plain, Statement.atoms, Expr.sameAll_iff]
    | _ => simp [Statement.same, Statement.plain]
  | .function name ps o, t => by
    cases t with
    | function name' qs p =>
      simp only [Statement.same, Statement.plain, Statement.atoms, Bool.and_eq_true,
        decide_eq_true_eq, Parameter.sameAll_iff, Block.sameOptional_iff o p,
        Statement.function.injEq, Comparable.identifier]
      rw [and_assoc, Comparable.and_iff, Comparable.and_left_iff]
    | _ => simp [Statement.same, Statement.plain]
  | .importPath path, t => by
    cases t with
    | importPath path' =>
      simp [Statement.same, Statement.plain, Statement.atoms, Segment.comparable_atoms]
    | _ => simp [Statement.same, Statement.plain]

theorem Arm.same_iff : (a b : Arm) →
    (a.same b = true ↔ Comparable a.atoms ∧ Comparable b.atoms ∧ a.plain = b.plain)
  | .mk e b, .mk f c => by
    simp only [Arm.same, Arm.plain, Arm.atoms, Bool.and_eq_true, Expr.same_iff e f,
      Block.same_iff b c, Arm.mk.injEq, Comparable.and_iff]

theorem Arm.sameAll_iff : (as bs : List Arm) → (Arm.sameAll as bs = true ↔
    Comparable (Arm.atomsAll as) ∧ Comparable (Arm.atomsAll bs) ∧
      Arm.plainAll as = Arm.plainAll bs)
  | [], [] => by simp [Arm.sameAll, Arm.atomsAll]
  | [], _ :: _ | _ :: _, [] => by simp [Arm.sameAll, Arm.plainAll]
  | a :: as, b :: bs => by
    simp only [Arm.sameAll, Arm.plainAll, Arm.atomsAll, Bool.and_eq_true, Arm.same_iff a b,
      Arm.sameAll_iff as bs, List.cons.injEq, Comparable.and_iff]

theorem Block.same_iff : (b c : List Statement) → (Block.same b c = true ↔
    Comparable (Block.atoms b) ∧ Comparable (Block.atoms c) ∧ Block.plain b = Block.plain c)
  | [], [] => by simp [Block.same, Block.atoms]
  | [], _ :: _ | _ :: _, [] => by simp [Block.same, Block.plain]
  | s :: b, t :: c => by
    simp only [Block.same, Block.plain, Block.atoms, Bool.and_eq_true, Statement.same_iff s t,
      Block.same_iff b c, List.cons.injEq, Comparable.and_iff]

theorem Block.sameOptional_iff : (o p : Option (List Statement)) →
    (Block.sameOptional o p = true ↔ Comparable (Block.atomsOptional o) ∧
      Comparable (Block.atomsOptional p) ∧ Block.plainOptional o = Block.plainOptional p)
  | none, none => by simp [Block.sameOptional, Block.atomsOptional]
  | none, some _ | some _, none => by simp [Block.sameOptional, Block.plainOptional]
  | some b, some c => by
    simp [Block.sameOptional, Block.plainOptional, Block.atomsOptional, Block.same_iff b c]

end

theorem Arm.equal_eq {a b : Arm} :
    a.equal b = (a.guard.same b.guard && Block.equal a.body b.body) := by
  cases a
  cases b
  rw [Arm.equal]
  rfl

namespace IfStatement

variable {a b : Arm} {as bs : List Arm} {o p : Option Block}

/-- Where both chains have a next link, the loop goes on with the two. -/
theorem equal_link (c d : Arm) :
    equal ⟨a, c :: as, o⟩ ⟨b, d :: bs, p⟩ = (a.equal b && equal ⟨c, as, o⟩ ⟨d, bs, p⟩) := by
  rw [equal, Arm.equal_eq]
  dsimp only [branch?]
  cases a.guard.same b.guard <;> cases Block.equal a.body b.body <;> rfl

theorem equal_last : equal ⟨a, [], o⟩ ⟨b, [], p⟩ = (a.equal b && Block.equalOptional o p) := by
  rw [equal, Arm.equal_eq]
  cases o <;> cases p <;> simp [branch?, Block.equalOptional]

theorem equal_longer (c : Arm) : equal ⟨a, c :: as, o⟩ ⟨b, [], p⟩ = false := by
  rw [equal]
  cases p <;> simp [branch?]

theorem equal_shorter (c : Arm) : equal ⟨a, [], o⟩ ⟨b, c :: bs, p⟩ = false := by
  rw [equal]
  cases o <;> simp [branch?]

/-- Along the first chain: the loop compares all links in order and then the two ends. -/
theorem equal_eq_all : equal ⟨a, as, o⟩ ⟨b, bs, p⟩ =
    (a.equal b && Arm.equalAll as bs && Block.equalOptional o p) := by
  induction as generalizing a b bs with
  | nil =>
    cases bs with
    | nil => rw [equal_last, Arm.equalAll, Bool.and_true]
    | cons d bs => simp [equal_shorter, Arm.equalAll]
  | cons c as ih =>
    cases bs with
    | nil => simp [equal_longer, Arm.equalAll]
    | cons d bs => rw [equal_link, ih, Arm.equalAll, Bool.and_assoc, Bool.and_assoc, Bool.and_assoc]

end IfStatement

mutual

theorem Statement.equal_eq_same : (s t : Statement) → s.equal t = s.same t
  | .ifElse a as o, t => by
    cases t with
    | ifElse b bs p =>
      rw [Statement.equal, IfStatement.equal_eq_all, Arm.equal_eq_same a b,
        Arm.equalAll_eq_sameAll as bs, Block.equalOptional_eq_sameOptional o p, Statement.same]
    | _ => simp [Statement.equal, Statement.same]
  | .switch e as o, t => by
    cases t with
    | switch f bs p =>
      rw [Statement.equal, Arm.equalAll_eq_sameAll as bs, Block.equalOptional_eq_sameOptional o p,
        Statement.same]
    | _ => simp [Statement.equal, Statement.same]
  | .forEach _ _ b, t | .forLoop _ _ _ b, t | .whileLoop _ b, t | .doWhile b _, t => by
    cases t <;> simp [Statement.equal, Statement.same, Block.equal_eq_same b]
  | .function _ _ o, t => by
    cases t <;> simp [Statement.equal, Statement.same, Block.equalOptional_eq_sameOptional o]
  | .expression _, t | .declaration _, t | .breakLoop, t | .continueLoop, t | .returnValues _, t
  | .importPath _, t => by
    cases t <;> simp [Statement.equal, Statement.same]

theorem Arm.equal_eq_same : (a b : Arm) → a.equal b = a.same b
  | .mk e b, .mk f c => by rw [Arm.equal, Arm.same, Block.equal_eq_same b c]

theorem Arm.equalAll_eq_sameAll : (as bs : List Arm) → Arm.equalAll as bs = Arm.sameAll as bs
  | [], [] | [], _ :: _ | _ :: _, [] => by simp [Arm.equalAll, Arm.sameAll]
  | a :: as, b :: bs => by
    rw [Arm.equalAll, Arm.sameAll, Arm.equal_eq_same a b, Arm.equalAll_eq_sameAll as bs]

theorem Block.equal_eq_same : (b c : List Statement) → Block.equal b c = Block.same b c
  | [], [] | [], _ :: _ | _ :: _, [] => by simp [Block.equal, Block.same]
  | s :: b, t :: c => by
    rw [Block.equal, Block.same, Statement.equal_eq_same s t, Block.equal_eq_same b c]

theorem Block.equalOptional_eq_sameOptional : (o p : Option (List Statement)) →
    Block.equalOptional o p = Block.sameOptional o p
  | none, none | none, some _ | some _, none => by simp [Block.equalOptional, Block.sameOptional]
  | some b, some c => by rw [Block.equalOptional, Block.sameOptional, Block.equal_eq_same b c]

end

theorem Arm.equalAll_iff {as bs : List Arm} :
    Arm.equalAll as bs = true ↔ List.Forall₂ (fun a b => a.equal b = true) as bs := by
  induction as generalizing bs with
  | nil => cases bs <;> simp [Arm.equalAll]
  | cons a as ih => cases bs <;> simp [Arm.equalAll, ih]

theorem Block.equalOptional_iff {o p : Option Block} :
    Block.equalOptional o p = true ↔ Option.Rel (fun b c => Block.equal b c = true) o p := by
  cases o <;> cases p <;> simp [Block.equalOptional]

theorem Block.equal_iff {b c : Block} : Block.equal b c = true ↔
    Comparable (Block.atoms b) ∧ Comparable (Block.atoms c) ∧ Block.plain b = Block.plain c := by
  rw [Block.equal_eq_same, Block.same_iff]

theorem comparable_iff {atoms : List Literal} :
    Comparable atoms ↔ ∀ x, Literal.float x ∈ atoms → x.isNaN = false := by
  constructor
  · intro h x hx
    have := h _ hx
    simpa [Literal.isComparable] using this
  · intro h v hv
    cases v with
    | float x => simp [Literal.isComparable, h x hv]
    | _ => rfl

/-- All links of a chain. -/
def IfStatement.links (x : IfStatement) : List Arm := x.first :: x.elseIfs

/-- The loop over two chains finds them equal where they have as many links, equal in order, and the
same end; this is to compare them part by part. So are programs compared, by an equivalence on those
in which every float is a number, and no other program equals itself. -/
theorem equal_is_structural :
    (∀ x y : IfStatement, x.equal y = x.statement.same y.statement ∧
      (x.equal y = true ↔
        List.Forall₂ (fun a b => a.guard.same b.guard = true ∧ Block.equal a.body b.body = true)
          x.links y.links ∧
        Option.Rel (fun b c => Block.equal b c = true) x.otherwise y.otherwise)) ∧
    (∀ p q : Program, Block.equal p q = Block.same p q ∧ Block.equal p q = Block.equal q p) ∧
    (∀ p q r : Program, Block.equal p q = true → Block.equal q r = true →
      Block.equal p r = true) ∧
    ∀ p : Program, Block.equal p p = true ↔
      ∀ x, Literal.float x ∈ Block.atoms p → x.isNaN = false := by
  refine ⟨fun x y => ⟨?_, ?_⟩, fun p q => ⟨Block.equal_eq_same p q, ?_⟩, fun p q r hpq hqr => ?_,
    fun p => ?_⟩
  · rw [← Statement.equal_eq_same, IfStatement.statement, IfStatement.statement, Statement.equal]
  · have hlinks : Arm.equal x.first y.first = true ∧ Arm.equalAll x.elseIfs y.elseIfs = true ↔
        List.Forall₂ (fun a b => a.equal b = true) x.links y.links := by
      rw [Arm.equalAll_iff, IfStatement.links, IfStatement.links, List.forall₂_cons]
    rw [IfStatement.equal_eq_all, Bool.and_eq_true, Bool.and_eq_true, hlinks,
      Block.equalOptional_iff]
    simp only [Arm.equal_eq, Bool.and_eq_true]
  · rw [Bool.eq_iff_iff, Block.equal_iff, Block.equal_iff]
    constructor
    · rintro ⟨hp, hq, h⟩
      exact ⟨hq, hp, h.symm⟩
    · rintro ⟨hq, hp, h⟩
      exact ⟨hp, hq, h.symm⟩
  · rw [Block.equal_iff] at hpq hqr ⊢
    exact ⟨hpq.1, hqr.2.1, hpq.2.2.trans hqr.2.2⟩
  · rw [Block.equal_iff, ← comparable_iff]
    constructor
    · exact fun h => h.1
    · exact fun h => ⟨h, h, rfl⟩

/-- Chains of floats that differ in the signs of zeros. -/
theorem equal_is_structural_at_zeros :
    let chain (x y : UInt32) : Program :=
      [.ifElse (.mk (.literal (.float ⟨x⟩)) []) [.mk (.literal (.float ⟨y⟩)) [.breakLoop]] none]
    Block.equal (chain 0 0x80000000) (chain 0x80000000 0) = true ∧
      Block.equal (chain 0x80000000 0) (chain 0 0) = true ∧
      Block.equal (chain 0 0x80000000) (chain 0 0) = true := by
  intro chain
  obtain ⟨-, hsame, htrans, -⟩ := equal_is_structural
  have h : Block.equal (chain 0 0x80000000) (chain 0x80000000 0) = true :=
    (hsame _ _).1.trans (by decide +kernel)
  have h' : Block.equal (chain 0x80000000 0) (chain 0 0) = true :=
    (hsame _ _).1.trans (by decide +kernel)
  exact ⟨h, h', htrans _ _ _ h h'⟩

end ScriptFront
