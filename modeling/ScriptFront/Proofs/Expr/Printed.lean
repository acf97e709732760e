import ScriptFront.Proofs.Expr.Climbing
import ScriptFront.Proofs.Expr.Nesting
import ScriptFront.Proofs.Expr.WellFormed
import ScriptFront.Proofs.Number.Shortest
import ScriptFront.Expr.Printer

/-! # The terminals of a written expression

Every operator application stands in parentheses, so what is written is a phrase of trailing
whatever it is part of. -/

namespace ScriptFront

open Terminal

def Literal.printed : Literal → Terminal
  | integer value => carrying .integer (toString value.toInt)
  | float value => carrying .float value.text
  | string content => carrying .string content
  | identifier name => carrying .identifier name
  | boolean value => fixed (if value then .kwTrue else .kwFalse)
  | null => fixed .kwNull

/-- Between parentheses. -/
def grouped (w : List Terminal) : List Terminal :=
  fixed .openParen :: (w ++ [fixed .closeParen])

/-- One part behind the other, with a terminal between any two. -/
def separatedBy (separator : TokenKind) : List (List Terminal) → List Terminal
  | [] => []
  | [w] => w
  | v :: w :: ws => v ++ fixed separator :: separatedBy separator (w :: ws)

namespace Expr

mutual

def printed : Expr → List Terminal
  | literal value => [value.printed]
  | unary op operand =>
    grouped (if op.isTrailing then operand.printed ++ [fixed op.kind]
      else fixed op.kind :: operand.printed)
  | binary op left right => grouped (left.printed ++ fixed op.kind :: right.printed)
  | assign op target value => grouped (target.printed ++ fixed op.kind :: value.printed)
  | conditional condition yes no =>
    grouped (condition.printed ++ fixed .question :: (yes.printed ++ fixed .colon :: no.printed))
  | call callee arguments => callee.printed ++ grouped (separatedBy .comma (printedAll arguments))
  | element collection index =>
    collection.printed ++ fixed .openBracket :: (index.printed ++ [fixed .closeBracket])
  | member object name =>
    (if object.isNumeral then grouped object.printed else object.printed) ++
      [fixed .period, carrying .identifier name]
  | array items =>
    fixed .openBracket :: (separatedBy .comma (printedAll items) ++ [fixed .closeBracket])

def printedAll : List Expr → List (List Terminal)
  | [] => []
  | e :: es => e.printed :: printedAll es

end

/-- The links of the chain that a written expression is. -/
def printedLinks : Expr → Nat
  | call callee _ => callee.printedLinks + 1
  | element collection _ => collection.printedLinks + 1
  | member object _ => object.printedLinks + 1
  | _ => 0

mutual

/-- The deepest nesting inside the operands of that chain. -/
def printedBase : Expr → Nat
  | literal _ => 0
  | unary _ operand => operand.printedBase + operand.printedLinks + 2
  | binary _ left right =>
    max (left.printedBase + left.printedLinks) (right.printedBase + right.printedLinks) + 2
  | assign _ target value =>
    max (target.printedBase + target.printedLinks) (value.printedBase + value.printedLinks) + 1
  | conditional condition yes no =>
    max (condition.printedBase + condition.printedLinks)
      (max (yes.printedBase + yes.printedLinks + 1) (no.printedBase + no.printedLinks + 1)) + 1
  | call callee arguments => max callee.printedBase (printedItemsNeed arguments)
  | element collection index =>
    max collection.printedBase (index.printedBase + index.printedLinks + 1)
  | member object _ => if object.isNumeral then 1 else object.printedBase
  | array items => printedItemsNeed items

/-- An expression in a list stands one level deeper. -/
def printedItemsNeed : List Expr → Nat
  | [] => 0
  | e :: es => max (e.printedBase + e.printedLinks + 1) (printedItemsNeed es)

end

/-- The nesting levels that a written expression takes. -/
def printedNeed (e : Expr) : Nat := e.printedBase + e.printedLinks

/-- Some terminals are a phrase that takes `n` levels. -/
def Needs (s : Symbol) (w : List Terminal) (e : Expr) (n : Nat) : Prop :=
  ∃ d : Phrase s w e, d.need = n

/-- Some terminals are a chain of `l` links behind operands of `b` levels. -/
def Chained (w : List Terminal) (e : Expr) (b l : Nat) : Prop :=
  ∃ d : Phrase .trailing w e, d.base = b ∧ d.links = l

variable {s : Symbol} {u v w : List Terminal} {e f g : Expr} {es : List Expr}
variable {b c l m n k : Nat}

theorem Needs.toAssignment (h : Needs s w e n) : Needs .assignment w e n := by
  have level {l : Nat} {r : Symbol} (hr : r = .ofLevel l) (hl : 1 ≤ l) (hl' : l ≤ 11)
      (h : Needs r w e n) : Needs .assignment w e n := by
    obtain ⟨d, rfl⟩ := h
    obtain ⟨dl, hbase, hlinks⟩ := Phrase.lift (Nat.le_refl 1) hl hl' hr rfl d
    refine ⟨.conditional (.simple dl), ?_⟩
    show dl.base + dl.links = d.base + d.links
    rw [hbase, hlinks]
  cases s with
  | assignment => exact h
  | conditional =>
    obtain ⟨d, rfl⟩ := h
    exact ⟨.conditional d, rfl⟩
  | binary t => exact level t.ofLevel_level.symm t.level_pos (Nat.le_succ_of_le t.level_le) h
  | unary => exact level (l := 11) rfl (by decide) (by decide) h
  | trailing =>
    obtain ⟨d, rfl⟩ := h
    exact level (l := 11) rfl (by decide) (by decide) ⟨.trailing d, rfl⟩
  | primary =>
    obtain ⟨d, rfl⟩ := h
    exact level (l := 11) rfl (by decide) (by decide) ⟨.trailing (.primary d), rfl⟩

namespace Chained

theorem needs (h : Chained w e b l) : Needs .trailing w e (b + l) := by
  obtain ⟨d, rfl, rfl⟩ := h
  exact ⟨d, rfl⟩

/-- A chain is an operand of every operator, and none goes on with it. -/
theorem operand (h : Chained w e b l) (hs : s = .ofLevel k) (hk : 1 ≤ k) (hk' : k ≤ 11) :
    ∃ d : Phrase s w e, d.base = b + l ∧ d.links = 0 := by
  obtain ⟨d, rfl, rfl⟩ := h
  exact Phrase.lift hk hk' (Nat.le_refl 11) rfl hs (.trailing d)

theorem conditional (h : Chained w e b l) : Needs .conditional w e (b + l) := by
  obtain ⟨d, hbase, hlinks⟩ := h.operand (k := 1) rfl (by decide) (by decide)
  refine ⟨.simple d, ?_⟩
  show d.base + d.links = b + l
  omega

theorem leading (h : Chained w e b l) (op : UnaryOp) (hop : op.isTrailing = false) :
    Needs .unary (fixed op.kind :: w) (.unary op e) (b + l + 1) := by
  obtain ⟨d, rfl, rfl⟩ := h
  exact ⟨.leading op hop (.trailing d), rfl⟩

theorem increment (h : Chained w e b l) :
    Chained (w ++ [fixed .increment]) (.unary .postIncrement e) b (l + 1) := by
  obtain ⟨d, rfl, rfl⟩ := h
  exact ⟨.increment d, rfl, rfl⟩

theorem decrement (h : Chained w e b l) :
    Chained (w ++ [fixed .decrement]) (.unary .postDecrement e) b (l + 1) := by
  obtain ⟨d, rfl, rfl⟩ := h
  exact ⟨.decrement d, rfl, rfl⟩

theorem call (h : Chained v e b l) (hs : ∃ ds : Items w es, ds.need = n) :
    Chained (v ++ grouped w) (.call e es) (max b n) (l + 1) := by
  obtain ⟨d, rfl, rfl⟩ := h
  obtain ⟨ds, rfl⟩ := hs
  exact ⟨.call d ds, rfl, rfl⟩

theorem element (h : Chained v e b l) (hi : Needs .assignment w f n) :
    Chained (v ++ fixed .openBracket :: (w ++ [fixed .closeBracket])) (.element e f)
      (max b (n + 1)) (l + 1) := by
  obtain ⟨d, rfl, rfl⟩ := h
  obtain ⟨di, rfl⟩ := hi
  exact ⟨.element d di, rfl, rfl⟩

theorem member (h : Chained w e b l) (name : String) :
    Chained (w ++ [fixed .period, carrying .identifier name]) (.member e name) b (l + 1) := by
  obtain ⟨d, rfl, rfl⟩ := h
  exact ⟨.member d name, rfl, rfl⟩

theorem binary (hv : Chained v e b l) (op : BinaryOp) (hw : Chained w f c m) :
    Needs .assignment (v ++ fixed op.kind :: w) (.binary op e f) (max (b + l) (c + m) + 1) := by
  obtain ⟨t, ht⟩ := op.exists_tier
  obtain ⟨dl, hl, hl'⟩ := hv.operand t.ofLevel_level.symm t.level_pos
    (Nat.le_succ_of_le t.level_le)
  obtain ⟨dr, hr, hr'⟩ := hw.operand t.ofLevel_succ_level.symm (Nat.succ_pos _)
    (Nat.succ_le_succ t.level_le)
  refine Needs.toAssignment ⟨.binary dl op ht dr, ?_⟩
  show max dl.base (dr.base + dr.links) + (dl.links + 1) = _
  omega

theorem choice (hu : Chained u e b l) (hv : Needs .assignment v f n)
    (hw : Needs .assignment w g k) :
    Needs .conditional (u ++ fixed .question :: (v ++ fixed .colon :: w)) (.conditional e f g)
      (max (b + l) (max (n + 1) (k + 1))) := by
  obtain ⟨dc, hc, hc'⟩ := hu.operand (k := 1) rfl (by decide) (by decide)
  obtain ⟨dy, rfl⟩ := hv
  obtain ⟨dn, rfl⟩ := hw
  refine ⟨.choice dc dy dn, ?_⟩
  show max (dc.base + dc.links) (max (dy.need + 1) (dn.need + 1)) = _
  omega

end Chained

theorem Needs.assign (hv : Needs .conditional v e n) (op : AssignOp)
    (he : e.isConditional = false) (hw : Needs .conditional w f m) :
    Needs .assignment (v ++ fixed op.kind :: w) (.assign op e f) (max n m) := by
  obtain ⟨dv, rfl⟩ := hv
  obtain ⟨dw, rfl⟩ := hw
  exact ⟨.assign dv op he dw, rfl⟩

/-- What stands between parentheses is one level deeper. -/
theorem Needs.group (h : Needs s w e n) : Chained (grouped w) e (n + 1) 0 := by
  obtain ⟨d, rfl⟩ := h.toAssignment
  exact ⟨.primary (.group d), rfl, rfl⟩

end Expr

/-- A literal is what its terminal stands for. -/
theorem Literal.denoted_printed {v : Literal} (h : v.isWellFormed = true) :
    v.Denoted v.printed := by
  cases v with
  | integer v =>
    have hv : 0 ≤ v := of_decide_eq_true h
    have htext : Decimal.natural (toString v.toInt).toList = v.toNatClampNeg := by
      rw [Decimal.toList_integer hv, Decimal.natural_toDigits]
    have hden := Literal.Denoted.integer (s := toString v.toInt) (by
      rw [htext]
      exact v.toNatClampNeg_lt)
    rwa [htext, Int32.ofNat_toNatClampNeg v hv] at hden
  | float x =>
    rw [Literal.isWellFormed, Bool.and_eq_true, Bool.not_eq_true'] at h
    exact .float (Binary32.ofDecimal?_text h.1 h.2)
  | string s => exact .string s
  | identifier s => exact .identifier s
  | boolean b =>
    cases b with
    | true => exact .kwTrue
    | false => exact .kwFalse
  | null => exact .kwNull

namespace Expr

mutual

/-- A well-formed expression is derived from the terminals it is written as. -/
theorem chained_printed : (e : Expr) → e.isWellFormed = true →
    Chained e.printed e e.printedBase e.printedLinks
  | literal v, h => ⟨.primary (.literal (Literal.denoted_printed h)), rfl, rfl⟩
  | unary op e, h => by
    have he := chained_printed e h
    cases op with
    | postIncrement => exact he.increment.needs.group
    | postDecrement => exact he.decrement.needs.group
    | _ => exact (he.leading _ rfl).group
  | binary op a b, h => by
    rw [isWellFormed, Bool.and_eq_true] at h
    exact ((chained_printed a h.1).binary op (chained_printed b h.2)).group
  | assign op a b, h => by
    rw [isWellFormed, Bool.and_eq_true, Bool.and_eq_true, Bool.not_eq_true'] at h
    exact ((chained_printed a h.1.2).conditional.assign op h.1.1
      (chained_printed b h.2).conditional).group
  | conditional c y n, h => by
    rw [isWellFormed, Bool.and_eq_true, Bool.and_eq_true] at h
    exact ((chained_printed c h.1.1).choice (chained_printed y h.1.2).needs.toAssignment
      (chained_printed n h.2).needs.toAssignment).group
  | call e es, h => by
    rw [isWellFormed, Bool.and_eq_true] at h
    exact (chained_printed e h.1).call (items_printed es h.2)
  | element e i, h => by
    rw [isWellFormed, Bool.and_eq_true] at h
    exact (chained_printed e h.1).element (chained_printed i h.2).needs.toAssignment
  | member e name, h => by
    rw [isWellFormed, Bool.and_eq_true] at h
    have he := chained_printed e h.1
    unfold printed printedBase printedLinks
    split
    · rename_i hn
      -- a numeral is no chain
      have hz : e.printedBase = 0 ∧ e.printedLinks = 0 := by
        cases e with
        | literal => exact ⟨rfl, rfl⟩
        | _ => cases hn
      rw [hz.1, hz.2] at he
      rw [hz.2]
      exact he.needs.group.member name
    · exact he.member name
  | array es, h => by
    obtain ⟨ds, hneed⟩ := items_printed es h
    exact ⟨.primary (.array ds), hneed, rfl⟩

theorem items_printed : (es : List Expr) → allWellFormed es = true →
    ∃ ds : Items (separatedBy .comma (printedAll es)) es, ds.need = printedItemsNeed es
  | [], _ => ⟨.nil, rfl⟩
  | [e], h => by
    rw [allWellFormed, Bool.and_eq_true] at h
    obtain ⟨d, hd⟩ := (chained_printed e h.1).needs.toAssignment
    refine ⟨.single d, ?_⟩
    show d.need + 1 = max (e.printedBase + e.printedLinks + 1) 0
    omega
  | e :: f :: es, h => by
    rw [allWellFormed, Bool.and_eq_true] at h
    obtain ⟨d, hd⟩ := (chained_printed e h.1).needs.toAssignment
    obtain ⟨ds, hds⟩ := items_printed (f :: es) h.2
    refine ⟨.cons d ds, ?_⟩
    show max (d.need + 1) ds.need = max (e.printedBase + e.printedLinks + 1) _
    omega

end

theorem needs_printed {e : Expr} (h : e.isWellFormed = true) :
    Needs .assignment e.printed e e.printedNeed :=
  (chained_printed e h).needs.toAssignment

end Expr

end ScriptFront
