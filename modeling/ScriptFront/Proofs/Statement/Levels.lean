import ScriptFront.Proofs.Expr.Height
import ScriptFront.Proofs.Statement.Legible
import ScriptFront.Proofs.Statement.RoundTrip

/-! # The levels of a program

The program itself stands at level zero, and a body one level below the statement it belongs to,
all bodies of a chain of conditions at the same level. The limit bounds the levels, and what is
left of it at a level bounds the height of the expressions there. -/

namespace ScriptFront

def ForInit.value : ForInit → Expr
  | declaration d => d.value
  | expression e => e

namespace Statement

/-- The expressions that stand directly in a statement. -/
def expressions : Statement → List Expr
  | expression e => [e]
  | declaration d => [d.value]
  | ifElse first elseIfs _ => first.guard :: elseIfs.map Arm.guard
  | switch subject cases _ => subject :: cases.map Arm.guard
  | forEach _ source _ => [source]
  | forLoop init condition increment _ =>
    (init.map ForInit.value).toList ++ (condition.toList ++ increment.toList)
  | whileLoop condition _ | doWhile _ condition => [condition]
  | breakLoop | continueLoop | importPath _ => []
  | returnValues values => values
  | function _ parameters _ => parameters.filterMap Parameter.default?

/-- The bodies of a statement. -/
def innerBlocks : Statement → List Block
  | ifElse first elseIfs otherwise => first.body :: (elseIfs.map Arm.body ++ otherwise.toList)
  | switch _ cases default => cases.map Arm.body ++ default.toList
  | forEach _ _ body | forLoop _ _ _ body | whileLoop _ body | doWhile body _ => [body]
  | function _ _ body => body.toList
  | _ => []

end Statement

/-- The blocks of a program and their levels. -/
inductive Block.At (p : Program) : Nat → Block → Prop where
  | root : At p 0 p
  | inner {level : Nat} {block body : Block} {s : Statement} (h : At p level block)
      (hs : s ∈ block) (hbody : body ∈ s.innerBlocks) : At p (level + 1) body

/-- What is left of the limit bounds the height of an expression read one level deeper. -/
theorem Expr.Phrase.height_le_of_need_lt {s : Symbol} {w : List Terminal} {e : Expr} {n : Nat}
    (d : Expr.Phrase s w e) (h : d.need + 1 ≤ n) : e.height ≤ 3 * n := by
  have := d.height_le
  cases s <;> simp only [Expr.slack] at this <;> omega

theorem Expr.Values.height_le {w : List Terminal} {es : List Expr} {e : Expr} {n : Nat}
    (ds : Expr.Values w es) (hn : ds.need ≤ n) (h : e ∈ es) : e.height ≤ 3 * n := by
  induction ds with
  | single d =>
    obtain rfl := List.mem_singleton.mp h
    exact d.height_le_of_need_lt hn
  | cons d ds ih =>
    simp only [need] at hn
    rcases List.mem_cons.mp h with rfl | h
    · exact d.height_le_of_need_lt (by omega)
    · exact ih (by omega) h

theorem Parameter.Phrase.height_le {w : List Terminal} {p : Parameter} {e : Expr} {n : Nat}
    (d : Parameter.Phrase w p) (hn : d.need ≤ n) (h : p.default? = some e) :
    e.height ≤ 3 * n := by
  cases d with
  | variadic | required => cases h
  | defaulted name d =>
    obtain rfl := Option.some.inj h
    exact d.height_le_of_need_lt hn

theorem Parameter.Listed.height_le {w : List Terminal} {ps : List Parameter} {p : Parameter}
    {e : Expr} {n : Nat} (ds : Parameter.Listed w ps) (hn : ds.need ≤ n) (hp : p ∈ ps)
    (h : p.default? = some e) : e.height ≤ 3 * n := by
  induction ds with
  | nil => cases hp
  | single d =>
    obtain rfl := List.mem_singleton.mp hp
    exact d.height_le hn h
  | cons d ds ih =>
    simp only [need] at hn
    rcases List.mem_cons.mp hp with rfl | hp
    · exact d.height_le (by omega) h
    · exact ih (by omega) hp

theorem Expr.Clause.height_le {close : TokenKind} {w : List Terminal} {c : Option Expr} {e : Expr}
    {n : Nat} (d : Expr.Clause close w c) (hn : d.need ≤ n) (h : e ∈ c.toList) :
    e.height ≤ 3 * n := by
  cases d with
  | none => cases h
  | some d =>
    obtain rfl := List.mem_singleton.mp h
    exact d.height_le_of_need_lt hn

theorem Declaration.Phrase.height_le {w : List Terminal} {x : Declaration} {n : Nat}
    (d : Declaration.Phrase w x) (hn : d.need ≤ n) : x.value.height ≤ 3 * n := by
  cases d with
  | mk _ _ d => exact d.height_le_of_need_lt hn

theorem ForInit.Phrase.height_le {w : List Terminal} {init : Option ForInit} {e : Expr} {n : Nat}
    (d : ForInit.Phrase w init) (hn : d.need ≤ n) (h : e ∈ (init.map ForInit.value).toList) :
    e.height ≤ 3 * n := by
  cases d with
  | none => cases h
  | declaration d =>
    obtain rfl := List.mem_singleton.mp h
    exact d.height_le hn
  | expression d =>
    obtain rfl := List.mem_singleton.mp h
    exact d.height_le_of_need_lt hn

/-- A block that takes at most `n` levels. -/
def Block.Fits (n : Nat) (b : Block) : Prop := ∃ w, ∃ ds : Statement.Sequence w b, ds.need ≤ n

/-- A body one level deeper, where `n` levels are left. -/
def Block.FitsBelow (n : Nat) (b : Block) : Prop := ∃ m, n = m + 1 ∧ Fits m b

namespace Statement

variable {n : Nat}

theorem Sequence.fitsBelow {w : List Terminal} {b : Block} (ds : Sequence w b)
    (h : ds.need + 1 ≤ n) : Block.FitsBelow n b :=
  ⟨n - 1, by omega, w, ds, by omega⟩

theorem Body.fitsBelow {o : Bool} {w : List Terminal} {b : Block} (d : Body o w b)
    (h : d.need + 1 ≤ n) : Block.FitsBelow n b := by
  cases d with
  | braces ds => exact ds.fitsBelow h
  | single d =>
    have hs : (Sequence.cons d .nil).need + 1 ≤ n := by
      simp only [Sequence.need, Body.need] at h ⊢
      omega
    have := (Sequence.cons d .nil).fitsBelow hs
    rwa [List.append_nil] at this

theorem Sequence.phrase_of_mem {w : List Terminal} {b : Block} {s : Statement} :
    (ds : Sequence w b) → s ∈ b → ∃ o v, ∃ d : Phrase o v (some s), d.need ≤ ds.need
  | .nil, h => nomatch h
  | .cons (s := t) d ds, h => by
    rcases List.mem_append.mp h with h | h
    · obtain rfl : t = some s := Option.mem_toList.mp h
      exact ⟨_, _, d, Nat.le_max_left _ _⟩
    · obtain ⟨o, v, d', hd'⟩ := ds.phrase_of_mem h
      exact ⟨o, v, d', Nat.le_trans hd' (Nat.le_max_right _ _)⟩

theorem Elses.guard_height_le {o : Bool} {w : List Terminal} {arms : List Arm}
    {otherwise : Option Block} {arm : Arm} :
    (d : Elses o w arms otherwise) → d.need ≤ n → arm ∈ arms → arm.guard.height ≤ 3 * n
  | .elseIf d body rest _, hn, h => by
    simp only [Elses.need] at hn
    rcases List.mem_cons.mp h with rfl | h
    · exact d.height_le_of_need_lt (by omega)
    · exact rest.guard_height_le (by omega) h

theorem Elses.fitsBelow {o : Bool} {w : List Terminal} {arms : List Arm}
    {otherwise : Option Block} {b : Block} :
    (d : Elses o w arms otherwise) → d.need ≤ n → b ∈ arms.map Arm.body ++ otherwise.toList →
      Block.FitsBelow n b
  | .none, _, h => nomatch h
  | .otherwise body _, hn, h => by
    obtain rfl := List.mem_singleton.mp h
    exact body.fitsBelow hn
  | .elseIf d body rest _, hn, h => by
    simp only [Elses.need] at hn
    rcases List.mem_cons.mp h with rfl | h
    · exact body.fitsBelow (by omega)
    · exact rest.fitsBelow (by omega) h

theorem Parts.guard_height_le {w : List Terminal} {cases : List Arm} {default : Option Block}
    {arm : Arm} :
    (d : Parts w cases default) → d.need ≤ n → arm ∈ cases → arm.guard.height ≤ 3 * n
  | .case d ds rest, hn, h => by
    simp only [Parts.need] at hn
    rcases List.mem_cons.mp h with rfl | h
    · exact d.height_le_of_need_lt (by omega)
    · exact rest.guard_height_le (by omega) h
  | .default ds rest, hn, h => by
    simp only [Parts.need] at hn
    exact rest.guard_height_le (by omega) h

theorem Parts.fitsBelow {w : List Terminal} {cases : List Arm} {default : Option Block}
    {b : Block} :
    (d : Parts w cases default) → d.need ≤ n → b ∈ cases.map Arm.body ++ default.toList →
      Block.FitsBelow n b
  | .nil, _, h => nomatch h
  | .case d ds rest, hn, h => by
    simp only [Parts.need] at hn
    rcases List.mem_cons.mp h with rfl | h
    · exact ds.fitsBelow (by omega)
    · exact rest.fitsBelow (by omega) h
  | .default ds rest, hn, h => by
    simp only [Parts.need] at hn
    rcases List.mem_append.mp h with h | h
    · exact rest.fitsBelow (by omega) (List.mem_append_left _ h)
    · obtain rfl := List.mem_singleton.mp h
      exact ds.fitsBelow (by omega)

/-- The expressions of a statement are no higher than the levels it takes allow. -/
theorem Phrase.height_le {o : Bool} {w : List Terminal} {s : Statement} {e : Expr}
    (d : Phrase o w (some s)) (hn : d.need ≤ n) (h : e ∈ s.expressions) : e.height ≤ 3 * n := by
  cases d with
  | expression d =>
    obtain rfl := List.mem_singleton.mp h
    exact d.height_le_of_need_lt hn
  | declaration d =>
    obtain rfl := List.mem_singleton.mp h
    exact d.height_le hn
  | breakLoop | continueLoop | importPath => cases h
  | returnValues ds => exact ds.height_le hn h
  | forward name ds =>
    obtain ⟨p, hp, h⟩ := List.mem_filterMap.mp h
    exact ds.height_le hn hp h
  | function name ds _ body =>
    simp only [Phrase.need] at hn
    obtain ⟨p, hp, h⟩ := List.mem_filterMap.mp h
    exact ds.height_le (by omega) hp h
  | ifElse d body rest =>
    simp only [Phrase.need] at hn
    rcases List.mem_cons.mp h with rfl | h
    · exact d.height_le_of_need_lt (by omega)
    · obtain ⟨arm, harm, rfl⟩ := List.mem_map.mp h
      exact rest.guard_height_le (by omega) harm
  | switch d parts =>
    simp only [Phrase.need] at hn
    rcases List.mem_cons.mp h with rfl | h
    · exact d.height_le_of_need_lt (by omega)
    · obtain ⟨arm, harm, rfl⟩ := List.mem_map.mp h
      exact parts.guard_height_le (by omega) harm
  | forEach _ d body | whileLoop d body | doWhile body d =>
    simp only [Phrase.need] at hn
    obtain rfl := List.mem_singleton.mp h
    exact d.height_le_of_need_lt (by omega)
  | forLoop di dc dn body =>
    simp only [Phrase.need] at hn
    rcases List.mem_append.mp h with h | h
    · exact di.height_le (by omega) h
    · rcases List.mem_append.mp h with h | h
      · exact dc.height_le (by omega) h
      · exact dn.height_le (by omega) h

/-- A body of a statement takes fewer levels than the statement. -/
theorem Phrase.fitsBelow {o : Bool} {w : List Terminal} {s : Statement} {b : Block}
    (d : Phrase o w (some s)) (hn : d.need ≤ n) (h : b ∈ s.innerBlocks) : Block.FitsBelow n b := by
  cases d with
  | expression | declaration | breakLoop | continueLoop | returnValues | importPath | forward =>
    cases h
  | function name ds _ body | forEach _ d body | whileLoop d body | doWhile body d =>
    simp only [Phrase.need] at hn
    obtain rfl := List.mem_singleton.mp h
    exact body.fitsBelow (by omega)
  | forLoop di dc dn body =>
    simp only [Phrase.need] at hn
    obtain rfl := List.mem_singleton.mp h
    exact body.fitsBelow (by omega)
  | ifElse d body rest =>
    simp only [Phrase.need] at hn
    rcases List.mem_cons.mp h with rfl | h
    · exact body.fitsBelow (by omega)
    · exact rest.fitsBelow (by omega) h
  | switch d parts =>
    simp only [Phrase.need] at hn
    exact parts.fitsBelow (by omega) h

end Statement

theorem Block.At.fits {p : Program} {limit level : Nat} {b : Block} (h : At p level b)
    (hp : Fits limit p) : level ≤ limit ∧ Fits (limit - level) b := by
  induction h with
  | root => exact ⟨Nat.zero_le _, hp⟩
  | inner _ hs hbody ih =>
    obtain ⟨hlevel, w, ds, hds⟩ := ih
    obtain ⟨o, v, d, hd⟩ := ds.phrase_of_mem hs
    obtain ⟨m, hm, hfits⟩ := d.fitsBelow (Nat.le_trans hd hds) hbody
    rw [Nat.sub_add_eq, hm, Nat.add_sub_cancel]
    exact ⟨by omega, hfits⟩

/-- No block of a program that is read is below the limit, and no expression in a block is higher
than three times what is left of the limit there. -/
theorem height_le_of_parse {text : String} {limit : Nat} {p : Program}
    (h : parse text limit = .ok p) {level : Nat} {b : Block} (hb : Block.At p level b) :
    level ≤ limit ∧ ∀ s ∈ b, ∀ e ∈ s.expressions, e.height ≤ 3 * (limit - level) := by
  obtain ⟨w, -, ds, hds⟩ := exists_sequence_of_parse h
  obtain ⟨hlevel, v, es, hes⟩ := hb.fits ⟨w, ds, hds⟩
  refine ⟨hlevel, ?_⟩
  intro s hs e he
  obtain ⟨o, u, d, hd⟩ := es.phrase_of_mem hs
  exact d.height_le (Nat.le_trans hd hes) he

/-- An assignment and two conditionals in a body at level one. -/
theorem height_le_of_parse_at_loop : ∃ (p : Program) (b : Block),
    b = [.expression (.assign .assign (.literal (.identifier "x")) (.conditional
      (.conditional (.literal .null) (.literal .null) (.array [.literal .null]))
        (.literal .null) (.literal .null)))] ∧
    p = [.whileLoop (.literal (.identifier "a")) b] ∧
    Program.text p = "while (a) \x7b\n    (x = ((null ? null : [null]) ? null : null));\n\x7d\n" ∧
    parse (Program.text p) 7 = .ok p ∧ Block.At p 1 b ∧
    1 ≤ 7 ∧ ∀ s ∈ b, ∀ e ∈ s.expressions, e.height ≤ 3 * (7 - 1) := by
  refine ⟨_, _, rfl, rfl, by decide, ?read, ?level, height_le_of_parse ?read ?level⟩
  case read =>
    rw [← Program.display_eq_text]
    exact (parse_display_iff (by decide)).mpr (by decide)
  case level =>
    exact .inner (s := .whileLoop _ _) .root (List.mem_singleton_self _) (List.mem_singleton_self _)

end ScriptFront
