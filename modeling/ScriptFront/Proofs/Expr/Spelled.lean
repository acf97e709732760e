import ScriptFront.Proofs.Expr.Printed
import ScriptFront.Proofs.Token.Spelled

/-! # The text of an expression spells its terminals -/

namespace ScriptFront

open Terminal

/-- What goes on with no expression. -/
def Closes (cs : List Char) : Prop := ∀ c ∈ cs.head?, isWordRest c = false ∧ c ≠ '.'

/-- Whether a text goes on with no expression in front of it. -/
def closes (s : String) : Bool := s.toList.head?.any fun c => !isWordRest c && c ≠ '.'

theorem closes_append {s : String} (h : closes s = true) (cs : List Char) :
    Closes (s.toList ++ cs) := by
  intro c hc
  unfold closes at h
  cases hs : s.toList with
  | nil =>
    rw [hs] at h
    cases h
  | cons d ds =>
    rw [hs] at h hc
    cases hc
    simpa using h

/-- A text spells terminals in front of anything. -/
def Spelt (s : String) (w : List Terminal) : Prop := ∀ cs, Spells (s.toList ++ cs) w cs

/-- A text spells terminals in front of everything that does not go on with it. -/
def Written (s : String) (w : List Terminal) : Prop :=
  ∀ cs, Closes cs → Spells (s.toList ++ cs) w cs

section

variable {a b s : String} {v w : List Terminal} {j k : TokenKind} {ks : List TokenKind}

namespace Spelt

/-- A fixed text of marks, reserved words and blanks. -/
theorem fixed (s : String) (ks : List TokenKind) (hs : writes s.toList ks = true) :
    Spelt s (ks.map Terminal.fixed) := by
  intro cs
  have := Spells.text ks hs (.nil cs)
  rwa [List.append_nil] at this

theorem written (h : Spelt s w) : Written s w := fun cs _ => h cs

theorem append (ha : Spelt a v) (hb : Spelt b w) : Spelt (a ++ b) (v ++ w) := by
  intro cs
  rw [String.toList_append, List.append_assoc]
  exact (ha _).append (hb cs)

theorem leads (ha : Spelt a v) (hb : Written b w) : Written (a ++ b) (v ++ w) := by
  intro cs hcs
  rw [String.toList_append, List.append_assoc]
  exact (ha _).append (hb cs hcs)

end Spelt

namespace Written

theorem followed (ha : Written a v) (hb : Spelt b w) (hc : closes b = true) :
    Spelt (a ++ b) (v ++ w) := by
  intro cs
  rw [String.toList_append, List.append_assoc]
  exact (ha _ (closes_append hc cs)).append (hb cs)

/-- Up to a fixed text that nothing in front of it goes on with. -/
theorem ended (ha : Written a v) (s : String) (ks : List TokenKind)
    (hs : (writes s.toList ks && closes s) = true) :
    Spelt (a ++ s) (v ++ ks.map Terminal.fixed) := by
  rw [Bool.and_eq_true] at hs
  exact ha.followed (.fixed s ks hs.1) hs.2

theorem intercalate {α : Type} {f : α → String} {g : α → List Terminal} {l : List α}
    (hs : (writes s.toList [k] && closes s) = true) (hl : ∀ a ∈ l, Written (f a) (g a)) :
    Written (s.intercalate (l.map f)) (separatedBy k (l.map g)) := by
  induction l with
  | nil =>
    rw [List.map_nil, String.intercalate_nil]
    exact fun cs _ => .nil cs
  | cons a l ih =>
    cases l with
    | nil =>
      rw [List.map_singleton, String.intercalate_singleton]
      exact hl a List.mem_cons_self
    | cons b l =>
      have htail := ih fun e he => hl e (List.mem_cons_of_mem _ he)
      have := ((hl a List.mem_cons_self).ended s [k] hs).leads htail
      rw [List.append_assoc] at this
      rwa [List.map_cons, List.map_cons, String.intercalate_cons_cons]

theorem grouped (h : Written s w) : Spelt (Expr.parenthesize s) (grouped w) :=
  ((Spelt.fixed "(" [.openParen] rfl).leads h).ended ")" [.closeParen] rfl

end Written

end

theorem closes_parenthesize (s : String) : closes (Expr.parenthesize s) = true := by
  simp [closes, Expr.parenthesize, isWordRest]

namespace Expr

/-- What goes on with no expression like this one: only a numeral goes on with a point. -/
def Ends (e : Expr) (cs : List Char) : Prop :=
  ∀ c ∈ cs.head?, isWordRest c = false ∧ (e.isNumeral = true → c ≠ '.')

theorem ends_of_closes (e : Expr) {cs : List Char} (h : Closes cs) : e.Ends cs :=
  fun c hc => ⟨(h c hc).1, fun _ => (h c hc).2⟩

end Expr

/-- Whether an operand is written from this character on. -/
def startsOperand (c : Char) : Bool :=
  isWordStart c || c.isDigit || c = '"' || c = '(' || c = '['

theorem any_head_append {p : Char → Bool} {a : List Char} (h : a.head?.any p = true)
    (cs : List Char) : (a ++ cs).head?.any p = true := by
  cases a with
  | nil => cases h
  | cons => exact h

theorem any_head_mono {p q : Char → Bool} {a : List Char} (h : a.head?.any p = true)
    (hpq : ∀ c, p c = true → q c = true) : a.head?.any q = true := by
  cases a with
  | nil => cases h
  | cons c ds => exact hpq c h

/-- An operator in front of an operand is read whole. -/
theorem apart_of_startsOperand {k : TokenKind} (hk : k ∈ TokenKind.symbols) {cs : List Char}
    (h : cs.head?.any startsOperand = true) : Apart k.letters cs := by
  have table : (glue.all fun c => !startsOperand c) = true := by decide
  refine .symbol hk fun c hc hg => ?_
  have := List.all_eq_true.mp table c hg
  rw [Option.mem_def.mp hc, Option.any_some] at h
  simp [h] at this

namespace Literal

variable {v : Literal} {cs : List Char}

theorem any_isDigit_text (h : v.isWellFormed = true) (hn : (Expr.literal v).isNumeral = true) :
    v.text.toList.head?.any Char.isDigit = true := by
  cases v with
  | integer v =>
    show (toString v.toInt).toList.head?.any Char.isDigit = true
    rw [Decimal.toList_integer (of_decide_eq_true h)]
    simpa using Decimal.any_isDigit_toDigits v.toNatClampNeg []
  | float x =>
    rw [isWellFormed, Bool.and_eq_true, Bool.not_eq_true'] at h
    show x.text.toList.head?.any Char.isDigit = true
    rw [Binary32.toList_text h.1 h.2]
    exact Decimal.any_isDigit_toDigits _ _
  | _ => cases hn

theorem head_text (h : v.isWellFormed = true) : v.text.toList.head?.any startsOperand = true := by
  by_cases hn : (Expr.literal v).isNumeral = true
  · refine any_head_mono (any_isDigit_text h hn) fun c hc => ?_
    simp [startsOperand, hc]
  · cases v with
    | integer | float => exact absurd rfl hn
    | string s =>
      show (Quoted.encode s).toList.head?.any startsOperand = true
      rw [Quoted.toList_encode]
      rfl
    | identifier s =>
      refine any_head_mono (any_isWordStart_of_isName h) fun c hc => ?_
      simp [startsOperand, hc]
    | boolean b => cases b <;> decide
    | null => decide

theorem spelling_printed (h : v.isWellFormed = true) : Spelling v.printed v.text.toList := by
  cases v with
  | integer v =>
    have htext := Decimal.toList_integer (of_decide_eq_true h)
    refine .integer ?_ ?_
    · rw [htext]
      exact Nat.toDigits_ne_nil
    · rw [htext]
      exact fun c hc => Nat.isDigit_of_mem_toDigits (by decide) (by decide) hc
  | float x =>
    rw [isWellFormed, Bool.and_eq_true, Bool.not_eq_true'] at h
    exact .float (Binary32.toList_text h.1 h.2) Nat.toDigits_ne_nil (Decimal.isDigit_of_mem_text _)
  | string s =>
    rw [isWellFormed, Bool.not_eq_true', Bool.eq_false_iff, ne_eq, List.contains_iff_mem] at h
    exact .string h
  | identifier s => exact .name h
  | boolean b =>
    cases b with
    | true => exact .ofKind (k := .kwTrue) rfl
    | false => exact .ofKind (k := .kwFalse) rfl
  | null => exact .ofKind (k := .kwNull) rfl

theorem apart_text (h : v.isWellFormed = true) (hcs : (Expr.literal v).Ends cs) :
    Apart v.text.toList cs := by
  by_cases hn : (Expr.literal v).isNumeral = true
  · exact .numeral (any_isDigit_text h hn) fun c hc => ⟨(hcs c hc).1, (hcs c hc).2 hn⟩
  · have hword : ∀ c ∈ cs.head?, isWordRest c = false := fun c hc => (hcs c hc).1
    cases v with
    | integer | float => exact absurd rfl hn
    | string s =>
      show Apart (Quoted.encode s).toList cs
      rw [Quoted.toList_encode]
      exact .string _ cs
    | identifier s => exact .word (any_isWordStart_of_isName h) hword
    | boolean b => exact .word (by cases b <;> decide) hword
    | null => exact .word (by decide) hword

end Literal

namespace Expr

theorem head_text : (e : Expr) → e.isWellFormed = true →
    e.text.toList.head?.any startsOperand = true
  | literal v, h => Literal.head_text h
  | unary .., _ | binary .., _ | assign .., _ | conditional .., _ | array _, _ => by
    simp [text, parenthesize, startsOperand]
  | call e es, h => by
    rw [isWellFormed, Bool.and_eq_true] at h
    rw [text, String.toList_append]
    exact any_head_append (head_text e h.1) _
  | element e i, h => by
    rw [isWellFormed, Bool.and_eq_true] at h
    simp only [text, String.toList_append, List.append_assoc]
    exact any_head_append (head_text e h.1) _
  | member e n, h => by
    rw [isWellFormed, Bool.and_eq_true] at h
    simp only [text, String.toList_append, List.append_assoc]
    refine any_head_append ?_ _
    split
    · simp [parenthesize, startsOperand]
    · exact head_text e h.1

theorem texts_eq_map (es : List Expr) : texts es = es.map text := by
  induction es with
  | nil => rfl
  | cons e es ih => rw [texts, ih, List.map_cons]

theorem printedAll_eq_map (es : List Expr) : printedAll es = es.map printed := by
  induction es with
  | nil => rfl
  | cons e es ih => rw [printedAll, ih, List.map_cons]

theorem written_items {es : List Expr} (h : ∀ e ∈ es, Written e.text e.printed) :
    Written (", ".intercalate (texts es)) (separatedBy .comma (printedAll es)) := by
  rw [texts_eq_map, printedAll_eq_map]
  exact .intercalate rfl h

end Expr

theorem spells_name {s : String} (hs : isName s = true) {cs : List Char}
    (hcs : ∀ c ∈ cs.head?, isWordRest c = false) :
    Spells (s.toList ++ cs) [carrying .identifier s] cs :=
  .token (.name hs) (.word (any_isWordStart_of_isName hs) hcs) (.nil cs)

theorem written_name {s : String} (hs : isName s = true) : Written s [carrying .identifier s] :=
  fun _ hcs => spells_name hs fun c hc => (hcs c hc).1

/-- A point in front of a name is read whole. -/
theorem spells_period {cs ds : List Char} {w : List Terminal}
    (hcs : cs.head?.any isWordStart = true) (h : Spells cs w ds) :
    Spells (".".toList ++ cs) (fixed .period :: w) ds := by
  refine .token (.symbol (k := .period) (by decide)) ?_ h
  refine apart_of_startsOperand (k := .period) (by decide) (any_head_mono hcs fun c hc => ?_)
  simp [startsOperand, hc]

theorem spelt_string {s : String} (hs : '\n' ∉ s.toList) :
    Spelt (Quoted.encode s) [carrying .string s] := by
  intro cs
  refine .token (.string hs) ?_ (.nil cs)
  rw [Quoted.toList_encode]
  exact .string _ cs

theorem BinaryOp.writes_symbol (op : BinaryOp) :
    writes (" " ++ op.symbol ++ " ").toList [op.kind] = true ∧
      closes (" " ++ op.symbol ++ " ") = true := by
  cases op <;> decide

theorem AssignOp.writes_symbol (op : AssignOp) :
    writes (" " ++ op.symbol ++ " ").toList [op.kind] = true ∧
      closes (" " ++ op.symbol ++ " ") = true := by
  cases op <;> decide

namespace UnaryOp

theorem writes_symbol {op : UnaryOp} (h : op.isTrailing = true) :
    writes op.symbol.toList [op.kind] = true ∧ closes op.symbol = true := by
  cases op with
  | postIncrement | postDecrement => decide
  | _ => cases h

theorem symbol_eq (op : UnaryOp) :
    op.symbol.toList = op.kind.letters ∧ op.kind ∈ TokenKind.symbols := by
  cases op <;> exact ⟨rfl, by decide⟩

end UnaryOp

namespace Expr

theorem written_leading {e : Expr} {w : List Terminal} (op : UnaryOp) (h : Written e.text w)
    (he : e.isWellFormed = true) : Written (op.symbol ++ e.text) (fixed op.kind :: w) := by
  intro cs hcs
  obtain ⟨hsymbol, hk⟩ := op.symbol_eq
  rw [String.toList_append, List.append_assoc, hsymbol]
  exact .token (.symbol hk) (apart_of_startsOperand hk (any_head_append (head_text e he) cs))
    (h cs hcs)

mutual

/-- An expression spells its terminals in front of what does not go on with it. -/
theorem spells_text : (e : Expr) → e.isWellFormed = true → ∀ cs, e.Ends cs →
    Spells (e.text.toList ++ cs) e.printed cs
  | literal v, h, cs, hcs =>
    .token (Literal.spelling_printed h) (Literal.apart_text h hcs) (.nil cs)
  | unary op e, h, cs, hcs => by
    have he : Written e.text e.printed := fun cs hcs => spells_text e h cs (ends_of_closes e hcs)
    refine Written.grouped ?_ cs
    split
    · rename_i hop
      have hop := op.writes_symbol hop
      exact (he.followed (.fixed _ [op.kind] hop.1) hop.2).written
    · exact written_leading op he h
  | binary op a b, h, cs, hcs => by
    rw [isWellFormed, Bool.and_eq_true] at h
    have ha : Written a.text a.printed := fun cs hcs => spells_text a h.1 cs (ends_of_closes a hcs)
    have hb : Written b.text b.printed := fun cs hcs => spells_text b h.2 cs (ends_of_closes b hcs)
    have := ((ha.followed (.fixed _ _ op.writes_symbol.1) op.writes_symbol.2).leads hb).grouped cs
    rwa [← String.append_assoc, ← String.append_assoc, List.append_assoc] at this
  | assign op a b, h, cs, hcs => by
    rw [isWellFormed, Bool.and_eq_true, Bool.and_eq_true] at h
    have ha : Written a.text a.printed :=
      fun cs hcs => spells_text a h.1.2 cs (ends_of_closes a hcs)
    have hb : Written b.text b.printed := fun cs hcs => spells_text b h.2 cs (ends_of_closes b hcs)
    have := ((ha.followed (.fixed _ _ op.writes_symbol.1) op.writes_symbol.2).leads hb).grouped cs
    rwa [← String.append_assoc, ← String.append_assoc, List.append_assoc] at this
  | conditional c y n, h, cs, hcs => by
    rw [isWellFormed, Bool.and_eq_true, Bool.and_eq_true] at h
    have hc : Written c.text c.printed :=
      fun cs hcs => spells_text c h.1.1 cs (ends_of_closes c hcs)
    have hy : Written y.text y.printed :=
      fun cs hcs => spells_text y h.1.2 cs (ends_of_closes y hcs)
    have hn : Written n.text n.printed := fun cs hcs => spells_text n h.2 cs (ends_of_closes n hcs)
    have hcy := (hc.ended " ? " [.question] rfl).leads hy
    have := ((hcy.ended " : " [.colon] rfl).leads hn).grouped cs
    rwa [List.append_assoc, List.append_assoc, List.append_assoc] at this
  | call e es, h, cs, hcs => by
    rw [isWellFormed, Bool.and_eq_true] at h
    have he : Written e.text e.printed := fun cs hcs => spells_text e h.1 cs (ends_of_closes e hcs)
    exact he.followed (written_items (written_text es h.2)).grouped (closes_parenthesize _) cs
  | element e i, h, cs, hcs => by
    rw [isWellFormed, Bool.and_eq_true] at h
    have he : Written e.text e.printed := fun cs hcs => spells_text e h.1 cs (ends_of_closes e hcs)
    have hi : Written i.text i.printed := fun cs hcs => spells_text i h.2 cs (ends_of_closes i hcs)
    have := ((he.ended "[" [.openBracket] rfl).leads hi).ended "]"
      [.closeBracket] rfl cs
    rwa [List.append_assoc, List.append_assoc] at this
  | member e name, h, cs, hcs => by
    rw [isWellFormed, Bool.and_eq_true] at h
    have hname := spells_period (any_head_append (any_isWordStart_of_isName h.2) cs)
      (spells_name h.2 fun c hc => (hcs c hc).1)
    simp only [text, printed, String.toList_append, List.append_assoc]
    refine Spells.append ?_ hname
    split
    · exact Written.grouped (fun cs hcs => spells_text e h.1 cs (ends_of_closes e hcs)) _
    · rename_i hn
      refine spells_text e h.1 _ fun c hc => ?_
      cases hc
      exact ⟨by decide, fun hn' => absurd hn' hn⟩
  | array es, h, cs, hcs =>
    ((Spelt.fixed "[" [.openBracket] rfl).leads (written_items (written_text es h))).ended "]"
      [.closeBracket] rfl cs

theorem written_text : (es : List Expr) → allWellFormed es = true →
    ∀ e ∈ es, Written e.text e.printed
  | [], _ => by simp
  | e :: es, h => by
    rw [allWellFormed, Bool.and_eq_true] at h
    intro f hf
    rcases List.mem_cons.mp hf with hf | hf
    · rw [hf]
      exact fun cs hcs => spells_text e h.1 cs (ends_of_closes e hcs)
    · exact written_text es h.2 f hf

end

theorem written {e : Expr} (h : e.isWellFormed = true) : Written e.text e.printed :=
  fun cs hcs => spells_text e h cs (ends_of_closes e hcs)

end Expr

end ScriptFront
