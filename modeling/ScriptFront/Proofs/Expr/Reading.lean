import ScriptFront.Expr.Rules
import ScriptFront.Proofs.Expr.Nesting
import ScriptFront.Proofs.Rule.Cause
import ScriptFront.Proofs.Rule.Loops

/-! # What the rules for expressions read

Each rule reads the phrases of its symbol, up to a kind that does not go on with the phrase. How
tightly a kind binds what stands in front of it is its grip: a phrase ends before the kinds whose
grip is below a bound. The bound depends on the symbol, and on how the phrase ends where its last
part is a whole conditional or assignment. -/

namespace ScriptFront

open Terminal ScriptFront.Language

/-- The place of a tier, the loosest one first. -/
def Tier.level : Tier → Nat
  | logOr => 1
  | logAnd => 2
  | bitOr => 3
  | bitXor => 4
  | bitAnd => 5
  | equality => 6
  | relational => 7
  | shift => 8
  | additive => 9
  | multiplicative => 10

/-- Before the kinds of a smaller grip a phrase of the symbol ends, unless its last part goes on. -/
def Symbol.bound : Symbol → Nat
  | assignment => 1
  | conditional => 2
  | binary t => t.level + 2
  | unary | trailing | primary => 13

namespace TokenKind

/-- How tightly a token binds the expression in front of it; not at all where it ends it. -/
def grip : TokenKind → Nat
  | assign | shiftLeftAssign | shiftRightAssign | plusAssign | minusAssign | multiplyAssign
  | powerAssign | divideAssign | moduloAssign | bitAndAssign | bitOrAssign | bitXorAssign
  | bitNotAssign => 1
  | question => 2
  | logOr => 3
  | logAnd => 4
  | bitOr => 5
  | bitXor => 6
  | bitAnd => 7
  | equal | notEqual => 8
  | less | lessEqual | greater | greaterEqual => 9
  | shiftLeft | shiftRight => 10
  | plus | minus => 11
  | multiply | divide | modulo | power => 12
  | increment | decrement | openParen | openBracket | period => 13
  | _ => 0

end TokenKind

theorem BinaryOp.ofToken?_eq_some_iff {k : TokenKind} {op : BinaryOp} :
    BinaryOp.ofToken? k = some op ↔ k = op.kind := by
  constructor
  · intro h
    cases k <;> cases h <;> rfl
  · rintro rfl
    cases op <;> rfl

theorem AssignOp.ofToken?_eq_some_iff {k : TokenKind} {op : AssignOp} :
    AssignOp.ofToken? k = some op ↔ k = op.kind := by
  constructor
  · intro h
    cases k <;> cases h <;> rfl
  · rintro rfl
    cases op <;> rfl

theorem UnaryOp.ofLeading?_eq_some_iff {k : TokenKind} {op : UnaryOp} :
    UnaryOp.ofLeading? k = some op ↔ op.isTrailing = false ∧ k = op.kind := by
  constructor
  · intro h
    cases k <;> cases h <;> exact ⟨rfl, rfl⟩
  · rintro ⟨h, rfl⟩
    cases op <;> first | rfl | cases h

theorem BinaryOp.grip_kind (op : BinaryOp) : op.kind.grip = op.tier + 2 := by
  cases op <;> rfl

theorem AssignOp.grip_kind (op : AssignOp) : op.kind.grip = 1 := by
  cases op <;> rfl

theorem AssignOp.grip_eq_one {k : TokenKind} : k.grip = 1 ↔ AssignOp.ofToken? k ≠ none := by
  cases k <;> decide

theorem Literal.ofToken_eq_ok_iff {t : Token} {v : Literal} :
    Literal.ofToken t = .ok v ↔ v.Denoted t.terminal := by
  have carrying {k : TokenKind} (h : t.kind = k) (hk : k.hasLexeme = true) :
      t.terminal = carrying k t.content := by
    subst h
    exact Token.terminal_eq_carrying hk
  have fixed {k : TokenKind} (h : t.kind = k) (hk : k.hasLexeme = false) :
      t.terminal = fixed k := by
    subst h
    exact Token.terminal_eq_fixed hk
  constructor
  · intro h
    unfold Literal.ofToken at h
    generalize hk : t.kind = k at h
    cases k
    case integer =>
      rw [carrying hk rfl]
      by_cases hlt : Decimal.natural t.content.toList < 2 ^ 31
      · obtain rfl := Except.ok.inj ((if_pos hlt).symm.trans h)
        exact .integer hlt
      · exact nomatch (if_neg hlt).symm.trans h
    case float =>
      rw [carrying hk rfl]
      cases hx : Binary32.ofDecimal? (.read t.content.toList) with
      | some x =>
        rw [hx] at h
        obtain rfl := Except.ok.inj h
        exact .float hx
      | none =>
        rw [hx] at h
        exact nomatch h
    case string =>
      obtain rfl := Except.ok.inj h
      rw [carrying hk rfl]
      exact .string _
    case identifier =>
      obtain rfl := Except.ok.inj h
      rw [carrying hk rfl]
      exact .identifier _
    case kwTrue =>
      obtain rfl := Except.ok.inj h
      rw [fixed hk rfl]
      exact .kwTrue
    case kwFalse =>
      obtain rfl := Except.ok.inj h
      rw [fixed hk rfl]
      exact .kwFalse
    case kwNull =>
      obtain rfl := Except.ok.inj h
      rw [fixed hk rfl]
      exact .kwNull
    all_goals exact nomatch h
  · intro h
    generalize hx : t.terminal = x at h
    unfold Literal.ofToken
    cases h with
    | integer hlt =>
      obtain ⟨hk, rfl⟩ := Token.of_terminal_eq_carrying hx
      rw [hk]
      exact if_pos hlt
    | float hf =>
      obtain ⟨hk, rfl⟩ := Token.of_terminal_eq_carrying hx
      rw [hk, hf]
    | string s | identifier s =>
      obtain ⟨hk, rfl⟩ := Token.of_terminal_eq_carrying hx
      rw [hk]
    | kwTrue | kwFalse | kwNull => rw [Token.of_terminal_eq_fixed hx]

theorem Literal.Denoted.startsExpression {x : Terminal} {v : Literal} (h : v.Denoted x) :
    x.kind.startsExpression = true := by
  cases h <;> rfl

namespace Expr

theorem Phrase.startsExpression {s : Symbol} {w : List Terminal} {e : Expr} (k : TokenKind) :
    Phrase s w e → (lead w k).startsExpression = true
  | .literal h => h.startsExpression
  | .group _ | .array _ => rfl
  | .leading op _ _ => by cases op <;> rfl
  | .primary d | .trailing d | .operand d | .simple d | .conditional d => d.startsExpression k
  | .increment d | .decrement d | .call d _ | .element d _ | .member d _ | .binary d _ _ _
  | .choice d _ _ | .assign d _ _ _ => by
    rw [lead_append]
    exact d.startsExpression _

theorem Phrase.ne_nil {s : Symbol} {w : List Terminal} {e : Expr} (d : Phrase s w e) :
    w ≠ [] := by
  rintro rfl
  cases d.startsExpression .eof

def Phrase.bound {s : Symbol} {w : List Terminal} {e : Expr} : Phrase s w e → Nat
  | .choice _ _ d => d.bound
  | .assign _ _ _ d => d.bound
  | _ => s.bound

theorem Phrase.bound_pos {s : Symbol} {w : List Terminal} {e : Expr} (d : Phrase s w e) :
    0 < d.bound := by
  have symbol : 0 < s.bound := by cases s <;> simp [Symbol.bound]
  unfold bound
  split
  · exact bound_pos _
  · exact bound_pos _
  · exact symbol

theorem Phrase.bound_le {s : Symbol} {w : List Terminal} {e : Expr} (d : Phrase s w e) :
    d.bound ≤ max s.bound 2 := by
  unfold bound
  split
  · exact bound_le _
  · exact Nat.le_trans (bound_le _) (by decide)
  · exact Nat.le_max_left _ _

@[simp] theorem Phrase.bound_trailing {w : List Terminal} {e : Expr} (d : Phrase .trailing w e) :
    d.bound = 13 := by
  cases d <;> rfl

@[simp] theorem Phrase.bound_unary {w : List Terminal} {e : Expr} (d : Phrase .unary w e) :
    d.bound = 13 := by
  cases d <;> rfl

@[simp] theorem Phrase.bound_binary {t : Tier} {w : List Terminal} {e : Expr}
    (d : Phrase (.binary t) w e) : d.bound = t.level + 2 := by
  cases d <;> rfl

/-- The phrases of a symbol, in front of the kinds that end them. -/
def phrases (s : Symbol) : Language Expr := fun w k e m =>
  ∃ d : Phrase s w e, m = d.need ∧ k.grip < d.bound

/-- No kind goes on with a primary. -/
def primaries : Language Expr := fun w _ e m => ∃ d : Phrase .primary w e, m = d.need

/-- What an expression reads, where a rule asks for one. -/
def nestedPhrases : Language Expr := deeper (phrases .assignment)

/-- A list and the kind that closes it. -/
def closedItems (close : TokenKind) : Language (List Expr) := fun w _ es m =>
  ∃ v, ∃ ds : Items v es, w = v ++ [fixed close] ∧ m = ds.need

theorem items_of_separated {w : List Terminal} {k : TokenKind} {es : List Expr} {m : Nat}
    (h : Separated .comma nestedPhrases w k es m) :
    es ≠ [] ∧ ∃ ds : Items w es, m = ds.need := by
  induction h with
  | single h _ =>
    obtain ⟨_, rfl, d, rfl, -⟩ := h
    exact ⟨List.cons_ne_nil _ _, .single d, rfl⟩
  | @cons _ _ _ _ es _ _ h _ ih =>
    obtain ⟨_, rfl, d, rfl, -⟩ := h
    obtain ⟨hes, ds, rfl⟩ := ih
    cases es with
    | nil => exact absurd rfl hes
    | cons => exact ⟨List.cons_ne_nil _ _, .cons d ds, rfl⟩

theorem separated_of_items {w : List Terminal} {k : TokenKind} {es : List Expr}
    (hk : k.grip = 0) (hc : k ≠ .comma) :
    (ds : Items w es) → es ≠ [] → Separated .comma nestedPhrases w k es ds.need
  | .nil, h => absurd rfl h
  | .single d, _ => .single ⟨d.need, rfl, d, rfl, hk ▸ d.bound_pos⟩ hc
  | .cons d ds, _ =>
    .cons ⟨d.need, rfl, d, rfl, d.bound_pos⟩ (separated_of_items hk hc ds (List.cons_ne_nil _ _))

theorem Items.startsExpression {w : List Terminal} {es : List Expr} (k : TokenKind)
    (h : es ≠ []) : Items w es → (lead w k).startsExpression = true
  | .nil => absurd rfl h
  | .single d => d.startsExpression k
  | .cons d _ => by
    rw [lead_append]
    exact d.startsExpression _

theorem closer_facts {close : TokenKind} (hc : close = .closeParen ∨ close = .closeBracket) :
    close ≠ .eof ∧ close.hasLexeme = false ∧ close.grip = 0 ∧ close ≠ .comma ∧
      close.startsExpression = false := by
  rcases hc with rfl | rfl <;> decide

theorem closedItems_iff {close : TokenKind} (hc : close = .closeParen ∨ close = .closeBracket)
    {w : List Terminal} {k : TokenKind} {es : List Expr} {m : Nat} :
    closedItems close w k es m ↔ option close (value []) (seq (Separated .comma nestedPhrases)
      fun es => after (fixed close) (value es)) w k es m := by
  obtain ⟨-, -, hg, hcomma, hs⟩ := closer_facts hc
  constructor
  · rintro ⟨v, ds, rfl, rfl⟩
    by_cases hes : es = []
    · subst hes
      cases ds
      exact .inl ⟨[], rfl, rfl, rfl, rfl⟩
    · refine .inr ⟨?_, v, es, ds.need, _, 0, rfl, separated_of_items hg hcomma ds hes,
        ⟨[], rfl, rfl, rfl, rfl⟩, (Nat.max_zero _).symm⟩
      intro h
      have := ds.startsExpression close hes
      rw [lead_append, lead_cons, kind_fixed] at h
      rw [h, hs] at this
      cases this
  · rintro (⟨_, rfl, rfl, rfl, rfl⟩ | ⟨-, v, es, i, _, _, rfl, hv, ⟨_, rfl, rfl, rfl, rfl⟩, rfl⟩)
    · exact ⟨[], .nil, rfl, rfl⟩
    · obtain ⟨-, ds, rfl⟩ := items_of_separated hv
      exact ⟨v, ds, rfl, Nat.max_zero _⟩

end Expr

namespace Rule

open ScriptFront.Expr

variable {n : Nat} {expression operand : Rule Expr}

theorem reads_items (hE : Reads n expression nestedPhrases) {close : TokenKind}
    (hc : close = .closeParen ∨ close = .closeBracket) :
    Reads n (items expression close) (closedItems close) := by
  obtain ⟨hk, hx, -⟩ := closer_facts hc
  exact Reads.congr (fun t => reads_accept ⟨hk, hx⟩ (fun t => reads_pure []) (reads_bind
    (reads_separated (by decide) hE t) fun es t => reads_expect ⟨hk, hx⟩ fun t => reads_pure es))
    fun w k es m => (closedItems_iff hc).symm

theorem reads_primary (hE : Reads n expression nestedPhrases) :
    Reads n (primaryWith expression) primaries := by
  intro t
  refine reads_peek ?_
  split
  · rename_i hk
    refine (reads_discard_advance (by rw [hk]; decide) fun t => reads_bind (hE t) fun e t =>
      reads_expect (by decide) fun t => reads_pure e).congr fun w k e m hw _ => ?_
    rw [Token.terminal_eq_fixed (by rw [hk]; rfl), hk]
    have hw := hw.trans hk
    constructor
    · rintro ⟨_, rfl, v, e, _, _, _, rfl, ⟨i, rfl, d, rfl, -⟩, ⟨_, rfl, rfl, rfl, rfl⟩, rfl⟩
      exact ⟨.group d, Nat.max_zero _⟩
    · rintro ⟨d, rfl⟩
      cases d with
      | literal h => cases h <;> cases hw
      | @group w e d =>
        exact ⟨_, rfl, w, e, d.need + 1, _, 0, rfl, ⟨d.need, rfl, d, rfl, d.bound_pos⟩,
          ⟨[], rfl, rfl, rfl, rfl⟩, (Nat.max_zero _).symm⟩
      | array ds => cases hw
  · rename_i hk
    refine (reads_discard_advance (by rw [hk]; decide) fun t => reads_bind
      (reads_items hE (.inr rfl) t) fun es t => reads_pure (Expr.array es)).congr
      fun w k e m hw _ => ?_
    rw [Token.terminal_eq_fixed (by rw [hk]; rfl), hk]
    have hw := hw.trans hk
    constructor
    · rintro ⟨_, rfl, _, es, i, _, _, rfl, ⟨v, ds, rfl, rfl⟩, ⟨rfl, rfl, rfl⟩, rfl⟩
      rw [List.append_nil]
      exact ⟨.array ds, Nat.max_zero _⟩
    · rintro ⟨d, rfl⟩
      cases d with
      | literal h => cases h <;> cases hw
      | group d => cases hw
      | @array w es ds =>
        exact ⟨_, rfl, w ++ [fixed .closeBracket], es, ds.need, [], 0, by simp, ⟨w, ds, rfl, rfl⟩,
          ⟨rfl, rfl, rfl⟩, (Nat.max_zero _).symm⟩
  · rename_i hparen hbracket
    refine reads_current ?_
    have hx {w k} (hw : lead w k = t.kind) (h : ∀ x v, w = x :: v → x = t.terminal) {e m} :
        primaries w k e m ↔
          ∃ v : Literal, v.Denoted t.terminal ∧ w = [t.terminal] ∧ e = .literal v ∧ m = 0 := by
      constructor
      · rintro ⟨d, rfl⟩
        cases d with
        | @literal x v hv =>
          obtain rfl := h x [] rfl
          exact ⟨v, hv, rfl, rfl, rfl⟩
        | group d => exact absurd hw.symm hparen
        | array ds => exact absurd hw.symm hbracket
      · rintro ⟨v, hv, rfl, rfl, rfl⟩
        exact ⟨.literal hv, rfl⟩
    split
    · rename_i v hv
      rw [Literal.ofToken_eq_ok_iff] at hv
      refine (reads_discard_advance ?_ fun t => reads_pure (Expr.literal v)).congr
        fun w k e m hw h => ?_
      · intro he
        have := hv.startsExpression
        rw [Token.kind_terminal, he] at this
        cases this
      · rw [hx hw h]
        constructor
        · rintro ⟨_, rfl, rfl, rfl, rfl⟩
          exact ⟨v, hv, rfl, rfl, rfl⟩
        · rintro ⟨v', hv', rfl, rfl, rfl⟩
          have := Literal.ofToken_eq_ok_iff.mpr hv
          rw [Literal.ofToken_eq_ok_iff.mpr hv'] at this
          cases this
          exact ⟨[], rfl, rfl, rfl, rfl⟩
    · rename_i fault hf
      refine (reads_fail fault).congr fun w k e m hw h => ?_
      rw [hx hw h]
      constructor
      · exact False.elim
      · rintro ⟨v, hv, -⟩
        rw [Literal.ofToken_eq_ok_iff.mpr hv] at hf
        cases hf

end Rule

namespace Expr

/-- One operator behind an operand, or none. -/
inductive Link (e : Expr) : Language (Option Expr) where
  | none {k : TokenKind} (h : k.grip < 13) : Link e [] k none 0
  | increment {k : TokenKind} : Link e [fixed .increment] k (some (.unary .postIncrement e)) 0
  | decrement {k : TokenKind} : Link e [fixed .decrement] k (some (.unary .postDecrement e)) 0
  | call {k : TokenKind} {w : List Terminal} {es : List Expr} (ds : Items w es) :
      Link e (fixed .openParen :: (w ++ [fixed .closeParen])) k (some (.call e es)) ds.need
  | element {k : TokenKind} {w : List Terminal} {i : Expr} (d : Phrase .assignment w i) :
      Link e (fixed .openBracket :: (w ++ [fixed .closeBracket])) k (some (.element e i))
        (d.need + 1)
  | member {k : TokenKind} (name : String) :
      Link e [fixed .period, carrying .identifier name] k (some (.member e name)) 0

theorem trailing_of_links {a e : Expr} {b l b' l' : Nat} {w : List Terminal} {k : TokenKind}
    (h : Links Link a b l w k e b' l') {v : List Terminal} (d : Phrase .trailing v a)
    (hb : d.base = b) (hl : d.links = l) :
    ∃ d' : Phrase .trailing (v ++ w) e, d'.base = b' ∧ d'.links = l' := by
  induction h generalizing v with
  | nil =>
    rw [List.append_nil]
    exact ⟨d, hb, hl⟩
  | cons hc _ ih =>
    subst hb hl
    rw [← List.append_assoc]
    cases hc with
    | increment => exact ih d.increment (Nat.max_zero _).symm rfl
    | decrement => exact ih d.decrement (Nat.max_zero _).symm rfl
    | call ds => exact ih (d.call ds) rfl rfl
    | element di => exact ih (d.element di) rfl rfl
    | member name => exact ih (d.member name) (Nat.max_zero _).symm rfl

theorem links_of_trailing {w : List Terminal} {e : Expr} (d : Phrase .trailing w e)
    (k : TokenKind) : ∃ v u a, ∃ dp : Phrase .primary v a,
      w = v ++ u ∧ Links Link a dp.need 0 u k e d.base d.links := by
  induction hn : w.length using Nat.strongRecOn generalizing w e k with
  | ind _ ih =>
    subst hn
    cases d with
    | primary d => exact ⟨_, [], _, d, (List.append_nil _).symm, .nil⟩
    | increment d =>
      obtain ⟨v, u, a, dp, rfl, h⟩ := ih _ (by simp) d .increment rfl
      refine ⟨v, u ++ [fixed .increment], a, dp, List.append_assoc _ _ _, ?_⟩
      have := h.snoc (w := [fixed .increment]) (k := k) .increment
      rwa [Nat.max_zero] at this
    | decrement d =>
      obtain ⟨v, u, a, dp, rfl, h⟩ := ih _ (by simp) d .decrement rfl
      refine ⟨v, u ++ [fixed .decrement], a, dp, List.append_assoc _ _ _, ?_⟩
      have := h.snoc (w := [fixed .decrement]) (k := k) .decrement
      rwa [Nat.max_zero] at this
    | call d ds =>
      obtain ⟨v, u, a, dp, rfl, h⟩ := ih _ (by simp) d .openParen rfl
      exact ⟨v, _, a, dp, List.append_assoc _ _ _, h.snoc (k := k) (.call ds)⟩
    | element d di =>
      obtain ⟨v, u, a, dp, rfl, h⟩ := ih _ (by simp) d .openBracket rfl
      exact ⟨v, _, a, dp, List.append_assoc _ _ _, h.snoc (k := k) (.element di)⟩
    | member d name =>
      obtain ⟨v, u, a, dp, rfl, h⟩ := ih _ (by simp) d .period rfl
      refine ⟨v, u ++ [fixed .period, carrying .identifier name], a, dp,
        List.append_assoc _ _ _, ?_⟩
      have := h.snoc (w := [fixed .period, carrying .identifier name]) (k := k) (.member name)
      rwa [Nat.max_zero] at this

theorem phrases_trailing_iff {w : List Terminal} {k : TokenKind} {e : Expr} {m : Nat} :
    phrases .trailing w k e m ↔ chain primaries Link w k e m := by
  constructor
  · rintro ⟨d, rfl, hk⟩
    obtain ⟨v, u, a, dp, rfl, hl⟩ := links_of_trailing d k
    exact ⟨v, a, dp.need, u, d.base, d.links, rfl, ⟨dp, rfl⟩, hl, .none (d.bound_trailing ▸ hk),
      rfl⟩
  · rintro ⟨v, a, _, u, b, l, rfl, ⟨d, rfl⟩, hl, hk, rfl⟩
    obtain ⟨d', rfl, rfl⟩ := trailing_of_links hl d.primary rfl rfl
    cases hk with
    | none hk => exact ⟨d', rfl, by rwa [d'.bound_trailing]⟩

end Expr

namespace Rule

open ScriptFront.Expr

variable {n : Nat} {expression operand : Rule Expr}

theorem reads_trailingLink (hE : Reads n expression nestedPhrases) (e : Expr) :
    Reads n (trailingLink expression e) (Link e) := by
  intro t
  refine reads_peek ?_
  split
  · rename_i hk
    refine (reads_discard_advance (by rw [hk]; decide) fun t =>
      reads_pure (some (Expr.unary .postIncrement e))).congr fun w k o m hw _ => ?_
    rw [Token.terminal_eq_fixed (by rw [hk]; rfl), hk]
    rw [hk] at hw
    constructor
    · rintro ⟨_, rfl, rfl, rfl, rfl⟩
      exact .increment
    · intro h
      cases h with
      | none h =>
        cases hw
        exact absurd h (by decide)
      | increment => exact ⟨[], rfl, rfl, rfl, rfl⟩
      | _ => cases hw
  · rename_i hk
    refine (reads_discard_advance (by rw [hk]; decide) fun t =>
      reads_pure (some (Expr.unary .postDecrement e))).congr fun w k o m hw _ => ?_
    rw [Token.terminal_eq_fixed (by rw [hk]; rfl), hk]
    rw [hk] at hw
    constructor
    · rintro ⟨_, rfl, rfl, rfl, rfl⟩
      exact .decrement
    · intro h
      cases h with
      | none h =>
        cases hw
        exact absurd h (by decide)
      | decrement => exact ⟨[], rfl, rfl, rfl, rfl⟩
      | _ => cases hw
  · rename_i hk
    refine (reads_discard_advance (by rw [hk]; decide) fun t => reads_bind
      (reads_items hE (.inl rfl) t) fun es t => reads_pure (some (Expr.call e es))).congr
      fun w k o m hw _ => ?_
    rw [Token.terminal_eq_fixed (by rw [hk]; rfl), hk]
    rw [hk] at hw
    constructor
    · rintro ⟨_, rfl, _, es, i, _, _, rfl, ⟨v, ds, rfl, rfl⟩, ⟨rfl, rfl, rfl⟩, rfl⟩
      rw [List.append_nil, Nat.max_zero]
      exact .call ds
    · intro h
      cases h with
      | none h =>
        cases hw
        exact absurd h (by decide)
      | @call _ w es ds =>
        exact ⟨_, rfl, w ++ [fixed .closeParen], es, ds.need, [], 0, by simp, ⟨w, ds, rfl, rfl⟩,
          ⟨rfl, rfl, rfl⟩, (Nat.max_zero _).symm⟩
      | _ => cases hw
  · rename_i hk
    refine (reads_discard_advance (by rw [hk]; decide) fun t => reads_bind (hE t) fun i t =>
      reads_expect (by decide) fun t => reads_pure (some (Expr.element e i))).congr
        fun w k o m hw _ => ?_
    rw [Token.terminal_eq_fixed (by rw [hk]; rfl), hk]
    rw [hk] at hw
    constructor
    · rintro ⟨_, rfl, v, i, _, _, _, rfl, ⟨j, rfl, d, rfl, -⟩, ⟨_, rfl, rfl, rfl, rfl⟩, rfl⟩
      rw [Nat.max_zero]
      exact .element d
    · intro h
      cases h with
      | none h =>
        cases hw
        exact absurd h (by decide)
      | @element _ w i d =>
        exact ⟨_, rfl, w, i, d.need + 1, _, 0, rfl, ⟨d.need, rfl, d, rfl, d.bound_pos⟩,
          ⟨[], rfl, rfl, rfl, rfl⟩, (Nat.max_zero _).symm⟩
      | _ => cases hw
  · rename_i hk
    refine (reads_discard_advance (by rw [hk]; decide) fun t =>
      reads_name fun name t => reads_pure (some (Expr.member e name))).congr fun w k o m hw _ => ?_
    rw [Token.terminal_eq_fixed (by rw [hk]; rfl), hk]
    rw [hk] at hw
    constructor
    · rintro ⟨_, rfl, name, _, rfl, rfl, rfl, rfl⟩
      exact .member name
    · intro h
      cases h with
      | none h =>
        cases hw
        exact absurd h (by decide)
      | member name => exact ⟨_, rfl, name, [], rfl, rfl, rfl, rfl⟩
      | _ => cases hw
  · rename_i hinc hdec hparen hbracket hperiod
    refine (reads_pure none).congr fun w k o m hw _ => ?_
    constructor
    · rintro ⟨rfl, rfl, rfl⟩
      obtain rfl : k = t.kind := hw
      refine .none ?_
      generalize t.kind = k at *
      cases k <;> first | decide | contradiction
    · intro h
      cases h with
      | none => exact ⟨rfl, rfl, rfl⟩
      | increment => exact absurd hw.symm hinc
      | decrement => exact absurd hw.symm hdec
      | call => exact absurd hw.symm hparen
      | element => exact absurd hw.symm hbracket
      | member => exact absurd hw.symm hperiod

theorem reads_trailing (hE : Reads n expression nestedPhrases) :
    Reads n (trailingWith expression) (phrases .trailing) := by
  refine Reads.congr (reads_chain (reads_primary hE) (reads_trailingLink hE) (fun h => ?_)
    (fun h => ?_)) fun w k e m => phrases_trailing_iff.symm
  · cases h
    exact ⟨rfl, rfl⟩
  · cases h <;> exact List.cons_ne_nil _ _

end Rule

end ScriptFront
