import ScriptFront.Proofs.Expr.Reading
import ScriptFront.Proofs.Statement.Nesting
import ScriptFront.Statement.Rules

/-! # What the rules for parts of statements read -/

namespace ScriptFront

open Terminal ScriptFront.Language ScriptFront.Expr

theorem Expr.Phrase.lead_ne {s : Symbol} {v w : List Terminal} {e : Expr} {k kind : TokenKind}
    (d : Phrase s v e) (h : lead (v ++ w) k = kind) (hkind : kind.startsExpression = false) :
    False := by
  have := d.startsExpression (lead w k)
  rw [← lead_append, h, hkind] at this
  cases this

mutual

theorem Expr.Phrase.kind_ne_in {s : Symbol} {w : List Terminal} {e : Expr} :
    Phrase s w e → ∀ x ∈ w, x.kind ≠ .kwIn
  | .literal h => by cases h <;> simp
  | .group d | .increment d | .decrement d | .member d _ => by
    simpa [or_imp, forall_and] using d.kind_ne_in
  | .leading op _ d => by
    have hop : op.kind ≠ .kwIn := by cases op <;> decide
    simpa [hop] using d.kind_ne_in
  | .primary d | .trailing d | .operand d | .simple d | .conditional d => d.kind_ne_in
  | .array ds => by simpa [or_imp, forall_and] using ds.kind_ne_in
  | .call d ds => by simpa [or_imp, forall_and] using ⟨d.kind_ne_in, ds.kind_ne_in⟩
  | .element d di => by simpa [or_imp, forall_and] using ⟨d.kind_ne_in, di.kind_ne_in⟩
  | .binary l op _ r => by
    have hop : op.kind ≠ .kwIn := by cases op <;> decide
    simpa [or_imp, forall_and, hop] using ⟨l.kind_ne_in, r.kind_ne_in⟩
  | .assign l op _ r => by
    have hop : op.kind ≠ .kwIn := by cases op <;> decide
    simpa [or_imp, forall_and, hop] using ⟨l.kind_ne_in, r.kind_ne_in⟩
  | .choice dc dy dn => by
    simpa [or_imp, forall_and] using ⟨dc.kind_ne_in, dy.kind_ne_in, dn.kind_ne_in⟩

theorem Expr.Items.kind_ne_in {w : List Terminal} {es : List Expr} :
    Items w es → ∀ x ∈ w, x.kind ≠ .kwIn
  | .nil => nofun
  | .single d => d.kind_ne_in
  | .cons d ds => by simpa [or_imp, forall_and] using ⟨d.kind_ne_in, ds.kind_ne_in⟩

end

theorem Declaration.Phrase.lead_ne {w : List Terminal} {x : Declaration} {k kind : TokenKind}
    (d : Declaration.Phrase w x) (h : lead w k = kind) (hconst : kind ≠ .kwConst)
    (hvar : kind ≠ .kwVar) : False := by
  cases d with
  | mk isConst =>
    cases isConst with
    | false => exact hvar h.symm
    | true => exact hconst h.symm

/-- What an expression reads where its value has to be constant. -/
def nestedConstants : Language Expr := deeper (phrases .conditional)

/-- An expression and the token behind it. -/
def closedExpression (close : TokenKind) : Language Expr := fun w _ e m =>
  ∃ v, ∃ d : Phrase .assignment v e, w = v ++ [fixed close] ∧ m = d.need + 1

theorem closedExpression_iff (close : TokenKind) (hc : close.grip = 0) {w : List Terminal}
    {k : TokenKind} {e : Expr} {m : Nat} : closedExpression close w k e m ↔
      seq nestedPhrases (fun e => after (fixed close) (value e)) w k e m := by
  constructor
  · rintro ⟨v, d, rfl, rfl⟩
    exact ⟨v, e, d.need + 1, _, 0, rfl, ⟨d.need, rfl, d, rfl, by
      rw [lead_cons, kind_fixed, hc]; exact d.bound_pos⟩, ⟨[], rfl, rfl, rfl, rfl⟩,
      (Nat.max_zero _).symm⟩
  · rintro ⟨v, e, _, _, _, rfl, ⟨i, rfl, d, rfl, -⟩, ⟨_, rfl, rfl, rfl, rfl⟩, rfl⟩
    exact ⟨v, d, rfl, Nat.max_zero _⟩

namespace Rule

variable {n : Nat} {expression constant : Rule Expr}

/-- An expression in parentheses, with the rest of the members. -/
theorem reads_parenthesized {α : Type} {next : Expr → Rule α} {G : Expr → Language α}
    (hE : Reads n expression nestedPhrases) (h : ∀ e, Reads n (next e) (G e)) :
    Reads n (parenthesized expression >>= next)
      (after (fixed .openParen) (seq (closedExpression .closeParen) G)) := by
  have he : (parenthesized expression >>= next) = (do
      discard (expect .openParen)
      let e ← (do
        let e ← expression
        discard (expect .closeParen)
        return e)
      next e) := by
    simp only [parenthesized, bind_assoc, pure_bind]
  rw [he]
  have closed := Reads.congr (fun t => reads_bind (hE t) fun e t =>
    reads_expect (by decide) fun t => reads_pure e)
    fun _ _ _ _ => (closedExpression_iff .closeParen rfl).symm
  exact fun _ => reads_expect (by decide) fun t => reads_bind (closed t) h

theorem reads_declaration (hE : Reads n expression nestedPhrases) :
    Reads n (declarationWith expression)
      fun w _ x m => ∃ d : Declaration.Phrase w x, m = d.need := by
  have rest (isConst : Bool) : Reads n (do
      let name := (← expect .string).content
      discard (expect .assign)
      let value ← expression
      discard (expect .semicolon)
      return ({ isConst, name, value } : Declaration)) (afterText .string fun name =>
        after (fixed .assign) (seq nestedPhrases fun e =>
          after (fixed .semicolon) (value ⟨isConst, name, e⟩))) :=
    fun t => reads_expectText rfl fun t t' => reads_expect (by decide) (fun t => reads_bind (hE t)
      fun e t => reads_expect (by decide) fun t => reads_pure _)
  have cut {isConst : Bool} {w : List Terminal} {k : TokenKind} {x : Declaration} {m : Nat} :
      (afterText .string fun name => after (fixed .assign) (seq nestedPhrases fun e =>
        after (fixed .semicolon) (value ⟨isConst, name, e⟩))) w k x m ↔
      ∃ name v, ∃ d : Phrase .assignment v x.value, x.isConst = isConst ∧ x.name = name ∧
        w = carrying .string name :: fixed .assign :: (v ++ [fixed .semicolon]) ∧
          m = d.need + 1 := by
    constructor
    · rintro ⟨name, _, rfl, _, rfl, v, e, _, _, _, rfl, ⟨i, rfl, d, rfl, -⟩,
        ⟨_, rfl, rfl, rfl, rfl⟩, rfl⟩
      exact ⟨name, v, d, rfl, rfl, rfl, Nat.max_zero _⟩
    · rintro ⟨name, v, d, rfl, rfl, rfl, rfl⟩
      exact ⟨_, _, rfl, _, rfl, v, _, d.need + 1, _, 0, rfl, ⟨d.need, rfl, d, rfl, d.bound_pos⟩,
        ⟨[], rfl, rfl, rfl, rfl⟩, (Nat.max_zero _).symm⟩
  refine Reads.congr (fun t => reads_accept (by decide) (rest true)
    (reads_expect (by decide) (rest false))) fun w k x m => ?_
  constructor
  · rintro (⟨_, rfl, h⟩ | ⟨-, _, rfl, h⟩) <;> obtain ⟨name, v, d, hx, rfl, rfl, rfl⟩ := cut.mp h <;>
      cases x <;> cases hx
    · exact ⟨.mk true _ d, rfl⟩
    · exact ⟨.mk false _ d, rfl⟩
  · rintro ⟨⟨isConst, name, d⟩, rfl⟩
    cases isConst with
    | false => exact .inr ⟨nofun, _, rfl, cut.mpr ⟨name, _, d, rfl, rfl, rfl, rfl⟩⟩
    | true => exact .inl ⟨_, rfl, cut.mpr ⟨name, _, d, rfl, rfl, rfl, rfl⟩⟩

theorem reads_forClause (hE : Reads n expression nestedPhrases) {close : TokenKind}
    (hc : close = .semicolon ∨ close = .closeParen) :
    Reads n (forClause expression close) fun w _ o m => ∃ d : Clause close w o, m = d.need := by
  have facts : close ≠ .eof ∧ close.hasLexeme = false ∧ close.grip = 0 ∧
      close.startsExpression = false := by
    rcases hc with rfl | rfl <;> decide
  obtain ⟨hk, hx, hg, hs⟩ := facts
  refine Reads.congr (fun t => reads_accept ⟨hk, hx⟩ (fun t => reads_pure none) (reads_bind (hE t)
    fun e t => reads_expect ⟨hk, hx⟩ fun t => reads_pure (some e))) fun w k o m => ?_
  constructor
  · rintro (⟨_, rfl, rfl, rfl, rfl⟩ | ⟨-, v, e, _, _, _, rfl, ⟨i, rfl, d, rfl, -⟩,
      ⟨_, rfl, rfl, rfl, rfl⟩, rfl⟩)
    · exact ⟨.none, rfl⟩
    · exact ⟨.some d, Nat.max_zero _⟩
  · rintro ⟨d, rfl⟩
    cases d with
    | none => exact .inl ⟨[], rfl, rfl, rfl, rfl⟩
    | @some v e d =>
      refine .inr ⟨fun h => d.lead_ne h hs, v, e, d.need + 1, _, 0, rfl, ⟨d.need, rfl, d, rfl, ?_⟩,
        ⟨[], rfl, rfl, rfl, rfl⟩, (Nat.max_zero _).symm⟩
      rw [lead_cons, kind_fixed, hg]
      exact d.bound_pos

theorem reads_forInit (hE : Reads n expression nestedPhrases) :
    Reads n (forInit expression) fun w _ o m => ∃ d : ForInit.Phrase w o, m = d.need := by
  have declared (hk : TokenKind) (hvar : hk = .kwVar ∨ hk = .kwConst) (t : Token)
      (ht : t.kind = hk) : ReadsFrom n t
        (do return some (ForInit.declaration (← declarationWith expression)))
        fun w _ o m => ∃ d : ForInit.Phrase w o, m = d.need := by
    refine (reads_bind (reads_declaration hE t) fun x t =>
      reads_pure (some (ForInit.declaration x))).congr fun w k o m hw _ => ?_
    constructor
    · rintro ⟨v, x, _, _, _, rfl, ⟨d, rfl⟩, ⟨rfl, rfl, rfl⟩, rfl⟩
      rw [List.append_nil]
      exact ⟨.declaration d, Nat.max_zero _⟩
    · rintro ⟨d, rfl⟩
      rw [ht] at hw
      cases d with
      | none => rcases hvar with rfl | rfl <;> cases hw
      | declaration d =>
        exact ⟨w, _, d.need, [], 0, (List.append_nil w).symm, ⟨d, rfl⟩, ⟨rfl, rfl, rfl⟩,
          (Nat.max_zero _).symm⟩
      | expression d => exact (d.lead_ne hw (by rcases hvar with rfl | rfl <;> rfl)).elim
  intro t
  refine reads_peek ?_
  split
  · rename_i hk
    refine (reads_discard_advance (by rw [hk]; decide) fun t =>
      reads_pure (none : Option ForInit)).congr fun w k o m hw _ => ?_
    rw [Token.terminal_eq_fixed (by rw [hk]; rfl), hk]
    rw [hk] at hw
    constructor
    · rintro ⟨_, rfl, rfl, rfl, rfl⟩
      exact ⟨.none, rfl⟩
    · rintro ⟨d, rfl⟩
      cases d with
      | none => exact ⟨[], rfl, rfl, rfl, rfl⟩
      | declaration d => exact (d.lead_ne hw nofun nofun).elim
      | expression d => exact (d.lead_ne hw rfl).elim
  · exact declared _ (.inl rfl) t ‹_›
  · exact declared _ (.inr rfl) t ‹_›
  · rename_i hsemicolon hvar hconst
    refine (reads_bind (hE t) fun e t => reads_expect (by decide) fun t =>
      reads_pure (some (ForInit.expression e))).congr fun w k o m hw _ => ?_
    constructor
    · rintro ⟨v, e, _, _, _, rfl, ⟨i, rfl, d, rfl, -⟩, ⟨_, rfl, rfl, rfl, rfl⟩, rfl⟩
      exact ⟨.expression d, Nat.max_zero _⟩
    · rintro ⟨d, rfl⟩
      cases d with
      | none => exact (hsemicolon hw.symm).elim
      | declaration d => exact (d.lead_ne hw hconst hvar).elim
      | @expression v e d =>
        exact ⟨v, e, d.need + 1, _, 0, rfl, ⟨d.need, rfl, d, rfl, d.bound_pos⟩,
          ⟨[], rfl, rfl, rfl, rfl⟩, (Nat.max_zero _).symm⟩

/-- One more part of an import path, behind parts held last first. -/
def segmentPass (read : List Segment) : Language (Option (List Segment)) := fun w k o m =>
  lead w k ≠ .period ∧ value none w k o m ∨ read.head? ≠ some .wildcard ∧
    after (fixed .period) (option .multiply (value (some (.wildcard :: read)))
      (afterText .identifier fun name => value (some (.name name :: read)))) w k o m

theorem reads_segment (read : List Segment) : Reads n (segment read) (segmentPass read) := by
  intro t
  refine reads_peek ?_
  by_cases hk : t.kind = .period
  · simp only [hk, if_true]
    split
    · rename_i hhead
      refine (reads_fail _).congr fun w k o m hw _ => ?_
      simp [segmentPass, nothing, hw, hk, hhead]
    · rename_i hhead
      refine (reads_discard_advance (by rw [hk]; decide) fun t => reads_accept (by decide)
        (fun t => reads_pure (some (Segment.wildcard :: read))) (reads_name fun name t =>
          reads_pure (some (Segment.name name :: read)))).congr fun w k o m hw _ => ?_
      rw [Token.terminal_eq_fixed (by rw [hk]; rfl), hk]
      simp [segmentPass, hw, hk, hhead]
  · simp only [hk, if_false]
    refine (reads_pure none).congr fun w k o m hw _ => ?_
    constructor
    · exact fun h => .inl ⟨by rwa [hw], h⟩
    · rintro (⟨-, h⟩ | ⟨-, v, rfl, -⟩)
      · exact h
      · exact (hk hw.symm).elim

theorem tail_of_loop {read path : List Segment} {w : List Terminal} {k : TokenKind} {m : Nat}
    (h : Loop segmentPass read w k path m) : m = 0 ∧ k ≠ .period ∧
      (read.head? = some .wildcard → w = [] ∧ path = read) ∧
      (read.head? ≠ some .wildcard → ∃ ss, Segment.Tail w ss ∧ path = ss.reverse ++ read) := by
  induction h with
  | stop h =>
    obtain ⟨hk, rfl, -, rfl⟩ | ⟨-, _, rfl, ⟨_, rfl, -, hc, -⟩ | ⟨-, _, _, rfl, -, hc, -⟩⟩ := h
    · exact ⟨rfl, hk, fun _ => ⟨rfl, rfl⟩, fun _ => ⟨[], .nil, rfl⟩⟩
    · cases hc
    · cases hc
  | step h hl ih =>
    obtain ⟨rfl, hk, hlast, hmore⟩ := ih
    obtain ⟨-, -, hc, -⟩ | ⟨hhead, _, rfl, hrest⟩ := h
    · cases hc
    refine ⟨?_, hk, fun h => (hhead h).elim, fun _ => ?_⟩
    · obtain ⟨_, rfl, -, -, rfl⟩ | ⟨-, _, _, rfl, -, -, rfl⟩ := hrest <;> rfl
    obtain ⟨_, rfl, rfl, hread, -⟩ | ⟨-, name, _, rfl, rfl, hread, -⟩ := hrest
    · cases hread
      obtain ⟨rfl, rfl⟩ := hlast rfl
      exact ⟨[.wildcard], .wildcard, rfl⟩
    · cases hread
      obtain ⟨ss, hs, rfl⟩ := hmore nofun
      exact ⟨.name name :: ss, .name name hs, by simp⟩

theorem loop_of_tail {read ss : List Segment} {w : List Terminal} {k : TokenKind}
    (h : Segment.Tail w ss) (hread : read.head? ≠ some .wildcard) (hk : k ≠ .period) :
    Loop segmentPass read w k (ss.reverse ++ read) 0 := by
  induction h generalizing read with
  | nil => exact .stop (.inl ⟨hk, rfl, rfl, rfl⟩)
  | @name name w ss h ih =>
    have pass : segmentPass read [fixed .period, carrying .identifier name] (lead w k)
        (some (.name name :: read)) 0 :=
      .inr ⟨hread, _, rfl, .inr ⟨nofun, name, [], rfl, rfl, rfl, rfl⟩⟩
    simpa using Loop.step pass (ih nofun)
  | wildcard =>
    have pass : segmentPass read [fixed .period, fixed .multiply] k (some (.wildcard :: read)) 0 :=
      .inr ⟨hread, _, rfl, .inl ⟨[], rfl, rfl, rfl, rfl⟩⟩
    have last : Loop segmentPass (.wildcard :: read) [] k (.wildcard :: read) 0 :=
      .stop (.inl ⟨hk, rfl, rfl, rfl⟩)
    exact Loop.step pass last

theorem reads_importRule : Reads n importRule fun w _ s m =>
    ∃ first v ss, Segment.Tail v ss ∧ w = fixed .kwImport :: carrying .identifier first ::
      (v ++ [fixed .semicolon]) ∧ s = .importPath (.name first :: ss) ∧ m = 0 := by
  have loop := reads_iterate (n := n) reads_segment fun {read w k path m} h => by
    obtain ⟨-, -, hc, -⟩ | ⟨-, _, rfl, -⟩ := h
    · cases hc
    · exact List.cons_ne_nil _ _
  refine Reads.congr (fun _ => reads_expect (by decide) fun _ => reads_name fun first t =>
    reads_bind (loop [.name first] t) fun path t => reads_expect (by decide) fun t =>
      reads_pure (Statement.importPath path.reverse)) fun w k s m => ?_
  constructor
  · rintro ⟨_, rfl, first, _, rfl, v, path, _, _, _, rfl, hl, ⟨_, rfl, rfl, rfl, rfl⟩, rfl⟩
    obtain ⟨rfl, -, -, hmore⟩ := tail_of_loop hl
    obtain ⟨ss, hs, rfl⟩ := hmore nofun
    exact ⟨first, v, ss, hs, rfl, by simp, rfl⟩
  · rintro ⟨first, v, ss, hs, rfl, rfl, rfl⟩
    exact ⟨_, rfl, first, _, rfl, v, _, 0, [fixed .semicolon], 0, rfl,
      loop_of_tail hs nofun nofun, ⟨[], rfl, rfl, by simp, rfl⟩, rfl⟩

end Rule

end ScriptFront
