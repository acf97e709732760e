import ScriptFront.Proofs.Expr.Exact
import ScriptFront.Proofs.Statement.Reading

/-! # The rules for statements read exactly the phrases -/

namespace ScriptFront

open Terminal ScriptFront.Language ScriptFront.Expr

namespace Statement

theorem Body.eq_semicolon {o : Bool} {w : List Terminal} {b : Block} {k : TokenKind}
    (d : Body o w b) (h : lead w k = .semicolon) : w = [fixed .semicolon] := by
  cases d with
  | braces => cases h
  | single d =>
    cases d with
    | empty => rfl
    | expression d => exact (d.lead_ne h rfl).elim
    | declaration d => exact (d.lead_ne h nofun nofun).elim
    | _ => cases h

theorem values_of_separated {w : List Terminal} {k : TokenKind} {es : List Expr} {m : Nat}
    (h : Separated .colon nestedPhrases w k es m) : ∃ ds : Values w es, m = ds.need := by
  induction h with
  | single h _ =>
    obtain ⟨_, rfl, d, rfl, -⟩ := h
    exact ⟨.single d, rfl⟩
  | cons h _ ih =>
    obtain ⟨_, rfl, d, rfl, -⟩ := h
    obtain ⟨ds, rfl⟩ := ih
    exact ⟨.cons d ds, rfl⟩

theorem separated_of_values {w : List Terminal} {k : TokenKind} {es : List Expr}
    (hk : k.grip = 0) (hc : k ≠ .colon) (ds : Values w es) :
    Separated .colon nestedPhrases w k es ds.need := by
  induction ds with
  | single d => exact .single ⟨d.need, rfl, d, rfl, hk ▸ d.bound_pos⟩ hc
  | cons d _ ih => exact .cons ⟨d.need, rfl, d, rfl, d.bound_pos⟩ ih

end Statement

namespace Rule

open Statement

variable {n : Nat} {inner : Inner}

theorem reads_switch (h : inner.Reads n) : Reads n (switchWith inner) (led .kwSwitch) := by
  have loop := reads_iterate (reads_switchPart h) fun {state w k next m} hpass => by
    obtain ⟨-, -, hc, -⟩ | ⟨_, rfl, -⟩ | ⟨-, _, rfl, -⟩ := hpass
    · cases hc
    · exact List.cons_ne_nil _ _
    · exact List.cons_ne_nil _ _
  refine Reads.congr (fun _ => reads_expect (by decide) (reads_parenthesized h.expression fun e _ =>
    reads_expect (by decide) fun t => reads_bind (loop ([], none) t) fun state t =>
      reads_expect (by decide) fun t => reads_pure (Statement.switch e state.1.reverse state.2)))
    fun w k s m => ?_
  constructor
  · rintro ⟨_, rfl, _, rfl, _, e, _, _, _, rfl, ⟨v, d, rfl, rfl⟩, ⟨_, rfl, w, _, _, _, _, rfl, hl,
      ⟨_, rfl, rfl, rfl, rfl⟩, rfl⟩, rfl⟩
    obtain ⟨cases, default, parts, -, rfl, rfl⟩ := parts_of_loop hl
    have hw : fixed .kwSwitch :: fixed .openParen :: (v ++ [fixed .closeParen] ++
        fixed .openBrace :: (w ++ [fixed .closeBrace])) = fixed .kwSwitch :: fixed .openParen ::
          (v ++ fixed .closeParen :: fixed .openBrace :: (w ++ [fixed .closeBrace])) := by simp
    rw [hw, List.append_nil, List.reverse_reverse, Option.or_none]
    exact ⟨rfl, false, .switch d parts, by rw [Nat.max_zero]; rfl, nofun⟩
  · rintro ⟨hlead, o, d, rfl, ho⟩
    cases d with
    | @switch v w e cases default d parts =>
      have hl : Loop partPass ([], none) w .closeBrace _ _ := loop_of_parts (.inl rfl) parts
      exact ⟨_, rfl, _, rfl, v ++ [fixed .closeParen], e, d.need + 1, _, parts.need, by simp,
        ⟨v, d, rfl, rfl⟩, ⟨_, rfl, w, _, parts.need, [fixed .closeBrace], 0, rfl, hl,
          ⟨[], rfl, rfl, by simp, rfl⟩, (Nat.max_zero _).symm⟩, rfl⟩
    | expression d => exact (d.lead_ne hlead rfl).elim
    | declaration d => exact (d.lead_ne hlead nofun nofun).elim
    | _ => cases hlead

theorem reads_while (h : inner.Reads n) : Reads n (whileWith inner) (led .kwWhile) := by
  refine Reads.congr (fun _ => reads_expect (by decide) (reads_parenthesized h.expression fun e t =>
    reads_bind (h.body t) fun b t => reads_pure (Statement.whileLoop e b))) fun w k s m => ?_
  constructor
  · rintro ⟨_, rfl, _, rfl, _, e, _, _, _, rfl, ⟨v, d, rfl, rfl⟩, ⟨w, b, _, _, _, rfl,
      ⟨_, rfl, o, body, rfl, ho⟩, ⟨rfl, rfl, rfl⟩, rfl⟩, rfl⟩
    rw [List.append_nil, List.append_assoc]
    exact ⟨rfl, o, .whileLoop d body, by rw [Nat.max_zero]; rfl, ho⟩
  · rintro ⟨hlead, o, d, rfl, ho⟩
    cases d with
    | @whileLoop v w e _ b d body =>
      exact ⟨_, rfl, _, rfl, v ++ [fixed .closeParen], e, d.need + 1, w, body.need + 1, by simp,
        ⟨v, d, rfl, rfl⟩, ⟨w, b, body.need + 1, [], 0, (List.append_nil w).symm,
          ⟨body.need, rfl, o, body, rfl, ho⟩, ⟨rfl, rfl, rfl⟩, (Nat.max_zero _).symm⟩, rfl⟩
    | expression d => exact (d.lead_ne hlead rfl).elim
    | declaration d => exact (d.lead_ne hlead nofun nofun).elim
    | _ => cases hlead

theorem reads_doWhile (h : inner.Reads n) : Reads n (doWhileWith inner) (led .kwDo) := by
  refine Reads.congr (fun _ => reads_expect (by decide) fun t => reads_bind (h.body t) fun b _ =>
    reads_expect (by decide) (reads_parenthesized h.expression fun e _ =>
      reads_expect (by decide) fun t => reads_pure (Statement.doWhile b e))) fun w k s m => ?_
  constructor
  · rintro ⟨_, rfl, v, b, _, _, _, rfl, ⟨_, rfl, o, body, rfl, ho⟩, ⟨_, rfl, _, rfl, _, e, _, _, _,
      rfl, ⟨w, d, rfl, rfl⟩, ⟨_, rfl, rfl, rfl, rfl⟩, rfl⟩, rfl⟩
    rw [List.append_assoc]
    exact ⟨rfl, false, .doWhile body d, by rw [Nat.max_zero]; rfl, nofun⟩
  · rintro ⟨hlead, o, d, rfl, ho⟩
    cases d with
    | @doWhile v w e o b body d =>
      exact ⟨_, rfl, v, b, body.need + 1, _, d.need + 1, rfl, ⟨body.need, rfl, o, body, rfl, nofun⟩,
        ⟨_, rfl, _, rfl, w ++ [fixed .closeParen], e, d.need + 1, [fixed .semicolon], 0, by simp,
          ⟨w, d, rfl, rfl⟩, ⟨[], rfl, rfl, rfl, rfl⟩, (Nat.max_zero _).symm⟩, rfl⟩
    | expression d => exact (d.lead_ne hlead rfl).elim
    | declaration d => exact (d.lead_ne hlead nofun nofun).elim
    | _ => cases hlead

theorem reads_return (h : inner.Reads n) :
    Reads n (returnWith inner.expression) (led .kwReturn) := by
  refine Reads.congr (fun _ => reads_expect (by decide) fun t =>
    reads_bind (reads_separated (by decide) h.expression t) fun es _ =>
      reads_expect (by decide) fun t => reads_pure (Statement.returnValues es)) fun w k s m => ?_
  constructor
  · rintro ⟨_, rfl, w, es, _, _, _, rfl, hs, ⟨_, rfl, rfl, rfl, rfl⟩, rfl⟩
    obtain ⟨ds, rfl⟩ := values_of_separated hs
    exact ⟨rfl, false, .returnValues ds, Nat.max_zero _, nofun⟩
  · rintro ⟨hlead, o, d, rfl, ho⟩
    cases d with
    | @returnValues w es ds =>
      exact ⟨_, rfl, w, es, ds.need, [fixed .semicolon], 0, rfl,
        separated_of_values (k := .semicolon) rfl nofun ds, ⟨[], rfl, rfl, rfl, rfl⟩,
        (Nat.max_zero _).symm⟩
    | expression d => exact (d.lead_ne hlead rfl).elim
    | declaration d => exact (d.lead_ne hlead nofun nofun).elim
    | _ => cases hlead

theorem reads_function (h : inner.Reads n) : Reads n (functionWith inner) (led .kwFunction) := by
  have he : functionWith inner = (do
      discard (expect .kwFunction)
      let name ← name
      discard (expect .openParen)
      let parameters ← (do
        let ps ← parametersWith inner.constant
        discard (expect .closeParen)
        return ps)
      if ← accept .semicolon then return .function name parameters none
      return .function name parameters (some (← inner.body))) := by
    simp only [functionWith, bind_assoc, pure_bind]
  rw [he]
  refine Reads.congr (fun _ => reads_expect (by decide) fun _ => reads_name fun name _ =>
    reads_expect (by decide) fun t => reads_bind (reads_parameters h.constant t) fun ps _ =>
      reads_accept (by decide)
      (fun t => reads_pure (Statement.function name ps none)) (reads_bind (h.body _) fun b t =>
        reads_pure (Statement.function name ps (some b)))) fun w k s m => ?_
  constructor
  · rintro ⟨_, rfl, name, _, rfl, _, rfl, _, ps, _, _, _, rfl, ⟨v, ds, hps, rfl, rfl⟩,
      ⟨_, rfl, rfl, rfl, rfl⟩ | ⟨hne, w, b, _, _, _, rfl, ⟨_, rfl, o, body, rfl, ho⟩,
        ⟨rfl, rfl, rfl⟩, rfl⟩, rfl⟩
    · rw [List.append_assoc]
      exact ⟨rfl, false, .forward name ds hps, Nat.max_zero _, nofun⟩
    · rw [List.append_nil, List.append_assoc]
      rw [List.append_nil] at hne
      have hw : w ≠ [fixed .semicolon] := by
        rintro rfl
        exact hne rfl
      exact ⟨rfl, o, .function name ds hps body hw, by rw [Nat.max_zero]; rfl, ho⟩
  · rintro ⟨hlead, o, d, rfl, ho⟩
    cases d with
    | @forward name w ps ds hps =>
      exact ⟨_, rfl, name, _, rfl, _, rfl, w ++ [fixed .closeParen], ps, ds.need,
        [fixed .semicolon], 0, by simp, ⟨w, ds, hps, rfl, rfl⟩, .inl ⟨[], rfl, rfl, rfl, rfl⟩,
        (Nat.max_zero _).symm⟩
    | @function name v w ps _ b ds hps body hw =>
      refine ⟨_, rfl, name, _, rfl, _, rfl, v ++ [fixed .closeParen], ps, ds.need, w,
        body.need + 1, by simp, ⟨v, ds, hps, rfl, rfl⟩, .inr ⟨fun hlead => ?_, w, b,
          body.need + 1, [], 0, (List.append_nil w).symm, ⟨body.need, rfl, o, body, rfl, ho⟩,
          ⟨rfl, rfl, rfl⟩, (Nat.max_zero _).symm⟩, rfl⟩
      exact hw (body.eq_semicolon hlead)
    | expression d => exact (d.lead_ne hlead rfl).elim
    | declaration d => exact (d.lead_ne hlead nofun nofun).elim
    | _ => cases hlead

/-- A loop over a sequence from its name on. -/
def forEachTail : Language Statement := fun w k s m =>
  ∃ binding v x e b o, ∃ d : Expr.Phrase .assignment v e, ∃ body : Body o x b,
    w = carrying .identifier binding :: fixed .kwIn :: (v ++ fixed .closeParen :: x) ∧
    s = .forEach binding e b ∧ (o = true → k ≠ .kwElse) ∧ m = max (d.need + 1) (body.need + 1)

/-- A counting loop from its first clause on. -/
def forLoopTail : Language Statement := fun w k s m =>
  ∃ u v x y init condition increment b o, ∃ di : ForInit.Phrase u init,
    ∃ dc : Clause .semicolon v condition, ∃ dn : Clause .closeParen x increment,
    ∃ body : Body o y b, w = u ++ (v ++ (x ++ y)) ∧ s = .forLoop init condition increment b ∧
    (o = true → k ≠ .kwElse) ∧ m = max di.need (max dc.need (max dn.need (body.need + 1)))

theorem forLoopTail_second_ne {w : List Terminal} {k : TokenKind} {s : Statement} {m : Nat}
    (h : forLoopTail w k s m) (hlead : lead w k = .identifier) : lead (w.drop 1) k ≠ .kwIn := by
  obtain ⟨u, v, x, y, _, _, _, _, _, di, -, -, -, rfl, -⟩ := h
  cases di with
  | none => cases hlead
  | declaration d =>
    rw [lead_append] at hlead
    exact (d.lead_ne hlead nofun nofun).elim
  | @expression w e d =>
    -- no expression holds the word, and none is empty
    cases w with
    | nil => exact absurd rfl d.ne_nil
    | cons t w =>
      cases w with
      | nil => exact nofun
      | cons t' w => exact d.kind_ne_in t' (by simp)

theorem reads_forEach (h : inner.Reads n) : Reads n (forEachWith inner) forEachTail := by
  refine Reads.congr (fun _ => reads_name fun binding _ => reads_expect (by decide) fun t =>
    reads_bind (h.expression t) fun e _ => reads_expect (by decide) fun t =>
      reads_bind (h.body t) fun b t => reads_pure (Statement.forEach binding e b)) fun w k s m => ?_
  constructor
  · rintro ⟨binding, _, rfl, _, rfl, v, e, _, _, _, rfl, ⟨_, rfl, d, rfl, -⟩,
      ⟨_, rfl, x, b, _, _, _, rfl, ⟨_, rfl, o, body, rfl, ho⟩, ⟨rfl, rfl, rfl⟩, rfl⟩, rfl⟩
    rw [List.append_nil, Nat.max_zero]
    exact ⟨binding, v, x, e, b, o, d, body, rfl, rfl, ho, rfl⟩
  · rintro ⟨binding, v, x, e, b, o, d, body, rfl, rfl, ho, rfl⟩
    exact ⟨binding, _, rfl, _, rfl, v, e, d.need + 1, _, body.need + 1, rfl,
      ⟨d.need, rfl, d, rfl, d.bound_pos⟩, ⟨_, rfl, x, b, body.need + 1, [], 0,
        (List.append_nil x).symm, ⟨body.need, rfl, o, body, rfl, ho⟩, ⟨rfl, rfl, rfl⟩,
        (Nat.max_zero _).symm⟩, rfl⟩

theorem reads_forLoop (h : inner.Reads n) : Reads n (forLoopWith inner) forLoopTail := by
  refine Reads.congr (fun t => reads_bind (reads_forInit h.expression t) fun init t =>
    reads_bind (reads_forClause h.expression (.inl rfl) t) fun condition t =>
    reads_bind (reads_forClause h.expression (.inr rfl) t) fun increment t =>
    reads_bind (h.body t) fun b t =>
      reads_pure (Statement.forLoop init condition increment b)) fun w k s m => ?_
  constructor
  · rintro ⟨u, init, _, _, _, rfl, ⟨di, rfl⟩, ⟨v, condition, _, _, _, rfl, ⟨dc, rfl⟩,
      ⟨x, increment, _, _, _, rfl, ⟨dn, rfl⟩, ⟨y, b, _, _, _, rfl, ⟨_, rfl, o, body, rfl, ho⟩,
        ⟨rfl, rfl, rfl⟩, rfl⟩, rfl⟩, rfl⟩, rfl⟩
    rw [List.append_nil, Nat.max_zero]
    exact ⟨u, v, x, y, init, condition, increment, b, o, di, dc, dn, body, rfl, rfl, ho, rfl⟩
  · rintro ⟨u, v, x, y, init, condition, increment, b, o, di, dc, dn, body, rfl, rfl, ho, rfl⟩
    exact ⟨u, init, _, _, _, rfl, ⟨di, rfl⟩, ⟨v, condition, _, _, _, rfl, ⟨dc, rfl⟩,
      ⟨x, increment, _, _, _, rfl, ⟨dn, rfl⟩, ⟨y, b, body.need + 1, [], 0, (List.append_nil y).symm,
        ⟨body.need, rfl, o, body, rfl, ho⟩, ⟨rfl, rfl, rfl⟩, (Nat.max_zero _).symm⟩, rfl⟩, rfl⟩,
      rfl⟩

theorem reads_for (h : inner.Reads n) : Reads n (forWith inner) (led .kwFor) := by
  have tail : Reads n (do
      if (← peek) = .identifier then
        if (← peekNext) = .kwIn then forEachWith inner else forLoopWith inner
      else forLoopWith inner) fun w k s m => forEachTail w k s m ∨ forLoopTail w k s m := by
    intro t
    refine reads_peek ?_
    split
    · rename_i hk
      have choice (kind : TokenKind) : ReadsFrom n t
          (if kind = .kwIn then forEachWith inner else forLoopWith inner)
          (if kind = .kwIn then forEachTail else forLoopTail) := by
        split
        · exact reads_forEach h t
        · exact reads_forLoop h t
      refine (reads_peekNext choice fun {kind w k s m} hs => ?_).congr fun w k s m hw _ => ?_
      · split at hs
        · obtain ⟨_, _, _, _, _, _, _, _, rfl, -⟩ := hs
          exact List.cons_ne_nil _ _
        · obtain ⟨u, _, _, _, _, _, _, _, _, di, -, -, -, rfl, -⟩ := hs
          have := di.need_lt
          exact List.append_ne_nil_of_left_ne_nil (List.ne_nil_of_length_pos (by omega)) _
      · rw [hk] at hw
        show (if lead (w.drop 1) k = .kwIn then forEachTail else forLoopTail) w k s m ↔ _
        split
        · rename_i hin
          exact ⟨.inl, fun hs => hs.elim id fun hs => absurd hin (forLoopTail_second_ne hs hw)⟩
        · rename_i hin
          refine ⟨.inr, fun hs => hs.elim (fun hs => ?_) id⟩
          obtain ⟨_, _, _, _, _, _, _, _, rfl, -⟩ := hs
          exact absurd rfl hin
    · rename_i hk
      refine (reads_forLoop h t).congr fun w k s m hw _ =>
        ⟨.inr, fun hs => hs.elim (fun hs => ?_) id⟩
      obtain ⟨_, _, _, _, _, _, _, _, rfl, -⟩ := hs
      exact (hk hw.symm).elim
  refine Reads.congr (fun _ => reads_expect (by decide) fun _ => reads_expect (by decide) tail)
    fun w k s m => ?_
  constructor
  · rintro ⟨_, rfl, _, rfl, ⟨binding, v, x, e, b, o, d, body, rfl, rfl, ho, rfl⟩ |
      ⟨u, v, x, y, init, condition, increment, b, o, di, dc, dn, body, rfl, rfl, ho, rfl⟩⟩
    · exact ⟨rfl, o, .forEach binding d body, rfl, ho⟩
    · exact ⟨rfl, o, .forLoop di dc dn body, rfl, ho⟩
  · rintro ⟨hlead, o, d, rfl, ho⟩
    cases d with
    | @forEach binding v w e _ b d body =>
      exact ⟨_, rfl, _, rfl, .inl ⟨binding, v, w, e, b, o, d, body, rfl, rfl, ho, rfl⟩⟩
    | @forLoop u v w x init condition increment _ b di dc dn body =>
      exact ⟨_, rfl, _, rfl, .inr ⟨u, v, w, x, init, condition, increment, b, o, di, dc, dn, body,
        rfl, rfl, ho, rfl⟩⟩
    | expression d => exact (d.lead_ne hlead rfl).elim
    | declaration d => exact (d.lead_ne hlead nofun nofun).elim
    | _ => cases hlead

/-- A statement of one word. -/
def worded (kind : TokenKind) (s : Statement) : Language Statement := fun w _ r m =>
  w = [fixed kind, fixed .semicolon] ∧ r = s ∧ m = 0

theorem led_break_iff {w : List Terminal} {k : TokenKind} {s : Statement} {m : Nat} :
    led .kwBreak w k s m ↔ worded .kwBreak .breakLoop w k s m := by
  constructor
  · rintro ⟨hlead, o, d, rfl, ho⟩
    cases d with
    | breakLoop => exact ⟨rfl, rfl, rfl⟩
    | expression d => exact (d.lead_ne hlead rfl).elim
    | declaration d => exact (d.lead_ne hlead nofun nofun).elim
    | _ => cases hlead
  · rintro ⟨rfl, rfl, rfl⟩
    exact ⟨rfl, false, .breakLoop, rfl, nofun⟩

theorem led_continue_iff {w : List Terminal} {k : TokenKind} {s : Statement} {m : Nat} :
    led .kwContinue w k s m ↔ worded .kwContinue .continueLoop w k s m := by
  constructor
  · rintro ⟨hlead, o, d, rfl, ho⟩
    cases d with
    | continueLoop => exact ⟨rfl, rfl, rfl⟩
    | expression d => exact (d.lead_ne hlead rfl).elim
    | declaration d => exact (d.lead_ne hlead nofun nofun).elim
    | _ => cases hlead
  · rintro ⟨rfl, rfl, rfl⟩
    exact ⟨rfl, false, .continueLoop, rfl, nofun⟩

theorem reads_single {kind : TokenKind} {s : Statement} {t : Token} (ht : t.kind = kind)
    (hk : kind ≠ .eof ∧ kind.hasLexeme = false) :
    ReadsFrom n t (single s) (worded kind s) := by
  subst ht
  refine (reads_discard_advance hk.1 fun _ => reads_expect (by decide) fun t => reads_pure s).congr
    fun w k r m _ _ => ?_
  rw [Token.terminal_eq_fixed hk.2]
  constructor
  · rintro ⟨_, rfl, _, rfl, rfl, rfl, rfl⟩
    exact ⟨rfl, rfl, rfl⟩
  · rintro ⟨rfl, rfl, rfl⟩
    exact ⟨_, rfl, [], rfl, rfl, rfl, rfl⟩

theorem reads_import : Reads n importRule (led .kwImport) := by
  refine reads_importRule.congr fun w k s m => ?_
  constructor
  · rintro ⟨first, v, ss, hs, rfl, rfl, rfl⟩
    exact ⟨rfl, false, .importPath first hs, rfl, nofun⟩
  · rintro ⟨hlead, o, d, rfl, ho⟩
    cases d with
    | @importPath first w ss hs => exact ⟨first, w, ss, hs, rfl, rfl, rfl⟩
    | expression d => exact (d.lead_ne hlead rfl).elim
    | declaration d => exact (d.lead_ne hlead nofun nofun).elim
    | _ => cases hlead

theorem image_led_iff {kind : TokenKind} (hkind : kind ≠ .semicolon) {w : List Terminal}
    {k : TokenKind} {s : Option Statement} {m : Nat} (hw : lead w k = kind) :
    image some (led kind) w k s m ↔ phrases w k s m := by
  constructor
  · rintro ⟨s, ⟨-, hs⟩, rfl⟩
    exact hs
  · intro hs
    cases s with
    | none =>
      obtain ⟨o, d, -⟩ := hs
      cases d
      exact absurd hw.symm hkind
    | some s => exact ⟨s, ⟨hw, hs⟩, rfl⟩

theorem reads_statement (h : inner.Reads n) : Reads n (statementWith inner) phrases := by
  intro t
  have keywordFrom {rule : Rule Statement} {kind : TokenKind}
      (hrule : ReadsFrom n t rule (led kind)) (hk : t.kind = kind) (hkind : kind ≠ .semicolon) :
      ReadsFrom n t (some <$> rule) phrases :=
    (reads_map some hrule).congr fun w k s m hw _ => image_led_iff hkind (hw.trans hk)
  have keyword {rule : Rule Statement} {kind : TokenKind} (hrule : Reads n rule (led kind))
      (hk : t.kind = kind) (hkind : kind ≠ .semicolon) : ReadsFrom n t (some <$> rule) phrases :=
    keywordFrom (hrule t) hk hkind
  have declared (hk : t.kind = .kwVar ∨ t.kind = .kwConst) : ReadsFrom n t (do
      return some (Statement.declaration (← declarationWith inner.expression))) phrases := by
    refine (reads_bind (reads_declaration h.expression t) fun x t => reads_pure _).congr
      fun w k s m hw _ => ?_
    constructor
    · rintro ⟨w, x, _, _, _, rfl, ⟨d, rfl⟩, ⟨rfl, rfl, rfl⟩, rfl⟩
      rw [List.append_nil, Nat.max_zero]
      exact ⟨false, .declaration d, rfl, nofun⟩
    · rintro ⟨o, d, rfl, ho⟩
      cases d with
      | @declaration w x d =>
        exact ⟨w, x, d.need, [], 0, (List.append_nil w).symm, ⟨d, rfl⟩, ⟨rfl, rfl, rfl⟩,
          (Nat.max_zero _).symm⟩
      | expression d => rcases hk with hk | hk <;> exact (d.lead_ne (hw.trans hk) rfl).elim
      | _ => rcases hk with hk | hk <;> cases hw.trans hk
  refine reads_peek ?_
  split
  · rename_i hk
    refine (reads_discard_advance (by rw [hk]; decide) fun t => reads_pure none).congr
      fun w k s m hw _ => ?_
    rw [Token.terminal_eq_fixed (by rw [hk]; rfl), hk]
    rw [hk] at hw
    constructor
    · rintro ⟨_, rfl, rfl, rfl, rfl⟩
      exact ⟨false, .empty, rfl, nofun⟩
    · rintro ⟨o, d, rfl, ho⟩
      cases d with
      | empty => exact ⟨[], rfl, rfl, rfl, rfl⟩
      | expression d => exact (d.lead_ne hw rfl).elim
      | declaration d => exact (d.lead_ne hw nofun nofun).elim
      | _ => cases hw
  · exact keyword (reads_function h) ‹_› nofun
  · exact keyword reads_import ‹_› nofun
  · exact declared (.inl ‹_›)
  · exact declared (.inr ‹_›)
  · rename_i hk
    exact keywordFrom ((reads_single hk (by decide)).congr
      fun _ _ _ _ _ _ => led_break_iff.symm) hk nofun
  · rename_i hk
    exact keywordFrom ((reads_single hk (by decide)).congr
      fun _ _ _ _ _ _ => led_continue_iff.symm) hk nofun
  · exact keyword (reads_return h) ‹_› nofun
  · exact keyword (reads_if h) ‹_› nofun
  · exact keyword (reads_switch h) ‹_› nofun
  · exact keyword (reads_for h) ‹_› nofun
  · exact keyword (reads_while h) ‹_› nofun
  · exact keyword (reads_doWhile h) ‹_› nofun
  · rename_i hsemicolon hfunction himport hvar hconst hbreak hcontinue hreturn hif hswitch hfor
      hwhile hdo
    refine (reads_bind (h.expression t) fun e _ => reads_expect (by decide) fun t =>
      reads_pure (some (Statement.expression e))).congr fun w k s m hw _ => ?_
    constructor
    · rintro ⟨w, e, _, _, _, rfl, ⟨_, rfl, d, rfl, -⟩, ⟨_, rfl, rfl, rfl, rfl⟩, rfl⟩
      exact ⟨false, .expression d, Nat.max_zero _, nofun⟩
    · rintro ⟨o, d, rfl, ho⟩
      cases d with
      | @expression w e d =>
        exact ⟨w, e, d.need + 1, _, 0, rfl, ⟨d.need, rfl, d, rfl, d.bound_pos⟩,
          ⟨[], rfl, rfl, rfl, rfl⟩, (Nat.max_zero _).symm⟩
      | empty => exact (hsemicolon hw.symm).elim
      | declaration d => exact (d.lead_ne hw hconst hvar).elim
      | breakLoop => exact (hbreak hw.symm).elim
      | continueLoop => exact (hcontinue hw.symm).elim
      | returnValues => exact (hreturn hw.symm).elim
      | importPath => exact (himport hw.symm).elim
      | forward | function => exact (hfunction hw.symm).elim
      | ifElse => exact (hif hw.symm).elim
      | switch => exact (hswitch hw.symm).elim
      | forEach | forLoop => exact (hfor hw.symm).elim
      | whileLoop => exact (hwhile hw.symm).elim
      | doWhile => exact (hdo hw.symm).elim

theorem reads_body (h : inner.Reads n) : Reads n (bodyWith (statementWith inner)) bodies := by
  have many : Reads n (manyUntil (fun kind => kind = .closeBrace || kind = .eof)
      (statementWith inner)) _ := reads_manyUntil (reads_statement h) phrases_ne_nil
  refine Reads.congr (fun t => reads_accept (by decide) (fun t => reads_bind (many t) fun b _ =>
    reads_expect (by decide) fun t => reads_pure b) (reads_bind (reads_statement h t) fun s t =>
      reads_pure s.toList)) fun w k b m => ?_
  have hstop (k : TokenKind) (hk : (k = .closeBrace || k = .eof) = true) :
      k.startsStatement = false ∧ k ≠ .kwElse := by
    cases k <;> first | exact ⟨rfl, by decide⟩ | cases hk
  constructor
  · rintro (⟨_, rfl, w, b, _, _, _, rfl, hb, ⟨_, rfl, rfl, rfl, rfl⟩, rfl⟩ |
      ⟨-, w, s, _, _, _, rfl, ⟨o, d, rfl, ho⟩, ⟨rfl, rfl, rfl⟩, rfl⟩)
    · obtain ⟨ds, rfl, -⟩ := (blocks_iff hstop).mpr hb
      exact ⟨false, .braces ds, Nat.max_zero _, nofun⟩
    · rw [List.append_nil, Nat.max_zero]
      exact ⟨o, .single d, rfl, ho⟩
  · rintro ⟨o, d, rfl, ho⟩
    cases d with
    | @braces w b ds =>
      exact .inl ⟨_, rfl, w, b, ds.need, [fixed .closeBrace], 0, rfl,
        (blocks_iff hstop).mp ⟨ds, rfl, rfl⟩, ⟨[], rfl, rfl, rfl, rfl⟩, (Nat.max_zero _).symm⟩
    | @single _ w s d =>
      refine .inr ⟨fun hlead => ?_, w, s, d.need, [], 0, (List.append_nil w).symm, ⟨o, d, rfl, ho⟩,
        ⟨rfl, rfl, rfl⟩, (Nat.max_zero _).symm⟩
      have := d.startsStatement k
      rw [hlead] at this
      cases this

theorem reads_caseBody (h : inner.Reads n) :
    Reads n (caseBodyWith (statementWith inner)) (blocks TokenKind.endsCase) := by
  refine (reads_manyUntil (reads_statement h) phrases_ne_nil).congr fun w k b m =>
    (blocks_iff fun k hk => ?_).symm
  cases k <;> first | exact ⟨rfl, by decide⟩ | cases hk

theorem innerWithin_reads (n : Nat) : (innerWithin n).Reads n := by
  induction n with
  | zero =>
    exact ⟨reads_expressionWithin 0, reads_constantWithin 0,
      reads_tooDeep fun _ _ _ _ => deeper_ne_zero, reads_tooDeep fun _ _ _ _ => deeper_ne_zero⟩
  | succ n ih =>
    exact ⟨reads_expressionWithin (n + 1), reads_constantWithin (n + 1),
      reads_nested (reads_body ih), reads_nested (reads_caseBody ih)⟩

/-- A statement where the levels left are those of the state. -/
theorem reads_statement_of_levels (n : Nat) : Reads n statement phrases := by
  rintro t s rfl hs a r
  have hlevels : s.levels = n := by rw [State.levels, hs.1, Nat.add_sub_cancel_left]
  show statementWith (innerWithin s.levels) s = .ok a r ↔ _
  rw [hlevels]
  exact reads_statement (innerWithin_reads n) s.current s rfl hs a r

theorem reads_program (n : Nat) : Reads n program (blocks (· = .eof)) := by
  refine (reads_manyUntil (reads_statement_of_levels n) phrases_ne_nil).congr
    fun w k b m => (blocks_iff fun k hk => ?_).symm
  cases k <;> first | exact ⟨rfl, by decide⟩ | cases hk

end Rule

end ScriptFront
