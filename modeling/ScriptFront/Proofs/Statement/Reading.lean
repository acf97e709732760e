import ScriptFront.Proofs.Statement.ParameterLists

/-! # What the rules for statements read

An open phrase ends in front of every kind but `else`, and one that is not open in front of every
kind. -/

namespace ScriptFront

open Terminal ScriptFront.Language ScriptFront.Expr

/-- Whether a statement can start with such a token. -/
def TokenKind.startsStatement : TokenKind → Bool
  | semicolon | kwFunction | kwImport | kwVar | kwConst | kwBreak | kwContinue | kwReturn | kwIf
  | kwSwitch | kwFor | kwWhile | kwDo => true
  | k => k.startsExpression

theorem TokenKind.startsStatement_of_startsExpression {k : TokenKind}
    (h : k.startsExpression = true) : k.startsStatement = true := by
  cases k <;> first | rfl | cases h

/-- The kinds that end the statements of a case. -/
def TokenKind.endsCase (k : TokenKind) : Bool :=
  k = .kwCase || k = .kwDefault || k = .closeBrace || k = .eof

namespace Statement

theorem Phrase.startsStatement {o : Bool} {w : List Terminal} {s : Option Statement}
    (d : Phrase o w s) (k : TokenKind) : (lead w k).startsStatement = true := by
  cases d with
  | expression d =>
    rw [lead_append]
    exact TokenKind.startsStatement_of_startsExpression (d.startsExpression _)
  | declaration d =>
    cases d with
    | mk isConst => cases isConst <;> rfl
  | _ => rfl

/-- Statements, in front of the kinds that end them. -/
def phrases : Language (Option Statement) := fun w k s m =>
  ∃ o, ∃ d : Phrase o w s, m = d.need ∧ (o = true → k ≠ .kwElse)

def bodies : Language Block := fun w k b m =>
  ∃ o, ∃ d : Body o w b, m = d.need ∧ (o = true → k ≠ .kwElse)

/-- Blocks up to a kind that stops. -/
def blocks (stop : TokenKind → Bool) : Language Block := fun w k b m =>
  ∃ ds : Sequence w b, m = ds.need ∧ stop k = true

def nestedBodies : Language Block := deeper bodies

def nestedCases : Language Block := deeper (blocks TokenKind.endsCase)

theorem Phrase.ne_nil {o : Bool} {w : List Terminal} {s : Option Statement} (d : Phrase o w s) :
    w ≠ [] := by
  rintro rfl
  cases d.startsStatement .eof

theorem Body.ne_nil {o : Bool} {w : List Terminal} {b : Block} (d : Body o w b) : w ≠ [] := by
  cases d with
  | braces => exact List.cons_ne_nil _ _
  | single d => exact d.ne_nil

theorem Elses.lead_eq {o : Bool} {w : List Terminal} {arms : List Arm} {otherwise : Option Block}
    (d : Elses o w arms otherwise) (h : w ≠ []) (k : TokenKind) : lead w k = .kwElse := by
  cases d with
  | none => exact absurd rfl h
  | otherwise | elseIf => rfl

theorem Parts.endsCase {w : List Terminal} {cases : List Arm} {default : Option Block}
    {k : TokenKind} (hk : k.endsCase = true) (d : Parts w cases default) :
    (lead w k).endsCase = true := by
  cases d with
  | nil => exact hk
  | case | default => rfl

theorem phrases_ne_nil {w : List Terminal} {k : TokenKind} {s : Option Statement} {m : Nat}
    (h : phrases w k s m) : w ≠ [] := by
  obtain ⟨o, d, -⟩ := h
  exact d.ne_nil

/-- No statement begins with `else`. -/
theorem Sequence.lead_ne_else {w : List Terminal} {b : Block} {k : TokenKind} (ds : Sequence w b)
    (hk : k ≠ .kwElse) : lead w k ≠ .kwElse := by
  cases ds with
  | nil => exact hk
  | @cons _ v w _ _ d =>
    rw [lead_append]
    intro h
    have := d.startsStatement (lead w k)
    rw [h] at this
    cases this

/-- The statements that start with a kind. -/
def led (kind : TokenKind) : Language Statement := fun w k s m =>
  lead w k = kind ∧ phrases w k (some s) m

theorem blocks_iff {stop : TokenKind → Bool}
    (hstop : ∀ k, stop k = true → k.startsStatement = false ∧ k ≠ .kwElse) {w : List Terminal}
    {k : TokenKind} {b : Block} {m : Nat} : blocks stop w k b m ↔ Many stop phrases w k b m := by
  constructor
  · rintro ⟨ds, rfl, hk⟩
    induction hn : w.length using Nat.strongRecOn generalizing w b with
    | ind _ ih =>
      subst hn
      cases ds with
      | nil => exact .nil hk
      | @cons o v w s b d ds =>
        have hlt : w.length < (v ++ w).length := by
          have := List.length_pos_iff.mpr d.ne_nil
          rw [List.length_append]
          omega
        refine .cons ?_ ⟨o, d, rfl, fun _ => ?_⟩ (ih _ hlt ds rfl)
        · cases hs : stop (lead v (lead w k)) with
          | false => rfl
          | true =>
            have := (hstop _ hs).1
            rw [d.startsStatement] at this
            cases this
        · exact ds.lead_ne_else (hstop k hk).2
  · intro h
    induction h with
    | nil hk => exact ⟨.nil, rfl, hk⟩
    | cons _ hs _ ih =>
      obtain ⟨o, d, rfl, -⟩ := hs
      obtain ⟨ds, rfl, hk⟩ := ih
      exact ⟨.cons d ds, rfl, hk⟩

end Statement

namespace Rule

open Statement

variable {n : Nat}

/-- What the rules one level deeper read. -/
structure Inner.Reads (n : Nat) (inner : Inner) : Prop where
  expression : Rule.Reads n inner.expression nestedPhrases
  constant : Rule.Reads n inner.constant nestedConstants
  body : Rule.Reads n inner.body nestedBodies
  caseBody : Rule.Reads n inner.caseBody nestedCases

variable {inner : Inner}

/-- A condition and its block. -/
def armed : Language Arm := fun w k arm m =>
  ∃ u v o, ∃ d : Expr.Phrase .assignment u arm.guard, ∃ body : Body o v arm.body,
    w = fixed .kwIf :: fixed .openParen :: (u ++ fixed .closeParen :: v) ∧
      (o = true → k ≠ .kwElse) ∧ m = max (d.need + 1) (body.need + 1)

theorem reads_ifArm (h : inner.Reads n) : Reads n (ifArm inner) armed := by
  refine Reads.congr (fun _ => reads_expect (by decide) (reads_parenthesized h.expression fun e t =>
    reads_bind (h.body t) fun b t => reads_pure (Arm.mk e b))) fun w k arm m => ?_
  constructor
  · rintro ⟨_, rfl, _, rfl, _, e, _, _, _, rfl, ⟨u, d, rfl, rfl⟩,
      ⟨v, b, _, _, _, rfl, ⟨_, rfl, o, body, rfl, ho⟩, ⟨rfl, rfl, rfl⟩, rfl⟩, rfl⟩
    exact ⟨u, v, o, d, body, by simp, ho, by rw [Nat.max_zero]; rfl⟩
  · obtain ⟨e, b⟩ := arm
    rintro ⟨u, v, o, d, body, rfl, ho, rfl⟩
    exact ⟨_, rfl, _, rfl, u ++ [fixed .closeParen], e, d.need + 1, v, body.need + 1, by simp,
      ⟨u, d, rfl, rfl⟩, ⟨v, b, body.need + 1, [], 0, by simp, ⟨body.need, rfl, o, body, rfl, ho⟩,
        ⟨rfl, rfl, rfl⟩, (Nat.max_zero _).symm⟩, rfl⟩

/-- What an `else` brings, behind further conditions held last first. -/
def elseBranch (arms : List Arm) : Language (Option (List Arm × Option Block)) := fun w k o m =>
  if lead w k = .kwIf then seq armed (fun arm => value (some (arm :: arms, none))) w k o m
  else seq nestedBodies (fun b => value (some (arms, some b))) w k o m

def elsePass : List Arm × Option Block → Language (Option (List Arm × Option Block))
  | (_, some _) => value none
  | (arms, none) => option .kwElse (elseBranch arms) (value none)

theorem reads_elsePart (h : inner.Reads n) (state : List Arm × Option Block) :
    Reads n (elsePart inner state) (elsePass state) := by
  obtain ⟨arms, _ | b⟩ := state
  · refine fun t => reads_accept (by decide) (fun t => reads_peek ?_) (reads_pure none)
    split
    · rename_i hk
      refine (reads_bind (reads_ifArm h t) fun arm t => reads_pure _).congr fun w k o m hw _ => ?_
      rw [elseBranch, hw, if_pos hk]
    · rename_i hk
      refine (reads_bind (h.body t) fun b t => reads_pure _).congr fun w k o m hw _ => ?_
      rw [elseBranch, hw, if_neg hk]
  · exact fun t => reads_pure none

theorem elses_of_loop {state last : List Arm × Option Block} {w : List Terminal} {k : TokenKind}
    {m : Nat} (h : Loop elsePass state w k last m) :
    (∀ b, state.2 = some b → w = [] ∧ last = state ∧ m = 0) ∧
    (state.2 = none → ∃ o arms otherwise, ∃ d : Elses o w arms otherwise,
      last = (arms.reverse ++ state.1, otherwise) ∧ m = d.need ∧ (o = true → k ≠ .kwElse)) := by
  induction h with
  | @stop state _ _ _ h =>
    obtain ⟨arms, _ | b⟩ := state
    · obtain ⟨_, -, hs⟩ | ⟨hk, rfl, -, rfl⟩ := h
      · unfold elseBranch at hs
        split at hs
        · obtain ⟨_, _, _, _, _, -, -, ⟨-, hc, -⟩, -⟩ := hs
          cases hc
        · obtain ⟨_, _, _, _, _, -, -, ⟨-, hc, -⟩, -⟩ := hs
          cases hc
      · exact ⟨nofun, fun _ => ⟨true, [], none, .none, rfl, rfl, fun _ => hk⟩⟩
    · obtain ⟨rfl, -, rfl⟩ := h
      exact ⟨fun _ _ => ⟨rfl, rfl, rfl⟩, nofun⟩
  | @step state _ _ _ u k _ _ h hl ih =>
    obtain ⟨arms, _ | b⟩ := state
    · refine ⟨nofun, fun _ => ?_⟩
      obtain ⟨_, rfl, hs⟩ | ⟨-, -, hc, -⟩ := h
      · unfold elseBranch at hs
        split at hs
        · obtain ⟨_, ⟨e, b⟩, _, _, _, rfl, ⟨v, v', o, d, body, rfl, ho, rfl⟩, ⟨rfl, hc, rfl⟩,
            rfl⟩ := hs
          cases hc
          obtain ⟨r, arms', otherwise, rest, rfl, rfl, hr⟩ := ih.2 rfl
          have hopen : o = true → u = [] := fun h => by
            by_cases hu : u = []
            · exact hu
            · exact absurd (rest.lead_eq hu k) (ho h)
          have hw : fixed .kwElse :: (fixed .kwIf :: fixed .openParen ::
              (v ++ fixed .closeParen :: v') ++ []) ++ u = fixed .kwElse :: fixed .kwIf ::
                fixed .openParen :: (v ++ fixed .closeParen :: (v' ++ u)) := by simp
          rw [hw]
          exact ⟨r, .mk e b :: arms', otherwise, .elseIf d body rest hopen, by simp,
            by rw [Nat.max_zero, Nat.max_assoc]; rfl, hr⟩
        · rename_i hk
          obtain ⟨v, b, _, _, _, rfl, ⟨_, rfl, o, body, rfl, ho⟩, ⟨rfl, hc, rfl⟩, rfl⟩ := hs
          cases hc
          obtain ⟨rfl, rfl, rfl⟩ := ih.1 b rfl
          rw [List.append_nil, List.append_nil]
          rw [List.append_nil, lead_eq_lead body.ne_nil _ .eof] at hk
          exact ⟨o, [], some b, .otherwise body hk, rfl, by simp [Elses.need], ho⟩
      · cases hc
    · cases h.2.1

theorem loop_of_elses {o : Bool} {w : List Terminal} {arms : List Arm} {otherwise : Option Block}
    {k : TokenKind} (hk : o = true → k ≠ .kwElse) (read : List Arm) :
    (d : Elses o w arms otherwise) →
      Loop elsePass (read, none) w k (arms.reverse ++ read, otherwise) d.need
  | .none => .stop (.inr ⟨hk rfl, rfl, rfl, rfl⟩)
  | @Elses.otherwise o w b body h => by
    have pass : elsePass (read, none) (fixed .kwElse :: w) k (some (read, some b))
        (body.need + 1) := by
      refine .inl ⟨w, rfl, ?_⟩
      rw [elseBranch, lead_eq_lead body.ne_nil _ .eof, if_neg h]
      exact ⟨w, b, body.need + 1, [], 0, (List.append_nil w).symm,
        ⟨body.need, rfl, o, body, rfl, hk⟩, ⟨rfl, rfl, rfl⟩, (Nat.max_zero _).symm⟩
    have last : Loop elsePass (read, some b) [] k (read, some b) 0 := .stop ⟨rfl, rfl, rfl⟩
    have := Loop.step pass last
    rwa [List.append_nil, Nat.max_zero] at this
  | @Elses.elseIf u v w e o r b arms otherwise d body rest h => by
    have pass : elsePass (read, none) (fixed .kwElse :: fixed .kwIf :: fixed .openParen ::
        (u ++ fixed .closeParen :: v)) (lead w k) (some (.mk e b :: read, none))
        (max (d.need + 1) (body.need + 1)) := by
      refine .inl ⟨_, rfl, ?_⟩
      rw [elseBranch, lead_cons, kind_fixed, if_pos rfl]
      refine ⟨_, .mk e b, _, [], 0, (List.append_nil _).symm, ⟨u, v, o, d, body, rfl, fun ho => ?_,
        rfl⟩, ⟨rfl, rfl, rfl⟩, (Nat.max_zero _).symm⟩
      obtain rfl := h ho
      cases rest
      exact hk rfl
    have := Loop.step pass (loop_of_elses hk (.mk e b :: read) rest)
    rw [Nat.max_assoc] at this
    show Loop _ _ _ _ _ (max (d.need + 1) (max (body.need + 1) rest.need))
    simpa only [List.cons_append, List.nil_append, List.append_assoc, List.reverse_cons] using this

theorem reads_if (h : inner.Reads n) : Reads n (ifWith inner) (led .kwIf) := by
  have loop := reads_iterate (reads_elsePart h) fun {state w k next m} hpass => by
    obtain ⟨arms, _ | b⟩ := state
    · obtain ⟨_, rfl, -⟩ | ⟨-, -, hc, -⟩ := hpass
      · exact List.cons_ne_nil _ _
      · cases hc
    · cases hpass.2.1
  refine Reads.congr (fun t => reads_bind (reads_ifArm h t) fun first t => reads_bind
    (loop ([], none) t) fun state t => reads_pure (Statement.ifElse first state.1.reverse state.2))
    fun w k s m => ?_
  constructor
  · rintro ⟨_, ⟨e, b⟩, _, _, _, rfl, ⟨u, v, o, d, body, rfl, ho, rfl⟩, ⟨w, state, _, _, _, rfl, hl,
      ⟨rfl, rfl, rfl⟩, rfl⟩, rfl⟩
    obtain ⟨r, arms, otherwise, rest, rfl, rfl, hr⟩ := (elses_of_loop hl).2 rfl
    have hopen : o = true → w = [] := fun h => by
      by_cases hw : w = []
      · exact hw
      · refine absurd (rest.lead_eq hw k) ?_
        simpa using ho h
    have hw : fixed .kwIf :: fixed .openParen :: (u ++ fixed .closeParen :: v) ++ (w ++ []) =
        fixed .kwIf :: fixed .openParen :: (u ++ fixed .closeParen :: (v ++ w)) := by simp
    rw [hw, List.append_nil, List.reverse_reverse]
    exact ⟨rfl, r, .ifElse d body rest hopen, by rw [Nat.max_zero, Nat.max_assoc]; rfl, hr⟩
  · rintro ⟨hlead, o, d, rfl, ho⟩
    cases d with
    | @ifElse u v w e o' _ b arms otherwise d body rest hopen =>
      have hl := loop_of_elses ho [] rest
      refine ⟨_, .mk e b, max (d.need + 1) (body.need + 1), w, rest.need, by simp,
        ⟨u, v, o', d, body, rfl, fun h => ?_, rfl⟩, ⟨w, _, rest.need, [], 0,
          (List.append_nil w).symm, hl, ⟨rfl, by simp, rfl⟩, (Nat.max_zero _).symm⟩, ?_⟩
      · obtain rfl := hopen h
        cases rest
        exact ho rfl
      · rw [Nat.max_assoc]
        rfl
    | expression d => exact (d.lead_ne hlead rfl).elim
    | declaration d => exact (d.lead_ne hlead nofun nofun).elim
    | _ => cases hlead

/-- One labelled part; the cases are held last first. -/
def partPass (state : List Arm × Option Block) : Language (Option (List Arm × Option Block)) :=
  fun w k next m =>
    (lead w k = .closeBrace ∨ lead w k = .eof) ∧ value none w k next m ∨
    after (fixed .kwCase) (seq nestedConstants fun label => after (fixed .colon)
      (seq nestedCases fun b => value (some (.mk label b :: state.1, state.2)))) w k next m ∨
    state.2 = none ∧ after (fixed .kwDefault) (after (fixed .colon)
      (seq nestedCases fun b => value (some (state.1, some b)))) w k next m

theorem reads_switchPart (h : inner.Reads n) (state : List Arm × Option Block) :
    Reads n (switchPart inner state) (partPass state) := by
  obtain ⟨cases, default⟩ := state
  refine fun t => reads_peek ?_
  have declined (hk : t.kind = .closeBrace ∨ t.kind = .eof) :
      ReadsFrom n t (pure none) (partPass (cases, default)) := by
    refine (reads_pure none).congr fun w k next m hw _ => ?_
    constructor
    · exact fun h => .inl ⟨by rwa [hw], h⟩
    · rintro (⟨-, h⟩ | ⟨_, rfl, -⟩ | ⟨-, _, rfl, -⟩)
      · exact h
      · rcases hk with hk | hk <;> cases hw.trans hk
      · rcases hk with hk | hk <;> cases hw.trans hk
  split
  · exact declined (.inl ‹_›)
  · exact declined (.inr ‹_›)
  · rename_i hk
    refine (reads_discard_advance (by rw [hk]; decide) fun t => reads_bind (h.constant t)
      fun label t => reads_expect (by decide) fun t => reads_bind (h.caseBody t) fun b t =>
        reads_pure _).congr fun w k next m hw _ => ?_
    rw [Token.terminal_eq_fixed (by rw [hk]; rfl), hk]
    rw [hk] at hw
    constructor
    · exact fun h => .inr (.inl h)
    · rintro (⟨hstop, -⟩ | h | ⟨-, _, rfl, -⟩)
      · rw [hw] at hstop
        rcases hstop with hstop | hstop <;> cases hstop
      · exact h
      · cases hw
  · rename_i hk
    have apart {w k next m} (hw : lead w k = .kwDefault) : partPass (cases, default) w k next m ↔
        default = none ∧ after (fixed .kwDefault) (after (fixed .colon)
          (seq nestedCases fun b => value (some (cases, some b)))) w k next m := by
      constructor
      · rintro (⟨hstop, -⟩ | ⟨_, rfl, -⟩ | h)
        · rw [hw] at hstop
          rcases hstop with hstop | hstop <;> cases hstop
        · cases hw
        · exact h
      · exact fun h => .inr (.inr h)
    split
    · rename_i hdefault
      refine (reads_fail _).congr fun w k next m hw _ => ?_
      rw [apart (hw.trans hk)]
      cases default with
      | none => cases hdefault
      | some b => simp [nothing]
    · rename_i hdefault
      refine (reads_discard_advance (by rw [hk]; decide) fun t => reads_expect (by decide) fun t =>
        reads_bind (h.caseBody t) fun b t => reads_pure _).congr fun w k next m hw _ => ?_
      rw [Token.terminal_eq_fixed (by rw [hk]; rfl), hk, apart (hw.trans hk)]
      cases default with
      | none => simp
      | some b => exact absurd rfl hdefault
  · rename_i hbrace heof hcase hdefault
    refine (reads_fail _).congr fun w k next m hw _ => ?_
    constructor
    · exact False.elim
    · rintro (⟨hstop, -⟩ | ⟨_, rfl, -⟩ | ⟨-, _, rfl, -⟩)
      · rw [hw] at hstop
        exact (hstop.elim hbrace heof).elim
      · exact hcase hw.symm
      · exact hdefault hw.symm

theorem parts_of_loop {state last : List Arm × Option Block} {w : List Terminal} {k : TokenKind}
    {m : Nat} (h : Loop partPass state w k last m) :
    ∃ cases default, ∃ d : Parts w cases default, (state.2 = none ∨ default = none) ∧
      last = (cases.reverse ++ state.1, default.or state.2) ∧ m = d.need := by
  induction h with
  | stop h =>
    obtain ⟨-, rfl, -, rfl⟩ |
      ⟨_, -, _, _, _, _, _, -, -, ⟨_, -, _, _, _, _, _, -, -, ⟨-, hc, -⟩, -⟩, -⟩ |
      ⟨-, _, -, _, -, _, _, _, _, _, -, -, ⟨-, hc, -⟩, -⟩ := h
    · exact ⟨[], none, .nil, .inr rfl, rfl, rfl⟩
    · cases hc
    · cases hc
  | @step state _ _ _ u _ _ _ h hl ih =>
    obtain ⟨-, -, hc, -⟩ |
      ⟨_, rfl, v, e, _, _, _, rfl, ⟨i, rfl, d, rfl, -⟩, ⟨_, rfl, v', b, _, _, _, rfl,
        ⟨_, rfl, ds, rfl, -⟩, ⟨rfl, hc, rfl⟩, rfl⟩, rfl⟩ |
      ⟨hnone, _, rfl, _, rfl, v, b, _, _, _, rfl, ⟨_, rfl, ds, rfl, -⟩, ⟨rfl, hc, rfl⟩, rfl⟩ := h
    · cases hc
    · cases hc
      obtain ⟨cases, default, rest, hone, rfl, rfl⟩ := ih
      have hw : fixed .kwCase :: (v ++ fixed .colon :: (v' ++ [])) ++ u =
          fixed .kwCase :: (v ++ fixed .colon :: (v' ++ u)) := by simp
      rw [hw]
      exact ⟨.mk e b :: cases, default, .case d ds rest, hone, by simp,
        by rw [Nat.max_zero, Nat.max_assoc]; rfl⟩
    · cases hc
      obtain ⟨cases, default, rest, hone, rfl, rfl⟩ := ih
      obtain rfl : default = none := by simpa using hone
      have hw : fixed .kwDefault :: fixed .colon :: (v ++ []) ++ u =
          fixed .kwDefault :: fixed .colon :: (v ++ u) := by simp
      rw [hw]
      exact ⟨cases, some b, .default ds rest, .inl hnone, rfl, by rw [Nat.max_zero]; rfl⟩

theorem loop_of_parts {w : List Terminal} {cases read : List Arm} {default found : Option Block}
    (hone : found = none ∨ default = none) : (d : Parts w cases default) →
      Loop partPass (read, found) w .closeBrace (cases.reverse ++ read, default.or found) d.need
  | .nil => .stop (.inl ⟨.inl rfl, rfl, rfl, rfl⟩)
  | @Parts.case u v w e b cases default d ds rest => by
    have pass : partPass (read, found) (fixed .kwCase :: (u ++ fixed .colon :: v))
        (lead w .closeBrace) (some (.mk e b :: read, found)) (max (d.need + 1) (ds.need + 1)) :=
      .inr (.inl ⟨_, rfl, u, e, d.need + 1, _, ds.need + 1, rfl, ⟨d.need, rfl, d, rfl, d.bound_pos⟩,
        ⟨v, rfl, v, b, ds.need + 1, [], 0, (List.append_nil v).symm,
          ⟨ds.need, rfl, ds, rfl, rest.endsCase (k := .closeBrace) rfl⟩, ⟨rfl, rfl, rfl⟩,
          (Nat.max_zero _).symm⟩, rfl⟩)
    have := Loop.step pass (loop_of_parts hone rest)
    rw [Nat.max_assoc] at this
    show Loop _ _ _ _ _ (max (d.need + 1) (max (ds.need + 1) rest.need))
    simpa only [List.cons_append, List.nil_append, List.append_assoc, List.reverse_cons] using this
  | @Parts.default v w b cases ds rest => by
    obtain rfl : found = none := by simpa using hone
    have pass : partPass (read, none) (fixed .kwDefault :: fixed .colon :: v)
        (lead w .closeBrace) (some (read, some b)) (ds.need + 1) :=
      .inr (.inr ⟨rfl, _, rfl, v, rfl, v, b, ds.need + 1, [], 0, (List.append_nil v).symm,
        ⟨ds.need, rfl, ds, rfl, rest.endsCase (k := .closeBrace) rfl⟩, ⟨rfl, rfl, rfl⟩,
        (Nat.max_zero _).symm⟩)
    exact Loop.step pass (loop_of_parts (.inr rfl) rest)

end Rule

end ScriptFront
