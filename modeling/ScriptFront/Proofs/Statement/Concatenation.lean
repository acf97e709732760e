import ScriptFront.Proofs.Rule.Coupling
import ScriptFront.Proofs.Statement.Correct
import ScriptFront.Proofs.Token.Lines
import ScriptFront.Proofs.Token.Spelled

/-! # Programs one below the other

Behind the statements of a program the reader stands as at the start of what is below, but for the
peak and so many lines. Only an `else` there would go on with the last statement. -/

namespace ScriptFront

def ParseError.down (n : Nat) : ParseError → ParseError
  | lexical e => lexical (e.down n)
  | grammatical fault l => grammatical fault (l.down n)

namespace Coupling

/-- The same text so many lines further down. -/
def down (n limit : Nat) : Coupling where
  limit := limit
  limit' := limit
  Place _ l l' := l' = l.down n
  Stands c t c' t' := c' = c.down n ∧ t' = t.down n
  Left _ _ _ _ := True
  Levels m n := n = m
  Alike e e' := e' = e.down n
  Stops _ := False
  terminal_eq h := by rw [h.2]; rfl
  place h := by rw [h.2]; rfl
  left _ := trivial
  next {c _ _ _} h _ := by
    obtain ⟨rfl, rfl⟩ := h
    rw [Cursor.next_down]
    obtain ⟨e | t, d⟩ := c.next
    · exact .error rfl trivial
    · exact .ok ⟨rfl, rfl⟩
  le := Nat.le_of_eq
  descend h := Nat.succ.inj h
  fault h _ := by rw [h]; rfl
  tooDeep h hl := .inr ⟨h.symm, by rw [hl]; rfl⟩

/-- Other text below the text, which does not begin with a token. -/
def instead (limit : Nat) (ending : Location) (below below' : List Char) (e : LexError)
    (he : (⟨below', ending.next '\n'⟩ : Cursor).next.1 = .error e) : Coupling where
  limit := limit
  limit' := limit
  Place _ := Eq
  Stands c t c' t' := t = t' ∧ t.kind ≠ .eof ∧
    ∃ x : Cursor, c = x.above below ∧ c' = x.above below' ∧ x.ending = ending
  Left _ _ _ _ := True
  Levels m n := n = m
  Alike := Eq
  Stops f := f = .lexical e
  terminal_eq h := congrArg Token.terminal h.1
  place h := congrArg Token.location h.1
  left _ := trivial
  next h _ := by
    obtain ⟨-, -, x, rfl, rfl, rfl⟩ := h
    by_cases hrest : x.skip.rest = []
    · rw [x.next_above_of_eq_nil hrest below']
      change (x.under below').next.1 = .error e at he
      cases hnext : (x.under below').next with
      | mk r d =>
        rw [hnext] at he
        cases he
        exact .stopped rfl
    · rw [x.next_above hrest, x.next_above hrest]
      cases hnext : x.next with
      | mk r d =>
        cases r with
        | error e => exact .error rfl trivial
        | ok t =>
          refine .ok ⟨rfl, ?_, d, rfl, rfl, Cursor.ending_of_next hnext⟩
          intro ht
          exact hrest (Cursor.rest_skip_eq_nil hnext ht)
  le := Nat.le_of_eq
  descend h := Nat.succ.inj h
  fault := @ParseError.fault_eq
  tooDeep h hl := .inr ⟨h.symm, by rw [hl]⟩

end Coupling

namespace Rule

open Statement

theorem statement_progress {n : Nat} {s r : State} {o : Option Statement} (hs : Leaves n s)
    (h : statement s = .ok o r) : Leaves n r ∧ r.remaining < s.remaining := by
  obtain ⟨w, m, u, hw, hu, -, rfl⟩ := ((reads_statement_of_levels n).ok_iff hs).mp h
  exact ⟨(hs.takes hu).raise m, hu.remaining_lt (phrases_ne_nil hw)⟩

/-- The statements of a sequence are read one by one, up to a token that is not `else`. -/
theorem program_of_takes {n : Nat} {w : List Terminal} {p : Program} (ds : Sequence w p)
    {s u : State} (hs : Leaves n s) (hw : Takes s w u) (hn : ds.need ≤ n)
    (helse : u.current.kind ≠ .kwElse) :
    program s = ((p ++ ·) <$> program) (u.raise ds.need) := by
  induction hm : w.length using Nat.strongRecOn generalizing w p s u with
  | ind _ ih =>
    subst hm
    cases ds with
    | nil =>
      cases hw
      simp only [List.nil_append, id_map', Sequence.need, s.raise_zero hs.2]
    | @cons o v w x b d ds =>
      obtain ⟨q, hv, hw⟩ := hw.split
      rw [Sequence.need, Nat.max_le] at hn
      have hlead := d.startsStatement q.current.kind
      rw [← hv.current_kind] at hlead
      have hstop : (s.current.kind = .eof : Bool) = false := by
        rw [decide_eq_false_iff_not]
        intro heof
        rw [heof] at hlead
        cases hlead
      have hfollow : q.current.kind ≠ .kwElse := by
        rw [hw.current_kind]
        exact ds.lead_ne_else helse
      have hstatement : statement s = .ok x (q.raise d.need) :=
        ((reads_statement_of_levels n).ok_iff hs).mpr
          ⟨v, d.need, q, ⟨o, d, rfl, fun _ => hfollow⟩, hv, hn.1, rfl⟩
      have hrest := ih w.length (by
          have := List.length_pos_iff.mpr d.ne_nil
          rw [List.length_append]
          omega) ds ((hs.takes hv).raise d.need) (hw.raise d.need) hn.2 helse rfl
      rw [State.raise_raise] at hrest
      have hfirst : program s = ((x.toList ++ ·) <$> program) (q.raise d.need) :=
        manyUntil_of_item (fun _ _ _ => statement_progress) hs hstop hstatement
      rw [hfirst, map_eq_map hrest, Functor.map_map]
      simp only [List.append_assoc]
      rfl

end Rule

section

variable {c d d₁ : Cursor} {t t₁ : Token} {below : List Char} {limit : Nat}

/-- The tokens of a text are taken as well above a text that begins with a token. -/
theorem exists_takes_above {w : List Terminal} {u : State} (h : c.next = (.ok t₁, d₁))
    (hw : Takes ⟨d₁, t₁, limit, 0, 0⟩ w u) (heof : u.current.kind = .eof)
    (hbelow : (c.under below).next = (.ok t, d)) : ∃ t' d', (c.above below).next = (.ok t', d') ∧
      Takes ⟨d', t', limit, 0, 0⟩ w ⟨d, t, limit, 0, 0⟩ := by
  induction w generalizing c t₁ d₁ with
  | nil =>
    cases hw
    exact ⟨t, d, (c.next_above_of_eq_nil (Cursor.rest_skip_eq_nil h heof) below).trans hbelow,
      .nil _⟩
  | cons x w ih =>
    cases hw with
    | @cons _ _ t₂ d₂ _ hk hn hw =>
      have hnext := c.next_above (Cursor.rest_skip_ne_nil h hk) below
      rw [h] at hnext
      have hunder : d₁.under below = c.under below := by
        rw [Cursor.under, Cursor.ending_of_next h, Cursor.under]
      obtain ⟨t', d', hnext', hw'⟩ := ih hn hw (hunder ▸ hbelow)
      exact ⟨t₁, d₁.above below, hnext, .cons hk hnext' hw'⟩

end

namespace Cursor

theorem ofText_append_lineFeed (text₁ text₂ : String) :
    ofText (text₁ ++ "\n" ++ text₂) = (ofText text₁).above text₂.toList := by
  simp [ofText, above]

theorem under_ofText (text₁ text₂ : String) : (ofText text₁).under text₂.toList =
    (ofText text₂).down (1 + text₁.toList.count '\n') := by
  have hline := Location.line_after .start text₁.toList
  simp only [under, ending, ofText, down, Location.next, if_true, Location.down, hline]
  simp only [Location.start, mk.injEq, Location.mk.injEq, true_and, and_true]
  omega

end Cursor

theorem State.readProgram_map {s u : State} {f : Program → Program}
    (h : Rule.program s = (f <$> Rule.program) u) :
    s.readProgram.1 = f <$> u.readProgram.1 := by
  unfold readProgram
  rw [h]
  cases hu : Rule.program u with
  | ok p r =>
    have hmap : (f <$> Rule.program) u = .ok (f p) r := by
      show EStateM.map f Rule.program u = _
      rw [EStateM.map, hu]
    rw [hmap]
    rfl
  | error e r =>
    have hmap : (f <$> Rule.program) u = .error e r := by
      show EStateM.map f Rule.program u = _
      rw [EStateM.map, hu]
    rw [hmap]
    rfl

section

variable {text₁ text₂ : String} {limit : Nat} {p₁ : Program}

/-- Where no token begins the text below, that is the fault which the reader meets. -/
theorem parse_append_unreadable {e : LexError} {d : Cursor} (h : parse text₁ limit = .ok p₁)
    (hbelow : ((Cursor.ofText text₁).under text₂.toList).next = (.error e, d)) :
    parse (text₁ ++ "\n" ++ text₂) limit = .error (.lexical e) := by
  obtain ⟨t₁, d₁, w, u, hnext, hw, heof, ds, hds⟩ := exists_takes_of_parse h
  have htext := Cursor.ofText_append_lineFeed text₁ text₂
  by_cases hfirst : t₁.kind = .eof
  · have hnone := Cursor.next_above_of_eq_nil (Cursor.rest_skip_eq_nil hnext hfirst) text₂.toList
    rw [← htext, hbelow] at hnone
    exact State.parse_of_next_error hnone limit
  · -- with nothing in place of the text below, the first program alone is read
    have hnothing := Cursor.next_nil ((Cursor.ofText text₁).ending.next '\n')
    obtain ⟨t', d'', hnext', hw'⟩ := exists_takes_above hnext hw heof hnothing
    have habove := Cursor.next_above (Cursor.rest_skip_ne_nil hnext hfirst)
    rw [hnext] at habove
    rw [habove] at hnext'
    cases hnext'
    have hleaves : Rule.Leaves limit ⟨d₁.above [], t₁, limit, 0, 0⟩ := by
      constructor <;> simp
    have hread := ((Rule.reads_program limit).ok_iff hleaves).mpr
      ⟨w, ds.need, _, ⟨ds, rfl, by simp⟩, hw', hds, rfl⟩
    have hstart : (Coupling.instead limit (Cursor.ofText text₁).ending [] text₂.toList e
        (congrArg Prod.fst hbelow)).Coupled false limit limit ⟨d₁.above [], t₁, limit, 0, 0⟩
        ⟨d₁.above text₂.toList, t₁, limit, 0, 0⟩ := by
      apply Coupling.Coupled.start
      · exact ⟨rfl, hfirst, d₁, rfl, rfl, Cursor.ending_of_next hnext⟩
      · rfl
    have hcoupled := Coupling.program _ hstart
    rw [State.parse_of_next (htext ▸ habove text₂.toList), State.readProgram]
    rw [hread] at hcoupled
    generalize Rule.program ⟨d₁.above text₂.toList, t₁, limit, 0, 0⟩ = y at hcoupled
    cases hcoupled with
    | ok hr => exact absurd rfl hr.stands.2.1
    | stopped he =>
      cases he
      rfl

/-- Programs one below the other. -/
theorem parse_append_lineFeed (h : parse text₁ limit = .ok p₁)
    (helse : ∀ t d, (Cursor.ofText text₂).next = (.ok t, d) → t.kind ≠ .kwElse) :
    (∀ p₂, parse text₂ limit = .ok p₂ →
      parse (text₁ ++ "\n" ++ text₂) limit = .ok (p₁ ++ p₂)) ∧
    ∀ e, parse text₂ limit = .error e →
      parse (text₁ ++ "\n" ++ text₂) limit =
        .error (e.down (1 + text₁.toList.count '\n')) := by
  have hunder := Cursor.next_down (1 + text₁.toList.count '\n') (Cursor.ofText text₂)
  rw [← Cursor.under_ofText] at hunder
  cases hnext₂ : (Cursor.ofText text₂).next with
  | mk r d₂ =>
    rw [hnext₂] at hunder
    cases r with
    | error e =>
      have hparse := State.parse_of_next_error hnext₂ limit
      rw [hparse]
      constructor
      · intro p hp
        cases hp
      · rintro _ ⟨⟩
        exact parse_append_unreadable h hunder
    | ok t₂ =>
      obtain ⟨t₁, d₁, w, u, hnext, hw, heof, ds, hds⟩ := exists_takes_of_parse h
      obtain ⟨t', d', hnext', hw'⟩ := exists_takes_above hnext hw heof hunder
      rw [← Cursor.ofText_append_lineFeed] at hnext'
      have hleaves : Rule.Leaves limit ⟨d', t', limit, 0, 0⟩ := by
        constructor <;> simp
      have hprogram := Rule.program_of_takes ds hleaves hw' hds (helse t₂ d₂ hnext₂)
      have hstart : (Coupling.down (1 + text₁.toList.count '\n') limit).Coupled false limit limit
          ⟨d₂, t₂, limit, 0, 0⟩ (State.raise ⟨d₂.down (1 + text₁.toList.count '\n'),
            t₂.down (1 + text₁.toList.count '\n'), limit, 0, 0⟩ ds.need) := by
        apply Coupling.Coupled.start
        · exact ⟨rfl, rfl⟩
        · rfl
      rw [State.parse_of_next hnext₂, State.parse_of_next hnext', State.readProgram_map hprogram]
      rcases Coupling.readProgram _ hstart with
        ⟨p, _, _, hp, hp', -⟩ | ⟨e, _, _, _, he, he', rfl, -⟩ | ⟨_, -, hstop⟩
      · rw [hp, hp']
        constructor
        · rintro _ ⟨⟩
          rfl
        · intro e he
          cases he
      · rw [he, he']
        constructor
        · intro p hp
          cases hp
        · rintro _ ⟨⟩
          rfl
      · exact hstop.elim

end

/-- A condition that an `else` could go on with, and a comment, above a program and above a name on
which the text ends. -/
theorem parse_append_lineFeed_at_comment : ∃ p₁ p₂ : Program,
    parse "if (a) b; # c" 3 = .ok p₁ ∧ parse "d;" 3 = .ok p₂ ∧
    parse "d" 3 = .error (.grammatical (.wrongToken .semicolon .eof) ⟨1, 2⟩) ∧
    parse ("if (a) b; # c" ++ "\n" ++ "d;") 3 = .ok (p₁ ++ p₂) ∧
    parse ("if (a) b; # c" ++ "\n" ++ "d") 3 =
      .error (.grammatical (.wrongToken .semicolon .eof) ⟨2, 2⟩) := by
  have h₁ : ∃ p, parse "if (a) b; # c" 3 = .ok p ∧ p.length = 1 := by decide +kernel
  have h₂ : ∃ p, parse "d;" 3 = .ok p ∧ p.length = 1 := by decide +kernel
  have h₃ : parse "d" 3 = .error (.grammatical (.wrongToken .semicolon .eof) ⟨1, 2⟩) := by
    decide +kernel
  have first₂ : (Cursor.ofText "d;").next = (.ok ⟨.identifier, some "d", ⟨1, 1⟩⟩, _) := rfl
  have first₃ : (Cursor.ofText "d").next = (.ok ⟨.identifier, some "d", ⟨1, 1⟩⟩, _) := rfl
  obtain ⟨p₁, h₁, -⟩ := h₁
  obtain ⟨p₂, h₂, -⟩ := h₂
  refine ⟨p₁, p₂, h₁, h₂, h₃, (parse_append_lineFeed h₁ ?_).1 p₂ h₂,
    (parse_append_lineFeed h₁ ?_).2 _ h₃⟩
  · intro t d hnext
    rw [first₂] at hnext
    cases hnext
    decide
  · intro t d hnext
    rw [first₃] at hnext
    cases hnext
    decide

end ScriptFront
