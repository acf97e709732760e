import ScriptFront.Proofs.Rule.Tokens
import ScriptFront.Proofs.Statement.Exact

/-! # Reading a program follows the grammar -/

namespace ScriptFront

open Terminal

/-- Outcomes can be compared without comparing trees. -/
instance decidableError {ε α : Type} [DecidableEq ε] (r : Except ε α) (e : ε) :
    Decidable (r = .error e) :=
  match r with
  | .ok _ => .isFalse nofun
  | .error f => decidable_of_iff (f = e) ⟨congrArg _, Except.error.inj⟩

instance decidableYield {ε α : Type} (r : Except ε α) (p : α → Prop) [DecidablePred p] :
    Decidable (∃ a, r = .ok a ∧ p a) :=
  match r with
  | .ok a => decidable_of_iff (p a) ⟨fun h => ⟨a, rfl, h⟩, fun ⟨_, h, ha⟩ => Except.ok.inj h ▸ ha⟩
  | .error _ => .isFalse nofun

theorem parse_ok_iff {text : String} {limit : Nat} {p : Program} : parse text limit = .ok p ↔
    ∃ s r, State.start? text limit = .ok s ∧ Rule.program s = .ok p r := by
  unfold parse
  cases State.start? text limit with
  | error e =>
    constructor
    · intro h
      cases h
    · rintro ⟨_, _, h, -⟩
      cases h
  | ok s =>
    show s.readProgram.1 = .ok p ↔ _
    unfold State.readProgram
    cases hs : Rule.program s with
    | error e r =>
      constructor
      · intro h
        cases h
      · rintro ⟨_, _, h, hp⟩
        cases h
        rw [hs] at hp
        cases hp
    | ok q r =>
      constructor
      · intro h
        cases h
        exact ⟨s, r, rfl, hs⟩
      · rintro ⟨_, _, h, hp⟩
        cases h
        rw [hs] at hp
        cases hp
        rfl

/-- The tokens of a text that is read derive its tree, up to the end. -/
theorem exists_takes_of_parse {text : String} {limit : Nat} {p : Program}
    (h : parse text limit = .ok p) : ∃ t d w u, (Cursor.ofText text).next = (.ok t, d) ∧
      Takes ⟨d, t, limit, 0, 0⟩ w u ∧ u.current.kind = .eof ∧
      ∃ ds : Statement.Sequence w p, ds.need ≤ limit := by
  obtain ⟨s, r, hs, hp⟩ := parse_ok_iff.mp h
  unfold State.start? at hs
  split at hs
  · rename_i t d hnext
    cases hs
    have hleaves : Rule.Leaves limit ⟨d, t, limit, 0, 0⟩ := by
      constructor <;> simp
    obtain ⟨w, m, u, ⟨ds, rfl, heof⟩, hw, hm, -⟩ :=
      ((Rule.reads_program limit).ok_iff hleaves).mp hp
    exact ⟨t, d, w, u, hnext, hw, by simpa using heof, ds, hm⟩
  · cases hs

/-- A text is a program where its tokens are a block that nests no deeper than allowed. -/
theorem parse_ok_iff_of_takes {text : String} {limit : Nat} {s u : State} {w : List Terminal}
    (hs : State.start? text limit = .ok s) (hw : Takes s w u) (heof : u.current.kind = .eof)
    (hlimit : s.limit = limit) (hdepth : s.depth = 0) (hpeak : s.peak = 0) {p : Program} :
    parse text limit = .ok p ↔ ∃ ds : Statement.Sequence w p, ds.need ≤ limit := by
  have hleaves : Rule.Leaves limit s := by
    constructor <;> omega
  rw [parse_ok_iff]
  constructor
  · rintro ⟨s', r, hs', hp⟩
    rw [hs] at hs'
    cases hs'
    obtain ⟨v, m, q, ⟨ds, rfl, hq⟩, hv, hm, -⟩ := ((Rule.reads_program limit).ok_iff hleaves).mp hp
    obtain rfl := hv.eq_of_eof hw (by simpa using hq) heof
    exact ⟨ds, hm⟩
  · rintro ⟨ds, hm⟩
    refine ⟨s, _, hs, ((Rule.reads_program limit).ok_iff hleaves).mpr
      ⟨w, ds.need, u, ⟨ds, rfl, ?_⟩, hw, hm, rfl⟩⟩
    simpa using heof

/-- The levels that tokens take do not depend on how they are derived. -/
theorem Statement.Sequence.need_unique {s u : State} {w : List Terminal} {p q : Program}
    (ds : Sequence w p) (es : Sequence w q) (hw : Takes s w u) (heof : u.current.kind = .eof) :
    ds.need = es.need := by
  -- where there is room for both, the peak tells the levels
  have hroom := hw.reset (max ds.need es.need) 0 0
  have hleaves : Rule.Leaves (max ds.need es.need)
      { s with limit := max ds.need es.need, depth := 0, peak := 0 } := by
    constructor <;> simp
  have hread {r : Program} (d : Sequence w r) (h : d.need ≤ max ds.need es.need) :=
    ((Rule.reads_program _).ok_iff hleaves).mpr
      ⟨w, d.need, _, ⟨d, rfl, by simpa using heof⟩, hroom, h, rfl⟩
  have hsame := (hread ds (Nat.le_max_left _ _)).symm.trans (hread es (Nat.le_max_right _ _))
  injection hsame with _ hstate
  simpa using congrArg State.peak hstate

/-- A text that has tokens is read as a tree exactly where its tokens derive that tree. -/
theorem parse_follows_grammar (text : String) (ts : List Token) (h : tokenize text = .ok ts)
    (limit : Nat) (hl : text.length + 1 ≤ limit) (p : Program) :
    parse text limit = .ok p ↔ Program.Derives (ts.dropLast.map Token.terminal) p := by
  obtain ⟨s, u, hs, hw, heof, hlimit, hdepth, hpeak, hremaining⟩ := start_of_tokenize h limit
  rw [parse_ok_iff_of_takes hs hw heof hlimit hdepth hpeak]
  constructor
  · rintro ⟨ds, -⟩
    exact ⟨ds⟩
  · rintro ⟨ds⟩
    have := ds.need_le
    have := hw.length_add_remaining_le
    exact ⟨ds, by omega⟩

/-- The `else` goes to the inner condition. -/
theorem parse_follows_grammar_at_else : ∃ ts : List Token,
    tokenize "if (a) if (b) c; else d;" = .ok ts ∧
    "if (a) if (b) c; else d;".length + 1 ≤ 25 ∧
    parse "if (a) if (b) c; else d;" 25 = .ok [.ifElse (.mk (.literal (.identifier "a"))
      [.ifElse (.mk (.literal (.identifier "b")) [.expression (.literal (.identifier "c"))]) []
        (some [.expression (.literal (.identifier "d"))])]) [] none] := by
  have read : (Cursor.ofText "if (a) if (b) c; else d;").tokensFrom [] = _ :=
    (Cursor.tokensFrom_of_ne_eof rfl (by decide)).trans <|
    (Cursor.tokensFrom_of_ne_eof rfl (by decide)).trans <|
    (Cursor.tokensFrom_of_ne_eof rfl (by decide)).trans <|
    (Cursor.tokensFrom_of_ne_eof rfl (by decide)).trans <|
    (Cursor.tokensFrom_of_ne_eof rfl (by decide)).trans <|
    (Cursor.tokensFrom_of_ne_eof rfl (by decide)).trans <|
    (Cursor.tokensFrom_of_ne_eof rfl (by decide)).trans <|
    (Cursor.tokensFrom_of_ne_eof rfl (by decide)).trans <|
    (Cursor.tokensFrom_of_ne_eof rfl (by decide)).trans <|
    (Cursor.tokensFrom_of_ne_eof rfl (by decide)).trans <|
    (Cursor.tokensFrom_of_ne_eof rfl (by decide)).trans <|
    (Cursor.tokensFrom_of_ne_eof rfl (by decide)).trans <|
    (Cursor.tokensFrom_of_ne_eof rfl (by decide)).trans <|
    Cursor.tokensFrom_of_eof rfl (by decide)
  have word (x : String) : Expr.Phrase .assignment [carrying .identifier x]
      (.literal (.identifier x)) :=
    .conditional <| .simple <| .operand <| .operand <| .operand <| .operand <| .operand <|
      .operand <| .operand <| .operand <| .operand <| .operand <| .trailing <|
      .primary <| .literal (.identifier x)
  have inner := Statement.Phrase.ifElse (word "b") (.single (.expression (word "c")))
    (.otherwise (.single (.expression (word "d"))) (by decide)) (by simp)
  have outer := Statement.Phrase.ifElse (word "a") (.single inner) .none (by simp)
  have tokens := congrArg Prod.fst read
  exact ⟨_, tokens, by decide, (parse_follows_grammar _ _ tokens 25 (by decide) _).mpr
    ⟨.cons outer .nil⟩⟩

end ScriptFront
