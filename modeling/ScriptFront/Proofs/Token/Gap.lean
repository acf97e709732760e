import ScriptFront.Proofs.Token.Spelling

/-! # Gaps

Between two tokens stand blanks and comments. Reading a token skips all of them. -/

namespace ScriptFront

/-- Blanks and comments, at the end of a text or not: only there a comment goes without its line
feed. -/
inductive Gap : Bool → List Char → Prop where
  | nil {last : Bool} : Gap last []
  | blank {last : Bool} {c : Char} {g : List Char} (hc : isBlank c = true) (h : Gap last g) :
      Gap last (c :: g)
  | comment {last : Bool} {body g : List Char} (hb : '\n' ∉ body) (h : Gap last g) :
      Gap last ('#' :: (body ++ '\n' :: g))
  | lastComment {body : List Char} (hb : '\n' ∉ body) : Gap true ('#' :: body)

variable {last : Bool} {g body cs : List Char}

theorem Gap.head (h : Gap last g) : ∀ c ∈ g.head?, isBlank c = true ∨ c = '#' := by
  intro c hc
  cases h with
  | nil => cases hc
  | blank hb _ => exact .inl (Option.some.inj hc ▸ hb)
  | comment | lastComment => exact .inr (Option.some.inj hc).symm

/-- No token goes on with what begins a gap. -/
theorem Spelling.apart_of_gap {x : Terminal} {a : List Char} (h : Spelling x a)
    (hcs : ∀ c ∈ cs.head?, isBlank c = true ∨ c = '#') : Apart a cs := by
  have marks : ∀ c, isBlank c = true ∨ c = '#' → c ∉ glue ∧ isWordRest c = false ∧ c ≠ '.' := by
    intro c hc
    simp only [isBlank, Bool.or_eq_true, decide_eq_true_eq] at hc
    rcases hc with (((((rfl | rfl) | rfl) | rfl) | rfl) | rfl) | rfl <;> decide
  cases h with
  | symbol hk =>
    apply Apart.symbol hk
    intro c hc
    exact (marks c (hcs c hc)).1
  | keyword hk =>
    have hword := word_of_keyword hk
    rw [Bool.and_eq_true] at hword
    apply Apart.word hword.1
    intro c hc
    exact (marks c (hcs c hc)).2.1
  | name hs =>
    apply Apart.word (any_isWordStart_of_isName hs)
    intro c hc
    exact (marks c (hcs c hc)).2.1
  | integer hs hd =>
    apply Apart.numeral (numeral_of_digits hs hd).1
    intro c hc
    exact (marks c (hcs c hc)).2
  | float hs hw hd =>
    apply Apart.numeral (numeral_of_point hs hw hd).1
    intro c hc
    exact (marks c (hcs c hc)).2
  | @string s hs =>
    rw [Quoted.toList_encode]
    exact Apart.string _ _

namespace Cursor

variable (l : Location)

theorem skipFrom_comment (hb : '\n' ∉ body) (cs : List Char) :
    skipFrom true (body ++ cs) l = skipFrom true cs (l.after body) := by
  induction body generalizing l with
  | nil => rfl
  | cons c body ih =>
    rw [List.mem_cons, not_or] at hb
    rw [List.cons_append, skipFrom, if_neg (Ne.symm hb.1), Bool.true_or, if_pos rfl, ih _ hb.2,
      Location.after_cons]

theorem skipFrom_hash (cs : List Char) :
    skipFrom false ('#' :: cs) l = skipFrom true cs (l.next '#') := by
  rw [skipFrom, if_neg (by decide)]
  rfl

theorem skipFrom_blank {c : Char} (hc : isBlank c = true) (cs : List Char) :
    skipFrom false (c :: cs) l = skipFrom false cs (l.next c) := by
  have hhash : c ≠ '#' := by
    rintro rfl
    exact absurd hc (by decide)
  by_cases hn : c = '\n'
  · rw [skipFrom, if_pos hn]
  · rw [skipFrom, if_neg hn, if_neg (by simpa using hhash), if_pos hc]

theorem skipFrom_of_ne {c : Char} (hb : ¬isBlank c = true) (hc : c ≠ '#') (cs : List Char) :
    skipFrom false (c :: cs) l = ⟨c :: cs, l⟩ := by
  have hn : c ≠ '\n' := by
    rintro rfl
    exact hb (by decide)
  rw [skipFrom, if_neg hn, if_neg (by simpa using hc), if_neg hb]

/-- At the end of its line a comment ends. -/
theorem skipFrom_true (hcs : ∀ c ∈ cs.head?, c = '\n') :
    skipFrom true cs l = skipFrom false cs l := by
  cases cs with
  | nil => rfl
  | cons c cs =>
    rw [skipFrom, skipFrom, if_pos (hcs c rfl), if_pos (hcs c rfl)]

/-- A gap is skipped. -/
theorem skipFrom_gap (h : Gap last g) (hlast : last = false) (cs : List Char) :
    skipFrom false (g ++ cs) l = skipFrom false cs (l.after g) := by
  induction h generalizing l with
  | nil => rfl
  | blank hc _ ih =>
    rw [List.cons_append, skipFrom_blank _ hc, ih _ hlast, Location.after_cons]
  | comment hb _ ih =>
    rw [List.cons_append, List.append_assoc, List.cons_append, skipFrom_hash,
      skipFrom_comment _ hb, skipFrom, if_pos rfl, ih _ hlast, Location.after_cons,
      Location.after_append, Location.after_cons]
  | lastComment => cases hlast

/-- What is skipped is a gap, inside of a comment the rest of one. -/
theorem exists_gap_skipFrom (comment : Bool) (cs : List Char) : ∃ g,
    cs = g ++ (skipFrom comment cs l).rest ∧
    (skipFrom comment cs l).location = l.after g ∧
    if comment then
      ∀ body, '\n' ∉ body → Gap (skipFrom comment cs l).rest.isEmpty ('#' :: (body ++ g))
    else Gap (skipFrom comment cs l).rest.isEmpty g := by
  induction cs generalizing comment l with
  | nil =>
    refine ⟨[], rfl, rfl, ?_⟩
    cases comment with
    | false => exact .nil
    | true =>
      intro body hb
      rw [List.append_nil]
      exact .lastComment hb
  | cons c cs ih =>
    rw [skipFrom]
    by_cases hn : c = '\n'
    · rw [if_pos hn]
      obtain ⟨g, hcs, hl, hg⟩ := ih (l.next c) false
      refine ⟨c :: g, congrArg (c :: ·) hcs, hl, ?_⟩
      subst hn
      cases comment with
      | false => exact .blank (by decide) hg
      | true =>
        intro body hb
        exact .comment hb hg
    · rw [if_neg hn]
      cases comment with
      | true =>
        rw [Bool.true_or, if_pos rfl]
        obtain ⟨g, hcs, hl, hg⟩ := ih (l.next c) true
        refine ⟨c :: g, congrArg (c :: ·) hcs, hl, ?_⟩
        intro body hb
        have := hg (body ++ [c]) (by simp [hb, Ne.symm hn])
        rwa [List.append_assoc] at this
      | false =>
        rw [Bool.false_or]
        by_cases hc : c = '#'
        · rw [if_pos (by simpa using hc)]
          obtain ⟨g, hcs, hl, hg⟩ := ih (l.next c) true
          refine ⟨c :: g, congrArg (c :: ·) hcs, hl, ?_⟩
          subst hc
          exact hg [] List.not_mem_nil
        · rw [if_neg (by simpa using hc)]
          by_cases hb : isBlank c = true
          · rw [if_pos hb]
            obtain ⟨g, hcs, hl, hg⟩ := ih (l.next c) false
            exact ⟨c :: g, congrArg (c :: ·) hcs, hl, .blank hb hg⟩
          · rw [if_neg hb]
            exact ⟨[], rfl, rfl, .nil⟩

/-- In front of a token stands a gap; it is the last one of the text where no token follows. -/
theorem exists_gap_skip (c : Cursor) : ∃ g, c.rest = g ++ c.skip.rest ∧
    c.skip.location = c.location.after g ∧ Gap c.skip.rest.isEmpty g :=
  exists_gap_skipFrom c.location false c.rest

end Cursor

end ScriptFront
