import ScriptFront.Proofs.Token.Spelling

/-! # The longest token

At each place the longest text is taken that writes a token. -/

namespace ScriptFront

open Terminal

/-- How a terminal may be written: as its spelling, a string also between either quotes and with any
escapes. -/
inductive Writing : Terminal → List Char → Prop where
  | spelling {x : Terminal} {a : List Char} (h : Spelling x a) : Writing x a
  | quotation {q : Char} {s : String} {a : List Char} (hq : q = '"' ∨ q = '\'')
      (h : Quoted.Units q a s.toList) : Writing (carrying .string s) (q :: (a ++ [q]))

/-- A kind that carries no text is written as its spelling says, three kinds also as words. -/
theorem spelling_fixed_iff {k : TokenKind} {a : List Char} : Spelling (fixed k) a ↔
    (∃ s, k.spelling = some s ∧ a = s.toList) ∨
      ∃ s, (s, k) ∈ [("and", .logAnd), ("or", .logOr), ("not", .logNot)] ∧ a = s.toList := by
  constructor
  · intro h
    cases h with
    | symbol hk =>
      have table : ∀ k ∈ TokenKind.symbols, k.spelling = some (k.spelling.getD "") := by decide
      exact .inl ⟨_, table k hk, rfl⟩
    | @keyword s k hk =>
      have table : ∀ p ∈ TokenKind.keywords, p.2.spelling = some p.1 ∨
          p ∈ [("and", TokenKind.logAnd), ("or", .logOr), ("not", .logNot)] := by
        decide
      rcases table (s, k) (TokenKind.mem_keywords_of_ofKeyword? hk) with h | h
      · exact .inl ⟨s, h, rfl⟩
      · exact .inr ⟨s, h, rfl⟩
  · rintro (⟨s, hs, rfl⟩ | ⟨s, hs, rfl⟩)
    · have := Spelling.ofKind (k := k) (by rw [hs]; rfl)
      rwa [TokenKind.letters, hs] at this
    · apply Spelling.keyword
      simp only [List.mem_cons, Prod.mk.injEq, List.not_mem_nil, or_false] at hs
      rcases hs with ⟨rfl, rfl⟩ | ⟨rfl, rfl⟩ | ⟨rfl, rfl⟩ <;> decide

theorem length_le_takeWhile {p : Char → Bool} {b cs : List Char} (hb : ∀ c ∈ b, p c = true)
    (h : b <+: cs) : b.length ≤ (cs.takeWhile p).length := by
  obtain ⟨ds, rfl⟩ := h
  rw [List.takeWhile_append_of_pos hb, List.length_append]
  exact Nat.le_add_right _ _

theorem take_takeWhile_length (p : Char → Bool) (cs : List Char) :
    cs.take (cs.takeWhile p).length = cs.takeWhile p :=
  (List.prefix_iff_eq_take.mp (List.takeWhile_prefix p)).symm

namespace Scan

variable {cs : List Char} {k : TokenKind}

/-- A quotation that closes is taken whole. -/
theorem writing_of_quotation {q : Char} {o : Option String} (hq : q = '"' ∨ q = '\'')
    (h : (quotation q cs).outcome = .ok (k, o)) :
    Writing ⟨k, o⟩ ((q :: cs).take (quotation q cs).width) := by
  obtain ⟨a, s, rest, ending, rfl, ha, hstops, hread⟩ := Quoted.exists_units q cs [] 0
  simp only [quotation, Quoted.read, hread] at h ⊢
  cases hstops with
  | closed ds =>
    cases h
    have hsplit : q :: (a ++ q :: ds) = q :: (a ++ [q]) ++ ds := by simp
    rw [hsplit, List.take_left' (by simp [Quoted.Ending.width])]
    exact .quotation hq (by simpa using ha)
  | unclosed => cases h
  | danglingEscape => cases h

/-- A numeral without a point is all digits, and so are both sides of a single point. -/
theorem writing_of_numeral {c : Char} {o : Option String} (hc : c.isDigit = true)
    (h : (numeral (c :: cs)).outcome = .ok (k, o)) :
    Writing ⟨k, o⟩ ((c :: cs).take (numeral (c :: cs)).width) := by
  simp only [numeral, take_takeWhile_length] at h ⊢
  have hchars : ∀ d ∈ (c :: cs).takeWhile isNumeralChar, isNumeralChar d = true :=
    List.all_eq_true.mp List.all_takeWhile
  have hhead : (c :: cs).takeWhile isNumeralChar = c :: cs.takeWhile isNumeralChar :=
    List.takeWhile_cons_of_pos (isNumeralChar_of_isDigit hc)
  generalize (c :: cs).takeWhile isNumeralChar = a at h hchars hhead
  have hdigit {d : Char} (hd : d ∈ a) (hpoint : d ≠ '.') : d.isDigit = true := by
    simpa [isNumeralChar, hpoint] using hchars d hd
  split at h
  · rename_i hcount
    cases h
    rw [List.count_eq_zero] at hcount
    refine .spelling ?_
    have hinteger := Spelling.integer (s := String.ofList a) (by simp [hhead]) (by
      intro d hd
      rw [String.toList_ofList] at hd
      exact hdigit hd (by rintro rfl; exact hcount hd))
    rwa [String.toList_ofList] at hinteger
  · rename_i hcount
    cases h
    have hpoint : '.' ∈ a := List.count_pos_iff.mp (by omega)
    obtain ⟨whole, fraction, hsplit⟩ := List.append_of_mem hpoint
    rw [hsplit, List.count_append, List.count_cons_self] at hcount
    have hwhole : whole ≠ [] := by
      rintro rfl
      rw [hsplit, List.nil_append, List.cons.injEq] at hhead
      exact absurd hc (by rw [← hhead.1]; decide)
    have hdigits : ∀ d ∈ whole ++ fraction, d.isDigit = true := by
      intro d hd
      apply hdigit
      · rw [hsplit]
        simp only [List.mem_append, List.mem_cons] at hd ⊢
        rcases hd with hd | hd
        · exact .inl hd
        · exact .inr (.inr hd)
      · rintro rfl
        have := List.count_pos_iff.mpr hd
        rw [List.count_append] at this
        omega
    refine .spelling ?_
    have hfloat := Spelling.float (s := String.ofList a)
      (by rw [String.toList_ofList, hsplit]) hwhole hdigits
    rwa [String.toList_ofList] at hfloat
  · cases h

theorem writing_of_word {c : Char} {o : Option String} (hc : isWordStart c = true)
    (h : (word (c :: cs)).outcome = .ok (k, o)) :
    Writing ⟨k, o⟩ ((c :: cs).take (word (c :: cs)).width) := by
  simp only [word, take_takeWhile_length] at h ⊢
  have hrest : ∀ d ∈ (c :: cs).takeWhile isWordRest, isWordRest d = true :=
    List.all_eq_true.mp List.all_takeWhile
  have hhead : (c :: cs).takeWhile isWordRest = c :: cs.takeWhile isWordRest :=
    List.takeWhile_cons_of_pos (isWordRest_of_isWordStart hc)
  generalize (c :: cs).takeWhile isWordRest = a at h hrest hhead
  refine .spelling ?_
  split at h
  · rename_i hk
    cases h
    have hkeyword := Spelling.keyword hk
    rwa [String.toList_ofList] at hkeyword
  · rename_i hk
    cases h
    have hname : isName (String.ofList a) = true := by
      rw [isName, hk, String.toList_ofList, List.all_eq_true.mpr hrest, hhead, List.head?_cons,
        Option.any_some, hc]
      rfl
    have hidentifier := Spelling.name hname
    rwa [String.toList_ofList] at hidentifier

end Scan

/-- What is taken for a token writes it. -/
theorem writing_of_scan {c : Char} {cs : List Char} {k : TokenKind} {o : Option String}
    (h : (scan (c :: cs)).outcome = .ok (k, o)) :
    Writing ⟨k, o⟩ ((c :: cs).take (scan (c :: cs)).width) := by
  have hstarts := scan_starts c cs
  generalize scan (c :: cs) = found at h hstarts
  cases hstarts with
  | quotation hc => exact Scan.writing_of_quotation hc h
  | numeral hc => exact Scan.writing_of_numeral hc h
  | word hc => exact Scan.writing_of_word hc h
  | symbol hk =>
    cases h
    rw [← List.prefix_iff_eq_take.mp hk.fits]
    exact .spelling (.symbol hk.mem)
  | nothing => cases h

theorem width_scan_le (cs : List Char) : (scan cs).width ≤ cs.length := by
  cases cs with
  | nil => exact Nat.le_refl 0
  | cons c cs =>
    have hstarts := scan_starts c cs
    generalize scan (c :: cs) = found at hstarts
    cases hstarts with
    | quotation =>
      have := Quoted.width_readFrom_le c cs [] 0
      simp only [Scan.quotation, Quoted.read, List.length_cons]
      omega
    | numeral | word => exact (List.takeWhile_prefix _).length_le
    | symbol hk => exact hk.fits.length_le
    | nothing => exact Nat.zero_le _

section Length

variable {a cs : List Char}

theorem length_le_width_of_word (ha : (a.head?.any isWordStart && a.all isWordRest) = true)
    (hp : a <+: cs) : a.length ≤ (scan cs).width := by
  rw [Bool.and_eq_true, List.all_eq_true] at ha
  have hlength := length_le_takeWhile ha.2 hp
  obtain ⟨d, ds, rfl, hd⟩ := exists_cons_of_any ha.1
  obtain ⟨es, rfl⟩ := hp
  rw [List.cons_append, scan_of_isWordStart hd]
  exact hlength

theorem length_le_width_of_numeral (ha : a.head?.any Char.isDigit = true)
    (hn : ∀ c ∈ a, isNumeralChar c = true) (hp : a <+: cs) : a.length ≤ (scan cs).width := by
  have hlength := length_le_takeWhile hn hp
  obtain ⟨d, ds, rfl, hd⟩ := exists_cons_of_any ha
  obtain ⟨es, rfl⟩ := hp
  rw [List.cons_append, scan_of_isDigit hd]
  exact hlength

theorem length_le_width_of_quotation {q : Char} {s : List Char} (hq : q = '"' ∨ q = '\'')
    (ha : Quoted.Units q a s) (hp : q :: (a ++ [q]) <+: cs) :
    (q :: (a ++ [q])).length ≤ (scan cs).width := by
  obtain ⟨ds, rfl⟩ := hp
  rw [List.cons_append, scan_of_quote hq, List.append_assoc, List.singleton_append,
    Scan.quotation, Quoted.read_units hq ha]
  simp

theorem length_le_width_of_symbol {k : TokenKind} {found : TokenKind × Option String}
    (hk : k ∈ TokenKind.symbols) (hp : k.letters <+: cs) (hok : (scan cs).outcome = .ok found) :
    k.letters.length ≤ (scan cs).width := by
  rw [scan_of_symbol hk hp] at hok ⊢
  cases hs : Scan.symbol? cs with
  | none =>
    rw [hs] at hok
    cases hok
  | some found =>
    obtain ⟨hlongest, hwidth⟩ := Scan.longest_of_symbol? hs
    dsimp only
    rw [hwidth]
    exact hlongest.length_le k hk hp

end Length

namespace Writing

variable {x : Terminal} {a cs : List Char} {found : TokenKind × Option String}

/-- What is taken is as long as anything at this place that writes a token. -/
theorem length_le_width (h : Writing x a) (hp : a <+: cs) (hok : (scan cs).outcome = .ok found) :
    a.length ≤ (scan cs).width := by
  cases h with
  | quotation hq ha => exact length_le_width_of_quotation hq ha hp
  | spelling h =>
    cases h with
    | symbol hk => exact length_le_width_of_symbol hk hp hok
    | keyword hk => exact length_le_width_of_word (Spelling.word_of_keyword hk) hp
    | name hs => exact length_le_width_of_word (word_of_isName hs) hp
    | integer hs hd =>
      obtain ⟨hhead, hn⟩ := Spelling.numeral_of_digits hs hd
      exact length_le_width_of_numeral hhead hn hp
    | float hs hw hd =>
      obtain ⟨hhead, hn⟩ := Spelling.numeral_of_point hs hw hd
      exact length_le_width_of_numeral hhead hn hp
    | string hs =>
      rw [Quoted.toList_encode] at hp ⊢
      exact length_le_width_of_quotation (.inl rfl) (Quoted.units_flatMap_encodeChar hs) hp

theorem isSome_lexeme (h : Writing x a) : x.lexeme.isSome = x.kind.hasLexeme := by
  cases h with
  | spelling h => exact h.isSome_lexeme
  | quotation => rfl

theorem kind_ne_eof (h : Writing x a) : x.kind ≠ .eof := by
  have symbols : ∀ k ∈ TokenKind.symbols, k ≠ .eof := by decide
  have keywords : ∀ p ∈ TokenKind.keywords, p.2 ≠ .eof := by decide
  cases h with
  | quotation => nofun
  | spelling h =>
    cases h with
    | symbol hk => exact symbols _ hk
    | keyword hk => exact keywords _ (TokenKind.mem_keywords_of_ofKeyword? hk)
    | _ => nofun

theorem terminal_eq (h : Writing x a) (l : Location) :
    Token.terminal ⟨x.kind, x.lexeme, l⟩ = x := by
  have hlexeme := h.isSome_lexeme
  obtain ⟨k, o⟩ := x
  cases o with
  | none => exact Token.terminal_eq_fixed hlexeme.symm
  | some s => exact Token.terminal_eq_carrying hlexeme.symm

end Writing

namespace Cursor

variable {c d : Cursor} {t : Token}

/-- Behind what it skips, reading finds the end where nothing is left, and else the longest text
there that writes a token. -/
theorem next_cases (h : c.next = (.ok t, d)) :
    (c.skip.rest = [] ∧ t = ⟨.eof, none, c.skip.location⟩ ∧ d = c.skip) ∨
    ∃ x a, Writing x a ∧ t = ⟨x.kind, x.lexeme, c.skip.location⟩ ∧ c.skip.rest = a ++ d.rest ∧
      d.location = c.skip.location.after a ∧
      ∀ y b, Writing y b → b <+: c.skip.rest → b.length ≤ a.length := by
  simp only [next, move, Prod.mk.injEq] at h
  obtain ⟨hout, rfl⟩ := h
  split at hout
  · rename_i k o hscan
    cases hout
    have hwidth := width_scan_le c.skip.rest
    cases hrest : c.skip.rest with
    | nil =>
      rw [hrest] at hscan
      cases hscan
      exact .inl ⟨rfl, rfl, (congrArg (Cursor.mk · c.skip.location) hrest).symm⟩
    | cons y ys =>
      rw [hrest] at hscan hwidth
      refine .inr ⟨⟨k, o⟩, _, writing_of_scan hscan, rfl, (List.take_append_drop _ _).symm, rfl, ?_⟩
      intro z b hb hp
      rw [List.length_take, Nat.min_eq_left hwidth]
      exact hb.length_le_width hp hscan
  · cases hout

theorem rest_skip_ne_nil (h : c.next = (.ok t, d)) (ht : t.kind ≠ .eof) : c.skip.rest ≠ [] := by
  intro hrest
  simp only [next, hrest, scan, Prod.mk.injEq, Except.ok.injEq] at h
  exact ht (by rw [← h.1])

theorem rest_skip_eq_nil (h : c.next = (.ok t, d)) (ht : t.kind = .eof) : c.skip.rest = [] := by
  rcases next_cases h with ⟨hrest, -⟩ | ⟨x, a, hx, rfl, -⟩
  · exact hrest
  · exact absurd ht hx.kind_ne_eof

end Cursor

end ScriptFront
