import ScriptFront.Token.Reader
import ScriptFront.Proofs.Token.Spelled

/-! # Counting along

A reader that counts reads what a cursor at the same place reads. It ends some characters further
on, wherever it has been in between. -/

namespace ScriptFront

theorem Cursor.move_add (c : Cursor) (m n : Nat) : c.move (m + n) = (c.move m).move n := by
  rw [move, move, move, Cursor.mk.injEq, ← Location.after_append]
  constructor
  · rw [List.drop_drop]
  · rw [List.take_add]

namespace TokenKind

/-- What a longer symbol goes on with. -/
def continuations (k : TokenKind) : List Char :=
  symbols.filterMap fun l =>
    if k.letters.isPrefixOf l.letters then (l.letters.drop k.letters.length).head? else none

/-- Whether the kind is the symbol `a`, which only the characters of `more` make longer. -/
def isSymbol (k : TokenKind) (a more : List Char) : Bool :=
  symbols.contains k && k.letters = a && k.continuations.all more.contains

theorem scan_of_isSymbol {k : TokenKind} {a more cs : List Char} (h : k.isSymbol a more = true)
    (hcs : ∀ c ∈ more, cs.head? ≠ some c) : scan (a ++ cs) = ⟨.ok (k, none), a.length⟩ := by
  simp only [isSymbol, Bool.and_eq_true, List.contains_iff_mem, decide_eq_true_eq,
    List.all_eq_true] at h
  obtain ⟨⟨hk, rfl⟩, hmore⟩ := h
  apply (Spelling.symbol hk).scan_eq
  intro c hc
  rw [Bool.eq_false_iff]
  intro habsorbs
  obtain ⟨l, hl, es, hes⟩ := Apart.exists_of_absorbs hk habsorbs
  refine hcs c ?_ hc
  apply hmore
  rw [continuations, List.mem_filterMap]
  refine ⟨l, hl, ?_⟩
  rw [if_pos (List.isPrefixOf_iff_prefix.mpr ⟨_, hes⟩), ← hes, List.drop_left, List.head?_cons]

theorem isSymbol_of_ofMark? {c : Char} {k : TokenKind} (h : ofMark? c = some k) :
    k.isSymbol [c] [] = true := by
  unfold ofMark? at h
  split at h <;> cases h <;> decide

end TokenKind

/-- The operators of a family are written as their places in it say, and nothing but the rest of the
family is longer. -/
theorem Family.isSymbol_of_of? {c : Char} {f : Family} (h : of? c = some f) :
    f.bare.isSymbol [c] ('=' :: if f.doubled.isSome then [c] else []) = true ∧
    f.withEqual.isSymbol [c, '='] [] = true ∧
    ∀ p ∈ f.doubled, p.1.isSymbol [c, c] (if p.2.isSome then ['='] else []) = true ∧
      ∀ k ∈ p.2, k.isSymbol [c, c, '='] [] = true := by
  unfold of? at h
  split at h <;> cases h <;> decide

theorem scan_of_two_points {cs : List Char} (hcs : cs.head? ≠ some '.') :
    scan ('.' :: '.' :: cs) = ⟨.error (.unknownCharacter '.'), 0⟩ := by
  have hsymbol : Scan.symbol? ('.' :: '.' :: cs) = none := if_neg hcs
  rw [scan, if_neg (by decide), if_neg (by decide), if_neg (by decide), hsymbol]

namespace Reader

/-- The same place without the text behind it. -/
def toCursor (r : Reader) : Cursor := ⟨r.text.toList.drop r.position, r.location⟩

/-- So many characters further on. -/
def ahead (r : Reader) : Nat → Reader
  | 0 => r
  | n + 1 => r.advance.ahead n

variable {r : Reader} {c : Char} {cs : List Char}

theorem peek_eq_head? (r : Reader) : r.peek = r.toCursor.rest.head? := by
  rw [peek, toCursor, List.head?_drop, Array.getElem?_toList]

theorem peek_of_rest (h : r.toCursor.rest = c :: cs) : r.peek = some c := by
  rw [peek_eq_head?, h, List.head?_cons]

theorem peek_of_rest_nil (h : r.toCursor.rest = []) : r.peek = none := by
  rw [peek_eq_head?, h, List.head?_nil]

theorem rest_of_peek_none (h : r.peek = none) : r.toCursor.rest = [] := by
  rwa [peek_eq_head?, List.head?_eq_none_iff] at h

theorem exists_rest_of_peek (h : r.peek = some c) : ∃ cs, r.toCursor.rest = c :: cs := by
  rwa [peek_eq_head?, List.head?_eq_some_iff] at h

theorem advance_of_rest_nil (h : r.toCursor.rest = []) : r.advance = r := by
  rw [advance, peek_of_rest_nil h]

/-- Going on keeps the text, and counts the position, the line and the column along. -/
theorem advance_of_rest (h : r.toCursor.rest = c :: cs) : r.advance =
    ⟨r.text, r.position + 1, (r.location.next c).line, (r.location.next c).column⟩ := by
  rw [advance, peek_of_rest h, Location.next]
  dsimp only
  split <;> rfl

theorem text_advance (r : Reader) : r.advance.text = r.text := by
  cases h : r.toCursor.rest with
  | nil => rw [advance_of_rest_nil h]
  | cons => rw [advance_of_rest h]

theorem toCursor_advance (r : Reader) : r.advance.toCursor = r.toCursor.move 1 := by
  cases h : r.toCursor.rest with
  | nil =>
    rw [advance_of_rest_nil h, Cursor.move, h]
    exact congrArg (Cursor.mk · r.location) h
  | cons c cs =>
    have hdrop : r.text.toList.drop (r.position + 1) = cs := by
      rw [← List.drop_drop]
      exact congrArg (List.drop 1) h
    rw [advance_of_rest h, Cursor.move, h, toCursor, hdrop]
    rfl

theorem rest_advance (h : r.toCursor.rest = c :: cs) : r.advance.toCursor.rest = cs := by
  rw [toCursor_advance, Cursor.move, h]
  rfl

theorem ahead_succ (r : Reader) (n : Nat) : r.ahead (n + 1) = r.advance.ahead n := rfl

theorem ahead_add (r : Reader) (m n : Nat) : r.ahead (m + n) = (r.ahead m).ahead n := by
  induction m generalizing r with
  | zero => rw [Nat.zero_add, ahead]
  | succ m ih => rw [Nat.succ_add, ahead_succ, ih, ahead_succ]

theorem toCursor_ahead (r : Reader) (n : Nat) : (r.ahead n).toCursor = r.toCursor.move n := by
  induction n generalizing r with
  | zero => rfl
  | succ n ih => rw [ahead_succ, ih, toCursor_advance, ← Cursor.move_add, Nat.add_comm 1]

theorem rest_ahead (r : Reader) (n : Nat) :
    (r.ahead n).toCursor.rest = r.toCursor.rest.drop n := by
  rw [toCursor_ahead]
  rfl

theorem accept_of_rest (d : Char) (h : r.toCursor.rest = cs) :
    r.accept d = if cs.head? = some d then (true, r.advance) else (false, r) := by
  rw [accept, peek_eq_head?, h]

/-- What fits is taken, and the reader ends behind it. -/
theorem takeWhile_eq (p : Char → Bool) (r : Reader) (read : List Char) : r.takeWhile p read =
    (read.reverse ++ r.toCursor.rest.takeWhile p,
      r.ahead (r.toCursor.rest.takeWhile p).length) := by
  fun_induction takeWhile p r read with
  | case1 r read h =>
    rw [rest_of_peek_none h, List.takeWhile_nil, List.append_nil]
    rfl
  | case2 r read c h _ hp ih =>
    obtain ⟨cs, hcs⟩ := exists_rest_of_peek h
    rw [ih, rest_advance hcs, hcs, List.takeWhile_cons_of_pos hp, List.reverse_cons,
      List.append_assoc, List.length_cons, ahead_succ]
    rfl
  | case3 r read c h _ hp =>
    obtain ⟨cs, hcs⟩ := exists_rest_of_peek h
    rw [hcs, List.takeWhile_cons_of_neg hp, List.append_nil]
    rfl

/-- What a scan makes of a reader that stands where it begins. -/
def found (r : Reader) (s : Scan) : Except LexError Token × Reader :=
  (match s.outcome with
    | .ok (kind, lexeme) => .ok ⟨kind, lexeme, r.location⟩
    | .error fault => .error ⟨fault, (r.ahead s.width).location⟩, r.ahead s.width)

theorem numeral_eq (r : Reader) : r.numeral = r.found (.numeral r.toCursor.rest) := by
  rw [numeral, takeWhile_eq, found, Scan.numeral, List.reverse_nil, List.nil_append]
  dsimp only
  generalize (r.toCursor.rest.takeWhile isNumeralChar).count '.' = points
  rcases points with _ | _ | points <;> rfl

theorem word_eq (r : Reader) : r.word = r.found (.word r.toCursor.rest) := by
  rw [word, takeWhile_eq, found, Scan.word, List.reverse_nil, List.nil_append]
  dsimp only
  generalize TokenKind.ofKeyword? _ = kind?
  cases kind? <;> rfl

variable {q : Char} {start : Location} {read : List Char}

theorem quotation_of_rest_nil (h : r.toCursor.rest = []) : r.quotation q start read =
    (.error ⟨.unclosedString (String.ofList read.reverse), r.location⟩, r) := by
  rw [quotation]
  split
  · rfl
  · rename_i h'
    rw [peek_of_rest_nil h] at h'
    cases h'

theorem quotation_of_ne (h : r.toCursor.rest = c :: cs) (hc : c ≠ '\\') :
    r.quotation q start read =
      if c = '\n' then (.error ⟨.unclosedString (String.ofList read.reverse), r.location⟩, r)
      else if c = q then (.ok ⟨.string, some (String.ofList read.reverse), start⟩, r.advance)
      else r.advance.quotation q start (c :: read) := by
  rw [quotation]
  split
  · rename_i h'
    rw [peek_of_rest h] at h'
    cases h'
  · rename_i h'
    rw [peek_of_rest h] at h'
    cases h'
    rw [if_neg hc]

theorem quotation_of_backslash (h : r.toCursor.rest = '\\' :: cs) :
    r.quotation q start read =
      match cs with
      | [] => (.error ⟨.danglingEscape, r.advance.location⟩, r.advance)
      | d :: _ =>
        if d = '\n' then (.error ⟨.danglingEscape, r.advance.location⟩, r.advance)
        else r.advance.advance.quotation q start (d :: read) := by
  have hrest := rest_advance h
  rw [quotation]
  split
  · rename_i h'
    rw [peek_of_rest h] at h'
    cases h'
  · rename_i h'
    rw [peek_of_rest h] at h'
    cases h'
    rw [if_neg (by decide), if_pos rfl]
    cases cs with
    | nil =>
      split
      · rfl
      · rename_i h'
        rw [peek_of_rest_nil hrest] at h'
        cases h'
    | cons d ds =>
      split
      · rename_i h'
        rw [peek_of_rest hrest] at h'
        cases h'
      · rename_i h'
        rw [peek_of_rest hrest] at h'
        cases h'
        rfl

/-- What reading between quotes makes of a reader. -/
def quoted (r : Reader) (start : Location) (f : Quoted.Reading) : Except LexError Token × Reader :=
  (match f.ending with
    | .closed => .ok ⟨.string, some (String.ofList f.content), start⟩
    | .unclosed => .error ⟨.unclosedString (String.ofList f.content), (r.ahead f.width).location⟩
    | .danglingEscape => .error ⟨.danglingEscape, (r.ahead f.width).location⟩, r.ahead f.width)

theorem ahead_one_add (r : Reader) (n : Nat) : r.ahead (n + 1) = (r.ahead n).advance :=
  r.ahead_add n 1

/-- A reader in the middle of a quotation that began at `r` reads the rest of it. -/
theorem quotation_eq (r : Reader) (q : Char) (start : Location) (cs read : List Char)
    (width : Nat) (hcs : (r.ahead width).toCursor.rest = cs) :
    (r.ahead width).quotation q start read =
      r.quoted start (Quoted.readFrom q cs read width) := by
  fun_induction Quoted.readFrom q cs read width with
  | case1 read width => exact quotation_of_rest_nil hcs
  | case2 read width =>
    rw [quotation_of_backslash hcs, quoted]
    dsimp only
    rw [ahead_one_add]
  | case3 cs read width =>
    rw [quotation_of_backslash hcs, quoted]
    dsimp only
    rw [if_pos rfl, ahead_one_add]
  | case4 read width c cs hn ih =>
    have hrest := rest_advance (rest_advance hcs)
    rw [← ahead_one_add, ← ahead_one_add] at hrest
    rw [quotation_of_backslash hcs]
    dsimp only
    rw [if_neg hn, ← ahead_one_add, ← ahead_one_add, ih hrest]
  | case5 cs read width =>
    rw [quotation_of_ne hcs (by decide), if_pos rfl]
    rfl
  | case6 cs read width hb hb' hn =>
    rw [quotation_of_ne hcs (Quoted.ne_backslash hb hb'), if_neg hn, if_pos rfl, quoted]
    dsimp only
    rw [ahead_one_add]
  | case7 c cs read width hb hb' hn hq ih =>
    have hrest := rest_advance hcs
    rw [← ahead_one_add] at hrest
    rw [quotation_of_ne hcs (Quoted.ne_backslash hb hb'), if_neg hn, if_neg hq,
      ← ahead_one_add, ih hrest]

theorem back_advance_advance {d : Char} (h : r.toCursor.rest = c :: d :: cs) (hc : c ≠ '\n')
    (hd : d ≠ '\n') : r.advance.advance.back 2 = some r := by
  rw [advance_of_rest (rest_advance h), advance_of_rest h]
  simp [back, Location.next, location, hc, hd]

theorem points_of_one (h : r.toCursor.rest = '.' :: cs) (hcs : cs.head? ≠ some '.') :
    r.points = some (some .period, r.advance) := by
  rw [points, peek_eq_head?, rest_advance h]
  exact if_pos hcs

theorem points_of_three (h : r.toCursor.rest = '.' :: '.' :: '.' :: cs) :
    r.points = some (some .ellipsis, r.ahead 3) := by
  have hrest := rest_advance (rest_advance h)
  rw [points, peek_of_rest (rest_advance h), if_neg (by decide), accept_of_rest _ hrest,
    if_pos List.head?_cons]
  rfl

/-- Two points that are not three leave the reader where it was. -/
theorem points_of_two (h : r.toCursor.rest = '.' :: '.' :: cs) (hcs : cs.head? ≠ some '.') :
    r.points = some (none, r) := by
  have hrest := rest_advance (rest_advance h)
  rw [points, peek_of_rest (rest_advance h), if_neg (by decide), accept_of_rest _ hrest,
    if_neg hcs]
  dsimp only
  rw [back_advance_advance h (by decide) (by decide)]
  rfl

/-- One point, three, or none. -/
theorem points_eq (h : r.toCursor.rest = '.' :: cs) :
    r.points.map (fun found => match found.1 with
      | some kind => (Except.ok ⟨kind, none, r.location⟩, found.2)
      | none => (.error ⟨.unknownCharacter '.', r.location⟩, found.2)) =
    some (r.found (scan ('.' :: cs))) := by
  by_cases hone : cs.head? = some '.'
  · obtain ⟨ds, rfl⟩ := List.head?_eq_some_iff.mp hone
    by_cases htwo : ds.head? = some '.'
    · obtain ⟨es, rfl⟩ := List.head?_eq_some_iff.mp htwo
      rw [points_of_three h]
      rfl
    · rw [points_of_two h htwo, scan_of_two_points htwo]
      rfl
  · have hperiod : TokenKind.period.isSymbol ['.'] ['.'] = true := by decide
    have hscan : scan (['.'] ++ cs) = ⟨.ok (.period, none), 1⟩ :=
      TokenKind.scan_of_isSymbol hperiod (List.forall_mem_singleton.mpr hone)
    rw [points_of_one h hone]
    exact congrArg (fun s => some (r.found s)) hscan.symm

/-- What a symbol makes of a reader in front of it. -/
theorem found_symbol {k : TokenKind} {a more : List Char} (hk : k.isSymbol a more = true)
    (hcs : ∀ c ∈ more, cs.head? ≠ some c) :
    r.found (scan (a ++ cs)) = (.ok ⟨k, none, r.location⟩, r.ahead a.length) := by
  rw [TokenKind.scan_of_isSymbol hk hcs]
  rfl

/-- The steps through a family end at the longest symbol. -/
theorem operator_eq {f : Family} (hf : Family.of? c = some f) (h : r.toCursor.rest = c :: cs) :
    (Except.ok ⟨(r.operator c f).1, none, r.location⟩, (r.operator c f).2) =
      r.found (scan (c :: cs)) := by
  obtain ⟨hbare, hequal, hdoubled⟩ := Family.isSymbol_of_of? hf
  have hrest := rest_advance h
  rw [operator, accept_of_rest _ hrest]
  by_cases heq : cs.head? = some '='
  · obtain ⟨ds, rfl⟩ := List.head?_eq_some_iff.mp heq
    rw [if_pos heq]
    exact (found_symbol hequal (List.forall_mem_nil _)).symm
  rw [if_neg heq]
  dsimp only
  cases hd : f.doubled with
  | none =>
    rw [hd] at hbare
    exact (found_symbol hbare (List.forall_mem_singleton.mpr heq)).symm
  | some p =>
    obtain ⟨doubled, withEqual?⟩ := p
    rw [hd] at hbare
    obtain ⟨hdoubled, hlongest⟩ := hdoubled _ hd
    dsimp only
    rw [accept_of_rest _ hrest]
    by_cases hc : cs.head? = some c
    · obtain ⟨ds, rfl⟩ := List.head?_eq_some_iff.mp hc
      rw [if_pos hc]
      cases withEqual? with
      | none => exact (found_symbol hdoubled (List.forall_mem_nil _)).symm
      | some withEqual =>
        dsimp only
        rw [accept_of_rest _ (rest_advance hrest)]
        by_cases heq' : ds.head? = some '='
        · obtain ⟨es, rfl⟩ := List.head?_eq_some_iff.mp heq'
          rw [if_pos heq']
          exact (found_symbol (hlongest _ rfl) (List.forall_mem_nil _)).symm
        · rw [if_neg heq']
          exact (found_symbol hdoubled (List.forall_mem_singleton.mpr heq')).symm
    · rw [if_neg hc]
      refine (found_symbol hbare ?_).symm
      exact List.forall_mem_cons.mpr ⟨heq, List.forall_mem_singleton.mpr hc⟩

theorem symbol?_eq_none (hmark : TokenKind.ofMark? c = none) (hpoint : c ≠ '.')
    (hfamily : Family.of? c = none) (cs : List Char) : Scan.symbol? (c :: cs) = none := by
  have table : (TokenKind.symbols.all fun k => k.letters.head?.any fun d =>
      (TokenKind.ofMark? d).isSome || d = '.' || (Family.of? d).isSome) = true := by
    decide
  cases hs : Scan.symbol? (c :: cs) with
  | none => rfl
  | some found =>
    obtain ⟨k, width⟩ := found
    obtain ⟨hk, -⟩ := Scan.longest_of_symbol? hs
    obtain ⟨d, ds, hl, hd⟩ := exists_cons_of_any (List.all_eq_true.mp table k hk.mem)
    have hfits := hk.fits
    rw [hl, List.cons_prefix_cons] at hfits
    rw [hfits.1, hmark, hfamily] at hd
    exact absurd (by simpa using hd) hpoint

theorem classify_eq (h : r.toCursor.rest = c :: cs) :
    r.classify c = some (r.found (scan (c :: cs))) := by
  rw [classify]
  cases hmark : TokenKind.ofMark? c with
  | some k =>
    have hsymbol := TokenKind.isSymbol_of_ofMark? hmark
    exact congrArg some (found_symbol hsymbol (List.forall_mem_nil _)).symm
  | none =>
    dsimp only
    by_cases hpoint : c = '.'
    · subst hpoint
      rw [if_pos rfl]
      exact points_eq h
    rw [if_neg hpoint]
    cases hfamily : Family.of? c with
    | some f => exact congrArg some (operator_eq hfamily h)
    | none =>
      dsimp only
      by_cases hquote : c = '"' ∨ c = '\''
      · rw [if_pos hquote, scan_of_quote hquote]
        have hquotation := quotation_eq r.advance c r.location cs [] 0 (rest_advance h)
        rw [ahead] at hquotation
        rw [hquotation, quoted, found, Scan.quotation, Quoted.read]
        dsimp only
        cases (Quoted.readFrom c cs [] 0).ending <;> rfl
      rw [if_neg hquote]
      by_cases hdigit : c.isDigit = true
      · rw [if_pos hdigit, scan_of_isDigit hdigit, numeral_eq, h]
      rw [if_neg hdigit]
      by_cases hstart : isWordStart c = true
      · rw [if_pos hstart, scan_of_isWordStart hstart, word_eq, h]
      rw [if_neg hstart, scan, if_neg hquote, if_neg hdigit, if_neg hstart,
        symbol?_eq_none hmark hpoint hfamily]
      rfl

theorem location_ahead (r : Reader) (n : Nat) :
    (r.ahead n).location = (r.toCursor.move n).location :=
  congrArg Cursor.location (r.toCursor_ahead n)

theorem toCursor_of_rest (h : r.toCursor.rest = cs) : r.toCursor = ⟨cs, r.location⟩ :=
  congrArg (Cursor.mk · r.location) h

theorem skip_advance (h : r.toCursor.rest = c :: cs) (hc : isBlank c = true) :
    r.advance.toCursor.skip = r.toCursor.skip := by
  rw [toCursor_advance, toCursor_of_rest h, Cursor.skip, Cursor.skip, Cursor.skipFrom_blank _ hc]
  rfl

theorem skipComment_eq (r : Reader) : r.skipComment =
    r.ahead (r.toCursor.rest.takeWhile fun c => c ≠ '\n').length := by
  rw [skipComment, takeWhile_eq]

theorem skip_skipComment (h : r.toCursor.rest = '#' :: cs) :
    r.skipComment.toCursor.skip = r.toCursor.skip := by
  obtain ⟨body, behind, rfl, hbody, hbehind, htake⟩ : ∃ body behind, cs = body ++ behind ∧
      '\n' ∉ body ∧ (∀ c ∈ behind.head?, c = '\n') ∧
      ('#' :: cs).takeWhile (fun c => c ≠ '\n') = '#' :: body := by
    refine ⟨cs.takeWhile fun c => c ≠ '\n', cs.dropWhile fun c => c ≠ '\n',
      List.takeWhile_append_dropWhile.symm, ?_, ?_, List.takeWhile_cons_of_pos (by decide)⟩
    · intro hmem
      have := List.all_eq_true.mp List.all_takeWhile _ hmem
      simp at this
    · intro c hc
      have := List.head?_dropWhile_not (fun c => decide (c ≠ '\n')) cs
      rw [hc] at this
      simpa using this
  rw [skipComment_eq, toCursor_ahead, h, htake, toCursor_of_rest h, ← List.cons_append,
    Cursor.move_left, Cursor.skip, Cursor.skip, List.cons_append, Cursor.skipFrom_hash,
    Cursor.skipFrom_comment _ hbody, Cursor.skipFrom_true _ hbehind]
  rfl

/-- In front of the next token a reader finds what starts there. -/
theorem exists_next_eq (r : Reader) : ∃ n, (r.ahead n).toCursor = r.toCursor.skip ∧
    r.next = some ((r.ahead n).found (scan (r.ahead n).toCursor.rest)) := by
  fun_induction next r with
  | case1 r h =>
    have hrest := rest_of_peek_none h
    refine ⟨0, ?_, ?_⟩
    · rw [ahead, toCursor_of_rest hrest]
      rfl
    · rw [ahead, hrest]
      rfl
  | case2 r c h _ hb ih =>
    obtain ⟨cs, hcs⟩ := exists_rest_of_peek h
    obtain ⟨n, hskip, hnext⟩ := ih
    refine ⟨n + 1, ?_, ?_⟩
    · rw [ahead_succ, hskip, skip_advance hcs hb]
    · rw [ahead_succ, hnext]
  | case3 r h _ hb _ ih =>
    obtain ⟨cs, hcs⟩ := exists_rest_of_peek h
    obtain ⟨n, hskip, hnext⟩ := ih
    rw [skip_skipComment hcs] at hskip
    rw [hnext]
    rw [skipComment_eq, ← ahead_add] at hskip ⊢
    exact ⟨_, hskip, rfl⟩
  | case4 r c h _ hb hc =>
    obtain ⟨cs, hcs⟩ := exists_rest_of_peek h
    refine ⟨0, ?_, ?_⟩
    · rw [ahead, toCursor_of_rest hcs]
      exact (Cursor.skipFrom_of_ne _ hb hc cs).symm
    · rw [ahead, classify_eq hcs, hcs]

/-- A reader reads what a cursor reads, and ends so many characters further on. -/
theorem next_eq (r : Reader) : ∃ n, r.next = some (r.toCursor.next.1, r.ahead n) ∧
    (r.ahead n).toCursor = r.toCursor.next.2 := by
  obtain ⟨n, hskip, hnext⟩ := r.exists_next_eq
  refine ⟨n + (scan r.toCursor.skip.rest).width, ?_, ?_⟩
  · have hfirst : (r.ahead n).location = r.toCursor.skip.location :=
      congrArg Cursor.location hskip
    rw [hnext, found, hfirst, location_ahead, hskip, ahead_add]
    rfl
  · rw [ahead_add, toCursor_ahead, hskip]
    rfl

end Reader

end ScriptFront
