import ScriptFront.Expr.Rules
import ScriptFront.Proofs.Expr.Spelled
import ScriptFront.Proofs.Number.Value
import ScriptFront.Proofs.Rule.Progress

/-! # What numerals stand for

An integer is read as the number its digits stand for, and a float as the number nearest to it. The
text of a number is one token, which is read as that number again. -/

namespace ScriptFront

open Decimal

/-- One digit or more. -/
def IsInteger (cs : List Char) : Prop := cs ≠ [] ∧ ∀ c ∈ cs, c.isDigit = true

/-- Digits, a point, and perhaps more digits. -/
structure IsFloat (cs whole fraction : List Char) : Prop where
  split : cs = whole ++ '.' :: fraction
  whole_ne_nil : whole ≠ []
  isDigit : ∀ c ∈ whole ++ fraction, c.isDigit = true

namespace Token

/-- Some text has this token. -/
def Readable (t : Token) : Prop := ∃ c d : Cursor, c.next = (.ok t, d)

/-- A primary expression that starts here is this literal and ends behind it. -/
def Denotes (t : Token) (v : Literal) : Prop :=
  ∀ (expression : Rule Expr) (s : State), s.current = t → Rule.primaryWith expression s =
    (do discard Rule.advance; return .literal v : Rule Expr) s

/-- No primary expression starts here, since there is no such number. -/
def OutOfRange (t : Token) : Prop :=
  ∀ (expression : Rule Expr) (s : State), s.current = t →
    Rule.primaryWith expression s = .error (.grammatical (.numberOutOfRange t.content) t.location) s

end Token

/-- The text is one token of the kind, and the token denotes the literal. -/
def Literal.Survives (v : Literal) (k : TokenKind) : Prop :=
  ∃ l, tokenize v.text = .ok [⟨k, some v.text, .start⟩, ⟨.eof, none, l⟩] ∧
    ∀ l, Token.Denotes ⟨k, some v.text, l⟩ v

namespace Token.Readable

variable {t : Token} {s : String}

/-- A token that is read is the end or written in some way. -/
theorem writing (h : t.Readable) : t.kind = .eof ∨ ∃ a, Writing ⟨t.kind, t.lexeme⟩ a := by
  obtain ⟨c, d, hnext⟩ := h
  rcases Cursor.next_cases hnext with ⟨-, rfl, -⟩ | ⟨x, a, hx, rfl, -⟩
  · exact .inl rfl
  · exact .inr ⟨a, hx⟩

theorem of_spelling {x : Terminal} {a : List Char} (h : Spelling x a) (l : Location) :
    Readable ⟨x.kind, x.lexeme, l⟩ :=
  ⟨⟨a ++ [], l⟩, _, Cursor.next_spelling l h nofun⟩

theorem of_isInteger (h : IsInteger s.toList) (l : Location) :
    Readable ⟨.integer, some s, l⟩ :=
  of_spelling (.integer h.1 h.2) l

theorem of_isFloat {whole fraction : List Char} (h : IsFloat s.toList whole fraction)
    (l : Location) : Readable ⟨.float, some s, l⟩ :=
  of_spelling (.float h.split h.whole_ne_nil h.isDigit) l

/-- Integers are read off digits, and floats off digits with one point among them, not in front. -/
theorem isNumeral (h : t.Readable) : (t.kind = .integer → IsInteger t.content.toList) ∧
    (t.kind = .float → ∃ whole fraction, IsFloat t.content.toList whole fraction) := by
  have symbols : ∀ k ∈ TokenKind.symbols, k ≠ .integer ∧ k ≠ .float := by decide
  have keywords : ∀ p ∈ TokenKind.keywords, p.2 ≠ .integer ∧ p.2 ≠ .float := by decide
  rcases h.writing with heof | ⟨a, ha⟩
  · rw [heof]
    exact ⟨nofun, nofun⟩
  · rw [content]
    generalize t.lexeme = o at ha ⊢
    generalize t.kind = k at ha ⊢
    generalize hx : (⟨k, o⟩ : Terminal) = x at ha
    cases ha with
    | quotation =>
      cases hx
      exact ⟨nofun, nofun⟩
    | spelling ha =>
      cases ha with
      | symbol hs =>
        cases hx
        obtain ⟨hinteger, hfloat⟩ := symbols _ hs
        exact ⟨(absurd · hinteger), (absurd · hfloat)⟩
      | keyword hs =>
        cases hx
        obtain ⟨hinteger, hfloat⟩ := keywords _ (TokenKind.mem_keywords_of_ofKeyword? hs)
        exact ⟨(absurd · hinteger), (absurd · hfloat)⟩
      | name | string =>
        cases hx
        exact ⟨nofun, nofun⟩
      | integer hs hd =>
        cases hx
        exact ⟨fun _ => ⟨hs, hd⟩, nofun⟩
      | float hs hw hd =>
        cases hx
        exact ⟨nofun, fun _ => ⟨_, _, hs, hw, hd⟩⟩

end Token.Readable

namespace Token

variable {t : Token} {v : Literal}

/-- In front of a number, a primary expression is what the number stands for, if anything does. -/
theorem primaryWith_of_number {expression : Rule Expr} {s : State}
    (hk : s.current.kind = .integer ∨ s.current.kind = .float) :
    (∀ v, Literal.ofToken s.current = .ok v → Rule.primaryWith expression s =
      (do discard Rule.advance; return .literal v : Rule Expr) s) ∧
    ∀ fault, Literal.ofToken s.current = .error fault → Rule.primaryWith expression s =
      .error (.grammatical fault s.current.location) s := by
  have hpeek : Rule.peek s = .ok s.current.kind s := rfl
  have hcurrent : Rule.current s = .ok s.current s := rfl
  rw [Rule.primaryWith, Rule.bind_of_ok hpeek]
  constructor
  · intro v hv
    rcases hk with hk | hk
    all_goals
      rw [hk]
      dsimp only
      rw [Rule.bind_of_ok hcurrent, hv]
  · intro fault hfault
    rcases hk with hk | hk
    all_goals
      rw [hk]
      dsimp only
      rw [Rule.bind_of_ok hcurrent, hfault]
      rfl

theorem denotes_of_ofToken (hk : t.kind = .integer ∨ t.kind = .float)
    (h : Literal.ofToken t = .ok v) : t.Denotes v := by
  rintro expression s rfl
  exact (primaryWith_of_number hk).1 v h

theorem outOfRange_of_ofToken (hk : t.kind = .integer ∨ t.kind = .float)
    (h : Literal.ofToken t = .error (.numberOutOfRange t.content)) : t.OutOfRange := by
  rintro expression s rfl
  exact (primaryWith_of_number hk).2 _ h

/-- An integer denotes what its digits stand for, up to the largest of 31 bits. -/
theorem denotes_of_integer (hk : t.kind = .integer) :
    (positional t.content.toList ≤ 2 ^ 31 - 1 → ∃ v : Int32,
      v.toInt = positional t.content.toList ∧ t.Denotes (.integer v)) ∧
    (2 ^ 31 - 1 < positional t.content.toList → t.OutOfRange) := by
  rw [← natural_eq_positional]
  constructor
  · intro hle
    have hlt : natural t.content.toList < 2 ^ 31 := by omega
    refine ⟨.ofNat (natural t.content.toList), Int32.toInt_ofNat_of_lt hlt,
      denotes_of_ofToken (.inl hk) ?_⟩
    unfold Literal.ofToken
    rw [hk]
    exact if_pos hlt
  · intro hlt
    refine outOfRange_of_ofToken (.inl hk) ?_
    unfold Literal.ofToken
    rw [hk]
    exact if_neg (by omega)

/-- A float denotes the number nearest to what its digits stand for, up to halfway to the first that
there is none for. -/
theorem denotes_of_float (hk : t.kind = .float) {whole fraction : List Char}
    (h : IsFloat t.content.toList whole fraction) :
    (pointed whole fraction < 2 ^ 128 - 2 ^ 103 → ∃ x : Binary32, x.isNegative = false ∧
      x.IsNearest (pointed whole fraction) ∧ t.Denotes (.float x)) ∧
    (2 ^ 128 - 2 ^ 103 ≤ pointed whole fraction → t.OutOfRange) := by
  have hread := read_pointed (fun c hc => h.isDigit c (List.mem_append_left _ hc)) fraction
  obtain ⟨hsome, hnone⟩ := Binary32.ofDecimal?_spec (.read (whole ++ '.' :: fraction))
  rw [hread, ← h.split] at hsome hnone
  constructor
  · intro hlt
    obtain ⟨x, hx, hsign, hnearest⟩ := hsome hlt
    refine ⟨x, hsign, hnearest, denotes_of_ofToken (.inr hk) ?_⟩
    unfold Literal.ofToken
    rw [hk, hx]
  · intro hle
    refine outOfRange_of_ofToken (.inr hk) ?_
    unfold Literal.ofToken
    rw [hk, hnone hle]

end Token

/-- A text that spells one terminal is one token. -/
theorem tokenize_of_spelling {k : TokenKind} {s : String}
    (h : Spelling (.carrying k s) s.toList) :
    ∃ l, tokenize s = .ok [⟨k, some s, .start⟩, ⟨.eof, none, l⟩] := by
  have hnext := Cursor.next_spelling .start h (show Apart _ [] from nofun)
  rw [List.append_nil] at hnext
  refine ⟨Location.start.after s.toList, ?_⟩
  rw [tokenize, Cursor.tokenize]
  show (Cursor.tokensFrom ⟨s.toList, .start⟩ []).1 = _
  rw [Cursor.tokensFrom_of_ne_eof hnext (Writing.spelling h).kind_ne_eof,
    Cursor.tokensFrom_of_eof (Cursor.next_nil _) rfl]
  rfl

/-- A number that is not negative spells a terminal, and the terminal denotes it. -/
theorem Literal.survives_of_isWellFormed {v : Literal} {k : TokenKind}
    (h : v.isWellFormed = true) (hk : k = .integer ∨ k = .float)
    (hprinted : v.printed = .carrying k v.text) : v.Survives k := by
  have hspelling := spelling_printed h
  have hdenoted := denoted_printed h
  rw [hprinted] at hspelling hdenoted
  obtain ⟨l, htokens⟩ := tokenize_of_spelling hspelling
  refine ⟨l, htokens, fun l => Token.denotes_of_ofToken hk (ofToken_eq_ok_iff.mpr ?_)⟩
  have hlexeme : k.hasLexeme = true := by
    rcases hk with rfl | rfl <;> rfl
  rwa [Token.terminal_eq_carrying hlexeme]

theorem isFloat_text {x : Binary32} (hfinite : x.isFinite = true)
    (hsign : x.isNegative = false) :
    ∃ whole fraction, IsFloat x.text.toList whole fraction ∧ fraction ≠ [] :=
  ⟨_, _, ⟨Binary32.toList_text hfinite hsign, Nat.toDigits_ne_nil, isDigit_of_mem_text _⟩,
    behind_ne_nil _⟩

/-- Numerals denote what they say, and the text of a number denotes the number. -/
theorem numerals_denote_and_survive :
    (∀ t : Token, t.Readable → t.kind = .integer → IsInteger t.content.toList ∧
      (positional t.content.toList ≤ 2 ^ 31 - 1 → ∃ v : Int32,
        v.toInt = positional t.content.toList ∧ t.Denotes (.integer v)) ∧
      (2 ^ 31 - 1 < positional t.content.toList → t.OutOfRange)) ∧
    (∀ (s : String) (l : Location), IsInteger s.toList → Token.Readable ⟨.integer, some s, l⟩) ∧
    (∀ t : Token, t.Readable → t.kind = .float →
      (∃ whole fraction, IsFloat t.content.toList whole fraction) ∧
      ∀ whole fraction, IsFloat t.content.toList whole fraction →
        (pointed whole fraction < 2 ^ 128 - 2 ^ 103 → ∃ x : Binary32, x.isNegative = false ∧
          x.IsNearest (pointed whole fraction) ∧ t.Denotes (.float x)) ∧
        (2 ^ 128 - 2 ^ 103 ≤ pointed whole fraction → t.OutOfRange)) ∧
    (∀ (s : String) (whole fraction : List Char) (l : Location),
      IsFloat s.toList whole fraction → Token.Readable ⟨.float, some s, l⟩) ∧
    (∀ v : Int32, 0 ≤ v → (Literal.integer v).Survives .integer) ∧
    ∀ x : Binary32, x.isFinite = true → x.isNegative = false →
      (∃ whole fraction, IsFloat x.text.toList whole fraction ∧ fraction ≠ []) ∧
      (Literal.float x).Survives .float := by
  refine ⟨fun t ht hk => ?_, fun s l h => .of_isInteger h l, fun t ht hk => ?_,
    fun s whole fraction l h => .of_isFloat h l, fun v hv => ?_, fun x hfinite hsign => ?_⟩
  · exact ⟨ht.isNumeral.1 hk, Token.denotes_of_integer hk⟩
  · exact ⟨ht.isNumeral.2 hk, fun whole fraction => Token.denotes_of_float hk⟩
  · exact Literal.survives_of_isWellFormed (decide_eq_true hv) (.inl rfl) rfl
  · refine ⟨isFloat_text hfinite hsign, Literal.survives_of_isWellFormed ?_ (.inr rfl) rfl⟩
    rw [Literal.isWellFormed, hfinite, hsign]
    rfl

theorem numerals_denote_and_survive_at_bounds :
    (∃ v : Int32, v.toInt = 7 ∧ Token.Denotes ⟨.integer, some "007", .start⟩ (.integer v)) ∧
    Token.OutOfRange ⟨.integer, some "2147483648", .start⟩ ∧
    (∃ x : Binary32, x.isNegative = false ∧ x.IsNearest (1 / 10) ∧
      Token.Denotes ⟨.float, some "0.1", .start⟩ (.float x)) ∧
    Token.OutOfRange ⟨.float, some "340282356779733661637539395458142568448.", .start⟩ ∧
    (Literal.integer 2147483647).Survives .integer ∧
    (∃ whole fraction, IsFloat (Binary32.text ⟨1⟩).toList whole fraction ∧ fraction ≠ []) ∧
    (Literal.float ⟨1⟩).Survives .float := by
  obtain ⟨hinteger, hdigits, hfloat, hpoint, hwhole, hfinite⟩ := numerals_denote_and_survive
  have hseven := hdigits "007" .start ⟨by decide, List.all_eq_true.mp rfl⟩
  have hlarge := hdigits "2147483648" .start ⟨by decide, List.all_eq_true.mp rfl⟩
  have htenth : IsFloat "0.1".toList ['0'] ['1'] :=
    ⟨rfl, by decide, List.all_eq_true.mp rfl⟩
  have hhuge : IsFloat "340282356779733661637539395458142568448.".toList
      "340282356779733661637539395458142568448".toList [] :=
    ⟨rfl, by decide, List.all_eq_true.mp rfl⟩
  refine ⟨(hinteger _ hseven rfl).2.1 (by decide), (hinteger _ hlarge rfl).2.2 (by decide), ?_,
    ((hfloat _ (hpoint _ _ _ .start hhuge) rfl).2 _ _ hhuge).2 ?_, hwhole _ (by decide),
    hfinite ⟨1⟩ (by decide) (by decide)⟩
  · have hvalue : pointed ['0'] ['1'] = 1 / 10 := by
      rw [pointed, show positional ['0'] = 0 from rfl, show positional ['1'] = 1 from rfl]
      norm_num
    have := ((hfloat _ (hpoint _ _ _ .start htenth) rfl).2 _ _ htenth).1
    rw [hvalue] at this
    exact this (by norm_num)
  · rw [pointed, show positional "340282356779733661637539395458142568448".toList =
      340282356779733661637539395458142568448 by decide]
    norm_num [positional]

end ScriptFront
