import ScriptFront.Proofs.Token.Legible
import ScriptFront.Proofs.Token.Spelled

/-! # Texts and their tokens

A text that has tokens is a gap, what writes the first token, a gap, and so on up to a last gap, and
each token is the longest one at its place. Spelled tokens with a gap between any two of them are
the tokens of that text. -/

namespace ScriptFront

/-- A token as it stands in a text: the gap in front of it and what writes it. -/
structure Piece where
  gap : List Char
  terminal : Terminal
  text : List Char

/-- The text of some pieces and the gap behind them. -/
def written : List Piece → List Char → List Char
  | [], last => last
  | p :: ps, last => p.gap ++ p.text ++ written ps last

/-- The tokens of a text of pieces that begins at `l`. Each stands where what writes it begins. -/
def tokensAt (l : Location) : List Piece → List Char → List Token
  | [], last => [⟨.eof, none, l.after last⟩]
  | p :: ps, last => ⟨p.terminal.kind, p.terminal.lexeme, l.after p.gap⟩ ::
      tokensAt (l.after (p.gap ++ p.text)) ps last

/-- Each piece is a gap and the longest text in front of the rest that writes a token. -/
def Munched : List Piece → List Char → Prop
  | [], last => Gap true last
  | p :: ps, last => Gap false p.gap ∧ Writing p.terminal p.text ∧
      (∀ x a, Writing x a → a <+: p.text ++ written ps last → a.length ≤ p.text.length) ∧
      Munched ps last

variable {ps : List Piece} {last : List Char}

/-- A name is no reserved word. -/
theorem Writing.not_reserved {x : Terminal} {a : List Char} (h : Writing x a)
    (hx : x.kind = .identifier) : TokenKind.ofKeyword? x.content = none := by
  have hname := h.isLegible
  rw [Terminal.isLegible, hx] at hname
  change isName x.content = true at hname
  rw [isName, Bool.and_eq_true, Option.isNone_iff_eq_none] at hname
  exact hname.2

theorem Munched.writing (h : Munched ps last) : ∀ p ∈ ps, Writing p.terminal p.text := by
  induction ps with
  | nil => nofun
  | cons p ps ih =>
    obtain ⟨-, hp, -, h⟩ := h
    intro q hq
    rcases List.mem_cons.mp hq with rfl | hq
    · exact hp
    · exact ih h q hq

theorem tokensAt_eq_append (l : Location) (ps : List Piece) (last : List Char) :
    ∃ us, tokensAt l ps last = us ++ [⟨.eof, none, l.after (written ps last)⟩] ∧
      ∀ t ∈ us, ∃ p ∈ ps, t.kind = p.terminal.kind ∧ t.lexeme = p.terminal.lexeme := by
  induction ps generalizing l with
  | nil => exact ⟨[], rfl, nofun⟩
  | cons p ps ih =>
    obtain ⟨us, heq, hus⟩ := ih (l.after (p.gap ++ p.text))
    rw [tokensAt, written, heq, Location.after_append l (p.gap ++ p.text)]
    refine ⟨_ :: us, rfl, ?_⟩
    intro t ht
    rcases List.mem_cons.mp ht with rfl | ht
    · exact ⟨p, List.mem_cons_self, rfl, rfl⟩
    · obtain ⟨q, hq, hkind, hlexeme⟩ := hus t ht
      exact ⟨q, List.mem_cons_of_mem p hq, hkind, hlexeme⟩

namespace Cursor

variable {c d : Cursor} {t : Token} {read ts : List Token}

theorem next_gap {g : List Char} (h : Gap false g) (cs : List Char) (l : Location) :
    (⟨g ++ cs, l⟩ : Cursor).next = (⟨cs, l.after g⟩ : Cursor).next := by
  have hskip : (⟨g ++ cs, l⟩ : Cursor).skip = (⟨cs, l.after g⟩ : Cursor).skip :=
    skipFrom_gap l h rfl cs
  rw [next, next, hskip]

/-- Where the end is read only a gap is left. -/
theorem gap_of_next_eof (h : c.next = (.ok t, d)) (ht : t.kind = .eof) :
    Gap true c.rest ∧ t = ⟨.eof, none, c.location.after c.rest⟩ := by
  obtain ⟨g, hg, hl, hgap⟩ := exists_gap_skip c
  rcases next_cases h with ⟨hrest, rfl, -⟩ | ⟨x, a, hx, rfl, -⟩
  · rw [hrest, List.append_nil] at hg
    rw [hrest] at hgap
    rw [hg, hl]
    exact ⟨hgap, rfl⟩
  · exact absurd ht hx.kind_ne_eof

/-- Any other token stands behind a gap, and is the longest one there. -/
theorem exists_piece_of_next (h : c.next = (.ok t, d)) (ht : t.kind ≠ .eof) :
    ∃ p : Piece, c.rest = p.gap ++ p.text ++ d.rest ∧
      t = ⟨p.terminal.kind, p.terminal.lexeme, c.location.after p.gap⟩ ∧
      d.location = c.location.after (p.gap ++ p.text) ∧ Gap false p.gap ∧
      Writing p.terminal p.text ∧
      ∀ x a, Writing x a → a <+: p.text ++ d.rest → a.length ≤ p.text.length := by
  have hne := rest_skip_ne_nil h ht
  obtain ⟨g, hg, hl, hgap⟩ := exists_gap_skip c
  rcases next_cases h with ⟨hrest, -⟩ | ⟨x, a, hx, rfl, hrest, hd, hlongest⟩
  · exact absurd hrest hne
  · rw [List.isEmpty_eq_false_iff.mpr hne] at hgap
    rw [hrest] at hg hlongest
    refine ⟨⟨g, x, a⟩, ?_, ?_, ?_, hgap, hx, hlongest⟩
    · rw [hg, List.append_assoc]
    · rw [hl]
    · rw [hd, hl, Location.after_append]

/-- Reading all tokens takes the text apart. -/
theorem munched_of_tokensFrom (h : (c.tokensFrom read).1 = .ok ts) : ∃ ps last,
    c.rest = written ps last ∧ ts = read.reverse ++ tokensAt c.location ps last ∧
      Munched ps last := by
  fun_induction tokensFrom c read with
  | case1 => cases h
  | case2 c read t d hnext ht =>
    cases h
    obtain ⟨hgap, heof⟩ := gap_of_next_eof hnext ht
    refine ⟨[], c.rest, rfl, ?_, hgap⟩
    rw [List.reverse_cons, heof]
    rfl
  | case3 c read t d hnext ht _ ih =>
    obtain ⟨ps, last, hd, rfl, hps⟩ := ih h
    obtain ⟨p, hc, htoken, hl, hgap, hp, hlongest⟩ := exists_piece_of_next hnext ht
    rw [hd] at hc hlongest
    refine ⟨p :: ps, last, hc, ?_, hgap, hp, hlongest, hps⟩
    rw [List.reverse_cons, List.append_assoc, hl, htoken]
    rfl

/-- What stands behind the first of some pieces begins with a gap or is the end. -/
theorem head_written (hgap : ∀ p ∈ ps, Gap false p.gap ∧ p.gap ≠ []) (hlast : Gap false last) :
    ∀ c ∈ (written ps last).head?, isBlank c = true ∨ c = '#' := by
  cases ps with
  | nil => exact hlast.head
  | cons p ps =>
    obtain ⟨hg, hne⟩ := hgap p List.mem_cons_self
    obtain ⟨d, ds, hd⟩ := List.exists_cons_of_ne_nil hne
    intro c hc
    rw [written, hd] at hc
    apply hg.head
    rwa [hd]

/-- Pieces with gaps between them are read one by one. -/
theorem tokensFrom_written (hps : ∀ p ∈ ps, Gap false p.gap ∧ Spelling p.terminal p.text)
    (hlast : Gap false last) (hapart : ∀ p ∈ ps.tail, p.gap ≠ []) (l : Location) :
    ((⟨written ps last, l⟩ : Cursor).tokensFrom read).1 =
      .ok (read.reverse ++ tokensAt l ps last) := by
  induction ps generalizing l read with
  | nil =>
    have hnext := next_gap hlast [] l
    rw [List.append_nil] at hnext
    rw [written, tokensFrom_of_eof (hnext.trans (next_nil _)) rfl, List.reverse_cons]
    rfl
  | cons p ps ih =>
    obtain ⟨hgap, hp⟩ := hps p List.mem_cons_self
    have hps' : ∀ q ∈ ps, Gap false q.gap ∧ Spelling q.terminal q.text :=
      fun q hq => hps q (List.mem_cons_of_mem p hq)
    have hbehind : Apart p.text (written ps last) := by
      apply hp.apart_of_gap
      apply head_written _ hlast
      intro q hq
      exact ⟨(hps' q hq).1, hapart q hq⟩
    have hnext := next_gap hgap (p.text ++ written ps last) l
    rw [next_spelling _ hp hbehind] at hnext
    rw [written, List.append_assoc, tokensFrom_of_ne_eof hnext (Writing.spelling hp).kind_ne_eof,
      ih hps' (fun q hq => hapart q (List.mem_of_mem_tail hq)), List.reverse_cons,
      List.append_assoc, ← Location.after_append]
    rfl

end Cursor

/-- The tokens of a text account for all of it, by longest match. Only the last one is the end, only
kinds that ask for a text carry one, and no name is reserved. -/
theorem munched_of_tokenize {text : String} {ts : List Token} (h : tokenize text = .ok ts) :
    (∃ ps last, text.toList = written ps last ∧ ts = tokensAt .start ps last ∧ Munched ps last) ∧
      (∃ us u, ts = us ++ [u] ∧ u.kind = .eof ∧ ∀ t ∈ us, t.kind ≠ .eof) ∧
      ∀ t ∈ ts, t.lexeme.isSome = t.kind.hasLexeme ∧
        (t.kind = .identifier → TokenKind.ofKeyword? t.content = none) := by
  obtain ⟨ps, last, htext, rfl, hps⟩ := Cursor.munched_of_tokensFrom h
  obtain ⟨us, hus, hpieces⟩ := tokensAt_eq_append .start ps last
  refine ⟨⟨ps, last, htext, rfl, hps⟩, ⟨us, _, hus, rfl, ?_⟩, ?_⟩
  · intro t ht
    obtain ⟨p, hp, hkind, -⟩ := hpieces t ht
    rw [hkind]
    exact (hps.writing p hp).kind_ne_eof
  · intro t ht
    change t ∈ tokensAt .start ps last at ht
    rw [hus, List.mem_append, List.mem_singleton] at ht
    rcases ht with ht | rfl
    · obtain ⟨p, hp, hkind, hlexeme⟩ := hpieces t ht
      rw [Token.content, hkind, hlexeme]
      exact ⟨(hps.writing p hp).isSome_lexeme, (hps.writing p hp).not_reserved⟩
    · exact ⟨rfl, nofun⟩

/-- An operator written as a word, an escaped quote, a float without a fraction and a comment that
ends the text. -/
theorem munched_of_tokenize_at_quotation : ∃ ts : List Token,
    tokenize "not'it\\'s'<<=1.#end" = .ok ts ∧ ts = [
      ⟨.logNot, none, ⟨1, 1⟩⟩, ⟨.string, some "it's", ⟨1, 4⟩⟩, ⟨.shiftLeftAssign, none, ⟨1, 11⟩⟩,
      ⟨.float, some "1.", ⟨1, 14⟩⟩, ⟨.eof, none, ⟨1, 20⟩⟩] ∧
    (∃ ps last, "not'it\\'s'<<=1.#end".toList = written ps last ∧ ts = tokensAt .start ps last ∧
      Munched ps last) ∧
    (∃ us u, ts = us ++ [u] ∧ u.kind = .eof ∧ ∀ t ∈ us, t.kind ≠ .eof) ∧
    ∀ t ∈ ts, t.lexeme.isSome = t.kind.hasLexeme ∧
      (t.kind = .identifier → TokenKind.ofKeyword? t.content = none) := by
  have h : tokenize "not'it\\'s'<<=1.#end" = .ok [
      ⟨.logNot, none, ⟨1, 1⟩⟩, ⟨.string, some "it's", ⟨1, 4⟩⟩, ⟨.shiftLeftAssign, none, ⟨1, 11⟩⟩,
      ⟨.float, some "1.", ⟨1, 14⟩⟩, ⟨.eof, none, ⟨1, 20⟩⟩] := by
    rw [tokenize, Cursor.tokenize]
    iterate 4 rw [Cursor.tokensFrom_of_ne_eof rfl (by decide)]
    rw [Cursor.tokensFrom_of_eof rfl rfl]
    exact congrArg Except.ok (by decide +kernel)
  exact ⟨_, h, rfl, munched_of_tokenize h⟩

/-- Spelled tokens with gaps between them, in front and behind are the tokens of their text. -/
theorem tokenize_written (ps : List Piece) (last : List Char)
    (hps : ∀ p ∈ ps, Gap false p.gap ∧ Spelling p.terminal p.text) (hlast : Gap false last)
    (hapart : ∀ p ∈ ps.tail, p.gap ≠ []) :
    tokenize (String.ofList (written ps last)) = .ok (tokensAt .start ps last) := by
  have htext : Cursor.ofText (String.ofList (written ps last)) = ⟨written ps last, .start⟩ := by
    rw [Cursor.ofText, String.toList_ofList]
  rw [tokenize, htext]
  exact Cursor.tokensFrom_written hps hlast hapart .start

/-- Comments right behind a float and right in front of points, and a number sign that is quoted. -/
theorem tokenize_written_at_comments :
    written [⟨"\t".toList, .carrying .float "1.", "1.".toList⟩,
      ⟨"#.\n".toList, .fixed .ellipsis, "...".toList⟩,
      ⟨" ".toList, .carrying .string "\"#", (Quoted.encode "\"#").toList⟩] "#\n".toList =
        "\t1.#.\n... \"\\\"#\"#\n".toList ∧
    tokenize "\t1.#.\n... \"\\\"#\"#\n" = .ok [
      ⟨.float, some "1.", ⟨1, 2⟩⟩, ⟨.ellipsis, none, ⟨2, 1⟩⟩, ⟨.string, some "\"#", ⟨2, 5⟩⟩,
      ⟨.eof, none, ⟨3, 1⟩⟩] := by
  have hfirst : Gap false "\t".toList := .blank (by decide) .nil
  have hcomment : Gap false "#.\n".toList := @Gap.comment _ ['.'] [] (by decide) .nil
  have hblank : Gap false " ".toList := .blank (by decide) .nil
  have hlast : Gap false "#\n".toList := @Gap.comment _ [] [] (by decide) .nil
  have hfloat : Spelling (.carrying .float "1.") "1.".toList :=
    @Spelling.float _ ['1'] [] (by decide) (by decide) (List.all_eq_true.mp rfl)
  have hellipsis : Spelling (.fixed .ellipsis) "...".toList := .symbol (by decide)
  have hstring : Spelling (.carrying .string "\"#") (Quoted.encode "\"#").toList :=
    .string (by decide)
  have h := tokenize_written [⟨"\t".toList, .carrying .float "1.", "1.".toList⟩,
      ⟨"#.\n".toList, .fixed .ellipsis, "...".toList⟩,
      ⟨" ".toList, .carrying .string "\"#", (Quoted.encode "\"#").toList⟩] "#\n".toList
    (by
      simp only [List.forall_mem_cons]
      exact ⟨⟨hfirst, hfloat⟩, ⟨hcomment, hellipsis⟩, ⟨hblank, hstring⟩, nofun⟩)
    hlast (by decide)
  exact ⟨by decide +kernel, h⟩

end ScriptFront
