import ScriptFront.Token.Progress

/-! # All tokens of a text, and a reader that is asked again and again

After an error a reader goes on from where its cursor stands. -/

namespace ScriptFront

namespace Cursor

/-- Reads up to the end of the text; `read` holds the tokens read before, last token first. -/
def tokensFrom (c : Cursor) (read : List Token) : Except LexError (List Token) × Cursor :=
  match h : c.next with
  | (.error e, d) => (.error e, d)
  | (.ok t, d) =>
    if ht : t.kind = .eof then (.ok (t :: read).reverse, d)
    else
      have := length_next_lt h ht
      tokensFrom d (t :: read)
termination_by c.rest.length

/-- The tokens up to and with the end, or the first error. -/
def tokenize (c : Cursor) : Except LexError (List Token) × Cursor := c.tokensFrom []

end Cursor

/-- What a reader may be asked for. -/
inductive Request where
  | next
  | look (n : Nat)
  | tokenize
  deriving DecidableEq, Repr

inductive Reply where
  | token (t : Token)
  | tokens (ts : List Token)
  deriving DecidableEq, Repr

namespace Cursor

/-- Answers one request. Looking ahead does not move. -/
def answer (c : Cursor) : Request → Except LexError Reply × Cursor
  | .next =>
    let (token, c) := c.next
    (token.map .token, c)
  | .look n => ((c.look n).map .token, c)
  | .tokenize =>
    let (tokens, c) := c.tokenize
    (tokens.map .tokens, c)

/-- Answers requests in order, each from where the one before left the cursor. -/
def answers (c : Cursor) : List Request → List (Except LexError Reply × Cursor)
  | [] => []
  | r :: rs =>
    let step := c.answer r
    step :: step.2.answers rs

end Cursor

/-- The tokens of a text. -/
def tokenize (text : String) : Except LexError (List Token) := (Cursor.ofText text).tokenize.1

end ScriptFront
