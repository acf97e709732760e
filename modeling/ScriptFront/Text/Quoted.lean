/-! # Quoted text in programs

Text is written between double quotes, with a backslash before each double quote and each
backslash. It is read between two quotes of either kind, and there a backslash stands for whatever
character follows it. No line feed can stand inside. -/

namespace ScriptFront.Quoted

/-- One character between double quotes. -/
def encodeChar (c : Char) : List Char :=
  if c = '"' ∨ c = '\\' then ['\\', c] else [c]

def encode (s : String) : String :=
  "\"" ++ String.ofList (s.toList.flatMap encodeChar) ++ "\""

/-- What ends a quotation: its quote, a line feed or the end of the text where the quote is
missing, or either of these behind a backslash. -/
inductive Ending where
  | closed
  | unclosed
  | danglingEscape
  deriving DecidableEq, Repr

/-- The text read, how many characters were taken for it, and what ended it. -/
structure Reading where
  content : List Char
  width : Nat
  ending : Ending
  deriving DecidableEq, Repr

/-- Reads up to the quote `q`; `read` holds what was read before, last character first, and
`width` counts what was taken for it. -/
def readFrom (q : Char) : List Char → List Char → Nat → Reading
  | [], read, width => ⟨read.reverse, width, .unclosed⟩
  | ['\\'], read, width => ⟨read.reverse, width + 1, .danglingEscape⟩
  | '\\' :: c :: cs, read, width =>
    if c = '\n' then ⟨read.reverse, width + 1, .danglingEscape⟩
    else readFrom q cs (c :: read) (width + 2)
  | c :: cs, read, width =>
    if c = '\n' then ⟨read.reverse, width, .unclosed⟩
    else if c = q then ⟨read.reverse, width + 1, .closed⟩
    else readFrom q cs (c :: read) (width + 1)

/-- Reads the text behind an opening quote `q`. -/
def read (q : Char) (cs : List Char) : Reading := readFrom q cs [] 0

end ScriptFront.Quoted
