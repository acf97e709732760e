import ScriptFront.Program
import ScriptFront.Token.Stream

/-! # What is logged

Reading leaves records: spans when an activity starts, events when it ends. The fields of a record
are in alphabetical order; the text of an event is its field `message`. -/

namespace ScriptFront.Log

inductive Level where
  | trace | debug | info | error
  deriving DecidableEq, Repr

inductive Value where
  | number (n : Nat)
  | text (s : String)
  deriving DecidableEq, Repr

abbrev Fields := List (String × Value)

inductive Record where
  | span (level : Level) (name : String) (fields : Fields)
  | event (level : Level) (fields : Fields)
  deriving DecidableEq, Repr

/-- Records of reading all tokens. The span counts characters. -/
def ofTokenize (text : String) : List Record :=
  .span .info "tokenize" [("source_len", .number text.length)] ::
    match tokenize text with
    | .ok ts =>
      [.event .trace [("count", .number ts.length), ("message", .text "tokenized source")]]
    | .error _ => []

def failure (level : Level) (e : ParseError) (message : String) : Record :=
  .event level [("column", .number e.location.column), ("kind", .text e.name),
    ("line", .number e.location.line), ("message", .text message)]

/-- Records of a failed reading; one more where errors are to be logged. -/
def failures (logErrors : Bool) (e : ParseError) : List Record :=
  failure .debug e "parse failed" :: if logErrors then [failure .error e e.message] else []

def success (level : Level) (p : Program) (message : String) : Record :=
  .event level [("message", .text message), ("statements", .number p.length)]

/-- Records of reading a program. The outer span counts bytes; the inner one opens once the first
token is read. -/
def ofParse (logErrors : Bool) (text : String) (limit : Nat) : List Record :=
  .span .info "parse_source_with" [("source_len", .number text.utf8ByteSize)] ::
    match State.start? text limit with
    | .error e => failures logErrors e
    | .ok s =>
      .span .info "parse_program" [] ::
        match s.readProgram.1 with
        | .ok p => [success .trace p "parsed program", success .debug p "parse succeeded"]
        | .error e => failures logErrors e

end ScriptFront.Log
