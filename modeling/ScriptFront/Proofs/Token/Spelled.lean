import ScriptFront.Proofs.Rule.Tokens
import ScriptFront.Proofs.Token.Gap
import ScriptFront.Proofs.Token.Munch

/-! # Spelled texts

A text spells terminals where their spellings stand in it one behind the other, with blanks between
them where two would otherwise be read as one. -/

namespace ScriptFront

/-- The first text starts with spellings of the terminals; the second is what stands behind them. -/
inductive Spells : List Char → List Terminal → List Char → Prop where
  | nil (cs : List Char) : Spells cs [] cs
  | blank {c : Char} {cs ds : List Char} {w : List Terminal} (hc : isBlank c = true)
      (h : Spells cs w ds) : Spells (c :: cs) w ds
  | token {x : Terminal} {a cs ds : List Char} {w : List Terminal} (hx : Spelling x a)
      (ha : Apart a cs) (h : Spells cs w ds) : Spells (a ++ cs) (x :: w) ds

theorem Spells.append {cs ds es : List Char} {v w : List Terminal} (hv : Spells cs v ds)
    (hw : Spells ds w es) : Spells cs (v ++ w) es := by
  induction hv with
  | nil => exact hw
  | blank hc _ ih => exact .blank hc (ih hw)
  | token hx ha _ ih => exact .token hx ha (ih hw)

/-- Whether the kind is read whole in front of a text that goes on in any way. -/
def TokenKind.standsBefore (k : TokenKind) : List Char → Bool
  | [] => k.isSolid
  | c :: _ => !absorbs k.letters c

/-- Whether a text writes kinds of one spelling, in front of anything. -/
def writes (a : List Char) : List TokenKind → Bool
  | [] => a.all isBlank
  | k :: ks =>
    let b := a.dropWhile isBlank
    let behind := b.drop k.letters.length
    k.spelling.isSome && k.letters.isPrefixOf b && k.standsBefore behind && writes behind ks

theorem TokenKind.apart_of_standsBefore {k : TokenKind} {a : List Char}
    (h : k.standsBefore a = true) (cs : List Char) : Apart k.letters (a ++ cs) := by
  cases a with
  | nil => exact .solid h cs
  | cons c a =>
    intro d hd
    cases hd
    exact Bool.not_eq_true' _ ▸ h

theorem Spells.blanks {a cs ds : List Char} {w : List Terminal} (ha : a.all isBlank = true)
    (h : Spells cs w ds) : Spells (a ++ cs) w ds := by
  induction a with
  | nil => exact h
  | cons c a ih =>
    rw [List.all_cons, Bool.and_eq_true] at ha
    exact .blank ha.1 (ih ha.2)

theorem spells_of_writes {a cs ds : List Char} {w : List Terminal} {ks : List TokenKind}
    (ha : writes a ks = true) (h : Spells cs w ds) :
    Spells (a ++ cs) (ks.map Terminal.fixed ++ w) ds := by
  induction ks generalizing a with
  | nil => exact h.blanks ha
  | cons k ks ih =>
    simp only [writes, Bool.and_eq_true] at ha
    obtain ⟨⟨⟨hk, hp⟩, hstands⟩, hrest⟩ := ha
    rw [List.isPrefixOf_iff_prefix] at hp
    obtain ⟨b, hb⟩ := hp
    rw [← hb, List.drop_left] at hstands hrest
    rw [← List.takeWhile_append_dropWhile (p := isBlank) (l := a), ← hb, List.append_assoc,
      List.append_assoc]
    exact .blanks List.all_takeWhile
      (.token (.ofKind hk) (k.apart_of_standsBefore hstands cs) (ih hrest))

/-- A fixed text of marks, reserved words and blanks. -/
theorem Spells.text {s : String} {cs ds : List Char} {w : List Terminal} (ks : List TokenKind)
    (hs : writes s.toList ks = true) (h : Spells cs w ds) :
    Spells (s.toList ++ cs) (ks.map Terminal.fixed ++ w) ds :=
  spells_of_writes hs h

/-- Terminals that have spellings. -/
def Spellable (w : List Terminal) : Prop := ∀ x ∈ w, ∃ a, Spelling x a

namespace Spellable

variable {x : Terminal} {v w : List Terminal}

@[simp] theorem nil : Spellable [] := nofun

@[simp] theorem append_iff : Spellable (v ++ w) ↔ Spellable v ∧ Spellable w :=
  List.forall_mem_append

@[simp] theorem cons_iff : Spellable (x :: w) ↔ (∃ a, Spelling x a) ∧ Spellable w :=
  List.forall_mem_cons

/-- With a blank behind each of them they make up a text. -/
theorem exists_spells (h : Spellable w) : ∃ cs, Spells cs w [] := by
  induction w with
  | nil => exact ⟨[], .nil []⟩
  | cons x w ih =>
    rw [cons_iff] at h
    obtain ⟨⟨a, ha⟩, hw⟩ := h
    obtain ⟨cs, hcs⟩ := ih hw
    have hapart : Apart a (' ' :: cs) := by
      apply ha.apart_of_gap
      intro c hc
      obtain rfl := Option.some.inj hc
      exact .inl rfl
    exact ⟨a ++ ' ' :: cs, .token ha hapart (.blank rfl hcs)⟩

end Spellable

namespace Cursor

variable {c : Char} {a cs : List Char} {x : Terminal} (l : Location)

theorem move_left (a cs : List Char) : (⟨a ++ cs, l⟩ : Cursor).move a.length = ⟨cs, l.after a⟩ := by
  rw [move, List.drop_left, List.take_left]

theorem next_blank (hc : isBlank c = true) :
    (⟨c :: cs, l⟩ : Cursor).next = (⟨cs, l.next c⟩ : Cursor).next := by
  have hskip : (⟨c :: cs, l⟩ : Cursor).skip = (⟨cs, l.next c⟩ : Cursor).skip :=
    skipFrom_blank l hc cs
  rw [next, next, hskip]

theorem next_nil : (⟨[], l⟩ : Cursor).next = (.ok ⟨.eof, none, l⟩, ⟨[], l⟩) := rfl

theorem next_spelling (hx : Spelling x a) (ha : Apart a cs) : (⟨a ++ cs, l⟩ : Cursor).next =
    (.ok ⟨x.kind, x.lexeme, l⟩, ⟨cs, l.after a⟩) := by
  have hskip : (⟨a ++ cs, l⟩ : Cursor).skip = ⟨a ++ cs, l⟩ := by
    obtain ⟨d, ds, rfl, hb, hd⟩ := hx.head_eq
    exact skipFrom_of_ne l (by simp [hb]) hd (ds ++ cs)
  rw [next, hskip]
  simp only [hx.scan_eq ha, move_left]

end Cursor

/-- What a text spells up to its end can be taken from it. -/
theorem takes_of_spells {cs : List Char} {w : List Terminal} (h : Spells cs w []) (l : Location)
    (limit : Nat) : ∃ t d u, (⟨cs, l⟩ : Cursor).next = (.ok t, d) ∧
      Takes ⟨d, t, limit, 0, 0⟩ w u ∧ u.current.kind = .eof := by
  generalize hds : ([] : List Char) = ds at h
  induction h generalizing l with
  | nil cs =>
    subst hds
    exact ⟨_, _, _, Cursor.next_nil l, .nil _, rfl⟩
  | blank hc _ ih =>
    rw [Cursor.next_blank l hc]
    exact ih _ hds
  | @token x a cs ds w hx ha _ ih =>
    obtain ⟨t, d, u, hnext, hu, heof⟩ := ih (l.after a) hds
    refine ⟨_, _, u, Cursor.next_spelling l hx ha, ?_, heof⟩
    have hcons := Takes.cons (s := ⟨⟨cs, l.after a⟩, ⟨x.kind, x.lexeme, l⟩, limit, 0, 0⟩)
      (Writing.spelling hx).kind_ne_eof hnext hu
    rwa [(Writing.spelling hx).terminal_eq l] at hcons

/-- A reader that starts at a text that spells terminals up to its end can take them. -/
theorem start_of_spells {text : String} {w : List Terminal} (h : Spells text.toList w [])
    (limit : Nat) : ∃ s u, State.start? text limit = .ok s ∧ Takes s w u ∧
      u.current.kind = .eof ∧ s.limit = limit ∧ s.depth = 0 ∧ s.peak = 0 ∧
      s.remaining ≤ text.length := by
  obtain ⟨t, d, u, hnext, hu, heof⟩ := takes_of_spells h .start limit
  exact ⟨_, u, State.start?_of_next hnext, hu, heof, rfl, rfl, rfl,
    State.remaining_of_next hnext limit⟩

end ScriptFront
