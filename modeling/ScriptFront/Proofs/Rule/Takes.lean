import ScriptFront.Rule.Repeat
import ScriptFront.Token.Progress

/-! # Taking tokens

What a grammar sees of a token is its kind and the text it carries. A state takes a list of such
terminals when reading them one by one, and the token behind the last, meets no fault. The limit,
the nesting and the peak play no part in it. -/

namespace ScriptFront

/-- A token without its place. Only four kinds carry a text. -/
structure Terminal where
  kind : TokenKind
  lexeme : Option String
  deriving DecidableEq, Repr

namespace Terminal

def fixed (kind : TokenKind) : Terminal := ⟨kind, none⟩

def carrying (kind : TokenKind) (text : String) : Terminal := ⟨kind, some text⟩

def content (x : Terminal) : String := x.lexeme.getD ""

@[simp] theorem kind_fixed (kind : TokenKind) : (fixed kind).kind = kind := rfl

@[simp] theorem kind_carrying (kind : TokenKind) (text : String) :
    (carrying kind text).kind = kind := rfl

@[simp] theorem content_carrying (kind : TokenKind) (text : String) :
    (carrying kind text).content = text := rfl

end Terminal

def Token.terminal (t : Token) : Terminal :=
  if t.kind.hasLexeme then .carrying t.kind t.content else .fixed t.kind

namespace Token

@[simp] theorem kind_terminal (t : Token) : t.terminal.kind = t.kind := by
  unfold terminal
  split <;> rfl

theorem terminal_eq_fixed {t : Token} (h : t.kind.hasLexeme = false) :
    t.terminal = .fixed t.kind := by
  simp [terminal, h]

theorem terminal_eq_carrying {t : Token} (h : t.kind.hasLexeme = true) :
    t.terminal = .carrying t.kind t.content := by
  simp [terminal, h]

theorem of_terminal_eq_carrying {t : Token} {k : TokenKind} {s : String}
    (h : t.terminal = .carrying k s) : t.kind = k ∧ t.content = s := by
  unfold terminal at h
  split at h
  · cases h
    exact ⟨rfl, rfl⟩
  · cases h

theorem of_terminal_eq_fixed {t : Token} {k : TokenKind} (h : t.terminal = .fixed k) :
    t.kind = k := by
  rw [← kind_terminal, h, Terminal.kind_fixed]

end Token

/-- The kind of the first of some terminals, or the kind that follows where there are none. -/
def lead (w : List Terminal) (follow : TokenKind) : TokenKind :=
  match w with
  | [] => follow
  | x :: _ => x.kind

@[simp] theorem lead_nil (k : TokenKind) : lead [] k = k := rfl

@[simp] theorem lead_cons (x : Terminal) (w : List Terminal) (k : TokenKind) :
    lead (x :: w) k = x.kind := rfl

@[simp] theorem lead_append (v w : List Terminal) (k : TokenKind) :
    lead (v ++ w) k = lead v (lead w k) := by
  cases v <;> rfl

theorem lead_eq_lead {w : List Terminal} (h : w ≠ []) (k l : TokenKind) : lead w k = lead w l := by
  cases w with
  | nil => exact absurd rfl h
  | cons => rfl

namespace State

/-- The same place, with a nesting of `m` more levels reached. -/
def raise (s : State) (m : Nat) : State := { s with peak := max s.peak (s.depth + m) }

@[simp] theorem cursor_raise (s : State) (m : Nat) : (s.raise m).cursor = s.cursor := rfl
@[simp] theorem current_raise (s : State) (m : Nat) : (s.raise m).current = s.current := rfl
@[simp] theorem limit_raise (s : State) (m : Nat) : (s.raise m).limit = s.limit := rfl
@[simp] theorem depth_raise (s : State) (m : Nat) : (s.raise m).depth = s.depth := rfl
@[simp] theorem peak_raise (s : State) (m : Nat) :
    (s.raise m).peak = max s.peak (s.depth + m) := rfl

theorem raise_zero {s : State} (h : s.depth ≤ s.peak) : s.raise 0 = s := by
  simp [raise, Nat.max_eq_left h]

@[simp] theorem raise_raise (s : State) (m n : Nat) :
    (s.raise m).raise n = s.raise (max m n) := by
  simp only [raise, State.mk.injEq, true_and]
  omega

/-- How many tokens can be left: the current one and one for each unread character. -/
def remaining (s : State) : Nat :=
  s.cursor.rest.length + if s.current.kind = .eof then 0 else 1

@[simp] theorem remaining_raise (s : State) (m : Nat) : (s.raise m).remaining = s.remaining := rfl

/-- No more than bound a repetition. -/
theorem remaining_le_length (s : State) : s.remaining ≤ ('\n' :: s.cursor.rest).length := by
  rw [List.length_cons]
  unfold remaining
  split <;> omega

end State

inductive Takes : State → List Terminal → State → Prop where
  | nil (s : State) : Takes s [] s
  | cons {s u : State} {t : Token} {cursor : Cursor} {w : List Terminal}
      (hk : s.current.kind ≠ .eof) (hn : s.cursor.next = (.ok t, cursor))
      (hw : Takes { s with cursor, current := t } w u) : Takes s (s.current.terminal :: w) u

namespace Takes

variable {s u r : State} {v w : List Terminal} {x : Terminal}

theorem append (hv : Takes s v r) (hw : Takes r w u) : Takes s (v ++ w) u := by
  induction hv with
  | nil => exact hw
  | cons hk hn _ ih => exact .cons hk hn (ih hw)

theorem split (h : Takes s (v ++ w) u) : ∃ r, Takes s v r ∧ Takes r w u := by
  induction v generalizing s with
  | nil => exact ⟨s, .nil s, h⟩
  | cons x v ih =>
    cases h with
    | cons hk hn hw =>
      obtain ⟨r, hv, hw⟩ := ih hw
      exact ⟨r, .cons hk hn hv, hw⟩

theorem limit_eq (h : Takes s w u) : u.limit = s.limit := by
  induction h with
  | nil => rfl
  | cons _ _ _ ih => exact ih

theorem depth_eq (h : Takes s w u) : u.depth = s.depth := by
  induction h with
  | nil => rfl
  | cons _ _ _ ih => exact ih

theorem peak_eq (h : Takes s w u) : u.peak = s.peak := by
  induction h with
  | nil => rfl
  | cons _ _ _ ih => exact ih

/-- The accounting of the nesting may be exchanged. -/
theorem reset (h : Takes s w u) (limit depth peak : Nat) :
    Takes { s with limit, depth, peak } w { u with limit, depth, peak } := by
  induction h with
  | nil => exact .nil _
  | @cons s _ _ _ _ hk hn _ ih => exact .cons (s := { s with limit, depth, peak }) hk hn ih

theorem repeak (h : Takes s w u) (peak : Nat) : Takes { s with peak } w { u with peak } := by
  have := h.reset s.limit s.depth peak
  simpa only [h.limit_eq, h.depth_eq] using this

theorem raise (h : Takes s w u) (m : Nat) : Takes (s.raise m) w (u.raise m) := by
  have := h.repeak (max s.peak (s.depth + m))
  simpa only [State.raise, h.depth_eq, h.peak_eq] using this

theorem current_kind (h : Takes s w u) : s.current.kind = lead w u.current.kind := by
  cases h <;> simp

theorem terminal_eq (h : Takes s (x :: w) u) : x = s.current.terminal := by
  cases h
  rfl

theorem unique (hu : Takes s w u) (hr : Takes s w r) : u = r := by
  induction hu with
  | nil => cases hr; rfl
  | cons _ hn _ ih =>
    generalize hx : (_ :: _ : List Terminal) = y at hr
    cases hr with
    | nil => cases hx
    | cons _ hm hw =>
      obtain ⟨-, rfl⟩ := List.cons.inj hx
      rw [hn] at hm
      cases hm
      exact ih hw

theorem remaining_lt (h : Takes s w u) (hw : w ≠ []) : u.remaining < s.remaining := by
  induction h with
  | nil => exact absurd rfl hw
  | @cons s u t cursor w hk hn htail ih =>
    have hle := s.cursor.length_next_le
    have step : State.remaining { s with cursor, current := t } < s.remaining := by
      simp only [State.remaining, if_neg hk]
      split
      · simp only [hn] at hle
        omega
      · rename_i ht
        have := Cursor.length_next_lt hn ht
        omega
    cases w with
    | nil => cases htail; exact step
    | cons => exact Nat.lt_trans (ih (List.cons_ne_nil _ _)) step

theorem eq_of_same_place (hu : Takes s v u) (hr : Takes s w r) (hcursor : u.cursor = r.cursor)
    (hcurrent : u.current = r.current) : v = w ∧ u = r := by
  have hplace : u.remaining = r.remaining := by simp only [State.remaining, hcursor, hcurrent]
  suffices v = w from ⟨this, hu.unique (this ▸ hr)⟩
  clear hcursor hcurrent
  induction hu generalizing w with
  | nil s =>
    cases hr with
    | nil => rfl
    | cons hk hn hw =>
      have := (Takes.cons hk hn hw).remaining_lt (List.cons_ne_nil _ _)
      omega
  | cons hk hn hv ih =>
    cases hr with
    | nil =>
      have := (Takes.cons hk hn hv).remaining_lt (List.cons_ne_nil _ _)
      omega
    | cons _ hm hw =>
      rw [hn] at hm
      cases hm
      rw [ih hw hplace]

theorem length_add_remaining_le (h : Takes s w u) : w.length + u.remaining ≤ s.remaining := by
  induction h with
  | nil => simp
  | cons hk hn hw ih =>
    have := (Takes.cons hk hn (.nil _)).remaining_lt (List.cons_ne_nil _ _)
    simp only [List.length_cons]
    omega

end Takes

end ScriptFront
