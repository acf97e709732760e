import ScriptFront.Proofs.Token.Ahead
import ScriptFront.Proofs.Token.Counting

/-! # Looking ahead is a dry run

Looking ahead finds what reading on would find, and leaves the reader where it was. So it does not
show in any answer to other requests. -/

namespace ScriptFront

def Request.isLook : Request → Bool
  | look _ => true
  | _ => false

namespace Reader

variable {r s : Reader} {n : Nat}

theorem text_ahead (r : Reader) (n : Nat) : (r.ahead n).text = r.text := by
  induction n generalizing r with
  | zero => rfl
  | succ n ih => rw [ahead_succ, ih, text_advance]

theorem length_rest (r : Reader) : r.toCursor.rest.length = r.unread := by
  rw [toCursor, List.length_drop, Array.length_toList, unread]

theorem nth_eq (r : Reader) (n : Nat) : ∃ m, r.nth n = some (r.toCursor.nth n, r.ahead m) := by
  induction n generalizing r with
  | zero =>
    obtain ⟨m, hnext, -⟩ := r.next_eq
    exact ⟨m, hnext⟩
  | succ n ih =>
    obtain ⟨m, hnext, hlast⟩ := r.next_eq
    rw [nth, hnext]
    cases hresult : r.toCursor.next with
    | mk result d =>
      rw [hresult] at hlast
      cases result with
      | error e => exact ⟨m, by rw [Cursor.nth_of_error hresult]⟩
      | ok t =>
        obtain ⟨k, hk⟩ := ih (r.ahead m)
        dsimp only at hlast
        rw [hlast] at hk
        refine ⟨m + k, ?_⟩
        rw [Cursor.nth_succ hresult, ahead_add]
        exact hk

/-- Looking ahead gives what a cursor gives, and the reader is back where it was. -/
theorem look_eq (r : Reader) (n : Nat) : r.look n = some (r.toCursor.look n, r) := by
  cases n with
  | zero => rfl
  | succ n =>
    obtain ⟨m, hm⟩ := r.nth_eq n
    have hback : (r.ahead m).restore r.save = r := by
      rw [restore, text_ahead]
      rfl
    rw [look, hm]
    exact congrArg (fun s => some (r.toCursor.nth n, s)) hback

theorem tokensFrom_eq (r : Reader) (read : List Token) : ∃ m,
    r.tokensFrom read = some ((r.toCursor.tokensFrom read).1, r.ahead m) ∧
      (r.ahead m).toCursor = (r.toCursor.tokensFrom read).2 := by
  induction hn : r.unread using Nat.strongRecOn generalizing r read with
  | ind _ ih =>
    subst hn
    obtain ⟨m, hnext, hlast⟩ := r.next_eq
    rw [tokensFrom, hnext]
    cases hresult : r.toCursor.next with
    | mk result d =>
      rw [hresult] at hlast
      cases result with
      | error e =>
        rw [Cursor.tokensFrom_of_error hresult]
        exact ⟨m, rfl, hlast⟩
      | ok t =>
        by_cases ht : t.kind = .eof
        · rw [Cursor.tokensFrom_of_eof hresult ht]
          dsimp only
          rw [if_pos ht]
          exact ⟨m, rfl, hlast⟩
        · have hlt := Cursor.length_next_lt hresult ht
          dsimp only at hlast
          rw [← hlast, length_rest, length_rest] at hlt
          obtain ⟨k, htokens, hlast'⟩ := ih _ hlt (r.ahead m) (t :: read) rfl
          rw [Cursor.tokensFrom_of_ne_eof hresult ht, ← hlast]
          dsimp only
          rw [if_neg ht, if_pos hlt]
          refine ⟨m + k, ?_, ?_⟩
          · rw [htokens, ahead_add]
          · rw [ahead_add, hlast']

/-- The tokens that a reader of a text gives are the tokens of the text. -/
theorem tokenize_ofText (text : String) : ∃ r,
    (ofText text).tokenize = some (ScriptFront.tokenize text, r) := by
  obtain ⟨m, htokens, -⟩ := (ofText text).tokensFrom_eq []
  exact ⟨_, htokens⟩

/-- Every request is answered as by a cursor, and the reader ends where the cursor does. -/
theorem answer_eq (r : Reader) (q : Request) : ∃ m,
    r.answer q = some ((r.toCursor.answer q).1, r.ahead m) ∧
      (r.ahead m).toCursor = (r.toCursor.answer q).2 := by
  cases q with
  | next =>
    obtain ⟨m, hnext, hlast⟩ := r.next_eq
    refine ⟨m, ?_, hlast⟩
    rw [answer, hnext]
    rfl
  | look n =>
    refine ⟨0, ?_, rfl⟩
    rw [answer, look_eq]
    rfl
  | tokenize =>
    obtain ⟨m, htokens, hlast⟩ := r.tokensFrom_eq []
    refine ⟨m, ?_, hlast⟩
    rw [answer, tokenize, htokens]
    rfl

theorem answers_cons {q : Request} {result : Except LexError Reply}
    (h : r.answer q = some (result, s)) (qs : List Request) :
    r.answers (q :: qs) = (s.answers qs).map ((result, s) :: ·) := by
  rw [answers, h]
  cases hs : s.answers qs <;> simp [hs]

/-- All requests have answers, those that a cursor gives. -/
theorem answers_eq (r : Reader) (qs : List Request) : ∃ steps, r.answers qs = some steps ∧
    steps.map (fun step => (step.1, step.2.toCursor)) = r.toCursor.answers qs := by
  induction qs generalizing r with
  | nil => exact ⟨[], rfl, rfl⟩
  | cons q qs ih =>
    obtain ⟨m, hanswer, hlast⟩ := r.answer_eq q
    obtain ⟨steps, hsteps, heq⟩ := ih (r.ahead m)
    refine ⟨_ :: steps, by rw [answers_cons hanswer, hsteps]; rfl, ?_⟩
    rw [List.map_cons, heq, Cursor.answers, hlast]

/-- Requests that only look change nothing for the others. -/
theorem answers_filter (r : Reader) (qs : List Request) : ∃ steps, r.answers qs = some steps ∧
    r.answers (qs.filter fun q => !q.isLook) =
      some (((qs.zip steps).filter fun step => !step.1.isLook).map Prod.snd) := by
  induction qs generalizing r with
  | nil => exact ⟨[], rfl, rfl⟩
  | cons q qs ih =>
    obtain ⟨m, hanswer, -⟩ := r.answer_eq q
    obtain ⟨steps, hsteps, hfilter⟩ := ih (r.ahead m)
    refine ⟨_ :: steps, by rw [answers_cons hanswer, hsteps]; rfl, ?_⟩
    rw [List.zip_cons_cons]
    by_cases hq : q.isLook = true
    · -- a look leaves the reader where it is
      have hstay : r.ahead m = r := by
        cases q with
        | look n =>
          rw [answer, look_eq] at hanswer
          exact (congrArg Prod.snd (Option.some.inj hanswer)).symm
        | next | tokenize => cases hq
      rw [hstay] at hfilter ⊢
      rw [List.filter_cons_of_neg (by simp [hq]), List.filter_cons_of_neg (by simp [hq]), hfilter]
    · rw [List.filter_cons_of_pos (by simp [hq]), List.filter_cons_of_pos (by simp [hq]),
        answers_cons hanswer, hfilter, List.map_cons]
      rfl

/-- Of `n + 1` tokens asked for one by one, the last is the one so far ahead, or the first error
before it is. -/
theorem exists_answers_next (r : Reader) (n : Nat) : ∃ steps,
    r.answers (List.replicate (n + 1) .next) = some steps ∧ steps.length = n + 1 ∧
    ((∀ step ∈ steps.take n, step.1.isOk = true) →
      steps[n]?.map Prod.fst = some ((r.toCursor.nth n).map .token)) ∧
    ∀ before step behind, steps.take n = before ++ step :: behind →
      (∀ step ∈ before, step.1.isOk = true) → step.1.isOk = false →
        step.1 = (r.toCursor.nth n).map .token := by
  induction n generalizing r with
  | zero =>
    obtain ⟨m, hanswer, -⟩ := r.answer_eq .next
    refine ⟨[_], answers_cons hanswer [], rfl, fun _ => rfl, ?_⟩
    intro before step behind h
    cases before <;> cases h
  | succ n ih =>
    obtain ⟨m, hanswer, hlast⟩ := r.answer_eq .next
    obtain ⟨steps, hsteps, hlength, hok, herror⟩ := ih (r.ahead m)
    rw [Cursor.answer] at hanswer hlast
    rw [List.replicate_succ, answers_cons hanswer, hsteps]
    refine ⟨_, rfl, by rw [List.length_cons, hlength], ?_⟩
    rw [List.take_succ_cons, List.getElem?_cons_succ]
    cases hresult : r.toCursor.next with
    | mk result d =>
      rw [hresult] at hlast
      dsimp only at hlast
      cases result with
      | error e =>
        rw [Cursor.nth_of_error hresult]
        constructor
        · intro h
          cases h _ List.mem_cons_self
        · intro before step behind hsplit hbefore _
          cases before with
          | nil =>
            rw [← (List.cons.inj hsplit).1]
          | cons b before =>
            have hb := hbefore b List.mem_cons_self
            rw [← (List.cons.inj hsplit).1] at hb
            cases hb
      | ok t =>
        rw [Cursor.nth_succ hresult, ← hlast]
        constructor
        · intro h
          exact hok fun step hstep => h step (List.mem_cons_of_mem _ hstep)
        · intro before step behind hsplit hbefore hstep
          cases before with
          | nil =>
            rw [← (List.cons.inj hsplit).1] at hstep
            cases hstep
          | cons b before =>
            apply herror before step behind (List.cons.inj hsplit).2 _ hstep
            intro s hs
            exact hbefore s (List.mem_cons_of_mem b hs)

/-- Looking ahead is reading on and coming back. At any place it finds what so many reads would
find, or the first error on the way, and leaves the place; so to leave it out changes no other
answer. -/
theorem look_is_dry_run (r : Reader) :
    (∀ n, ∃ result, r.look n = some (result, r)) ∧
    (∀ n, ∃ result steps, r.look (n + 1) = some (result, r) ∧
      r.answers (List.replicate (n + 1) .next) = some steps ∧ steps.length = n + 1 ∧
      ((∀ step ∈ steps.take n, step.1.isOk = true) →
        steps[n]?.map Prod.fst = some (result.map .token)) ∧
      ∀ before step behind, steps.take n = before ++ step :: behind →
        (∀ step ∈ before, step.1.isOk = true) → step.1.isOk = false →
          step.1 = result.map .token) ∧
    ∀ qs, ∃ steps, r.answers qs = some steps ∧
      r.answers (qs.filter fun q => !q.isLook) =
        some (((qs.zip steps).filter fun step => !step.1.isLook).map Prod.snd) := by
  refine ⟨fun n => ⟨_, r.look_eq n⟩, ?_, r.answers_filter⟩
  intro n
  obtain ⟨steps, hsteps⟩ := r.exists_answers_next n
  exact ⟨_, steps, r.look_eq (n + 1), hsteps⟩

end Reader

end ScriptFront
