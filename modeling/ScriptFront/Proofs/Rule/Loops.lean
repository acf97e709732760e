import ScriptFront.Proofs.Rule.Reads

/-! # What repetitions read

A repetition unfolds one pass at a time as long as every pass that goes on takes a token. -/

namespace ScriptFront

open ScriptFront.Language

namespace Language

variable {α β : Type}

/-- Passes that go on, and the one that declines. -/
inductive Loop (P : α → Language (Option α)) : α → Language α where
  | stop {a : α} {w : List Terminal} {k : TokenKind} {m : Nat} (h : P a w k none m) :
      Loop P a w k a m
  | step {a b c : α} {v u : List Terminal} {k : TokenKind} {i j : Nat}
      (h : P a v (lead u k) (some b) i) (hl : Loop P b u k c j) :
      Loop P a (v ++ u) k c (max i j)

/-- Links of a chain behind operands of nesting `b` and `l` links. -/
inductive Links (L : α → Language (Option α)) :
    α → Nat → Nat → List Terminal → TokenKind → α → Nat → Nat → Prop where
  | nil {a : α} {b l : Nat} {k : TokenKind} : Links L a b l [] k a b l
  | cons {a c d : α} {b l m b' l' : Nat} {v u : List Terminal} {k : TokenKind}
      (h : L a v (lead u k) (some c) m) (hl : Links L c (max b m) (l + 1) u k d b' l') :
      Links L a b l (v ++ u) k d b' l'

/-- A first operand and the links behind it, up to where a link declines. -/
def chain (F : Language α) (L : α → Language (Option α)) : Language α := fun w k d m =>
  ∃ v a i u b l, w = v ++ u ∧ F v (lead u k) a i ∧ Links L a i 0 u k d b l ∧
    L d [] k none 0 ∧ m = b + l

inductive Separated (separator : TokenKind) (I : Language β) : Language (List β) where
  | single {w : List Terminal} {k : TokenKind} {b : β} {m : Nat} (h : I w k b m)
      (hk : k ≠ separator) : Separated separator I w k [b] m
  | cons {v w : List Terminal} {k : TokenKind} {b : β} {bs : List β} {i j : Nat}
      (h : I v separator b i) (hs : Separated separator I w k bs j) :
      Separated separator I (v ++ .fixed separator :: w) k (b :: bs) (max i j)

/-- What items yield, one behind the other up to a kind that stops. -/
inductive Many (stop : TokenKind → Bool) (I : Language (Option β)) : Language (List β) where
  | nil {k : TokenKind} (h : stop k = true) : Many stop I [] k [] 0
  | cons {v w : List Terminal} {k : TokenKind} {o : Option β} {bs : List β} {i j : Nat}
      (hk : stop (lead v (lead w k)) = false) (h : I v (lead w k) o i) (hs : Many stop I w k bs j) :
      Many stop I (v ++ w) k (o.toList ++ bs) (max i j)

variable {L : α → Language (Option α)} {a c d : α} {b l m b' l' b'' l'' : Nat}
  {v w : List Terminal} {k : TokenKind}

theorem Links.le (h : Links L a b l w k d b' l') : b + l ≤ b' + l' := by
  induction h with
  | nil => exact Nat.le_refl _
  | cons _ _ ih => omega

theorem Links.trans (h : Links L a b l v (lead w k) c b' l')
    (h' : Links L c b' l' w k d b'' l'') : Links L a b l (v ++ w) k d b'' l'' := by
  generalize hk : lead w k = k' at h
  induction h with
  | nil => exact h'
  | cons hc _ ih =>
    subst hk
    rw [List.append_assoc]
    refine .cons ?_ (ih h' rfl)
    rwa [lead_append]

theorem Links.snoc (h : Links L a b l v (lead w k) c b' l') (hc : L c w k (some d) m) :
    Links L a b l (v ++ w) k d (max b' m) (l' + 1) := by
  have last : Links L c b' l' (w ++ []) k d (max b' m) (l' + 1) := .cons hc .nil
  rw [List.append_nil] at last
  exact h.trans last

end Language

namespace Rule

variable {α β : Type} {n : Nat}

theorem repeatWithin_nil (pass : α → Rule (Option α)) (a : α) :
    repeatWithin pass [] a = pass a >>= fun o => pure (o.getD a) := by
  funext s
  show repeatWithin pass [] a s = EStateM.bind (pass a) _ s
  unfold repeatWithin EStateM.bind
  rcases pass a s with ⟨_ | b, r⟩ | ⟨e, r⟩ <;> rfl

theorem repeatWithin_cons (pass : α → Rule (Option α)) (c : Char) (bound : List Char) (a : α) :
    repeatWithin pass (c :: bound) a =
      pass a >>= fun o => o.elim (pure a) (repeatWithin pass bound) := by
  funext s
  show repeatWithin pass (c :: bound) a s = EStateM.bind (pass a) _ s
  rw [repeatWithin]
  unfold EStateM.bind
  rcases pass a s with ⟨_ | b, r⟩ | ⟨e, r⟩ <;> rfl

theorem repeatWithin_congr {pass : α → Rule (Option α)} {I : State → Prop}
    (hpass : ∀ a s b r, I s → pass a s = .ok (some b) r → I r ∧ r.remaining < s.remaining)
    {bound bound' : List Char} {a : α} {s : State} (hs : I s) (h : s.remaining ≤ bound.length)
    (h' : s.remaining ≤ bound'.length) :
    repeatWithin pass bound a s = repeatWithin pass bound' a s := by
  induction bound generalizing bound' a s with
  | nil =>
    unfold repeatWithin
    split <;> try rfl
    rename_i b r hb
    have := (hpass _ _ _ _ hs hb).2
    simp only [List.length_nil] at h
    omega
  | cons x bound ih =>
    unfold repeatWithin
    split <;> try rfl
    rename_i b r hb
    obtain ⟨hr, hlt⟩ := hpass _ _ _ _ hs hb
    cases bound' with
    | nil =>
      simp only [List.length_nil] at h'
      omega
    | cons y bound' =>
      simp only [List.length_cons] at h h'
      exact ih hr (by omega) (by omega)

theorem iterate_eq {pass : α → Rule (Option α)} {I : State → Prop}
    (hpass : ∀ a s b r, I s → pass a s = .ok (some b) r → I r ∧ r.remaining < s.remaining)
    {a : α} {s : State} (hs : I s) :
    iterate pass a s = match pass a s with
      | .error e r => .error e r
      | .ok none r => .ok a r
      | .ok (some b) r => iterate pass b r := by
  show repeatWithin pass ('\n' :: s.cursor.rest) a s = _
  rw [repeatWithin]
  cases hb : pass a s with
  | error e r => rfl
  | ok o r =>
    cases o with
    | none => rfl
    | some b =>
      obtain ⟨hr, hlt⟩ := hpass _ _ _ _ hs hb
      have hs' := s.remaining_le_length
      rw [List.length_cons] at hs'
      show repeatWithin pass s.cursor.rest b r = repeatWithin pass ('\n' :: r.cursor.rest) b r
      exact repeatWithin_congr hpass hr (by omega) r.remaining_le_length

section Iterate

variable {pass : α → Rule (Option α)} {P : α → Language (Option α)}

theorem pass_progress (hP : ∀ a, Reads n (pass a) (P a))
    (hw : ∀ {a w k b m}, P a w k (some b) m → w ≠ []) (a : α) (s : State) (b : α) (r : State)
    (hs : Leaves n s) (h : pass a s = .ok (some b) r) : Leaves n r ∧ r.remaining < s.remaining := by
  obtain ⟨w, m, u, hp, hu, -, rfl⟩ := ((hP a).ok_iff hs).mp h
  exact ⟨(hs.takes hu).raise m, hu.remaining_lt (hw hp)⟩

theorem reads_iterate (hP : ∀ a, Reads n (pass a) (P a))
    (hw : ∀ {a w k b m}, P a w k (some b) m → w ≠ []) (a : α) :
    Reads n (iterate pass a) (Loop P a) := by
  have unfold_iterate (a : α) {s : State} (hs : Leaves n s) :=
    iterate_eq (a := a) (pass_progress hP hw) hs
  rintro _ s - hs c r
  constructor
  · -- by the tokens left: a pass that goes on leaves fewer
    intro h
    induction hr : s.remaining using Nat.strongRecOn generalizing a s with
    | ind _ ih =>
      subst hr
      rw [unfold_iterate a hs] at h
      split at h
      · cases h
      · rename_i hpass
        cases h
        obtain ⟨w, m, u, hd, hu, hm, rfl⟩ := ((hP c).ok_iff hs).mp hpass
        exact ⟨w, m, u, .stop hd, hu, hm, rfl⟩
      · rename_i b _ hpass
        obtain ⟨v, i, u, hg, hu, hi, rfl⟩ := ((hP a).ok_iff hs).mp hpass
        obtain ⟨w, j, q, hd, hq, hj, rfl⟩ :=
          ih _ (hu.remaining_lt (hw hg)) b _ ((hs.takes hu).raise i) h rfl
        obtain ⟨q, huq, rfl⟩ := takes_raise_iff.mp hq
        refine ⟨v ++ w, max i j, q, .step ?_ hd, hu.append huq, by omega, by simp⟩
        rwa [← huq.current_kind]
  · rintro ⟨w, m, u, hd, hu, hm, rfl⟩
    generalize hk : u.current.kind = k at hd
    induction hd generalizing s u with
    | stop h =>
      subst hk
      rw [unfold_iterate _ hs, ((hP _).ok_iff hs).mpr ⟨_, _, u, h, hu, hm, rfl⟩]
    | @step a b c v w k i j h _ ih =>
      subst hk
      obtain ⟨q, hq, hqu⟩ := hu.split
      rw [← hqu.current_kind] at h
      rw [unfold_iterate _ hs, ((hP _).ok_iff hs).mpr ⟨_, _, q, h, hq, by omega, rfl⟩]
      simpa using ih _ ((hs.takes hq).raise i) _ (hqu.raise i) (by omega) rfl

end Iterate

section Separated

variable {item : Rule β} {I : Language β} {separator : TokenKind}

/-- One more item behind a separator; the items read before it are held last first. -/
def separatedPass (separator : TokenKind) (I : Language β) (read : List β) :
    Language (Option (List β)) :=
  option separator (seq I fun b => value (some (b :: read))) (value none)

theorem separated_of_loop {v w : List Terminal} {k : TokenKind} {b : β} {read bs : List β}
    {i m : Nat} (hl : Loop (separatedPass separator I) read w k bs m) (h : I v (lead w k) b i) :
    ∃ cs, bs = cs.reverse ++ read ∧ Separated separator I (v ++ w) k (b :: cs) (max i m) := by
  induction hl generalizing v b i with
  | stop hp =>
    obtain ⟨_, -, _, _, _, _, _, -, -, ⟨-, hc, -⟩, -⟩ | ⟨hk, rfl, -, rfl⟩ := hp
    · cases hc
    · refine ⟨[], rfl, ?_⟩
      rw [List.append_nil, Nat.max_zero]
      exact .single h hk
  | step hp _ ih =>
    obtain ⟨_, rfl, u, c, j, _, _, rfl, hc, ⟨rfl, hread, rfl⟩, rfl⟩ | ⟨-, -, hc, -⟩ := hp
    · cases hread
      obtain ⟨cs, rfl, hs⟩ := ih hc
      refine ⟨c :: cs, by simp, ?_⟩
      have := Separated.cons h hs
      simpa using this
    · cases hc

theorem loop_of_separated {w : List Terminal} {k : TokenKind} {bs : List β} {m : Nat}
    (hs : Separated separator I w k bs m) (read : List β) :
    ∃ v b i u j, w = v ++ u ∧ I v (lead u k) b i ∧ m = max i j ∧
      Loop (separatedPass separator I) (b :: read) u k (bs.reverse ++ read) j := by
  induction hs generalizing read with
  | @single w k b m h hk =>
    refine ⟨w, b, m, [], 0, by simp, h, by simp, .stop (.inr ⟨hk, rfl, rfl, rfl⟩)⟩
  | @cons v w k b bs i j h _ ih =>
    obtain ⟨v', c, i', u, j', rfl, hc, rfl, hl⟩ := ih (b :: read)
    refine ⟨v, b, i, .fixed separator :: (v' ++ u), max i' j', rfl, h, rfl, ?_⟩
    have pass : separatedPass separator I (b :: read) (.fixed separator :: v') (lead u k)
        (some (c :: b :: read)) i' :=
      .inl ⟨v', rfl, v', c, i', [], 0, by simp, hc, ⟨rfl, rfl, rfl⟩, by simp⟩
    simpa using Loop.step pass hl

theorem reads_separated (hk : separator ≠ .eof ∧ separator.hasLexeme = false)
    (h : Reads n item I) :
    Reads n (separated separator item) (Separated separator I) := by
  have pass (read : List β) : Reads n (do
      unless ← accept separator do return none
      return some ((← item) :: read)) (separatedPass separator I read) :=
    fun t => reads_accept hk (fun t => reads_bind (h t) fun b t => reads_pure _) (reads_pure _)
  have loop := reads_iterate pass fun {read w k bs m} hp => by
    rintro rfl
    obtain ⟨_, hv, -⟩ | ⟨-, -, hc, -⟩ := hp
    · cases hv
    · cases hc
  refine Reads.congr (fun t => reads_bind (h t) fun b t => reads_map List.reverse (loop [b] t))
    fun w k bs m => ?_
  constructor
  · rintro ⟨v, b, i, u, j, rfl, hb, ⟨cs, hl, rfl⟩, rfl⟩
    obtain ⟨cs, rfl, hs⟩ := separated_of_loop hl hb
    simpa using hs
  · intro hs
    obtain ⟨v, b, i, u, j, rfl, hb, rfl, hl⟩ := loop_of_separated hs []
    exact ⟨v, b, i, u, j, rfl, hb, ⟨_, hl, by simp⟩, rfl⟩

end Separated

section Many

variable {stop : TokenKind → Bool} {item : Rule (Option β)} {I : Language (Option β)}

/-- One more item, held in front of those read before it. -/
def itemPass (stop : TokenKind → Bool) (item : Rule (Option β)) (read : List β) :
    Rule (Option (List β)) := do
  if stop (← peek) then return none
  else return some ((← item).toList ++ read)

theorem manyUntil_eq : manyUntil stop item = List.reverse <$> iterate (itemPass stop item) [] := by
  unfold manyUntil
  congr 2
  funext read
  refine bind_congr fun k => ?_
  split
  · rfl
  · refine bind_congr fun o => ?_
    cases o <;> rfl

/-- One more item where the kind in front does not stop; the yield is held last first. -/
def manyPass (stop : TokenKind → Bool) (I : Language (Option β)) (read : List β) :
    Language (Option (List β)) := fun w k o m =>
  if stop (lead w k) then value none w k o m
  else seq I (fun b => value (some (b.toList ++ read))) w k o m

theorem many_of_loop {w : List Terminal} {k : TokenKind} {read bs : List β} {m : Nat}
    (hl : Loop (manyPass stop I) read w k bs m) :
    ∃ cs, bs = cs.reverse ++ read ∧ Many stop I w k cs m := by
  induction hl with
  | stop hp =>
    unfold manyPass at hp
    split at hp
    · rename_i hk
      obtain ⟨rfl, -, rfl⟩ := hp
      exact ⟨[], rfl, .nil hk⟩
    · obtain ⟨_, _, _, _, _, -, -, ⟨-, hc, -⟩, -⟩ := hp
      cases hc
  | step hp _ ih =>
    unfold manyPass at hp
    split at hp
    · cases hp.2.1
    · rename_i hk
      obtain ⟨v, o, i, _, _, rfl, ho, ⟨rfl, hread, rfl⟩, rfl⟩ := hp
      cases hread
      obtain ⟨cs, rfl, hs⟩ := ih
      rw [List.append_nil, Nat.max_zero] at *
      exact ⟨o.toList ++ cs, by cases o <;> simp, .cons (by simpa using hk) ho hs⟩

theorem loop_of_many {w : List Terminal} {k : TokenKind} {bs : List β} {m : Nat}
    (hs : Many stop I w k bs m) (read : List β) :
    Loop (manyPass stop I) read w k (bs.reverse ++ read) m := by
  induction hs generalizing read with
  | nil hk =>
    refine .stop ?_
    simp only [manyPass, lead_nil, hk, if_true]
    exact ⟨rfl, rfl, rfl⟩
  | @cons v w k o bs i j hk h _ ih =>
    have pass : manyPass stop I read v (lead w k) (some (o.toList ++ read)) i := by
      simp only [manyPass, hk, Bool.false_eq_true, if_false]
      exact ⟨v, o, i, [], 0, by simp, h, ⟨rfl, rfl, rfl⟩, by simp⟩
    have := Loop.step pass (ih _)
    cases o <;> simpa using this

theorem reads_manyUntil (h : Reads n item I) (hI : ∀ {w k o m}, I w k o m → w ≠ []) :
    Reads n (manyUntil stop item) (Many stop I) := by
  have pass (read : List β) : Reads n (itemPass stop item read) (manyPass stop I read) := by
    intro t
    refine reads_peek ?_
    split
    · rename_i hk
      refine (reads_pure _).congr fun w k o m hw _ => ?_
      simp [manyPass, hw, hk]
    · rename_i hk
      refine (reads_bind (h t) fun o t => reads_pure _).congr fun w k o m hw _ => ?_
      simp [manyPass, hw, hk]
  have loop := reads_iterate pass fun {read w k bs m} hp => by
    unfold manyPass at hp
    split at hp
    · cases hp.2.1
    · obtain ⟨v, o, i, _, _, rfl, ho, -, -⟩ := hp
      simp [hI ho]
  rw [manyUntil_eq]
  refine Reads.congr (fun t => reads_map List.reverse (loop [] t)) fun w k bs m => ?_
  constructor
  · rintro ⟨cs, hl, rfl⟩
    obtain ⟨cs, rfl, hs⟩ := many_of_loop hl
    simpa using hs
  · intro hs
    exact ⟨_, loop_of_many hs [], by simp⟩

end Many

/-- A map that passes commute with may be made at the end. -/
theorem iterate_map {pass : α → Rule (Option α)} {φ : α → α}
    (h : ∀ a, pass (φ a) = Option.map φ <$> pass a) (a : α) :
    iterate pass (φ a) = φ <$> iterate pass a := by
  have bounded (bound : List Char) (a : α) :
      repeatWithin pass bound (φ a) = φ <$> repeatWithin pass bound a := by
    induction bound generalizing a with
    | nil =>
      simp only [repeatWithin_nil, h, map_eq_pure_bind, bind_assoc, pure_bind]
      refine bind_congr fun o => ?_
      cases o <;> rfl
    | cons c bound ih =>
      simp only [repeatWithin_cons, h, map_eq_pure_bind, bind_assoc, pure_bind]
      refine bind_congr fun o => ?_
      cases o with
      | none => simp only [Option.map_none, Option.elim_none, pure_bind]
      | some b => exact (ih b).trans (map_eq_pure_bind _ _)
  funext s
  exact congrFun (bounded _ a) s

section Items

variable {stop : TokenKind → Bool} {item : Rule (Option β)} {s r : State} {o : Option β}
  {read x : List β}

theorem itemPass_append (x y : List β) :
    itemPass stop item (x ++ y) = Option.map (· ++ y) <$> itemPass stop item x := by
  simp only [itemPass, map_bind]
  refine bind_congr fun k => ?_
  split
  · rfl
  · simp only [map_bind, map_pure, Option.map_some, List.append_assoc]

theorem itemPass_ok_iff : itemPass stop item read s = .ok (some x) r ↔
    stop s.current.kind = false ∧ ∃ o, item s = .ok o r ∧ x = o.toList ++ read := by
  show (if stop s.current.kind then _ else _ : Rule _) s = _ ↔ _
  split
  · rename_i hstop
    constructor
    · intro h
      cases h
    · rintro ⟨h, -⟩
      rw [h] at hstop
      cases hstop
  · rename_i hstop
    rw [bind_ok_iff]
    constructor
    · rintro ⟨o, u, ho, h⟩
      cases h
      exact ⟨by simpa using hstop, o, ho, rfl⟩
    · rintro ⟨-, o, ho, rfl⟩
      exact ⟨o, r, ho, rfl⟩

/-- One item and then all others. -/
theorem manyUntil_of_item {I : State → Prop}
    (hitem : ∀ s o r, I s → item s = .ok o r → I r ∧ r.remaining < s.remaining) {s r : State}
    {o : Option β} (hs : I s) (hstop : stop s.current.kind = false) (h : item s = .ok o r) :
    manyUntil stop item s = ((o.toList ++ ·) <$> manyUntil stop item) r := by
  have hpass (read : List β) (s : State) (b : List β) (r : State) (hs : I s)
      (h : itemPass stop item read s = .ok (some b) r) : I r ∧ r.remaining < s.remaining := by
    obtain ⟨-, o, ho, -⟩ := itemPass_ok_iff.mp h
    exact hitem s o r hs ho
  have hfirst : itemPass stop item [] s = .ok (some o.toList) r :=
    itemPass_ok_iff.mpr ⟨hstop, o, h, (List.append_nil _).symm⟩
  have hiterate : iterate (itemPass stop item) [] s =
      ((· ++ o.toList) <$> iterate (itemPass stop item) []) r := by
    rw [← iterate_map (fun x => itemPass_append x o.toList), iterate_eq hpass hs, hfirst]
    rfl
  have hreverse : List.reverse <$> (· ++ o.toList) <$> iterate (itemPass stop item) [] =
      (o.toList ++ ·) <$> List.reverse <$> iterate (itemPass stop item) [] := by
    simp only [Functor.map_map, List.reverse_append]
    cases o <;> rfl
  rw [manyUntil_eq, ← hreverse]
  exact map_eq_map hiterate _

end Items
section Chain

variable {first : Rule α} {link : α → Rule (Option α)} {F : Language α}
  {L : α → Language (Option α)}

/-- One link of a chain, counted on top of the deepest operand. -/
def chainPass (link : α → Rule (Option α)) : α × Nat → Rule (Option (α × Nat)) :=
  fun (a, links) => do
    let location ← here
    match ← link a with
    | none => return none
    | some b =>
      let s ← get
      if s.limit < s.peak + (links + 1) then failAt location (.nestingTooDeep s.limit)
      else return some (b, links + 1)

theorem chainPass_ok_iff {a : α} {l : Nat} {s r : State} {o : Option (α × Nat)} :
    chainPass link (a, l) s = .ok o r ↔
      link a s = .ok none r ∧ o = none ∨
      ∃ c, link a s = .ok (some c) r ∧ o = some (c, l + 1) ∧ r.peak + (l + 1) ≤ r.limit := by
  show (link a >>= _) s = _ ↔ _
  rw [bind_ok_iff]
  constructor
  · rintro ⟨_ | c, u, hlink, hnext⟩
    · cases hnext
      exact .inl ⟨hlink, rfl⟩
    · change (if u.limit < u.peak + (l + 1) then failAt _ _ else pure (some (c, l + 1))) u = _
        at hnext
      split at hnext
      · cases hnext
      · rename_i hle
        cases hnext
        exact .inr ⟨c, hlink, rfl, by omega⟩
  · rintro (⟨hlink, rfl⟩ | ⟨c, hlink, rfl, hle⟩)
    · exact ⟨none, r, hlink, rfl⟩
    · refine ⟨some c, r, hlink, ?_⟩
      show (if r.limit < r.peak + (l + 1) then failAt _ _ else pure (some (c, l + 1))) r = _
      rw [if_neg (by omega)]
      rfl

theorem chainPass_progress (hL : ∀ a, Reads n (link a) (L a))
    (hgo : ∀ {a w k c m}, L a w k (some c) m → w ≠ []) (a : α × Nat) (s : State) (c : α × Nat)
    (r : State) (hs : Leaves n s) (h : chainPass link a s = .ok (some c) r) :
    Leaves n r ∧ r.remaining < s.remaining := by
  rcases chainPass_ok_iff.mp h with ⟨-, hc⟩ | ⟨c', hlink, -, -⟩
  · cases hc
  · exact pass_progress hL hgo _ s c' r hs hlink

/-- The state behind a chain whose operands nest `b` levels deep. -/
theorem raise_eq_of_peak {s u : State} {w : List Terminal} {b m : Nat} (hu : Takes s w u)
    (hb : s.peak = s.depth + b) : (u.raise m).peak = (u.raise m).depth + max b m := by
  simp only [State.peak_raise, State.depth_raise, hu.peak_eq, hu.depth_eq]
  omega

theorem iterate_chainPass_ok_iff (hL : ∀ a, Reads n (link a) (L a))
    (hstop : ∀ {a w k m}, L a w k none m → w = [] ∧ m = 0)
    (hgo : ∀ {a w k c m}, L a w k (some c) m → w ≠ []) {a d : α} {b l l' : Nat} {s r : State}
    (hs : Leaves n s) (hb : s.peak = s.depth + b) (hn : b + l ≤ n) :
    iterate (chainPass link) (a, l) s = .ok (d, l') r ↔
      ∃ w u b', Links L a b l w u.current.kind d b' l' ∧ L d [] u.current.kind none 0 ∧
        Takes s w u ∧ b' + l' ≤ n ∧ r = { u with peak := u.depth + b' } := by
  induction hr : s.remaining using Nat.strongRecOn generalizing a b l s with
  | ind _ ih =>
    subst hr
    rw [iterate_eq (chainPass_progress hL hgo) hs]
    constructor
    · intro h
      split at h
      · cases h
      · rename_i hpass
        cases h
        rcases chainPass_ok_iff.mp hpass with ⟨hlink, -⟩ | ⟨_, -, hc, -⟩
        · obtain ⟨w, m, u, hd, hu, -, rfl⟩ := ((hL d).ok_iff hs).mp hlink
          obtain ⟨rfl, rfl⟩ := hstop hd
          cases hu
          exact ⟨[], s, b, .nil, hd, .nil s, hn, by rw [s.raise_zero hs.2, ← hb]⟩
        · cases hc
      · rename_i p q hpass
        rcases chainPass_ok_iff.mp hpass with ⟨-, hc⟩ | ⟨c, hlink, hc, hle⟩
        · cases hc
        cases hc
        obtain ⟨v, m, u, hc, hu, -, rfl⟩ := ((hL a).ok_iff hs).mp hlink
        have hq := (hs.takes hu).raise m
        have hpeak := raise_eq_of_peak (m := m) hu hb
        obtain ⟨w, z, b', hl, hd, hz, hn', rfl⟩ := (ih _ (hu.remaining_lt (hgo hc)) hq hpeak
          (by rw [hpeak, hq.1] at hle; omega) rfl).mp h
        obtain ⟨z, huz, rfl⟩ := takes_raise_iff.mp hz
        refine ⟨v ++ w, z, b', .cons ?_ hl, hd, hu.append huz, hn', rfl⟩
        rwa [← huz.current_kind]
    · rintro ⟨w, u, b', hl, hd, hu, hn', rfl⟩
      cases hl with
      | nil =>
        cases hu
        rw [chainPass_ok_iff.mpr (.inl ⟨((hL d).ok_iff hs).mpr
          ⟨[], 0, s, hd, .nil s, Nat.zero_le n, rfl⟩, rfl⟩)]
        simp only [s.raise_zero hs.2, ← hb]
      | @cons _ c _ _ _ m _ _ v w _ hc hl =>
        obtain ⟨q, hq, hqu⟩ := hu.split
        rw [← hqu.current_kind] at hc
        have hle := hl.le
        have hq' := (hs.takes hq).raise m
        have hpeak := raise_eq_of_peak (m := m) hq hb
        rw [chainPass_ok_iff.mpr (.inr ⟨c, ((hL a).ok_iff hs).mpr
          ⟨v, m, q, hc, hq, by omega, rfl⟩, rfl, by rw [hpeak, hq'.1]; omega⟩)]
        exact (ih _ (hq.remaining_lt (hgo hc)) hq' hpeak (by omega) rfl).mpr
          ⟨w, u.raise m, b', hl, hd, hqu.raise m, hn', rfl⟩

/-- A chain reads its operands with the peak set back, and counts its links on top at the end. -/
theorem chain_eq (s : State) : chain first link s = (first >>= fun a =>
    iterate (chainPass link) (a, 0) >>= fun p => fun r =>
      .ok p.1 { r with peak := max s.peak (r.peak + p.2) }) { s with peak := s.depth } := rfl

theorem chain_ok_iff {s r : State} {d : α} :
    chain first link s = .ok d r ↔ ∃ a q l q', first { s with peak := s.depth } = .ok a q ∧
      iterate (chainPass link) (a, 0) q = .ok (d, l) q' ∧
      r = { q' with peak := max s.peak (q'.peak + l) } := by
  show (first >>= fun a => iterate (chainPass link) (a, 0) >>= _) { s with peak := s.depth } = _ ↔ _
  simp only [bind_ok_iff]
  constructor
  · rintro ⟨a, q, ha, ⟨d', l⟩, q', hd, _, _, hm, h⟩
    cases hm
    cases h
    exact ⟨a, q, l, q', ha, hd, rfl⟩
  · rintro ⟨a, q, l, q', ha, hd, rfl⟩
    exact ⟨a, q, ha, (d, l), q', hd, (), _, rfl, rfl⟩

theorem reads_chain (hF : Reads n first F) (hL : ∀ a, Reads n (link a) (L a))
    (hstop : ∀ {a w k m}, L a w k none m → w = [] ∧ m = 0)
    (hgo : ∀ {a w k c m}, L a w k (some c) m → w ≠ []) :
    Reads n (chain first link) (Language.chain F L) := by
  rintro _ s - hs d r
  have hs' : Leaves n { s with peak := s.depth } := ⟨hs.1, Nat.le_refl _⟩
  rw [chain_ok_iff]
  constructor
  · rintro ⟨a, _, l, _, ha, hd, rfl⟩
    obtain ⟨v, i, u, hv, hu, hi, rfl⟩ := (hF.ok_iff hs').mp ha
    have hpeak := raise_eq_of_peak (b := 0) (m := i) hu rfl
    rw [Nat.zero_max] at hpeak
    obtain ⟨w, z, b, hl, hstop, hz, hn, rfl⟩ := (iterate_chainPass_ok_iff hL hstop hgo
      ((hs'.takes hu).raise i) hpeak (by omega)).mp hd
    obtain ⟨z, huz, rfl⟩ := takes_raise_iff.mp hz
    have hsz := hu.append huz
    refine ⟨v ++ w, b + l, { z with peak := s.peak },
      ⟨v, a, i, w, b, l, rfl, ?_, hl, hstop, rfl⟩, hsz.repeak s.peak, hn, ?_⟩
    · rwa [← huz.current_kind]
    · simp only [State.raise, hsz.depth_eq, Nat.add_assoc]
  · rintro ⟨_, _, z, ⟨v, a, i, w, b, l, rfl, hv, hl, hstop', rfl⟩, hz, hn, rfl⟩
    obtain ⟨u, hu, huz⟩ := (hz.repeak s.depth).split
    have hle := hl.le
    have hpeak := raise_eq_of_peak (b := 0) (m := i) hu rfl
    rw [Nat.zero_max] at hpeak
    have hd := (iterate_chainPass_ok_iff hL hstop hgo ((hs'.takes hu).raise i) hpeak
      (by omega)).mpr
        ⟨w, { z with peak := s.depth }.raise i, b, hl, hstop', huz.raise i, hn, rfl⟩
    refine ⟨a, u.raise i, l, _, (hF.ok_iff hs').mpr ⟨v, i, u, ?_, hu, by omega, rfl⟩, hd, ?_⟩
    · rwa [huz.current_kind]
    · simp only [State.raise, hz.peak_eq, Nat.add_assoc]

end Chain

end Rule

end ScriptFront
