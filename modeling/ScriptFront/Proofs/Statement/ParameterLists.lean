import ScriptFront.Proofs.Statement.Parts

/-! # What the rule for parameter lists reads

What a list has shown so far decides whether one more parameter may stand behind it. -/

namespace ScriptFront

open Terminal ScriptFront.Language ScriptFront.Expr

/-- The kinds a parameter ends in front of. -/
def Parameter.Phrase.Ends {w : List Terminal} {p : Parameter} (k : TokenKind) :
    Parameter.Phrase w p → Prop
  | .variadic => True
  | .required _ => k ≠ .assign
  | .defaulted _ d => k.grip < d.bound

theorem Parameter.Phrase.ends_of_closer {w : List Terminal} {p : Parameter} {k : TokenKind}
    (hk : k = .comma ∨ k = .closeParen) (d : Parameter.Phrase w p) : d.Ends k := by
  cases d with
  | variadic => exact trivial
  | required => rcases hk with rfl | rfl <;> exact nofun
  | defaulted name d => rcases hk with rfl | rfl <;> exact d.bound_pos

theorem Parameter.ordered_snoc_iff {ps : List Parameter} {p : Parameter} :
    Ordered (ps ++ [p]) ↔ Ordered ps ∧ ∀ q ∈ ps, q.MayPrecede p := by
  simp [Ordered, List.pairwise_append]

namespace Rule

namespace ParametersSeen

/-- What a list of parameters has shown. -/
def of (ps : List Parameter) : ParametersSeen :=
  ⟨ps.reverse, ps.any (·.isVariadic), ps.any (·.default?.isSome)⟩

def Allows (seen : ParametersSeen) (p : Parameter) : Prop :=
  seen.ellipsis = false ∧ (seen.default = true → p.isVariadic ∨ p.default?.isSome)

def add (seen : ParametersSeen) (p : Parameter) : ParametersSeen :=
  ⟨p :: seen.read, seen.ellipsis || p.isVariadic, seen.default || p.default?.isSome⟩

theorem add_variadic (seen : ParametersSeen) :
    seen.add .variadic = { seen with read := .variadic :: seen.read, ellipsis := true } := by
  simp [add, Parameter.isVariadic, Parameter.default?]

theorem add_required (seen : ParametersSeen) (name : String) :
    seen.add (.named name none) = { seen with read := .named name none :: seen.read } := by
  simp [add, Parameter.isVariadic, Parameter.default?]

theorem add_defaulted (seen : ParametersSeen) (name : String) (e : Expr) :
    seen.add (.named name (some e)) =
      { seen with read := .named name (some e) :: seen.read, default := true } := by
  simp [add, Parameter.isVariadic, Parameter.default?]

theorem add_of (ps : List Parameter) (p : Parameter) : (of ps).add p = of (ps ++ [p]) := by
  simp [of, add]

theorem allows_of_iff {ps : List Parameter} {p : Parameter} :
    (of ps).Allows p ↔ ∀ q ∈ ps, q.MayPrecede p := by
  simp only [Allows, of, Parameter.MayPrecede, List.any_eq_false, List.any_eq_true,
    Bool.not_eq_true]
  constructor
  · intro ⟨hellipsis, hdefault⟩ q hq
    exact ⟨hellipsis q hq, fun h => hdefault ⟨q, hq, h⟩⟩
  · intro h
    exact ⟨fun q hq => (h q hq).1, fun ⟨q, hq, hd⟩ => (h q hq).2 hd⟩

end ParametersSeen

variable {n : Nat} {constant : Rule Expr}

/-- One parameter that may stand behind what a list has shown. -/
def parameterAfter (seen : ParametersSeen) : Language ParametersSeen := fun w k next m =>
  ∃ p, ∃ d : Parameter.Phrase w p, d.Ends k ∧ seen.Allows p ∧ next = seen.add p ∧ m = d.need

theorem reads_parameter (hC : Reads n constant nestedConstants) (seen : ParametersSeen) :
    Reads n (parameter constant seen) (parameterAfter seen) := by
  intro t
  refine reads_here (reads_peek ?_)
  split
  · rename_i hk
    by_cases he : seen.ellipsis = true
    · simp only [ellipsisParameter, he, if_true]
      refine (reads_expect (by decide) fun t => reads_failAt _ _).congr fun w k next m _ _ => ?_
      constructor
      · rintro ⟨_, _, hc⟩
        exact hc.elim
      · rintro ⟨p, d, -, ⟨hellipsis, -⟩, -⟩
        rw [he] at hellipsis
        cases hellipsis
    · simp only [ellipsisParameter, he]
      refine (reads_expect (by decide) fun t => reads_pure _).congr fun w k next m hw _ => ?_
      rw [hk] at hw
      constructor
      · rintro ⟨_, rfl, rfl, rfl, rfl⟩
        exact ⟨.variadic, .variadic, trivial, ⟨by simpa using he, fun _ => .inl rfl⟩,
          seen.add_variadic.symm, rfl⟩
      · rintro ⟨p, d, -, -, rfl, rfl⟩
        cases d with
        | variadic => exact ⟨[], rfl, rfl, seen.add_variadic, rfl⟩
        | required | defaulted => cases hw
  · rename_i hk
    refine reads_peek ?_
    split
    · rename_i he
      refine (reads_failAt _ _).congr fun w k next m _ _ => ?_
      constructor
      · exact False.elim
      · rintro ⟨p, d, -, ⟨hellipsis, -⟩, -⟩
        rw [hellipsis] at he
        cases he
    · rename_i he
      have required (name : String) : Reads n (if seen.default = true then
          failAt t.location (.missingDefault name)
          else return { seen with read := .named name none :: seen.read }) fun w _ next m =>
            seen.default = false ∧ value (seen.add (.named name none)) w .eof next m := by
        intro t
        split
        · rename_i hd
          refine (reads_failAt _ _).congr fun w k next m _ _ => ?_
          simp [nothing, hd]
        · rename_i hd
          refine (reads_pure _).congr fun w k next m _ _ => ?_
          simp [hd, seen.add_required, value]
      refine (reads_name fun name t => reads_accept (by decide) (fun t => reads_bind (hC t)
        fun e t => reads_pure _) (required name t)).congr fun w k next m hw _ => ?_
      constructor
      · rintro ⟨name, _, rfl, ⟨_, rfl, v, e, _, _, _, rfl, ⟨i, rfl, d, rfl, hd⟩,
          ⟨rfl, rfl, rfl⟩, rfl⟩ | ⟨hne, hdefault, rfl, rfl, rfl⟩⟩
        · rw [List.append_nil, Nat.max_zero]
          refine ⟨.named name (some e), .defaulted name d, hd, ⟨?_, fun _ => .inr rfl⟩,
            (seen.add_defaulted name e).symm, rfl⟩
          rw [lead_cons, kind_carrying] at hw
          simpa [← hw] using he
        · refine ⟨.named name none, .required name, hne, ⟨?_, fun h => ?_⟩, rfl, rfl⟩
          · rw [lead_cons, kind_carrying] at hw
            simpa [← hw] using he
          · rw [hdefault] at h
            cases h
      · rintro ⟨p, d, hd, ⟨-, hallow⟩, rfl, rfl⟩
        cases d with
        | variadic => exact (hk hw.symm).elim
        | required name =>
          refine ⟨name, [], rfl, .inr ⟨hd, ?_, rfl, rfl, rfl⟩⟩
          cases hdefault : seen.default with
          | false => rfl
          | true => rcases hallow hdefault with h | h <;> cases h
        | @defaulted name v e d =>
          exact ⟨name, _, rfl, .inl ⟨v, rfl, v, e, d.need + 1, [], 0, (List.append_nil v).symm,
            ⟨d.need, rfl, d, rfl, hd⟩, ⟨rfl, seen.add_defaulted name e, rfl⟩,
            (Nat.max_zero _).symm⟩⟩

/-- One more parameter behind a comma. -/
def parameterPass (seen : ParametersSeen) : Language (Option ParametersSeen) :=
  option .comma (seq (parameterAfter seen) fun next => value (some next)) (value none)

open ParametersSeen in
theorem listed_of_loop (ps : List Parameter) {p : Parameter} {v w : List Terminal} {k : TokenKind}
    {seen : ParametersSeen} {m : Nat} (hl : Loop parameterPass (of (ps ++ [p])) w k seen m)
    (d : Parameter.Phrase v p) (hp : Parameter.Ordered (ps ++ [p])) :
    ∃ qs, ∃ ds : Parameter.Listed (v ++ w) (p :: qs),
      seen = of (ps ++ p :: qs) ∧ Parameter.Ordered (ps ++ p :: qs) ∧ max d.need m = ds.need := by
  generalize hstart : of (ps ++ [p]) = start at hl
  induction hl generalizing ps p v with
  | stop h =>
    obtain ⟨_, -, _, _, _, _, _, -, -, ⟨-, hc, -⟩, -⟩ | ⟨-, rfl, -, rfl⟩ := h
    · cases hc
    · rw [List.append_nil]
      exact ⟨[], .single d, hstart.symm, hp, Nat.max_zero _⟩
  | @step _ _ _ _ u _ _ _ h hl ih =>
    subst hstart
    obtain ⟨_, rfl, u', next, i, _, _, rfl, ⟨q, dq, -, hallow, rfl, rfl⟩, ⟨rfl, hread, rfl⟩, rfl⟩ |
      ⟨-, -, hc, -⟩ := h
    · cases hread
      rw [allows_of_iff] at hallow
      obtain ⟨qs, ds, rfl, hqs, hneed⟩ := ih (ps ++ [p]) dq
        (Parameter.ordered_snoc_iff.mpr ⟨hp, hallow⟩) (add_of _ q).symm
      rw [List.append_nil, List.cons_append, Nat.max_zero, hneed]
      rw [List.append_assoc] at hqs ⊢
      exact ⟨q :: qs, .cons d ds, rfl, hqs, rfl⟩
    · cases hc

open ParametersSeen in
theorem loop_of_listed {w : List Terminal} {p : Parameter} {qs : List Parameter}
    (ds : Parameter.Listed w (p :: qs)) (ps : List Parameter)
    (hp : Parameter.Ordered (ps ++ p :: qs)) :
    ∃ v u, ∃ d : Parameter.Phrase v p, ∃ m, w = v ++ u ∧ d.Ends (lead u .closeParen) ∧
      ds.need = max d.need m ∧
      Loop parameterPass (of (ps ++ [p])) u .closeParen (of (ps ++ p :: qs)) m := by
  induction qs generalizing w p ps with
  | nil =>
    cases ds with
    | single d =>
      exact ⟨w, [], d, 0, (List.append_nil w).symm, d.ends_of_closer (.inr rfl),
        (Nat.max_zero _).symm, .stop (.inr ⟨nofun, rfl, rfl, rfl⟩)⟩
  | cons q qs ih =>
    cases ds with
    | @cons v w _ _ _ d ds =>
      obtain ⟨v', u, dq, m, rfl, hq, hneed, hl⟩ := ih ds (ps ++ [p]) (by simpa using hp)
      have hallow : (of (ps ++ [p])).Allows q := by
        have hp : Parameter.Ordered (((ps ++ [p]) ++ [q]) ++ qs) := by simpa using hp
        rw [allows_of_iff]
        exact (Parameter.ordered_snoc_iff.mp (List.pairwise_append.mp hp).1).2
      have pass : parameterPass (of (ps ++ [p])) (fixed .comma :: v') (lead u .closeParen)
          (some (of (ps ++ [p] ++ [q]))) dq.need :=
        .inl ⟨v', rfl, v', _, dq.need, [], 0, (List.append_nil v').symm,
          ⟨q, dq, hq, hallow, rfl, rfl⟩, ⟨rfl, by rw [add_of], rfl⟩, (Nat.max_zero _).symm⟩
      refine ⟨v, fixed .comma :: (v' ++ u), d, max dq.need m, rfl, d.ends_of_closer (.inl rfl), ?_,
        ?_⟩
      · rw [← hneed]
        rfl
      · simpa using Loop.step pass hl

/-- A parameter list and the parenthesis that closes it. -/
def closedParameters : Language (List Parameter) := fun w _ ps m =>
  ∃ v, ∃ ds : Parameter.Listed v ps, Parameter.Ordered ps ∧ w = v ++ [fixed .closeParen] ∧
    m = ds.need

theorem reads_parameters (hC : Reads n constant nestedConstants) :
    Reads n (do
      let ps ← parametersWith constant
      discard (expect .closeParen)
      return ps) closedParameters := by
  have pass (seen : ParametersSeen) : Reads n (do
      unless ← accept .comma do return none
      return some (← parameter constant seen)) (parameterPass seen) :=
    fun t => reads_accept (by decide) (fun t => reads_bind (reads_parameter hC seen t)
      fun next t => reads_pure (some next)) (reads_pure none)
  have loop := reads_iterate pass fun {seen w k next m} h => by
    obtain ⟨_, rfl, -⟩ | ⟨-, -, hc, -⟩ := h
    · exact List.cons_ne_nil _ _
    · cases hc
  have listed : Reads n (parametersWith constant) fun w k ps m =>
      if lead w k = .closeParen then value [] w k ps m
      else seq (parameterAfter ⟨[], false, false⟩) (fun first => seq (Loop parameterPass first)
        fun seen => value seen.read.reverse) w k ps m := by
    intro t
    refine reads_peek ?_
    split
    · rename_i hk
      refine (reads_pure _).congr fun w k ps m hw _ => ?_
      rw [hw, if_pos hk]
    · rename_i hk
      refine (reads_bind (reads_parameter hC _ t) fun first t => reads_bind (loop first t)
        fun seen t => reads_pure _).congr fun w k ps m hw _ => ?_
      rw [hw, if_neg hk]
  refine Reads.congr (fun t => reads_bind (listed t) fun ps t => reads_expect (by decide) fun t =>
    reads_pure ps) fun w k ps m => ?_
  constructor
  · rintro ⟨v, ps, _, _, _, rfl, hps, ⟨_, rfl, rfl, rfl, rfl⟩, rfl⟩
    rw [Nat.max_zero]
    split at hps
    · obtain ⟨rfl, rfl, rfl⟩ := hps
      exact ⟨[], .nil, .nil, rfl, rfl⟩
    · obtain ⟨v, _, _, _, _, rfl, ⟨p, d, -, -, rfl, rfl⟩, ⟨u, seen, _, _, _, rfl, hl,
        ⟨rfl, rfl, rfl⟩, rfl⟩, rfl⟩ := hps
      have hstart : ParametersSeen.add ⟨[], false, false⟩ p = .of ([] ++ [p]) :=
        ParametersSeen.add_of [] p
      rw [hstart] at hl
      obtain ⟨qs, ds, rfl, hqs, hneed⟩ := listed_of_loop [] hl d (List.pairwise_singleton _ _)
      rw [List.append_nil, Nat.max_zero]
      rw [show (ParametersSeen.of ([] ++ p :: qs)).read.reverse = p :: qs from
        List.reverse_reverse _]
      exact ⟨v ++ u, ds, hqs, rfl, hneed⟩
  · rintro ⟨v, ds, hps, rfl, rfl⟩
    refine ⟨v, ps, ds.need, _, 0, rfl, ?_, ⟨[], rfl, rfl, rfl, rfl⟩, (Nat.max_zero _).symm⟩
    cases ps with
    | nil =>
      cases ds
      exact ⟨rfl, rfl, rfl⟩
    | cons p qs =>
      obtain ⟨v, u, d, m, rfl, hends, hneed, hl⟩ := loop_of_listed ds [] hps
      rw [if_neg ?_]
      · exact ⟨v, _, d.need, u, m, rfl,
          ⟨p, d, hends, ⟨rfl, nofun⟩, (ParametersSeen.add_of [] p).symm, rfl⟩,
          ⟨u, _, m, [], 0, (List.append_nil u).symm, hl,
            ⟨rfl, (List.reverse_reverse (p :: qs)).symm, rfl⟩, (Nat.max_zero _).symm⟩, hneed⟩
      · cases d <;> exact nofun

end Rule

end ScriptFront
