import ScriptFront.Proofs.Rule.Progress
import ScriptFront.Proofs.Statement.Congruence
import ScriptFront.Proofs.Statement.ParameterLists

/-! # The first fault of a parameter list

A list of parameters is read as it stands, or refused at the first one that breaks a rule against
those in front of it. -/

namespace ScriptFront

open Terminal

/-- How a parameter breaks the rules against those in front of it. -/
inductive Parameter.Breaks (before : List Parameter) : Parameter → SyntaxFault → Prop where
  | repeatedEllipsis (h : .variadic ∈ before) : Breaks before .variadic .repeatedEllipsis
  | ellipsisNotLast (h : .variadic ∈ before) (name : String) (default : Option Expr) :
      Breaks before (.named name default) .ellipsisNotLast
  | missingDefault (h : .variadic ∉ before) {other : String} {e : Expr}
      (hd : .named other (some e) ∈ before) (name : String) :
      Breaks before (.named name none) (.missingDefault name)

/-- The place and the fault of the first parameter that breaks a rule, behind others that break
none. -/
def Parameter.FirstFault (before : List Parameter) (xs : List (Location × Parameter))
    (l : Location) (fault : SyntaxFault) : Prop :=
  ∃ read p after, xs = read ++ (l, p) :: after ∧ Ordered (before ++ read.map Prod.snd) ∧
    p.Breaks (before ++ read.map Prod.snd) fault

namespace Parameter.FirstFault

variable {before : List Parameter} {p : Parameter} {xs : List (Location × Parameter)}
  {l place : Location} {fault : SyntaxFault}

theorem head (hbefore : Ordered before) (h : p.Breaks before fault) :
    FirstFault before ((l, p) :: xs) l fault :=
  ⟨[], p, xs, rfl, by rwa [List.map_nil, List.append_nil], by rwa [List.map_nil, List.append_nil]⟩

theorem tail (h : FirstFault (before ++ [p]) xs l fault) :
    FirstFault before ((place, p) :: xs) l fault := by
  obtain ⟨read, q, after, rfl, hread, hbreaks⟩ := h
  rw [List.append_assoc] at hread hbreaks
  exact ⟨(place, p) :: read, q, after, rfl, hread, hbreaks⟩

end Parameter.FirstFault

namespace Rule

theorem parametersWith_eq (constant : Rule Expr) : parametersWith constant = do
    if (← peek) = .closeParen then return []
    let first ← parameter constant ⟨[], false, false⟩
    let seen ← iterate (behind .comma (parameter constant)) first
    return seen.read.reverse := rfl

namespace ParametersSeen

variable {ps : List Parameter}

theorem ellipsis_of (h : .variadic ∈ ps) : (of ps).ellipsis = true :=
  List.any_eq_true.mpr ⟨_, h, rfl⟩

theorem not_ellipsis_of (h : .variadic ∉ ps) : (of ps).ellipsis = false := by
  refine List.any_eq_false.mpr fun p hp hvariadic => h ?_
  cases p with
  | named => cases hvariadic
  | variadic => exact hp

theorem default_of {name : String} {e : Expr} (h : .named name (some e) ∈ ps) :
    (of ps).default = true :=
  List.any_eq_true.mpr ⟨_, h, rfl⟩

theorem allows_of_ordered {p : Parameter} {qs : List Parameter}
    (h : Parameter.Ordered (ps ++ p :: qs)) : (of ps).Allows p :=
  allows_of_iff.mpr fun q hq => (List.pairwise_append.mp h).2.2 q hq p List.mem_cons_self

/-- What may not stand behind other parameters breaks a rule. -/
theorem exists_breaks {p : Parameter} (h : ¬ (of ps).Allows p) : ∃ fault, p.Breaks ps fault := by
  by_cases hvariadic : .variadic ∈ ps
  · cases p with
    | variadic => exact ⟨_, .repeatedEllipsis hvariadic⟩
    | named name default => exact ⟨_, .ellipsisNotLast hvariadic name default⟩
  · have hdefault : ¬ ((of ps).default = true → p.isVariadic ∨ p.default?.isSome) :=
      fun hallow => h ⟨not_ellipsis_of hvariadic, hallow⟩
    obtain ⟨hseen, hp⟩ := Classical.not_imp.mp hdefault
    obtain ⟨q, hq, hsome⟩ := List.any_eq_true.mp hseen
    cases q with
    | variadic => cases hsome
    | named other default =>
      obtain ⟨e, rfl⟩ := Option.isSome_iff_exists.mp hsome
      cases p with
      | variadic => exact absurd (.inl rfl) hp
      | named name default =>
        cases default with
        | none => exact ⟨_, .missingDefault hvariadic hq name⟩
        | some e => exact absurd (.inr rfl) hp

end ParametersSeen

section Stands

variable {constant : Rule Expr} {s u : State} {p : Parameter}

/-- A parameter in front of a state, and the state behind it. -/
inductive Stands (constant : Rule Expr) : State → Parameter → State → Prop where
  | variadic {s u : State} (h : Takes s [fixed .ellipsis] u) : Stands constant s .variadic u
  | required {s u : State} (name : String) (h : Takes s [carrying .identifier name] u) :
      Stands constant s (.named name none) u
  | defaulted {s q u : State} (name : String) {e : Expr}
      (h : Takes s [carrying .identifier name, fixed .assign] q) (he : constant q = .ok e u) :
      Stands constant s (.named name (some e)) u

/-- Parameters between commas in front of a closing parenthesis, each with its place. -/
inductive StandsList (constant : Rule Expr) :
    State → List (Location × Parameter) → State → Prop where
  | nil {s : State} (h : s.current.kind = .closeParen) : StandsList constant s [] s
  | single {s u : State} {p : Parameter} (h : Stands constant s p u)
      (hu : u.current.kind = .closeParen) :
      StandsList constant s [(s.current.location, p)] u
  | cons {s q r u : State} {p : Parameter} {x : Location × Parameter}
      {xs : List (Location × Parameter)} (h : Stands constant s p q)
      (hq : Takes q [fixed .comma] r) (hs : StandsList constant r (x :: xs) u) :
      StandsList constant s ((s.current.location, p) :: x :: xs) u

theorem parameter_of_takes_ellipsis (h : Takes s [fixed .ellipsis] u) (seen : ParametersSeen) :
    parameter constant seen s = (if seen.ellipsis then
      failAt s.current.location .repeatedEllipsis else pure (seen.add .variadic) :
      Rule ParametersSeen) u := by
  have hkind : s.current.kind = .ellipsis := h.current_kind
  have hexpect : expect .ellipsis s = .ok s.current u := expect_of_takes h rfl
  show (if s.current.kind = .ellipsis then ellipsisParameter seen s.current.location else _) s = _
  rw [if_pos hkind, ellipsisParameter, discard_bind, bind_of_ok hexpect, seen.add_variadic]

theorem parameter_of_name (hkind : s.current.kind = .identifier) (seen : ParametersSeen) :
    parameter constant seen s = (if seen.ellipsis then failAt s.current.location .ellipsisNotLast
      else do
        let name ← name
        if ← accept .assign then
          let default ← constant
          return seen.add (.named name (some default))
        else if seen.default then failAt s.current.location (.missingDefault name)
        else return seen.add (.named name none) : Rule ParametersSeen) s := by
  show (if s.current.kind = .ellipsis then _ else namedParameter constant seen s.current.location)
    s = _
  rw [if_neg (by rw [hkind]; decide)]
  show (if seen.ellipsis && decide (s.current.kind = .identifier) then _ else _ : Rule _) s = _
  rw [decide_eq_true hkind, Bool.and_true]
  simp only [ParametersSeen.add_defaulted, ParametersSeen.add_required]

/-- A parameter that may stand behind the others is read as it stands. -/
theorem parameter_of_allows {seen : ParametersSeen} (h : Stands constant s p u)
    (hu : u.current.kind ≠ .assign) (hallow : seen.Allows p) :
    parameter constant seen s = .ok (seen.add p) u := by
  obtain ⟨hellipsis, hdefault⟩ := hallow
  cases h with
  | variadic h =>
    rw [parameter_of_takes_ellipsis h, hellipsis]
    rfl
  | required name h =>
    have hseen : seen.default = false := by
      rw [Bool.eq_false_iff]
      intro htrue
      rcases hdefault htrue with h | h <;> cases h
    rw [parameter_of_name h.current_kind, hellipsis]
    simp only [Bool.false_eq_true, if_false]
    rw [bind_of_ok (name_of_takes h), bind_of_ok (accept_of_ne hu), hseen]
    rfl
  | defaulted name h he =>
    obtain ⟨r, hr, hassign⟩ := Takes.split (v := [_]) h
    have haccept : accept .assign r = .ok true _ := accept_of_takes hassign rfl
    rw [parameter_of_name h.current_kind, hellipsis]
    simp only [Bool.false_eq_true, if_false]
    rw [bind_of_ok (name_of_takes hr), bind_of_ok haccept]
    simp only [if_true]
    rw [bind_of_ok he]
    rfl

open ParametersSeen in
/-- A parameter that breaks a rule is refused where it stands. -/
theorem parameter_of_breaks {before : List Parameter} {fault : SyntaxFault}
    (h : Stands constant s p u) (hu : u.current.kind ≠ .assign) (hbreaks : p.Breaks before fault) :
    ∃ r, parameter constant (of before) s = .error (.grammatical fault s.current.location) r := by
  cases hbreaks with
  | repeatedEllipsis hmem =>
    cases h with
    | variadic h =>
      rw [parameter_of_takes_ellipsis h, ellipsis_of hmem]
      exact ⟨u, rfl⟩
  | ellipsisNotLast hmem name default =>
    have hkind : s.current.kind = .identifier := by
      cases h with
      | required _ h => exact h.current_kind
      | defaulted _ h => exact h.current_kind
    rw [parameter_of_name hkind, ellipsis_of hmem]
    exact ⟨s, rfl⟩
  | missingDefault hmem hd name =>
    cases h with
    | required name h =>
      rw [parameter_of_name h.current_kind, not_ellipsis_of hmem]
      simp only [Bool.false_eq_true, if_false]
      rw [bind_of_ok (name_of_takes h), bind_of_ok (accept_of_ne hu), default_of hd]
      exact ⟨u, rfl⟩

/-- Where a parameter may not stand, the list is refused, and no parameter before it is at fault. -/
theorem refused_of_not_allows {before : List Parameter} {xs : List (Location × Parameter)}
    {next : ParametersSeen → Rule ParametersSeen} (h : Stands constant s p u)
    (hu : u.current.kind ≠ .assign) (hbefore : Parameter.Ordered before)
    (hallow : ¬ (ParametersSeen.of before).Allows p) :
    ∃ l fault r, Parameter.FirstFault before ((s.current.location, p) :: xs) l fault ∧
      (parameter constant (.of before) >>= next) s = .error (.grammatical fault l) r := by
  obtain ⟨fault, hbreaks⟩ := ParametersSeen.exists_breaks hallow
  obtain ⟨r, hr⟩ := parameter_of_breaks h hu hbreaks
  exact ⟨_, fault, r, .head hbefore hbreaks, bind_of_error hr _⟩

theorem Stands.levels_eq {m : Nat} (hC : consuming.Always m m 1 1 constant constant)
    (hs : s.levels = m) (h : Stands constant s p u) : u.levels = m := by
  cases h with
  | variadic h | required _ h => exact h.spans.levels_eq.trans hs
  | defaulted _ h he =>
    have hq := h.spans.levels_eq.trans hs
    obtain ⟨w, -, hspans⟩ := hC _ rfl _ _ _ rfl hq he
    exact hspans.levels_eq.trans hq

/-- All parameters from one on, behind those that are read. -/
def parametersFrom (constant : Rule Expr) (before : List Parameter) : Rule ParametersSeen :=
  parameter constant (.of before) >>= iterate (behind .comma (parameter constant))

theorem parametersWith_of_closeParen (h : s.current.kind = .closeParen) :
    parametersWith constant s = .ok [] s := by
  show (if s.current.kind = .closeParen then pure [] else _ : Rule _) s = _
  rw [if_pos h]
  rfl

theorem parametersWith_of_ne (h : s.current.kind ≠ .closeParen) : parametersWith constant s =
    (parametersFrom constant [] >>= fun seen => pure seen.read.reverse) s := by
  rw [parametersWith_eq, parametersFrom, bind_assoc]
  show (if s.current.kind = .closeParen then _ else _ : Rule _) s = _
  rw [if_neg h]
  rfl

theorem StandsList.ne_closeParen {x : Location × Parameter} {xs : List (Location × Parameter)}
    (h : StandsList constant s (x :: xs) u) : s.current.kind ≠ .closeParen := by
  have hfirst {p : Parameter} {u : State} (h : Stands constant s p u) :
      s.current.kind ≠ .closeParen := by
    cases h with
    | variadic h | required _ h | defaulted _ h =>
      rw [h.current_kind]
      exact nofun
  cases h with
  | single h | cons h => exact hfirst h

section Run

open ParametersSeen

variable {m : Nat} {before : List Parameter} {xs : List (Location × Parameter)}
  (hC : consuming.Always m m 1 1 constant constant)

include hC

theorem consumes_parameter (seen : ParametersSeen) (x : Terminal) :
    Consumes m x (fun o => o.isSome.toNat) (behind .comma (parameter constant) seen) :=
  Congruence.behind (by decide) (Congruence.parameter hC) (Nat.le_refl 1) seen x rfl

theorem parametersFrom_of_last (hs : s.levels = m) (h : Stands constant s p u)
    (hu : u.current.kind = .closeParen) (hallow : (of before).Allows p) :
    parametersFrom constant before s = .ok (of (before ++ [p])) u := by
  have hne {k : TokenKind} (hk : k ≠ .closeParen) : u.current.kind ≠ k := fun h => hk (h ▸ hu)
  rw [parametersFrom, bind_of_ok (parameter_of_allows h (hne (by decide)) hallow),
    iterate_behind_of_ne (consumes_parameter hC) (h.levels_eq hC hs) (hne (by decide)), add_of]

theorem parametersFrom_of_comma {q r : State} (hs : s.levels = m) (h : Stands constant s p q)
    (hq : Takes q [fixed .comma] r) (hallow : (of before).Allows p) :
    parametersFrom constant before s = parametersFrom constant (before ++ [p]) r := by
  have hne : q.current.kind ≠ .assign := by
    rw [hq.current_kind]
    exact nofun
  rw [parametersFrom, bind_of_ok (parameter_of_allows h hne hallow),
    iterate_behind_of_takes (consumes_parameter hC) (h.levels_eq hC hs) hq rfl, add_of]
  rfl

/-- Each parameter of an ordered list is added to those before it. -/
theorem parametersFrom_of_ordered (hs : s.levels = m) (h : StandsList constant s xs u)
    (hxs : xs ≠ []) (hordered : Parameter.Ordered (before ++ xs.map Prod.snd)) :
    parametersFrom constant before s = .ok (of (before ++ xs.map Prod.snd)) u := by
  induction h generalizing before with
  | nil => exact absurd rfl hxs
  | single h hu => exact parametersFrom_of_last hC hs h hu (allows_of_ordered hordered)
  | @cons s q r u p x xs h hq hlist ih =>
    rw [parametersFrom_of_comma hC hs h hq (allows_of_ordered hordered)]
    rw [List.map_cons, List.append_cons before _ (List.map Prod.snd (x :: xs))] at hordered ⊢
    exact ih (hq.spans.levels_eq.trans (h.levels_eq hC hs)) (List.cons_ne_nil _ _) hordered

/-- The first parameter that breaks a rule is the one that is refused. -/
theorem parametersFrom_of_not_ordered (hs : s.levels = m) (h : StandsList constant s xs u)
    (hbefore : Parameter.Ordered before)
    (hnot : ¬ Parameter.Ordered (before ++ xs.map Prod.snd)) :
    ∃ l fault r, Parameter.FirstFault before xs l fault ∧
      parametersFrom constant before s = .error (.grammatical fault l) r := by
  induction h generalizing before with
  | nil => exact absurd (by rwa [List.map_nil, List.append_nil]) hnot
  | @single s u p h hu =>
    have hallow : ¬ (of before).Allows p := fun hallow =>
      hnot (Parameter.ordered_snoc_iff.mpr ⟨hbefore, allows_of_iff.mp hallow⟩)
    exact refused_of_not_allows h (by rw [hu]; decide) hbefore hallow
  | @cons s q r u p x xs h hq hlist ih =>
    by_cases hallow : (of before).Allows p
    · rw [List.map_cons, List.append_cons before _ (List.map Prod.snd (x :: xs))] at hnot
      have hsnoc := Parameter.ordered_snoc_iff.mpr ⟨hbefore, allows_of_iff.mp hallow⟩
      have hr := hq.spans.levels_eq.trans (h.levels_eq hC hs)
      obtain ⟨l, fault, v, hfirst, hv⟩ := ih hr hsnoc hnot
      rw [parametersFrom_of_comma hC hs h hq hallow]
      exact ⟨l, fault, v, hfirst.tail, hv⟩
    · exact refused_of_not_allows h (by rw [hq.current_kind]; exact nofun) hbefore hallow

end Run

end Stands

/-- A list of parameters in front of its parenthesis is read where no parameter breaks a rule, and
is otherwise refused at the first that does. -/
theorem parameters_read_or_first_fault {m : Nat} {s u : State} {xs : List (Location × Parameter)}
    (h : StandsList (constantWithin m) s xs u) (hs : s.levels = m) :
    (Parameter.Ordered (xs.map Prod.snd) →
      parametersWith (constantWithin m) s = .ok (xs.map Prod.snd) u) ∧
    (¬ Parameter.Ordered (xs.map Prod.snd) →
      ∃ l fault r, Parameter.FirstFault [] xs l fault ∧
        parametersWith (constantWithin m) s = .error (.grammatical fault l) r) := by
  have hC := Congruence.constantWithin (R := consuming) m m
  cases xs with
  | nil =>
    cases h with
    | nil hclose =>
      exact ⟨fun _ => parametersWith_of_closeParen hclose,
        fun hnot => absurd List.Pairwise.nil hnot⟩
  | cons x xs =>
    rw [parametersWith_of_ne h.ne_closeParen]
    constructor
    · intro hordered
      rw [bind_of_ok (parametersFrom_of_ordered hC hs h (List.cons_ne_nil _ _) hordered)]
      show EStateM.Result.ok (List.reverse (List.reverse _)) u = _
      rw [List.reverse_reverse]
      rfl
    · intro hnot
      have hnil : Parameter.Ordered [] := .nil
      obtain ⟨l, fault, r, hfirst, hr⟩ := parametersFrom_of_not_ordered hC hs h hnil hnot
      exact ⟨l, fault, r, hfirst, bind_of_error hr _⟩

/-- A bare name that is read alone is refused behind a default. -/
theorem parameters_read_or_first_fault_at_default :
    let one := (⟨⟨1, 1⟩, .named "b" (some (.literal (.integer 1)))⟩ : Location × Parameter)
    let bare := (⟨⟨1, 5⟩, .named "c" none⟩ : Location × Parameter)
    ∃ s q u l fault r, (StandsList (constantWithin 1) s [one, bare] u ∧ s.levels = 1 ∧
      ¬ Parameter.Ordered [one.2, bare.2] ∧ Parameter.FirstFault [] [one, bare] l fault ∧
      parametersWith (constantWithin 1) s = .error (.grammatical fault l) r) ∧
      StandsList (constantWithin 1) q [bare] u ∧ q.levels = 1 ∧ Parameter.Ordered [bare.2] ∧
      parametersWith (constantWithin 1) q = .ok [bare.2] u := by
  intro one bare
  have hassign : Takes
      ⟨⟨['=', '1', ',', 'c', ')'], ⟨1, 2⟩⟩, ⟨.identifier, some "b", ⟨1, 1⟩⟩, 1, 0, 0⟩
      [carrying .identifier "b", fixed .assign]
      ⟨⟨[',', 'c', ')'], ⟨1, 4⟩⟩, ⟨.integer, some "1", ⟨1, 3⟩⟩, 1, 0, 0⟩ :=
    .cons (by decide) rfl (.cons (by decide) rfl (.nil _))
  have hvalue : constantWithin 1
      ⟨⟨[',', 'c', ')'], ⟨1, 4⟩⟩, ⟨.integer, some "1", ⟨1, 3⟩⟩, 1, 0, 0⟩ =
      .ok (.literal (.integer 1)) ⟨⟨['c', ')'], ⟨1, 5⟩⟩, ⟨.comma, none, ⟨1, 4⟩⟩, 1, 0, 1⟩ := rfl
  have hcomma : Takes ⟨⟨['c', ')'], ⟨1, 5⟩⟩, ⟨.comma, none, ⟨1, 4⟩⟩, 1, 0, 1⟩ [fixed .comma]
      ⟨⟨[')'], ⟨1, 6⟩⟩, ⟨.identifier, some "c", ⟨1, 5⟩⟩, 1, 0, 1⟩ :=
    .cons (by decide) rfl (.nil _)
  have hbare : Takes ⟨⟨[')'], ⟨1, 6⟩⟩, ⟨.identifier, some "c", ⟨1, 5⟩⟩, 1, 0, 1⟩
      [carrying .identifier "c"] ⟨⟨[], ⟨1, 7⟩⟩, ⟨.closeParen, none, ⟨1, 6⟩⟩, 1, 0, 1⟩ :=
    .cons (by decide) rfl (.nil _)
  have hlast : StandsList (constantWithin 1) _ [bare] _ := .single (.required "c" hbare) rfl
  have hlist : StandsList (constantWithin 1) _ [one, bare] _ :=
    .cons (.defaulted "b" hassign hvalue) hcomma hlast
  obtain ⟨l, fault, r, hfirst, hr⟩ := (parameters_read_or_first_fault hlist rfl).2 (by decide)
  exact ⟨_, _, _, l, fault, r, ⟨hlist, rfl, by decide, hfirst, hr⟩, hlast, rfl, by decide,
    (parameters_read_or_first_fault hlast rfl).1 (by decide)⟩

end Rule

end ScriptFront
