import ScriptFront.Proofs.Expr.Exact
import ScriptFront.Proofs.Rule.Unique

/-! # Expressions are unambiguous -/

namespace ScriptFront

open Terminal ScriptFront.Language

theorem Literal.Denoted.unique {x : Terminal} {u v : Literal} (hu : u.Denoted x)
    (hv : v.Denoted x) : u = v := by
  cases hu with
  | float h =>
    cases hv with
    | float h' =>
      rw [h] at h'
      cases h'
      rfl
  | _ =>
    cases hv
    rfl

namespace Expr

variable {n : Nat}

theorem unique_closedItems (h : Unique n (phrases .assignment)) {close : TokenKind}
    (hc : close = .closeParen ∨ close = .closeBracket) : Unique n (closedItems close) := by
  exact (unique_option (fun m _ => unique_value []) (unique_seq (unique_separated
    (unique_deeper h)) fun es => unique_after fun m _ => unique_value es)).congr
      fun _ _ _ _ => (closedItems_iff hc).symm

theorem unique_link (h : ∀ m < n, Unique m (phrases .assignment)) (e : Expr) :
    Unique n (Link e) := by
  intro v w x y k o o' i j hn heq hv hw
  -- a link that goes on starts with a terminal of the largest grip
  have apart {t : Terminal} {u : List Terminal} (ht : t.kind.grip = 13)
      (h : (lead (t :: u) k).grip < 13) : False := by
    rw [lead_cons, ht] at h
    exact Nat.lt_irrefl _ h
  cases hv with
  | none hg =>
    cases hw with
    | none => exact ⟨rfl, rfl, rfl⟩
    | _ =>
      rw [List.nil_append] at heq
      subst heq
      exact (apart rfl hg).elim
  | increment =>
    cases hw with
    | none hg =>
      rw [List.nil_append] at heq
      subst heq
      exact (apart rfl hg).elim
    | increment => exact ⟨rfl, rfl, rfl⟩
    | _ => cases (List.cons.inj heq).1
  | decrement =>
    cases hw with
    | none hg =>
      rw [List.nil_append] at heq
      subst heq
      exact (apart rfl hg).elim
    | decrement => exact ⟨rfl, rfl, rfl⟩
    | _ => cases (List.cons.inj heq).1
  | @call _ v es ds =>
    cases hw with
    | none hg =>
      rw [List.nil_append] at heq
      subst heq
      exact (apart rfl hg).elim
    | @call _ w fs ds' =>
      obtain ⟨-, heq⟩ := List.cons.inj heq
      have hlt : (v ++ [fixed .closeParen] ++ x).length < n := by
        simp only [List.length_cons, List.length_append, List.length_nil] at hn ⊢
        omega
      obtain ⟨hvw, rfl, hneed⟩ := unique_closedItems (h _ hlt) (.inl rfl) (k := k)
        (Nat.le_refl _) heq ⟨v, ds, rfl, rfl⟩ ⟨w, ds', rfl, rfl⟩
      exact ⟨by rw [hvw], rfl, hneed⟩
    | _ => cases (List.cons.inj heq).1
  | @element _ v a d =>
    cases hw with
    | none hg =>
      rw [List.nil_append] at heq
      subst heq
      exact (apart rfl hg).elim
    | @element _ w b d' =>
      obtain ⟨-, heq⟩ := List.cons.inj heq
      change v ++ [fixed .closeBracket] ++ x = w ++ [fixed .closeBracket] ++ y at heq
      rw [List.append_assoc, List.append_assoc] at heq
      have hlt : (v ++ fixed .closeBracket :: x).length < n := by
        simp only [List.length_cons, List.length_append, List.length_nil] at hn ⊢
        omega
      obtain ⟨rfl, rfl, hneed⟩ := h _ hlt (k := k) (Nat.le_refl _) heq ⟨d, rfl, d.bound_pos⟩
        ⟨d', rfl, d'.bound_pos⟩
      exact ⟨rfl, rfl, congrArg (· + 1) hneed⟩
    | _ => cases (List.cons.inj heq).1
  | member name =>
    cases hw with
    | none hg =>
      rw [List.nil_append] at heq
      subst heq
      exact (apart rfl hg).elim
    | member name' =>
      obtain ⟨-, heq⟩ := List.cons.inj heq
      cases (List.cons.inj heq).1
      exact ⟨rfl, rfl, rfl⟩
    | _ => cases (List.cons.inj heq).1

theorem unique_primaries (h : ∀ m < n, Unique m (phrases .assignment)) :
    Unique n primaries := by
  rintro v w x y k e f _ _ hn heq ⟨d, rfl⟩ ⟨d', rfl⟩
  have hlead {x : Terminal} {v : Literal} (h : v.Denoted x) :
      x.kind ≠ .openParen ∧ x.kind ≠ .openBracket := by
    cases h <;> simp
  cases d with
  | literal hl =>
    cases d' with
    | literal hl' =>
      obtain ⟨rfl, -⟩ := List.cons.inj heq
      exact ⟨rfl, by rw [hl.unique hl'], rfl⟩
    | group => 
      obtain ⟨rfl, -⟩ := List.cons.inj heq
      exact absurd rfl (hlead hl).1
    | array =>
      obtain ⟨rfl, -⟩ := List.cons.inj heq
      exact absurd rfl (hlead hl).2
  | @group v e d =>
    cases d' with
    | literal hl =>
      obtain ⟨rfl, -⟩ := List.cons.inj heq
      exact absurd rfl (hlead hl).1
    | @group w f d' =>
      obtain ⟨-, heq⟩ := List.cons.inj heq
      change v ++ [fixed .closeParen] ++ x = w ++ [fixed .closeParen] ++ y at heq
      rw [List.append_assoc, List.append_assoc] at heq
      have hlt : (v ++ fixed .closeParen :: x).length < n := by
        simp only [List.length_cons, List.length_append, List.length_nil] at hn ⊢
        omega
      obtain ⟨rfl, rfl, hneed⟩ := h _ hlt (k := k) (Nat.le_refl _) heq ⟨d, rfl, d.bound_pos⟩
        ⟨d', rfl, d'.bound_pos⟩
      exact ⟨rfl, rfl, congrArg (· + 1) hneed⟩
    | array => cases (List.cons.inj heq).1
  | @array v es ds =>
    cases d' with
    | literal hl =>
      obtain ⟨rfl, -⟩ := List.cons.inj heq
      exact absurd rfl (hlead hl).2
    | group => cases (List.cons.inj heq).1
    | @array w fs ds' =>
      obtain ⟨-, heq⟩ := List.cons.inj heq
      have hlt : (v ++ [fixed .closeBracket] ++ x).length < n := by
        simp only [List.length_cons, List.length_append, List.length_nil] at hn ⊢
        omega
      obtain ⟨hvw, rfl, hneed⟩ := unique_closedItems (h _ hlt) (.inr rfl) (k := k)
        (Nat.le_refl _) heq ⟨v, ds, rfl, rfl⟩ ⟨w, ds', rfl, rfl⟩
      exact ⟨by rw [hvw], rfl, hneed⟩

theorem unique_unary (hlt : ∀ m < n, Unique m (phrases .unary))
    (h : Unique n (phrases .trailing)) : Unique n (phrases .unary) := by
  rintro v w x y k e f _ _ hn heq ⟨d, rfl, hd⟩ ⟨d', rfl, hd'⟩
  rw [d.bound_unary] at hd
  rw [d'.bound_unary] at hd'
  have apart {op : UnaryOp} (hop : op.isTrailing = false) {v w x y : List Terminal} {e : Expr}
      (d : Phrase .trailing v e) (heq : v ++ x = fixed op.kind :: w ++ y) : False := by
    have := d.leading_free (lead x .eof)
    rw [← lead_append, heq, List.cons_append, lead_cons, kind_fixed,
      UnaryOp.ofLeading?_eq_some_iff.mpr ⟨hop, rfl⟩] at this
    cases this
  cases d with
  | trailing d =>
    cases d' with
    | trailing d' =>
      exact h hn heq ⟨d, rfl, by rwa [d.bound_trailing]⟩ ⟨d', rfl, by rwa [d'.bound_trailing]⟩
    | leading op hop d' => exact (apart hop d heq).elim
  | @leading v e op hop d =>
    cases d' with
    | trailing d' => exact (apart hop d' heq.symm).elim
    | @leading w f op' hop' d' =>
      obtain ⟨hkind, hrest⟩ := List.cons.inj heq
      have hop := UnaryOp.ofLeading?_eq_some_iff.mpr ⟨hop, rfl⟩
      have hkind : op.kind = op'.kind := congrArg Terminal.kind hkind
      rw [hkind, UnaryOp.ofLeading?_eq_some_iff.mpr ⟨hop', rfl⟩] at hop
      cases hop
      obtain ⟨rfl, rfl, hneed⟩ := hlt (v ++ x).length hn (Nat.le_refl _) hrest
        ⟨d, rfl, by rwa [d.bound_unary]⟩ ⟨d', rfl, by rwa [d'.bound_unary]⟩
      exact ⟨rfl, rfl, congrArg (· + 1) hneed⟩

theorem unique_operation (h : ∀ m < n, ∀ s, Unique m (phrases s)) (least : Nat) (left : Expr) :
    Unique n (Operation least left) := by
  intro v w x y k o o' i j hn heq hv hw
  have apart {op : BinaryOp} {t : Tier} (hop : op ∈ t.operators) (ht : least ≤ t.level)
      {w x y : List Terminal} (heq : x = fixed op.kind :: w ++ y)
      (hnone : ∀ op : BinaryOp, lead x k = op.kind → op.tier < least) : False := by
    subst heq
    have := hnone op rfl
    rw [Tier.mem_operators_iff.mp hop] at this
    omega
  cases hv with
  | none hv =>
    cases hw with
    | none => exact ⟨rfl, rfl, rfl⟩
    | some ht op hop => exact (apart hop ht heq hv).elim
  | @some _ t v a ht op hop d hk =>
    cases hw with
    | none hw => exact (apart hop ht heq.symm hw).elim
    | @some _ t' w b ht' op' hop' d' hk' =>
      obtain ⟨hkind, hrest⟩ := List.cons.inj heq
      have hkind : op.kind = op'.kind := congrArg Terminal.kind hkind
      obtain rfl : op = op' := by
        have := BinaryOp.ofToken?_eq_some_iff.mpr hkind
        rw [BinaryOp.ofToken?_eq_some_iff.mpr rfl] at this
        exact Option.some.inj this
      obtain rfl : t = t' := by
        rw [Tier.mem_operators_iff] at hop hop'
        exact Tier.level_injective (hop.symm.trans hop')
      obtain ⟨rfl, rfl, hneed⟩ := h (v ++ x).length hn t.operand (Nat.le_refl _) hrest
        ⟨d, rfl, by rwa [d.bound_operand]⟩ ⟨d', rfl, by rwa [d'.bound_operand]⟩
      exact ⟨rfl, rfl, hneed⟩

theorem unique_assigned (h : Unique n (phrases .conditional)) (target : Expr) :
    Unique n (Assignment target) := by
  intro v w x y k o o' i j hn heq hv hw
  have apart {op : AssignOp} {w x y : List Terminal} (heq : x = fixed op.kind :: w ++ y)
      (hnone : (lead x k).grip ≠ 1) : False := by
    subst heq
    exact hnone op.grip_kind
  cases hv with
  | none hv =>
    cases hw with
    | none => exact ⟨rfl, rfl, rfl⟩
    | some op => exact (apart heq hv).elim
  | @some _ op _ v a d hk =>
    cases hw with
    | none hw => exact (apart heq.symm hw).elim
    | @some _ op' _ w b d' hk' =>
      obtain ⟨hkind, hrest⟩ := List.cons.inj heq
      have hkind : op.kind = op'.kind := congrArg Terminal.kind hkind
      obtain rfl : op = op' := by
        have := AssignOp.ofToken?_eq_some_iff.mpr hkind
        rw [AssignOp.ofToken?_eq_some_iff.mpr rfl] at this
        exact Option.some.inj this
      obtain ⟨rfl, rfl, hneed⟩ := h (Nat.le_of_lt hn) hrest ⟨d, rfl, hk⟩ ⟨d', rfl, hk'⟩
      exact ⟨rfl, rfl, hneed⟩

/-- By the length of the list; for one length along the symbols, from the tightest one on. -/
theorem unique_phrases (n : Nat) (s : Symbol) : Unique n (phrases s) := by
  induction n using Nat.strongRecOn generalizing s with
  | ind n ih =>
    have primary : Unique n primaries := unique_primaries fun m hm => ih m hm _
    have trailing : Unique n (phrases .trailing) :=
      (unique_chain primary (unique_link fun m hm => ih m hm _)).congr
        fun _ _ _ _ => phrases_trailing_iff.symm
    have unary : Unique n (phrases .unary) := unique_unary (fun m hm => ih m hm _) trailing
    have binary (t : Tier) : Unique n (phrases (.binary t)) :=
      (unique_chain unary (unique_operation ih t.level)).congr fun _ _ _ _ =>
        (phrases_binary_iff t.level_pos (Nat.le_succ_of_le t.level_le) t.ofLevel_level.symm).symm
    have conditional : Unique n (phrases .conditional) :=
      (unique_seq (binary .logOr) fun c => unique_option (fun m hm =>
        unique_seq (unique_deeper (ih m hm _)) fun _ => unique_after fun l hl =>
          unique_seq (unique_deeper (ih l (Nat.lt_trans hl hm) _)) fun _ => unique_value _)
        (unique_value c)).congr fun _ _ _ _ => phrases_conditional_iff.symm
    cases s with
    | assignment =>
      exact (unique_seq conditional (unique_assigned conditional)).congr
        fun _ _ _ _ => phrases_assignment_iff.symm
    | conditional => exact conditional
    | binary t => exact binary t
    | unary => exact unary
    | trailing => exact trailing
    | primary =>
      rintro v w x y k a b _ _ hn heq ⟨d, rfl, -⟩ ⟨d', rfl, -⟩
      exact primary hn heq (k := k) ⟨d, rfl⟩ ⟨d', rfl⟩

theorem Derives.unique {w : List Terminal} {e f : Expr} (he : Derives w e) (hf : Derives w f) :
    e = f := by
  obtain ⟨d⟩ := he
  obtain ⟨d'⟩ := hf
  exact (unique_phrases w.length .assignment (x := []) (y := []) (k := .eof) (by simp) rfl
    ⟨d, rfl, d.bound_pos⟩ ⟨d', rfl, d'.bound_pos⟩).2.1

end Expr

end ScriptFront
