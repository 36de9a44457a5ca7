import PrivateSql.Proofs.FaithfulTexts
/-!
# Trees whose operators fit

A tree that was read from a text has operators that bind as the text says, but its text need not say the same.
Ranges and lists are put together from comparisons that nobody wrote, so a denied range may stand where
an operator follows that binds tighter than the denial, and the members of a list stand behind a comparison.
And a sign without a meaning is dropped, so a name moves to a place where it is a keyword.

* `Expr.isClear` — none of this is met in an expression;
* `Expr.Fits` — the ends of an expression fit the operators around it;
* `fits_betweenExpr`, `fits_oneOfExpr` — ranges and lists fit, denied or not.
-/

namespace PrivateSql

open Sql Sql.Grammar

variable {N : Type}

namespace Expr

/-- Is an expression the denial of another one? -/
def isDenial : Expr N → Bool
  | .unary op _ => op == "NOT"
  | _ => false

/-- Does the node at the top of an expression say what it is?  Its names are scanned as they stand and are
no keywords at their place, no comparison of a list has an operand that is torn apart, and no denied range
stands before an operator that binds tighter. -/
def isClearHere : Expr N → Bool
  | .literal l => l.text != ""
  | .column id => id.isBare && decide (id.lead ∉ termStarters)
  | .binary l op r =>
    (decide (op ∈ ["AND", "OR"]) || !l.isDenial) && (op != "=" || r.opensAbove (operatorPrecedence op)) &&
      decide (r.lead ∉ ["ANY", "ALL"])
  | .nested e => decide (e.lead ∉ ["SELECT", "WITH"])
  | .isNull e _ => !e.isDenial
  | .call _ args => args.head?.all fun a => decide (a.lead ∉ ["ALL", "DISTINCT"])
  | .aggregate _ e => decide (e.lead ∉ ["ALL", "DISTINCT"])
  | _ => true

/-- Does every node of an expression say what it is? -/
def isClear (e : Expr N) : Bool := e.subterms.all isClearHere

theorem isClear_unary {op : String} {e : Expr N} (h : (Expr.unary op e).isClear = true) :
    e.isClear = true := by
  simpa [isClear, subterms, isClearHere] using h

theorem isClear_binary {l r : Expr N} {op : String} (h : (Expr.binary l op r).isClear = true) :
    (Expr.binary l op r).isClearHere = true ∧ l.isClear = true ∧ r.isClear = true := by
  rw [isClear, subterms, List.all_cons, List.all_append, Bool.and_eq_true, Bool.and_eq_true] at h
  exact h

theorem isClear_nested {e : Expr N} (h : (Expr.nested e).isClear = true) :
    e.lead ∉ ["SELECT", "WITH"] ∧ e.isClear = true := by
  rw [isClear, subterms, List.all_cons, Bool.and_eq_true] at h
  exact ⟨of_decide_eq_true h.1, h.2⟩

theorem isClear_isNull {e : Expr N} {negated : Bool} (h : (Expr.isNull e negated).isClear = true) :
    e.isDenial = false ∧ e.isClear = true := by
  rw [isClear, subterms, List.all_cons, Bool.and_eq_true] at h
  exact ⟨(Bool.not_eq_true' _).mp h.1, h.2⟩

theorem isClear_aggregate {f : AggregateFunction} {e : Expr N} (h : (Expr.aggregate f e).isClear = true) :
    e.lead ∉ ["ALL", "DISTINCT"] ∧ e.isClear = true := by
  rw [isClear, subterms, List.all_cons, Bool.and_eq_true] at h
  exact ⟨of_decide_eq_true h.1, h.2⟩

theorem isClear_call {name : String} {args : List (Expr N)} (h : (Expr.call name args).isClear = true) :
    (∀ a ∈ args.head?, a.lead ∉ ["ALL", "DISTINCT"]) ∧ ∀ a ∈ args, a.isClear = true := by
  have hall : ∀ args : List (Expr N), (subtermsAll args).all isClearHere = true →
      ∀ a ∈ args, a.isClear = true := by
    intro args
    induction args with
    | nil => simp
    | cons b args ih =>
        intro h
        rw [subtermsAll, List.all_append, Bool.and_eq_true] at h
        exact List.forall_mem_cons.mpr ⟨h.1, ih h.2⟩
  rw [isClear, subterms, List.all_cons, Bool.and_eq_true] at h
  refine ⟨fun a ha => ?_, hall args h.2⟩
  have hfirst := h.1
  rw [isClearHere, Option.mem_def.mp ha] at hfirst
  exact of_decide_eq_true hfirst

/-! ## The two ends of a faithful expression -/

namespace IsFaithful

variable [Number N] {e : Expr N}

/-- What keeps its operands before a tight operator begins with no loose one. -/
theorem opensAbove_of_closesAt (h : e.IsFaithful) {next floor : Nat} (hcloses : e.closesAt next = true)
    (hfloor : floor < next) (htest : floor < testPrecedence) : e.opensAbove floor = true := by
  induction h generalizing next with
  | binary known closes opens named left right ihl ihr =>
      rw [closesAt, Bool.and_eq_true, decide_eq_true_iff] at hcloses
      have htight := Nat.lt_of_lt_of_le hfloor hcloses.1
      rw [opensAbove, Bool.and_eq_true, decide_eq_true_iff]
      exact ⟨htight, ihl closes htight⟩
  | isNull closes operand ih =>
      rw [opensAbove, Bool.and_eq_true, decide_eq_true_iff]
      exact ⟨htest, ih closes htest⟩
  | _ => rfl

/-- What begins with tight operators only keeps its operands before a connective. -/
theorem closesAt_of_opensAbove (h : e.IsFaithful) {next floor : Nat} (hopens : e.opensAbove floor = true)
    (hfloor : next ≤ floor) (hnot : next ≤ prefixPrecedence "NOT") : e.closesAt next = true := by
  induction h generalizing floor with
  | binary known closes opens named left right ihl ihr =>
      rw [opensAbove, Bool.and_eq_true, decide_eq_true_iff] at hopens
      have htight := Nat.le_of_lt (Nat.lt_of_le_of_lt hfloor hopens.1)
      rw [closesAt, Bool.and_eq_true, decide_eq_true_iff]
      exact ⟨htight, ihr opens htight⟩
  | @unary op e known opens operand ih =>
      have htight : next ≤ prefixPrecedence op := by
        rcases known with rfl | rfl
        · exact Nat.le_trans hnot (by decide)
        · exact hnot
      rw [closesAt, Bool.and_eq_true, decide_eq_true_iff]
      exact ⟨htight, ih opens htight⟩
  | _ => rfl

/-- No operator binds tighter than a sign, so behind a sign there is none. -/
theorem opensAbove_of_sign (h : e.IsFaithful) (hopens : e.opensAbove (prefixPrecedence "-") = true)
    (floor : Nat) : e.opensAbove floor = true := by
  have hloose : ∀ op ∈ supportedOperators, ¬prefixPrecedence "-" < operatorPrecedence op := by decide
  cases h with
  | binary known closes opens named left right =>
      rw [opensAbove, Bool.and_eq_true, decide_eq_true_iff] at hopens
      exact absurd hopens.1 (hloose _ known)
  | isNull closes operand =>
      rw [opensAbove, Bool.and_eq_true, decide_eq_true_iff] at hopens
      exact absurd hopens.1 (by decide)
  | _ => rfl

end IsFaithful

/-- How tight a comparison binds. -/
def comparisonPrecedence : Nat := 20

/-- An expression fits between a floor and the operator that follows it. A denied range does not keep its
operand before an operator that binds tighter than the denial; behind a comparison there is none. -/
structure Fits [Number N] (e : Expr N) (floor next : Nat) : Prop where
  faithful : e.IsFaithful
  opens : e.opensAbove floor = true
  closes : next ≤ prefixPrecedence "NOT" ∨ comparisonPrecedence ≤ floor ∨ e.isDenial = false →
    e.closesAt next = true

namespace Fits

variable [Number N] {e : Expr N}

/-- What has no operator of its own at its ends. -/
theorem of_closed (h : e.IsFaithful) (hopens : ∀ floor, e.opensAbove floor = true)
    (hcloses : ∀ next, e.closesAt next = true) (floor next : Nat) : e.Fits floor next :=
  ⟨h, hopens floor, fun _ => hcloses next⟩

/-- What fits behind a sign fits behind any floor. -/
theorem of_sign {next : Nat} (h : e.Fits (prefixPrecedence "-") next) (floor : Nat) : e.Fits floor next :=
  ⟨h.faithful, h.faithful.opensAbove_of_sign h.opens floor, fun _ => h.closes (.inr (.inl (by decide)))⟩

/-- A sign or a denial before what fits behind it. -/
theorem unary {op : String} {next : Nat} (known : op = "-" ∨ op = "NOT")
    (h : e.Fits (prefixPrecedence op) next) (hnext : next ≤ prefixPrecedence op) (floor : Nat) :
    (Expr.unary op e).Fits floor next := by
  refine ⟨.unary known h.opens h.faithful, rfl, fun _ => ?_⟩
  rw [closesAt, Bool.and_eq_true, decide_eq_true_iff]
  refine ⟨hnext, h.closes ?_⟩
  rcases known with rfl | rfl
  · exact .inr (.inl (by decide))
  · exact .inl hnext

/-- A binary operator between operands that fit around it. -/
theorem binary {l r : Expr N} {op : String} {floor next : Nat} (known : op ∈ supportedOperators)
    (hleft : l.Fits floor (operatorPrecedence op)) (hright : r.Fits (operatorPrecedence op) next)
    (hfloor : floor < operatorPrecedence op) (hnext : next ≤ operatorPrecedence op)
    (hclear : (Expr.binary l op r).isClearHere = true) : (Expr.binary l op r).Fits floor next := by
  have hprecedence : ∀ op ∈ supportedOperators, operatorPrecedence op ≤ prefixPrecedence "NOT" ∨
      comparisonPrecedence ≤ operatorPrecedence op := by decide
  have hconnective : ∀ op ∈ ["AND", "OR"], operatorPrecedence op ≤ prefixPrecedence "NOT" := by decide
  simp only [isClearHere, Bool.and_eq_true, Bool.or_eq_true, decide_eq_true_iff,
    Bool.not_eq_true'] at hclear
  obtain ⟨⟨hdenial, -⟩, hnamed⟩ := hclear
  have hleftCloses : l.closesAt (operatorPrecedence op) = true := by
    refine hleft.closes ?_
    rcases hdenial with hop | hplain
    · exact .inl (hconnective op hop)
    · exact .inr (.inr hplain)
  refine ⟨.binary known hleftCloses hright.opens hnamed hleft.faithful hright.faithful, ?_, fun _ => ?_⟩
  · rw [opensAbove, Bool.and_eq_true, decide_eq_true_iff]
    exact ⟨hfloor, hleft.opens⟩
  · rw [closesAt, Bool.and_eq_true, decide_eq_true_iff]
    refine ⟨hnext, hright.closes ?_⟩
    rcases hprecedence op known with hloose | htight
    · exact .inl (Nat.le_trans hnext hloose)
    · exact .inr (.inl htight)

/-- A test for nulls behind what fits before it. -/
theorem isNull {negated : Bool} {floor next : Nat} (h : e.Fits floor testPrecedence)
    (hfloor : floor < testPrecedence) (hplain : e.isDenial = false) :
    (Expr.isNull e negated).Fits floor next := by
  refine ⟨.isNull (h.closes (.inr (.inr hplain))) h.faithful, ?_, fun _ => rfl⟩
  rw [opensAbove, Bool.and_eq_true, decide_eq_true_iff]
  exact ⟨hfloor, h.opens⟩

/-- What stands between parentheses, denied or not. -/
theorem denyIf_nested {inside : Expr N} {negated : Bool} (h : inside.IsFaithful)
    (hnamed : inside.lead ∉ ["SELECT", "WITH"]) {floor : Nat} (hfloor : floor < comparisonPrecedence)
    (next : Nat) : (denyIf negated (.nested inside)).Fits floor next := by
  have hnested : (Expr.nested inside).IsFaithful := .nested hnamed h
  cases negated with
  | false => exact .of_closed hnested (fun _ => rfl) (fun _ => rfl) floor next
  | true =>
      refine ⟨.unary (.inr rfl) rfl hnested, rfl, fun hcase => ?_⟩
      have hnext : next ≤ prefixPrecedence "NOT" := by
        rcases hcase with hnext | hfloor' | hplain
        · exact hnext
        · omega
        · cases hplain
      change (Expr.unary "NOT" (.nested inside)).closesAt next = true
      rw [closesAt, Bool.and_eq_true, decide_eq_true_iff]
      exact ⟨hnext, rfl⟩

end Fits

theorem isClear_denyIf {e : Expr N} {negated : Bool} (h : (denyIf negated e).isClear = true) :
    e.isClear = true := by
  cases negated with
  | false => exact h
  | true => exact isClear_unary h

variable [Number N]

/-- A comparison stands between connectives as it is. -/
theorem faithful_comparison {e item : Expr N} {op : String} {floor : Nat} (hop : op ∈ comparisons)
    (h : e.Fits floor comparisonPrecedence) (hitem : item.IsFaithful)
    (hopens : item.opensAbove comparisonPrecedence = true)
    (hclear : (Expr.binary e op item).isClearHere = true) :
    (Expr.binary e op item).IsFaithful ∧ ∀ p ≤ prefixPrecedence "NOT",
      (Expr.binary e op item).opensAbove p = true ∧ (Expr.binary e op item).closesAt p = true := by
  have hknown : ∀ op ∈ comparisons, op ∈ supportedOperators ∧
      operatorPrecedence op = comparisonPrecedence ∧ op ∉ ["AND", "OR"] := by decide
  obtain ⟨hsupported, hprecedence, hplain⟩ := hknown op hop
  simp only [isClearHere, Bool.and_eq_true, Bool.or_eq_true, decide_eq_true_iff,
    Bool.not_eq_true'] at hclear
  obtain ⟨⟨hdenial, -⟩, hnamed⟩ := hclear
  have hcloses : e.closesAt comparisonPrecedence = true :=
    h.closes (.inr (.inr (hdenial.resolve_left hplain)))
  rw [← hprecedence] at hcloses hopens
  refine ⟨.binary hsupported hcloses hopens hnamed h.faithful hitem, fun p hp => ⟨?_, ?_⟩⟩
  · have hloose : p < operatorPrecedence op := by
      rw [hprecedence]
      exact Nat.lt_of_le_of_lt hp (by decide)
    rw [opensAbove, Bool.and_eq_true, decide_eq_true_iff]
    exact ⟨hloose, h.faithful.opensAbove_of_closesAt hcloses hloose (Nat.lt_of_le_of_lt hp (by decide))⟩
  · have hloose : p ≤ operatorPrecedence op := by
      rw [hprecedence]
      exact Nat.le_trans hp (by decide)
    rw [closesAt, Bool.and_eq_true, decide_eq_true_iff]
    exact ⟨hloose, hitem.closesAt_of_opensAbove hopens hloose hp⟩

/-- **Ranges say what they are** when their comparisons do. -/
theorem fits_betweenExpr {e low high : Expr N} {negated : Bool} {floor lowNext highNext : Nat}
    (h : e.isClear = true → e.Fits floor comparisonPrecedence) (hfloor : floor < comparisonPrecedence)
    (hlow : low.isClear = true → low.Fits comparisonPrecedence lowNext)
    (hhigh : high.isClear = true → high.Fits comparisonPrecedence highNext)
    (hclear : (denyIf negated (betweenExpr e low high)).isClear = true) (next : Nat) :
    (denyIf negated (betweenExpr e low high)).Fits floor next := by
  obtain ⟨hlead, hinside⟩ := isClear_nested (isClear_denyIf hclear)
  obtain ⟨hhere, hleft, hright⟩ := isClear_binary hinside
  obtain ⟨hleftHere, hoperand, hlowClear⟩ := isClear_binary hleft
  obtain ⟨hrightHere, -, hhighClear⟩ := isClear_binary hright
  have h := h hoperand
  have hlow := hlow hlowClear
  have hhigh := hhigh hhighClear
  obtain ⟨hleftFaithful, hleftEnds⟩ := faithful_comparison (by decide) h hlow.faithful hlow.opens hleftHere
  obtain ⟨hrightFaithful, hrightEnds⟩ :=
    faithful_comparison (by decide) h hhigh.faithful hhigh.opens hrightHere
  have hnamed : (Expr.binary e "<=" high).lead ∉ ["ANY", "ALL"] := by
    simp only [isClearHere, Bool.and_eq_true, decide_eq_true_iff] at hhere
    exact hhere.2
  have hfaithful : (Expr.binary (.binary e ">=" low) "AND" (.binary e "<=" high)).IsFaithful :=
    .binary (by decide) (hleftEnds _ (by decide)).2 (hrightEnds _ (by decide)).1 hnamed hleftFaithful
      hrightFaithful
  exact .denyIf_nested hfaithful hlead hfloor next

/-- One more comparison is joined to those of a list. -/
def joinComparison (e joined item : Expr N) : Expr N := .binary joined "OR" (.binary e "=" item)

omit [Number N] in
theorem isClear_of_joined {e joined : Expr N} {items : List (Expr N)}
    (h : (items.foldl (joinComparison e) joined).isClear = true) : joined.isClear = true := by
  induction items generalizing joined with
  | nil => exact h
  | cons item items ih => exact (isClear_binary (ih h)).2.1

omit [Number N] in
/-- The operand of a comparison in a list, whose operators bind tighter than the comparison. -/
theorem opens_of_isClear_equality {e item : Expr N} (h : (Expr.binary e "=" item).isClear = true) :
    (Expr.binary e "=" item).isClearHere = true ∧ e.isClear = true ∧ item.isClear = true ∧
      item.opensAbove comparisonPrecedence = true := by
  obtain ⟨hhere, hoperand, hitem⟩ := isClear_binary h
  refine ⟨hhere, hoperand, hitem, ?_⟩
  simp only [isClearHere, Bool.and_eq_true, Bool.or_eq_true, bne_iff_ne] at hhere
  exact hhere.1.2.resolve_left fun hne => hne rfl

/-- The comparisons of a list, from left to right. -/
theorem faithful_joined {e joined : Expr N} {items : List (Expr N)} {floor : Nat}
    (h : e.Fits floor comparisonPrecedence) (hitems : ∀ item ∈ items, item.isClear = true → item.IsFaithful)
    (hjoined : joined.IsFaithful) (hcloses : joined.closesAt (operatorPrecedence "OR") = true)
    (hclear : (items.foldl (joinComparison e) joined).isClear = true) :
    (items.foldl (joinComparison e) joined).IsFaithful := by
  induction items generalizing joined with
  | nil => exact hjoined
  | cons item items ih =>
      obtain ⟨hhere, -, hright⟩ := isClear_binary (isClear_of_joined hclear)
      obtain ⟨hrightHere, -, hitemClear, hopens⟩ := opens_of_isClear_equality hright
      have hitem := hitems item List.mem_cons_self hitemClear
      obtain ⟨hfaithful, hends⟩ := faithful_comparison (by decide) h hitem hopens hrightHere
      have hnamed : (Expr.binary e "=" item).lead ∉ ["ANY", "ALL"] := by
        simp only [isClearHere, Bool.and_eq_true, decide_eq_true_iff] at hhere
        exact hhere.2
      refine ih (fun i hi => hitems i (List.mem_cons_of_mem _ hi))
        (.binary (by decide) hcloses (hends _ (by decide)).1 hnamed hjoined hfaithful) ?_ hclear
      rw [joinComparison, closesAt, Bool.and_eq_true, decide_eq_true_iff]
      exact ⟨Nat.le_refl _, (hends _ (by decide)).2⟩

/-- **Lists say what they are** when their comparisons do. -/
theorem fits_oneOfExpr {e first : Expr N} {others : List (Expr N)} {negated : Bool} {floor : Nat}
    (h : e.isClear = true → e.Fits floor comparisonPrecedence) (hfloor : floor < comparisonPrecedence)
    (hitems : ∀ item ∈ first :: others, item.isClear = true → item.IsFaithful)
    (hclear : (denyIf negated (oneOfExpr e first others)).isClear = true) (next : Nat) :
    (denyIf negated (oneOfExpr e first others)).Fits floor next := by
  obtain ⟨hlead, hinside⟩ := isClear_nested (isClear_denyIf hclear)
  obtain ⟨hhere, hoperand, hfirstClear, hopens⟩ := opens_of_isClear_equality (isClear_of_joined hinside)
  have h := h hoperand
  have hfirst := hitems first List.mem_cons_self hfirstClear
  obtain ⟨hfaithful, hends⟩ := faithful_comparison (by decide) h hfirst hopens hhere
  have hjoined := faithful_joined h (fun item hitem => hitems item (List.mem_cons_of_mem _ hitem)) hfaithful
    (hends _ (by decide)).2 hinside
  exact .denyIf_nested hjoined hlead hfloor next

end Expr

end PrivateSql
