import PrivateSql.Proofs.SpelledTokens
import PrivateSql.Tree.Render
/-!
# Trees that are scanned back

A tree is written as the texts of its children.  Where no blank stands between two of them, one of them is a sign
that no token goes on with, so each child is scanned as it would be on its own.

* `SpelledSoFar` — what is written of a node, with the child it ends with;
* `spells_branch` — a node spells the tokens of its children;
* `spells_sequence` — the members of a sequence, with commas between their tokens.
-/

namespace PrivateSql.Sql

/-- A piece that is cut into these tokens whatever follows it. -/
def SpellsAlways (s : String) (ts : List Token) : Prop :=
  ∀ after rest, Scans after rest → Scans (s.toList ++ after) (ts ++ rest)

theorem spells_empty {ts : List Token} (h : Spells "" ts) : ts = [] :=
  h.scans.unique scans_nil

theorem spells_open {ts : List Token} (h : Spells "(" ts) : ts = [.symbol "("] :=
  h.scans.unique (scans_punctuation (by decide) scans_nil)

/-- What is written so far, and the child it ends with. -/
structure SpelledSoFar (written : String) (previous : Option Tree) (ts : List Token) : Prop where
  spells : Spells written ts
  fresh : previous = none → written = ""
  opened : ∀ p, previous = some p → p.text? = some "(" → SpellsAlways written ts

open PrivateSql.Tree in
/-- One more child is spelled after what is written so far, and whatever is spelled after it. -/
theorem scans_joinPiece {k : Kind} {written piece : String} {previous : Option Tree}
    {ts rest : List Token} {after : List Char} (hk : separator k = " ")
    (h : SpelledSoFar written previous ts) (hscans : Scans (piece.toList ++ after) rest) :
    Scans ((joinPiece k written previous piece).toList ++ after) (ts ++ rest) := by
  cases previous with
  | none =>
      have hwritten := h.fresh rfl
      subst hwritten
      rw [spells_empty h.spells]
      simpa [joinPiece] using hscans
  | some p =>
      by_cases htight : isTight p piece = true
      · rw [joinPiece, if_pos (by simp [hk, htight]), String.toList_append, List.append_assoc]
        simp only [isTight, Bool.or_eq_true, Bool.and_eq_true, beq_iff_eq] at htight
        rcases htight with ((hopen | rfl) | rfl) | ⟨rfl, -⟩
        · exact h.opened p rfl hopen _ _ hscans
        · exact h.spells _ _ (by rintro c ⟨⟩; decide) hscans
        · exact h.spells _ _ (by rintro c ⟨⟩; decide) hscans
        · exact h.spells _ _ (by rintro c ⟨⟩; decide) hscans
      · rw [joinPiece, if_neg (by simp [htight]), hk, String.toList_append, String.toList_append,
          List.append_assoc, List.append_assoc]
        exact h.spells _ _ (by rintro c ⟨⟩; decide) hscans.blank

open PrivateSql.Tree in
/-- One more child, which spells its own tokens. -/
theorem SpelledSoFar.step {k : Kind} {written : String} {previous : Option Tree} {c : Tree}
    {ts us : List Token} (hk : separator k = " ") (h : SpelledSoFar written previous ts)
    (hc : Spells c.render us) :
    SpelledSoFar (joinPiece k written previous c.render) (some c) (ts ++ us) where
  spells := by
    intro after rest hafter hscans
    rw [List.append_assoc]
    exact scans_joinPiece hk h (hc after rest hafter hscans)
  fresh := by
    rintro ⟨⟩
  opened := by
    rintro p hp hopen after rest hscans
    cases hp
    cases c with
    | branch k cs => cases hopen
    | leaf k s =>
        cases hopen
        have hparenthesis : Tree.render (.leaf k "(") = "(" := rfl
        rw [hparenthesis] at hc ⊢
        rw [spells_open hc, List.append_assoc]
        exact scans_joinPiece hk h (scans_punctuation (by decide) hscans)

theorem SpelledSoFar.nil : SpelledSoFar "" none [] where
  spells := fun _ _ _ h => h
  fresh := fun _ => rfl
  opened := by
    rintro p ⟨⟩

open PrivateSql.Tree in
/-- **Nodes are spelled child by child.**  Children with blanks between them, or none where the signs
around them need none. -/
theorem spells_branch {k : Kind} {cs : List Tree} {tss : List (List Token)} (hk : separator k = " ")
    (h : List.Forall₂ (fun c ts => Spells c.render ts) cs tss) :
    Spells (render (.branch k cs)) tss.flatten := by
  have hfrom : ∀ written previous ts, SpelledSoFar written previous ts →
      Spells (renderFrom k written previous cs) (ts ++ tss.flatten) := by
    induction h with
    | nil =>
        intro written previous ts hts
        rw [List.flatten_nil, List.append_nil]
        exact hts.spells
    | @cons c us cs tss hc _ ih =>
        intro written previous ts hts
        rw [renderFrom]
        by_cases hempty : c.render.isEmpty = true
        · have hrender : c.render = "" := by simpa using hempty
          rw [hrender] at hc
          rw [if_pos hempty, spells_empty hc]
          exact ih _ _ _ hts
        · rw [if_neg hempty, List.flatten_cons, ← List.append_assoc]
          exact ih _ _ _ (hts.step hk hc)
  exact hfrom "" none [] .nil

/-- Tokens with commas between them. -/
def commaTokens : List (List Token) → List Token
  | [] => []
  | ts :: tss => ts ++ tss.flatMap (.symbol "," :: ·)

theorem ne_empty_of_spells {c : Tree} {ts : List Token} (h : Spells c.render ts) (hts : ts ≠ []) :
    ¬c.render.isEmpty = true := by
  intro hempty
  have hrender : c.render = "" := by simpa using hempty
  rw [hrender] at h
  exact hts (spells_empty h)

theorem spells_comma {written piece : String} {ts us : List Token} (h : Spells written ts)
    (hpiece : Spells piece us) : Spells (written ++ ", " ++ piece) (ts ++ .symbol "," :: us) := by
  intro after rest hafter hscans
  rw [String.toList_append, String.toList_append, List.append_assoc, List.append_assoc,
    List.append_assoc, List.cons_append]
  exact h _ _ (by rintro c ⟨⟩; decide)
    (scans_punctuation (by decide) (hpiece after rest hafter hscans).blank)

open PrivateSql.Tree in
/-- The members of a sequence are spelled with commas between them. -/
theorem spells_sequence {cs : List Tree} {tss : List (List Token)}
    (h : List.Forall₂ (fun c ts => Spells c.render ts) cs tss) (hsome : ∀ ts ∈ tss, ts ≠ []) :
    Spells (render (.branch .sequence cs)) (commaTokens tss) := by
  have hfrom : ∀ {cs : List Tree} {tss : List (List Token)},
      List.Forall₂ (fun c ts => Spells c.render ts) cs tss → (∀ ts ∈ tss, ts ≠ []) →
      ∀ written p ts, Spells written ts →
        Spells (renderFrom .sequence written (some p) cs) (ts ++ tss.flatMap (.symbol "," :: ·)) := by
    intro cs tss h
    induction h with
    | nil =>
        intro _ written p ts hts
        rw [List.flatMap_nil, List.append_nil]
        exact hts
    | @cons c us cs tss hc _ ih =>
        intro hsome written p ts hts
        rw [renderFrom, if_neg (ne_empty_of_spells hc (hsome us List.mem_cons_self)), List.flatMap_cons,
          ← List.append_assoc]
        exact ih (fun ts hts => hsome ts (List.mem_cons_of_mem _ hts)) _ _ _ (spells_comma hts hc)
  cases h with
  | nil => exact fun _ _ _ hscans => hscans
  | @cons c us cs tss hc hcs =>
      rw [render, renderFrom, if_neg (ne_empty_of_spells hc (hsome us List.mem_cons_self))]
      refine hfrom hcs (fun ts hts => hsome ts (List.mem_cons_of_mem _ hts)) _ _ _ ?_
      have hjoin : joinPiece .sequence "" none c.render = c.render := by simp [joinPiece]
      rw [hjoin]
      exact hc

end PrivateSql.Sql
