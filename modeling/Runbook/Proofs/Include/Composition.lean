import Runbook.Proofs.Include.Reach

/-!
# Expansion is compositional

An included block is expanded while the blocks around it are open.  If that succeeds, it comes to
the same as expanding the block by itself: the open names decide whether a walk goes on, and never
what it collects (`expanded_of_subset`).  More blocks, and open names that no block had, do not
change it either (`expanded_of_extends`).

So the text of a block is put together from texts that do not know of it.  Each include line gives
way to the expansion of its block, every other line stays, and line feeds join them
(`expandIncludes_compositional`).
-/

namespace Runbook.Include

variable {blocks : BlockMap} {opened : OpenNames} {name text : Text}

/-- What a line comes to when the block that it includes is expanded by itself. -/
def StandsFor (blocks : BlockMap) (line text : Text) : Prop :=
  match target? line with
  | some target => (expandIncludes target blocks []).1 = .ok text
  | none => text = line

/-- An expansion that succeeds gives the same text where there are more blocks, and where other
names are open that no block had. -/
theorem expanded_of_extends {larger : BlockMap} {others : OpenNames}
    (h : expanded blocks opened name = .ok text)
    (hblocks : ∀ x body, blocks.get? x = some body → larger.get? x = some body)
    (hothers : ∀ x ∈ others, x ∈ opened ∨ blocks.get? x = none) :
    expanded larger others name = .ok text := by
  induction opened using openNames_induction blocks generalizing name text others with
  | step opened ih =>
      have hopen := not_mem_of_eq_ok h
      obtain ⟨body, texts, hbody, hlines, rfl⟩ := exists_body_of_eq_ok h
      have hopen' : name ∉ others := by
        intro hmem
        rcases hothers name hmem with hmem | hnone
        · exact hopen hmem
        · rw [hbody] at hnone
          cases hnone
      have hothers' : ∀ x ∈ name :: others, x ∈ name :: opened ∨ blocks.get? x = none := by
        intro x hx
        rcases List.mem_cons.mp hx with rfl | hx
        · exact .inl List.mem_cons_self
        · exact (hothers x hx).imp_left (List.mem_cons_of_mem name)
      have hsame : expandedLines larger (name :: others) body = .ok texts := by
        refine mapM_eq_ok_of_forall₂ ((forall₂_of_mapM_eq_ok hlines).imp fun line part hpart => ?_)
        rw [replacement] at hpart ⊢
        cases htarget : target? line with
        | none => rwa [htarget] at hpart
        | some target =>
            rw [htarget] at hpart
            exact ih name hopen (Table.mem_keys_of_get? hbody) hpart hothers'
      rw [expanded_of_get?_eq_some hopen' (hblocks name body hbody), hsame]
      rfl

/-- An expansion that succeeds does so with fewer names open, and gives the same text. -/
theorem expanded_of_subset {others : OpenNames} (h : expanded blocks opened name = .ok text)
    (hsub : others ⊆ opened) : expanded blocks others name = .ok text :=
  expanded_of_extends h (fun _ _ hbody => hbody) fun _ hx => .inl (hsub hx)

theorem expandedLines_of_eq_ok {body : Text} {texts : List Text}
    (h : expandedLines blocks [name] body = .ok texts) :
    expandedLines blocks [] body = .ok texts := by
  have hno : ¬ Revisits (expandedLines blocks [name] body) := by
    rw [h]
    exact not_revisits_ok texts
  have hcongr : expandedLines blocks [] body = expandedLines blocks [name] body :=
    expandedLines_congr hno fun x hx _ => absurd hx List.not_mem_nil
  exact hcongr.trans h

theorem standsFor_of_replacement {line : Text}
    (h : replacement (expanded blocks []) line = .ok text) : StandsFor blocks line text := by
  unfold StandsFor
  rw [replacement] at h
  cases htarget : target? line with
  | some target => rwa [htarget] at h
  | none =>
      rw [htarget] at h
      exact (Except.ok.inj h).symm

/-- **Expansion is compositional.**  What succeeds with some names open comes to the same with any
of them, or none; all blocks that the body includes are expanded by themselves; and the text is the
lines of the body, joined with line feeds, with these expansions in the places of the include
lines. -/
theorem expandIncludes_compositional (h : (expandIncludes name blocks opened).1 = .ok text) :
    (∀ others ⊆ opened, (expandIncludes name blocks others).1 = .ok text) ∧
      ∃ body, blocks.get? name = some body ∧
        (∀ line ∈ Text.lines body, ∀ target, target? line = some target →
          ∃ part, (expandIncludes target blocks []).1 = .ok part) ∧
        ∃ texts, List.Forall₂ (StandsFor blocks) (Text.lines body) texts ∧
          text = Text.join "\n" texts := by
  have hfresh : expanded blocks [] name = .ok text := expanded_of_subset h (List.nil_subset opened)
  obtain ⟨body, texts, hbody, hlines, htext⟩ := exists_body_of_eq_ok hfresh
  have hall := forall₂_of_mapM_eq_ok (expandedLines_of_eq_ok hlines)
  refine ⟨fun others hsub => expanded_of_subset h hsub, body, hbody, ?_, texts, ?_, htext⟩
  · intro line hline target htarget
    obtain ⟨part, hpart⟩ := exists_ok_of_edge hfresh ⟨body, hbody, line, hline, htarget⟩
    exact ⟨part, expanded_of_subset hpart (List.nil_subset [name])⟩
  · exact hall.imp fun line part hpart => standsFor_of_replacement hpart

/-- A block that includes another one twice, expanded while a third one is open. -/
theorem expandIncludes_compositional_of_siblings :
    let blocks : BlockMap := .ofList [("a", "#include b\n#include b\nls"), ("b", "echo hi")]
    (expandIncludes "a" blocks ["c"]).1 = .ok "echo hi\necho hi\nls" ∧
      (expandIncludes "a" blocks []).1 = .ok "echo hi\necho hi\nls" ∧
        ∃ body, blocks.get? "a" = some body ∧
          ∃ texts, List.Forall₂ (StandsFor blocks) (Text.lines body) texts ∧
            ("echo hi\necho hi\nls" : Text) = Text.join "\n" texts := by
  intro blocks
  have hopen : (expandIncludes "a" blocks ["c"]).1 = .ok "echo hi\necho hi\nls" := by decide
  obtain ⟨hsame, body, hbody, -, hparts⟩ := expandIncludes_compositional hopen
  exact ⟨hopen, hsame [] (List.nil_subset _), body, hbody, hparts⟩

end Runbook.Include
