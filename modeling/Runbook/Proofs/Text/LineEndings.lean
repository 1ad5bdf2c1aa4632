import Runbook.Proofs.Text.Lines
import Runbook.Proofs.Text.Replacing

/-!
# Two kinds of line endings

`withReturns` puts a carriage return in front of each line feed.  Every reader of lines takes the
same from the text with returns as from the text itself.

* Whatever is stripped at an end, line feeds and carriage returns are stripped alike, so that
  stripping and `withReturns` can be exchanged (`trim_withReturns`, `chomp_withReturns`).
* The pieces of both texts belong to each other (`pieces_withReturns`), and a chomped piece does not
  know which text it comes from (`chomp_of_mem_pieces`).
* The lines are the same, if the text had no carriage return before (`lines_withReturns`).
-/

namespace Runbook.Text

variable {line rest s t : Text} {c : Char} {p : Char → Bool}

/-- The text with a carriage return in front of each line feed. -/
def withReturns (t : Text) : Text := replaceAll "\n" "\r\n" t

/-! ## Character by character -/

@[simp] theorem withReturns_nil : withReturns [] = [] := rfl

theorem withReturns_feed (t : Text) : withReturns ('\n' :: t) = '\r' :: '\n' :: withReturns t := by
  rw [withReturns, replaceAll, replaceBy_cons]
  rfl

theorem withReturns_cons (h : c ≠ '\n') (t : Text) : withReturns (c :: t) = c :: withReturns t := by
  have hnone : literally "\n" "\r\n" (c :: t) = none := by
    simp [literally, startsWith, dropFront?, Ne.symm h]
  rw [withReturns, replaceAll, replaceBy_cons, hnone]
  rfl

theorem withReturns_append (s t : Text) :
    withReturns (s ++ t) = withReturns s ++ withReturns t := by
  induction s with
  | nil => rfl
  | cons c s ih =>
      rw [List.cons_append]
      by_cases hc : c = '\n'
      · rw [hc, withReturns_feed, withReturns_feed, ih]
        rfl
      · rw [withReturns_cons hc, withReturns_cons hc, ih]
        rfl

theorem withReturns_of_not_mem (h : '\n' ∉ t) : withReturns t = t := by
  induction t with
  | nil => rfl
  | cons c t ih =>
      rw [List.mem_cons, not_or] at h
      rw [withReturns_cons (Ne.symm h.1), ih h.2]

theorem withReturns_append_feed (h : '\n' ∉ line) (rest : Text) :
    withReturns (line ++ '\n' :: rest) = (line ++ ['\r']) ++ '\n' :: withReturns rest := by
  rw [withReturns_append, withReturns_of_not_mem h, withReturns_feed, List.append_assoc]
  rfl

theorem withReturns_flatten (parts : List Text) :
    withReturns parts.flatten = (parts.map withReturns).flatten := by
  induction parts with
  | nil => rfl
  | cons part parts ih =>
    rw [List.flatten_cons, withReturns_append, ih, List.map_cons, List.flatten_cons]

/-- Each line feed has made the text longer by one byte. -/
theorem byteLength_withReturns (t : Text) :
    byteLength (withReturns t) = byteLength t + t.count '\n' := by
  induction t with
  | nil => rfl
  | cons c t ih =>
      by_cases hc : c = '\n'
      · subst hc
        have hone : Char.utf8Size '\r' = 1 := by decide
        rw [withReturns_feed, byteLength_cons, byteLength_cons, byteLength_cons, ih,
          List.count_cons_self, hone]
        omega
      · rw [withReturns_cons hc, byteLength_cons, byteLength_cons, ih, List.count_cons_of_ne hc,
          Nat.add_assoc]

/-! ## Stripping the ends -/

theorem dropWhile_withReturns (h : p '\r' = p '\n') (t : Text) :
    (withReturns t).dropWhile p = withReturns (t.dropWhile p) := by
  induction t with
  | nil => rfl
  | cons c t ih =>
      by_cases hc : c = '\n'
      · subst hc
        rw [withReturns_feed]
        cases hfeed : p '\n' with
        | true =>
            rw [List.dropWhile_cons_of_pos (h.trans hfeed), List.dropWhile_cons_of_pos hfeed,
              List.dropWhile_cons_of_pos hfeed, ih]
        | false =>
            rw [List.dropWhile_cons_of_neg (by simp [h, hfeed]),
              List.dropWhile_cons_of_neg (by simp [hfeed]), withReturns_feed]
      · rw [withReturns_cons hc]
        cases hkept : p c with
        | true => rw [List.dropWhile_cons_of_pos hkept, List.dropWhile_cons_of_pos hkept, ih]
        | false =>
            rw [List.dropWhile_cons_of_neg (by simp [hkept]),
              List.dropWhile_cons_of_neg (by simp [hkept]), withReturns_cons hc]

theorem mem_withReturns_singleton (c : Char) : c ∈ withReturns [c] := by
  by_cases hc : c = '\n'
  · rw [hc, withReturns_feed]
    exact List.mem_cons_of_mem _ List.mem_cons_self
  · rw [withReturns_cons hc]
    exact List.mem_cons_self

/-- A line feed and the carriage return in front of it are stripped alike. -/
theorem eq_of_mem_withReturns_singleton (h : p '\r' = p '\n') {d : Char}
    (hd : d ∈ withReturns [c]) : p d = p c := by
  by_cases hc : c = '\n'
  · subst hc
    rw [withReturns_feed, withReturns_nil, List.mem_cons, List.mem_singleton] at hd
    rcases hd with rfl | rfl
    · exact h
    · rfl
  · rw [withReturns_cons hc, withReturns_nil, List.mem_singleton] at hd
    rw [hd]

theorem dropEndWhile_withReturns (h : p '\r' = p '\n') (t : Text) :
    dropEndWhile p (withReturns t) = withReturns (dropEndWhile p t) := by
  induction t using List.reverseRecOn with
  | nil => rfl
  | append_singleton t c ih =>
      -- the last character becomes one or two characters, and all of them are stripped or none
      have halike : ∀ d ∈ withReturns [c], p d = p c := fun d hd =>
        eq_of_mem_withReturns_singleton h hd
      rw [withReturns_append]
      cases hc : p c with
      | true =>
          rw [dropEndWhile_append_of_all fun d hd => (halike d hd).trans hc, ih,
            dropEndWhile_append_of_all (by simpa using hc)]
      | false =>
          have hkept : ∀ d ∈ withReturns [c], ¬ p d := fun d hd => by simp [halike d hd, hc]
          have hlast : dropEndWhile p (withReturns [c]) = withReturns [c] := by
            rw [dropEndWhile_eq_rdropWhile, List.rdropWhile_eq_self_iff]
            exact fun hne => hkept _ (List.getLast_mem hne)
          have hc : ¬ p c := by simp [hc]
          rw [dropEndWhile_append_of_exists ⟨c, mem_withReturns_singleton c, hc⟩, hlast,
            ← withReturns_append, dropEndWhile_append_cons hc]
          rfl

theorem trim_withReturns (t : Text) : trim (withReturns t) = withReturns (trim t) := by
  have hblank : isBlank '\r' = isBlank '\n' := by decide
  rw [trim, trimStart, dropWhile_withReturns hblank, trimEnd, dropEndWhile_withReturns hblank]
  rfl

theorem chomp_withReturns (t : Text) : chomp (withReturns t) = withReturns (chomp t) :=
  dropEndWhile_withReturns (by decide) t

/-! ## Pieces and lines -/

theorem pieces_withReturns (t : Text) : pieces (withReturns t) = (pieces t).map withReturns := by
  induction t using lineInduction with
  | nil => rfl
  | last line hne hline =>
      rw [withReturns_of_not_mem hline, pieces_of_not_mem hne hline, List.map_singleton,
        withReturns_of_not_mem hline]
  | feed line rest hline ih =>
      have hreturn : '\n' ∉ line ++ ['\r'] := by simp [hline]
      rw [withReturns_append_feed hline, pieces_append_feed hreturn, ih, pieces_append_feed hline,
        List.map_cons, withReturns_append_feed hline]
      rfl

/-- A chomped piece holds no line feed, and so it has none that could get a carriage return. -/
theorem chomp_of_mem_pieces {piece : Text} (h : piece ∈ pieces t) :
    chomp (withReturns piece) = chomp piece := by
  rw [chomp_withReturns]
  exact withReturns_of_not_mem (not_mem_chomp h)

theorem lines_withReturns (h : '\r' ∉ t) : lines (withReturns t) = lines t := by
  induction t using lineInduction with
  | nil => rfl
  | last line hne hline => rw [withReturns_of_not_mem hline]
  | feed line rest hline ih =>
      rw [List.mem_append, List.mem_cons, not_or, not_or] at h
      have hreturn : '\n' ∉ line ++ ['\r'] := by simp [hline]
      -- the new return is the one that is dropped, and without it there is none to drop
      have hkept : dropReturn line = line :=
        dropReturn_eq_self fun hlast => h.1 (List.mem_of_getLast? hlast)
      rw [withReturns_append_feed hline, lines_append_feed hreturn, ih h.2.2,
        dropReturn_append_return, lines_append_feed hline, hkept]

end Runbook.Text
