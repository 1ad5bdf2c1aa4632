import Runbook.Fixture.FrontMatter
import Runbook.Proofs.Reference.Plain
import Runbook.Proofs.Text.Replacing

/-!
# Reading a fixture back

A fixture is written as its front matter between two lines of hyphens, and its source behind them
(`written`). What is read from it is what was written, to the character: the front matter loses the
line ending in front of the second delimiter and nothing else, and the source loses nothing
(`split_written`).

The delimiter is searched as `"\n---"`.  It starts with a character that it does not hold a second
time, so it cannot overlap itself, and what is found is the delimiter that was written
(`Text.splitOnce?_append`).
-/

namespace Runbook

namespace Text

variable {needle rest s t : Text} {c : Char}

theorem splitOnce?_eq_none_iff : splitOnce? needle t = none ↔ ¬ needle <:+: t := by
  rw [← contains_iff_isInfix, contains, Option.not_isSome_iff_eq_none]

/-- A needle that holds its first character only once is found where it is put, if it does not occur
before. -/
theorem splitOnce?_append (hc : c ∉ rest) (hs : ¬ (c :: rest) <:+: s) (t : Text) :
    splitOnce? (c :: rest) (s ++ (c :: rest ++ t)) = some (s, t) := by
  induction s with
  | nil =>
      have hfront : dropFront? (c :: rest) (c :: (rest ++ t)) = some t :=
        dropFront?_append (c :: rest) t
      rw [List.nil_append, List.cons_append, splitOnce?, hfront]
  | cons d s ih =>
      rw [List.infix_cons_iff, not_or] at hs
      have hfront : dropFront? (c :: rest) (d :: (s ++ (c :: rest ++ t))) = none := by
        rw [dropFront?]
        split
        · next hcd =>
            -- a match that starts here ends in `s`, since it cannot go on into the needle behind
            refine dropFront?_append_cons_eq_none hc ?_ (rest ++ t)
            rw [Option.eq_none_iff_forall_ne_some]
            intro more hmore
            rw [dropFront?_eq_some_iff] at hmore
            exact hs.1 ⟨more, by rw [hcd, hmore, List.cons_append]⟩
        · rfl
      rw [List.cons_append, splitOnce?, hfront, ih hs.2]
      rfl

end Text

namespace Fixture

variable {front source t : Text}

/-- The two ways to end a line. -/
inductive LineEnding where
  | feed
  | returnAndFeed

/-- What a line ending has in front of its line feed. -/
def LineEnding.returns : LineEnding → Text
  | .feed => []
  | .returnAndFeed => ['\r']

/-- The characters of a line ending. -/
def LineEnding.text (ending : LineEnding) : Text := ending.returns ++ ['\n']

/-- A fixture as it is written: byte order marks, a delimiter, the front matter, a delimiter, the
source.  Each of the three line endings is of its own kind. -/
def written (marks : Nat) (opening closing behind : LineEnding) (front source : Text) : Text :=
  List.replicate marks '\ufeff' ++ ("---" ++ (opening.text ++ (front ++ (closing.text ++ ("---" ++
    (behind.text ++ source))))))

/-! ## Line endings -/

theorem dropLineFeed_text_append (ending : LineEnding) (t : Text) :
    dropLineFeed (ending.text ++ t) = t := by
  cases ending <;> rfl

theorem LineEnding.eq_of_mem_returns {ending : LineEnding} {c : Char} (h : c ∈ ending.returns) :
    c = '\r' := by
  cases ending with
  | feed => cases h
  | returnAndFeed => exact List.mem_singleton.mp h

/-- A carriage return completes no delimiter. -/
theorem not_isInfix_append_returns (ending : LineEnding) (h : ¬ ("\n---" : Text) <:+: front) :
    ¬ ("\n---" : Text) <:+: front ++ ending.returns := by
  cases ending with
  | feed => rwa [LineEnding.returns, List.append_nil]
  | returnAndFeed =>
      rw [LineEnding.returns, List.infix_concat_iff, not_or]
      refine ⟨fun hsuffix => ?_, h⟩
      have hmem : '\r' ∈ ("\n---" : Text) := by
        obtain ⟨before, hbefore⟩ := hsuffix
        have hlast := congrArg List.getLast? hbefore
        rw [List.getLast?_concat, List.getLast?_append_of_ne_nil _ (by decide)] at hlast
        exact List.mem_of_getLast? hlast
      exact absurd hmem (by decide)

/-! ## Splitting -/

theorem split_eq_unopened (h : ¬ ("---" : Text) <+: t.dropWhile (· = '\ufeff')) :
    split t = .error .unopened := by
  have hnone : Text.dropFront? "---" (t.dropWhile (· = '\ufeff')) = none := by
    rw [Option.eq_none_iff_forall_ne_some]
    intro rest hrest
    exact h ⟨rest, (Text.dropFront?_eq_some_iff.mp hrest).symm⟩
  rw [split, hnone]

/-- Behind the byte order marks and the first delimiter, the second delimiter decides. -/
theorem split_marks_append (marks : Nat) (rest : Text) :
    split (List.replicate marks '\ufeff' ++ ("---" ++ rest)) =
      (Text.splitOnce? "\n---" (dropLineFeed rest)).elim (.error .unclosed) fun (front, source) =>
        .ok (Text.dropEndWhile (· = '\r') front, dropLineFeed source) := by
  have hmarks : (List.replicate marks '\ufeff' ++ ("---" ++ rest)).dropWhile (· = '\ufeff') =
      "---" ++ rest := by
    rw [List.dropWhile_append_of_pos fun c hc => by simpa using List.eq_of_mem_replicate hc]
    rfl
  simp only [split, hmarks, Text.dropFront?_append]
  cases Text.splitOnce? "\n---" (dropLineFeed rest) <;> rfl

theorem dropLineFeed_suffix (t : Text) : dropLineFeed t <:+ t := by
  unfold dropLineFeed
  split
  · next rest hrest => exact ⟨_, (Text.dropFront?_eq_some_iff.mp hrest).symm⟩
  · cases hfeed : Text.dropFront? "\n" t with
    | none => exact List.suffix_refl t
    | some rest => exact ⟨_, (Text.dropFront?_eq_some_iff.mp hfeed).symm⟩

theorem split_eq_unclosed {rest : Text} (marks : Nat) (h : ¬ ("\n---" : Text) <:+: rest) :
    split (List.replicate marks '\ufeff' ++ ("---" ++ rest)) = .error .unclosed := by
  have hnone : Text.splitOnce? "\n---" (dropLineFeed rest) = none :=
    Text.splitOnce?_eq_none_iff.mpr fun hin => h (hin.trans (dropLineFeed_suffix rest).isInfix)
  rw [split_marks_append, hnone, Option.elim_none]

/-- What was written is read back. -/
theorem split_written (marks : Nat) (opening closing behind : LineEnding) (source : Text)
    (hfront : ¬ ("\n---" : Text) <:+: front) (hlast : front.getLast? ≠ some '\r') :
    split (written marks opening closing behind front source) = .ok (front, source) := by
  have hsplit :
      Text.splitOnce? "\n---" (front ++ (closing.text ++ ("---" ++ (behind.text ++ source)))) =
      some (front ++ closing.returns, behind.text ++ source) := by
    have hdelimiter : '\n' ∉ "---".toList := by decide
    have hfound := Text.splitOnce?_append hdelimiter (not_isInfix_append_returns closing hfront)
      (behind.text ++ source)
    rw [LineEnding.text, List.append_assoc, ← List.append_assoc front]
    exact hfound
  have hkept : Text.dropEndWhile (· = '\r') (front ++ closing.returns) = front := by
    rw [Text.dropEndWhile_append_of_all fun c hc => by simpa using LineEnding.eq_of_mem_returns hc]
    refine Text.dropEndWhile_eq_self fun c hc hr => hlast ?_
    rw [← of_decide_eq_true hr]
    exact hc
  rw [written, split_marks_append, dropLineFeed_text_append, hsplit]
  simp only [Option.elim_some, hkept, dropLineFeed_text_append]

variable {read : Text → Except Text Expectations}

/-- What is parsed, by what is split. -/
theorem parse_of_split (h : split t = .ok (front, source)) :
    parse read t = match read front with
      | .ok e => .ok (e, source)
      | .error reason => .error (.invalid reason) := by
  rw [parse, h]
  cases hread : read front <;> simp [bind, Except.bind, Except.mapError, pure, Except.pure, hread]

theorem parse_of_error {e : FrontMatterError} (h : split t = .error e) :
    parse read t = .error e := by
  rw [parse, h]
  rfl

/-- **Front matter is read back as it was written.**  Whatever line endings are used, and however
many byte order marks stand in front, a fixture hands its front matter to the reader and gives back
its source, unless the front matter holds a delimiter of its own or ends with a carriage return.  A
text that does not open its front matter is refused, and so is one that does not close it. -/
theorem front_matter_round_trip (read : Text → Except Text Expectations) :
    (∀ (marks : Nat) (opening closing behind : LineEnding) (front source : Text),
        ¬ ("\n---" : Text) <:+: front → front.getLast? ≠ some '\r' →
          split (written marks opening closing behind front source) = .ok (front, source) ∧
            parse read (written marks opening closing behind front source) =
              match read front with
              | .ok e => .ok (e, source)
              | .error reason => .error (.invalid reason)) ∧
      (∀ t : Text, ¬ ("---" : Text) <+: t.dropWhile (· = '\ufeff') →
        parse read t = .error .unopened) ∧
      ∀ (marks : Nat) (rest : Text), ¬ ("\n---" : Text) <:+: rest →
        parse read (List.replicate marks '\ufeff' ++ ("---" ++ rest)) = .error .unclosed := by
  refine ⟨?_, ?_, ?_⟩
  · intro marks opening closing behind front source hfront hlast
    have hsplit := split_written marks opening closing behind source hfront hlast
    exact ⟨hsplit, parse_of_split hsplit⟩
  · intro t h
    exact parse_of_error (split_eq_unopened h)
  · intro marks rest h
    exact parse_of_error (split_eq_unclosed marks h)

/-- Front matter that starts with hyphens, between delimiters with mixed line endings, and a source
that starts with an empty line and goes on with a further delimiter. The reader refuses all but one
key with a text. -/
theorem front_matter_round_trip_of_hyphens :
    let front : Text := "---x\n--"
    let source : Text := "\n---\n### é"
    let read (t : Text) : Except Text Expectations :=
      if t = "block = \"a\"" then .ok ⟨none, "a", [], none, none, none, none⟩ else .error "no key"
    (¬ ("\n---" : Text) <:+: front ∧ front.getLast? ≠ some '\r' ∧
        split "\ufeff\ufeff---\n---x\n--\r\n---\r\n\n---\n### é" = .ok (front, source) ∧
        parse read "\ufeff\ufeff---\n---x\n--\r\n---\r\n\n---\n### é" =
          .error (.invalid "no key")) ∧
      (¬ ("---" : Text) <+: "--\n---\n".toList ∧ parse read "--\n---\n" = .error .unopened) ∧
      ¬ ("\n---" : Text) <:+: "\n--\n-".toList ∧ parse read "---\n--\n-" = .error .unclosed := by
  intro front source read
  obtain ⟨hread, hunopened, hunclosed⟩ := front_matter_round_trip read
  have hfront : ¬ ("\n---" : Text) <:+: front := by decide +kernel
  have hlast : front.getLast? ≠ some '\r' := by decide
  have hopen : ¬ ("---" : Text) <+: "--\n---\n".toList := by decide
  have hclose : ¬ ("\n---" : Text) <:+: "\n--\n-".toList := by decide +kernel
  have hrefused : read front = .error "no key" := if_neg (by decide)
  obtain ⟨hsplit, hparse⟩ :=
    hread 2 .feed .returnAndFeed .returnAndFeed front source hfront hlast
  rw [hrefused] at hparse
  exact ⟨⟨hfront, hlast, hsplit, hparse⟩, ⟨hopen, hunopened _ hopen⟩, hclose, hunclosed 0 _ hclose⟩

end Fixture

end Runbook
