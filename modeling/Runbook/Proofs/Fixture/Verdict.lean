import Mathlib.Data.List.Forall2
import Runbook.Fixture.Check
import Runbook.Proofs.DenyList.Surroundings
import Runbook.Proofs.Reference.Plain

/-!
# What a verdict means

A fixture states up to five things about its source: its warnings, whether its block is dangerous,
the error or the command that the block comes to, and, if it states no error, that the block can be
expanded.  `Expectations.Met` says that all of them hold.

The checks are made one after another, and the first that fails gives the reason
(`checkSource_eq_ok_iff`).  One case is left out: an expected error decides alone, and a command
that is expected next to it is not looked at (`Expectations.decisive`).  Since a block cannot both
fail and come to a command, no source meets the two, yet a fixture with both can pass
(`passes_iff`).
-/

namespace Runbook.Fixture

variable {e : Expectations} {source t : Text}

/-! ## What a fixture states -/

/-- The warning has the expected words, and lies on the expected line if there is one. -/
def ExpectedWarning.Fits (source : Text) (actual : Diagnostic)
    (expected : ExpectedWarning) : Prop :=
  expected.contains <:+: actual.message ∧
    ∀ line ∈ expected.line, Text.lineOf source actual.span.start + 1 = line

namespace Expectations

/-- What the block comes to, with the environment of the fixture. -/
def expansion (e : Expectations) (source : Text) : Except IncludeError Text :=
  let book := Book.parse source 0
  (book.expandBlock e.block).map fun command =>
    Reference.expand command book.declared (.ofPairs e.env)

/-- All that the fixture states of its source holds. -/
structure Met (e : Expectations) (source : Text) : Prop where
  /-- The warnings are the expected ones, in order. -/
  warnings : ∀ expected ∈ e.warnings,
    List.Forall₂ (ExpectedWarning.Fits source)
      ((Book.parse source 0).lint.filter (·.isWarning)) expected
  dangerous : ∀ expected ∈ e.dangerous,
    (expected = true ↔
      ∃ block, (Book.parse source 0).get? e.block = some block ∧ DenyList.IsDangerous block.body)
  error : ∀ expected ∈ e.error, ∃ err, e.expansion source = .error err ∧ expected <:+: err.message
  /-- The block comes to the expected command, up to white space around it. -/
  command : ∀ expected ∈ e.command,
    ∃ actual, e.expansion source = .ok actual ∧ Text.trim actual = Text.trim expected
  expands : e.error = none → ∃ actual, e.expansion source = .ok actual

/-- The expectations that decide: next to an expected error, a command does not count. -/
def decisive (e : Expectations) : Expectations :=
  { e with command := if e.error.isSome then none else e.command }

/-- No source meets an error and a command. -/
theorem not_met_of_error_command (herror : e.error.isSome) (hcommand : e.command.isSome) :
    ¬ e.Met source := by
  obtain ⟨error, herror⟩ := Option.isSome_iff_exists.mp herror
  obtain ⟨command, hcommand⟩ := Option.isSome_iff_exists.mp hcommand
  intro hmet
  obtain ⟨err, hfails, -⟩ := hmet.error error herror
  obtain ⟨actual, hsucceeds, -⟩ := hmet.command command hcommand
  rw [hfails] at hsucceeds
  cases hsucceeds

theorem decisive_eq_self (h : ¬ (e.error.isSome ∧ e.command.isSome)) : e.decisive = e := by
  rw [decisive]
  split
  · next herror =>
      have hcommand : e.command = none := by simpa [herror] using h
      rw [← hcommand]
  · rfl

end Expectations

/-! ## The checks, one by one -/

theorem expecting_eq_ok_iff {holds : Bool} {reason : Text} :
    expecting holds reason = .ok () ↔ holds = true := by
  cases holds <;> simp [expecting]

/-- Of two checks, both have to succeed. -/
theorem andThen_eq_ok_iff {first second : Except Text Unit} :
    (first >>= fun _ => second) = .ok () ↔ first = .ok () ∧ second = .ok () := by
  cases first <;> simp [bind, Except.bind]

theorem checkWarning_eq_ok_iff {position : Nat} {actual : Diagnostic} {expected : ExpectedWarning} :
    checkWarning source position actual expected = .ok () ↔
      ExpectedWarning.Fits source actual expected := by
  rw [checkWarning, andThen_eq_ok_iff, expecting_eq_ok_iff, Text.contains_iff_isInfix,
    ExpectedWarning.Fits]
  cases expected.line with
  | none => simp
  | some line => simp [expecting_eq_ok_iff]

theorem checkWarningsFrom_eq_ok_iff {position : Nat} {actual : List Diagnostic}
    {expected : List ExpectedWarning}
    (h : actual.length = expected.length) :
    checkWarningsFrom source position actual expected = .ok () ↔
      List.Forall₂ (ExpectedWarning.Fits source) actual expected := by
  induction actual generalizing position expected with
  | nil =>
      rw [List.length_eq_zero_iff.mp h.symm]
      simp [checkWarningsFrom]
  | cons w rest ih =>
      cases expected with
      | nil => cases h
      | cons x more =>
          rw [checkWarningsFrom, andThen_eq_ok_iff, checkWarning_eq_ok_iff, ih (Nat.succ.inj h),
            List.forall₂_cons]

theorem checkWarnings_eq_ok_iff {actual : List Diagnostic} {expected : List ExpectedWarning} :
    checkWarnings source actual expected = .ok () ↔
      List.Forall₂ (ExpectedWarning.Fits source) actual expected := by
  rw [checkWarnings, andThen_eq_ok_iff, expecting_eq_ok_iff, decide_eq_true_iff]
  constructor
  · rintro ⟨hlength, hchecked⟩
    exact (checkWarningsFrom_eq_ok_iff hlength).mp hchecked
  · intro hfit
    have hlength := hfit.length_eq
    exact ⟨hlength, (checkWarningsFrom_eq_ok_iff hlength).mpr hfit⟩

theorem toBool_sanitize (command : Text) :
    (DenyList.sanitize command).toBool = !decide (DenyList.IsDangerous command) := by
  cases hsanitize : DenyList.sanitize command with
  | ok text => simp [(DenyList.sanitize_eq_ok_iff.mp hsanitize).1, Except.toBool]
  | error danger =>
      have hdanger : DenyList.IsDangerous command := by
        by_contra hsafe
        rw [DenyList.sanitize_eq_ok_iff.mpr ⟨hsafe, rfl⟩] at hsanitize
        cases hsanitize
      simp [hdanger, Except.toBool]

/-- A block that does not exist is not dangerous. -/
theorem checkDanger_eq_ok_iff {book : Book} {name : Text} {expected : Bool} :
    checkDanger book name expected = .ok () ↔
      (expected = true ↔
        ∃ block, book.get? name = some block ∧ DenyList.IsDangerous block.body) := by
  have hnone : ¬ DenyList.IsDangerous [] := by decide
  rw [checkDanger, expecting_eq_ok_iff, toBool_sanitize, Bool.not_not, decide_eq_true_iff, eq_comm,
    Bool.eq_iff_iff, decide_eq_true_iff]
  cases book.get? name with
  | none => simp [hnone]
  | some block => simp

theorem checkExpansion_eq_ok_iff {expansion : Except IncludeError Text} :
    checkExpansion e expansion = .ok () ↔
      (∀ expected ∈ e.error, ∃ err, expansion = .error err ∧ expected <:+: err.message) ∧
        (∀ expected ∈ e.decisive.command, ∃ actual, expansion = .ok actual ∧
          Text.trim actual = Text.trim expected) ∧
        (e.error = none → ∃ actual, expansion = .ok actual) := by
  cases herror : e.error with
  | none =>
      rw [Expectations.decisive_eq_self (by simp [herror])]
      cases expansion with
      | error err => simp [checkExpansion, herror]
      | ok actual =>
        cases hcommand : e.command <;> simp [checkExpansion, herror, hcommand, expecting_eq_ok_iff]
  | some expected =>
      have hcommand : e.decisive.command = none := by simp [Expectations.decisive, herror]
      cases expansion with
      | error err =>
        simp [checkExpansion, herror, hcommand, expecting_eq_ok_iff, Text.contains_iff_isInfix]
      | ok actual => simp [checkExpansion, herror, hcommand]

/-! ## The verdict -/

/-- A check that is made only if something is stated. -/
theorem elim_eq_ok_iff {α : Type} {stated : Option α} {check : α → Except Text Unit} :
    stated.elim (.ok ()) check = .ok () ↔ ∀ expected ∈ stated, check expected = .ok () := by
  cases stated <;> simp

theorem checkSource_eq (e : Expectations) (source : Text) :
    checkSource e source =
      (e.warnings.elim (.ok ())
          (checkWarnings source ((Book.parse source 0).lint.filter (·.isWarning))) >>= fun _ =>
        e.dangerous.elim (.ok ()) (checkDanger (Book.parse source 0) e.block) >>= fun _ =>
          checkExpansion e (e.expansion source)) := by
  rw [checkSource]
  cases e.warnings <;> cases e.dangerous <;> rfl

/-- The checks succeed if all holds that is stated and decides. -/
theorem checkSource_eq_ok_iff : checkSource e source = .ok () ↔ e.decisive.Met source := by
  rw [checkSource_eq, andThen_eq_ok_iff, andThen_eq_ok_iff, elim_eq_ok_iff, elim_eq_ok_iff,
    checkExpansion_eq_ok_iff]
  simp only [checkWarnings_eq_ok_iff, checkDanger_eq_ok_iff]
  constructor
  · rintro ⟨hwarnings, hdangerous, herror, hcommand, hexpands⟩
    exact ⟨hwarnings, hdangerous, herror, hcommand, hexpands⟩
  · intro hmet
    exact ⟨hmet.warnings, hmet.dangerous, hmet.error, hmet.command, hmet.expands⟩

variable {read : Text → Except Text Expectations}

theorem failure_eq_none_iff (h : parse read t = .ok (e, source)) :
    (checkFile read (.ok t)).failure = none ↔ checkSource e source = .ok () := by
  rw [checkFile, check, h]
  cases hsource : checkSource e source <;> simp [hsource]

/-- **What a fixture that passes has shown.**  A fixture whose front matter can be read passes if
and only if all holds that it states and that decides: all of it, unless it states an error and a
command.  So the verdict says whether all that is stated holds, except for a fixture that states
both and passes; what it states of the command then fails. -/
theorem passes_iff (h : parse read t = .ok (e, source)) :
    let passes := (checkFile read (.ok t)).failure = none
    (passes ↔ e.decisive.Met source) ∧
      ((passes ↔ e.Met source) ↔ ¬ (passes ∧ e.error.isSome ∧ e.command.isSome)) := by
  intro passes
  have hpasses : passes ↔ e.decisive.Met source :=
    (failure_eq_none_iff h).trans checkSource_eq_ok_iff
  refine ⟨hpasses, ?_⟩
  by_cases hboth : e.error.isSome ∧ e.command.isSome
  · have hunmet : ¬ e.Met source := Expectations.not_met_of_error_command hboth.1 hboth.2
    simp [hunmet, hboth]
  · rw [Expectations.decisive_eq_self hboth] at hpasses
    simp [hpasses, hboth]

/-- A fixture that states all but an error: one warning on the first line, a dangerous block, and
its command. -/
theorem passes_iff_of_shadowed :
    let source : Text := "### a\nls\n### a\nrm -rf $X\n"
    let front : Text :=
      "block = \"a\"\nexpect_command = \" rm -rf /y\"\nexpect_dangerous = true\n" ++
      "expect_warnings = [\x7b contains = \"shadowed\", line = 1 \x7d]\n[env]\nX = \"/y\""
    let e : Expectations :=
      ⟨none, "a", [("X", "/y")], some " rm -rf /y", none, some true, some [⟨"shadowed", some 1⟩]⟩
    let read (t : Text) : Except Text Expectations := if t = front then .ok e else .error "no key"
    let t : Text := "---\n" ++ front ++ "\n---\n" ++ source
    parse read t = .ok (e, source) ∧ (checkFile read (.ok t)).failure = none ∧ e.Met source := by
  intro source front e read t
  have hparse : parse read t = .ok (e, source) := by decide +kernel
  have hpasses : (checkFile read (.ok t)).failure = none :=
    (failure_eq_none_iff hparse).mpr (by decide +kernel)
  exact ⟨hparse, hpasses, (passes_iff hparse).1.mp hpasses⟩

/-- A block that fails as expected lets the fixture pass, although it does not come to the command
that the fixture states as well. -/
theorem passes_of_unmet_command :
    let source : Text := "### a\n#include x"
    let front : Text := "block = \"a\"\nexpect_error = \"found\"\nexpect_command = \"zzz\""
    let e : Expectations := ⟨none, "a", [], some "zzz", some "found", none, none⟩
    let read (t : Text) : Except Text Expectations := if t = front then .ok e else .error "no key"
    let t : Text := "---\n" ++ front ++ "\n---\n" ++ source
    parse read t = .ok (e, source) ∧ (checkFile read (.ok t)).failure = none ∧
      (∀ actual, e.expansion source ≠ .ok actual) ∧ ¬ e.Met source := by
  intro source front e read t
  have hparse : parse read t = .ok (e, source) := by decide +kernel
  have hpasses : (checkFile read (.ok t)).failure = none :=
    (failure_eq_none_iff hparse).mpr (by decide +kernel)
  have hfails : e.expansion source = .error (.missingBlock "x") := by decide +kernel
  refine ⟨hparse, hpasses, fun actual hactual => ?_,
    Expectations.not_met_of_error_command rfl rfl⟩
  rw [hfails] at hactual
  cases hactual

end Runbook.Fixture
