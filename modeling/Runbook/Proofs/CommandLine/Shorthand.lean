import Mathlib.Data.List.Induction
import Runbook.CommandLine.Shorthand

/-!
# Where the shorthand is written out

The scan for the place of `run` goes over flags one by one and over `--config` together with its
value, whatever that looks like.  So it goes over any sequence of global options (`GlobalOptions`)
and leaves it as it is (`insertRun_append`).  Behind all global options stands nothing, a `--config`
without a value, or the first word (`Remainder`, `exists_globalOptions`), and the first word
decides: if it names a command, nothing happens, and else `run` is put in front of it.

`run` itself names a command, so a second scan finds nothing to do.
-/

namespace Runbook.CommandLine

variable {options rest behind : List Text} {word : Text}

/-- The global option that takes a value. -/
def configOption : Text := "--config"

/-- Options in front of a command: flags, and `--config` each time with a value. -/
inductive GlobalOptions : List Text → Prop
  /-- No options. -/
  | nil : GlobalOptions []
  /-- An option without a value, and more options. -/
  | flag {word : Text} {rest : List Text} :
      word.head? = some '-' →
        word ≠ configOption → GlobalOptions rest → GlobalOptions (word :: rest)
  /-- `--config` with any value, and more options. -/
  | config (value : Text) {rest : List Text} :
      GlobalOptions rest → GlobalOptions (configOption :: value :: rest)

/-- What can stand behind all global options. -/
inductive Remainder : List Text → Prop
  /-- Nothing. -/
  | nil : Remainder []
  /-- `--config` at the end, where its value is missing. -/
  | config : Remainder [configOption]
  /-- A word that is no option, and what follows it. -/
  | word {word : Text} (rest : List Text) : word.head? ≠ some '-' → Remainder (word :: rest)

/-- Arguments can be cut behind their global options. -/
theorem exists_globalOptions (arguments : List Text) :
    ∃ options behind, arguments = options ++ behind ∧ GlobalOptions options ∧ Remainder behind := by
  induction arguments using List.twoStepInduction with
  | nil => exact ⟨[], [], rfl, .nil, .nil⟩
  | singleton word =>
      by_cases hword : word.head? = some '-'
      · by_cases hconfig : word = configOption
        · exact ⟨[], [word], rfl, .nil, hconfig ▸ .config⟩
        · exact ⟨[word], [], rfl, .flag hword hconfig .nil, .nil⟩
      · exact ⟨[], [word], rfl, .nil, .word [] hword⟩
  | cons_cons word value rest ih ihvalue =>
      by_cases hword : word.head? = some '-'
      · by_cases hconfig : word = configOption
        · obtain ⟨options, behind, rfl, hoptions, hbehind⟩ := ih
          exact ⟨word :: value :: options, behind, rfl, hconfig ▸ .config value hoptions, hbehind⟩
        · obtain ⟨options, behind, hcut, hoptions, hbehind⟩ := ihvalue value
          exact ⟨word :: options, behind, congrArg _ hcut, .flag hword hconfig hoptions, hbehind⟩
      · exact ⟨[], word :: value :: rest, rfl, .nil, .word _ hword⟩

/-! ## One step of the scan -/

theorem isOption_iff : isOption word ↔ word.head? = some '-' := by
  rw [isOption, decide_eq_true_iff]

theorem contains_optionsWithValue_iff : optionsWithValue.contains word ↔ word = configOption := by
  rw [List.contains_iff_mem]
  exact List.mem_singleton

theorem insertRun_flag (hword : word.head? = some '-') (hconfig : word ≠ configOption)
    (rest : List Text) : insertRun false (word :: rest) = word :: insertRun false rest := by
  have hvalue : optionsWithValue.contains word = false := by
    rw [Bool.eq_false_iff, Ne, contains_optionsWithValue_iff]
    exact hconfig
  rw [insertRun, if_neg Bool.false_ne_true, if_pos (isOption_iff.mpr hword), hvalue]

theorem insertRun_config (value : Text) (rest : List Text) :
    insertRun false (configOption :: value :: rest) =
      configOption :: value :: insertRun false rest :=
  rfl

/-- The scan ends at the first word. -/
theorem insertRun_word (hword : word.head? ≠ some '-') (rest : List Text) :
    insertRun false (word :: rest) =
      if word ∈ commandWords then word :: rest else "run" :: word :: rest := by
  rw [insertRun, if_neg Bool.false_ne_true, if_neg (mt isOption_iff.mp hword)]
  simp only [List.contains_iff_mem]

/-! ## The whole scan -/

/-- Global options are passed over. -/
theorem insertRun_append (h : GlobalOptions options) (rest : List Text) :
    insertRun false (options ++ rest) = options ++ insertRun false rest := by
  induction h with
  | nil => rfl
  | flag hword hconfig _ ih =>
      rw [List.cons_append, insertRun_flag hword hconfig, ih, List.cons_append]
  | config value _ ih =>
      rw [List.cons_append, List.cons_append, insertRun_config, ih, List.cons_append,
        List.cons_append]

/-- No name of a command is written like an option. -/
theorem head?_ne_of_mem_commandWords (h : word ∈ commandWords) : word.head? ≠ some '-' := by
  have hall : ∀ word ∈ commandWords, word.head? ≠ some '-' := by decide
  exact hall word h

/-- Where a command is named, nothing is put in. -/
theorem insertRun_command (h : word ∈ commandWords) (rest : List Text) :
    insertRun false (word :: rest) = word :: rest := by
  rw [insertRun_word (head?_ne_of_mem_commandWords h), if_pos h]

theorem insertRun_remainder (h : Remainder behind) :
    insertRun false (insertRun false behind) = insertRun false behind := by
  cases h with
  | nil => rfl
  | config => rfl
  | word rest hword =>
      rw [insertRun_word hword]
      split
      · next hcommand => exact insertRun_command hcommand rest
      · exact insertRun_command (by decide) _

theorem withImplicitRun_withImplicitRun (arguments : List Text) :
    withImplicitRun (withImplicitRun arguments) = withImplicitRun arguments := by
  cases arguments with
  | nil => rfl
  | cons program arguments =>
      obtain ⟨options, behind, rfl, hoptions, hbehind⟩ := exists_globalOptions arguments
      simp only [withImplicitRun, insertRun_append hoptions, insertRun_remainder hbehind]

/-- **The shorthand is `run` in front of the first word behind the global options**, if this is no
name of a command; where a command is named or no word follows, not even in place of the value of a
last `--config`, the arguments stay as they are.  Writing the shorthand out again changes
nothing. -/
theorem shorthand_is_run (h : GlobalOptions options) (program : Text) :
    (∀ word rest, word.head? ≠ some '-' → word ∉ commandWords →
      withImplicitRun (program :: (options ++ word :: rest)) =
        program :: (options ++ ("run" : Text) :: word :: rest)) ∧
    (∀ word rest, word ∈ commandWords →
      withImplicitRun (program :: (options ++ word :: rest)) =
        program :: (options ++ word :: rest)) ∧
    withImplicitRun (program :: options) = program :: options ∧
    withImplicitRun (program :: (options ++ [configOption])) =
      program :: (options ++ [configOption]) ∧
    ∀ arguments, withImplicitRun (withImplicitRun arguments) = withImplicitRun arguments := by
  refine ⟨fun word rest hword hcommand => ?_, fun word rest hcommand => ?_, ?_, ?_,
    withImplicitRun_withImplicitRun⟩
  · rw [withImplicitRun, insertRun_append h, insertRun_word hword, if_neg hcommand]
  · rw [withImplicitRun, insertRun_append h, insertRun_command hcommand]
  · have hend : insertRun false (options ++ []) = options ++ [] := insertRun_append h []
    rw [List.append_nil] at hend
    rw [withImplicitRun, hend]
  · rw [withImplicitRun, insertRun_append h]
    rfl

/-- A value that looks like an option, one that looks like a command, and a flag in between. -/
theorem shorthand_is_run_behind_values :
    GlobalOptions [configOption, "-v", "--no-color", configOption, "check"] ∧
      withImplicitRun
          ["p", configOption, "-v", "--no-color", configOption, "check", "book", "greet"] =
        (["p", configOption, "-v", "--no-color", configOption, "check", "run", "book", "greet"] :
          List Text) ∧
      withImplicitRun
          ["p", configOption, "-v", "--no-color", configOption, "check", "list", "book"] =
        (["p", configOption, "-v", "--no-color", configOption, "check", "list", "book"] :
          List Text) := by
  have hoptions : GlobalOptions [configOption, "-v", "--no-color", configOption, "check"] :=
    .config _ (.flag (by decide) (by decide) (.config _ .nil))
  obtain ⟨hword, hcommand, -⟩ := shorthand_is_run hoptions "p"
  exact ⟨hoptions, hword "book" ["greet"] (by decide) (by decide),
    hcommand "list" ["book"] (by decide)⟩

end Runbook.CommandLine
