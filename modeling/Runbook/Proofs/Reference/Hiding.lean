import Mathlib.Logic.Function.Basic
import Runbook.Proofs.Reference.Meaning

/-!
# When declared variables hide the environment

A declared variable is put in before the environment is asked, so the environment's value of its
name should not matter.  It does matter where a reference to the name comes back behind the passes
of its declaration: out of the value of a later declaration, or put together of what stands side by
side. `asked` lists the names that the passes for the environment come upon, and it is the exact
measure: the environment is hidden if and only if it is asked for no declared name
(`environment_hidden_iff`).

## Strategy

A pass for the environment cuts its text at the references of its style (`cut`), and the cut depends
on the text alone.  So two environments that agree on what is looked up give the same
(`substituteEach_congr`).

For the converse, a name that is looked up is given a value of closing braces.  No value holds the
mark of a reference, so each reference that a later pass finds starts at a mark that was there
before, and it takes in at most one closing brace.  Hence all but a bounded number of the closing
braces are in the end result (`count_le_of_mem_lookedUp`), and enough of them make a difference.
-/

namespace Runbook.Reference

variable {style : Style} {styles : List Style} {pieces : List Piece} {p : Piece}
  {name value t : Text}
  {declared : VariableTable} {env env' : Environment}

/-! ## Cutting a text at its references -/

/-- The form of references in this style. -/
def Style.form : Style → Form
  | .braced => bracedForm
  | .bare => bareForm
  | .processEnv => processEnvForm

/-- Cuts a text whose first `skip` characters are part of the reference found last. -/
def cutFrom (style : Style) : Nat → Text → List Piece
  | _, [] => []
  | skip + 1, _ :: t => cutFrom style skip t
  | 0, c :: t =>
    match style.form (c :: t) with
    | some (name, count) => .reference style name :: cutFrom style (count - 1) t
    | none => .literal [c] :: cutFrom style 0 t

/-- The references of one style in a text, and each other character. -/
def cut (style : Style) (t : Text) : List Piece := cutFrom style 0 t

theorem enclosed_eq_some {opening : Text} {count : Nat}
    (h : enclosed opening t = some (name, count)) :
    '\x7d' ∉ name ∧ ∃ rest, t = opening ++ name ++ ("\x7d" : Text) ++ rest ∧
      count = (opening ++ name ++ ("\x7d" : Text)).length := by
  rw [enclosed] at h
  cases hfront : Text.dropFront? opening t with
  | none => simp [hfront] at h
  | some rest =>
      obtain rfl := Text.dropFront?_eq_some_iff.mp hfront
      simp only [hfront] at h
      split at h
      · cases h
      · next hclosed =>
          cases h
          rw [not_or] at hclosed
          obtain ⟨c, behind, hbehind⟩ := List.exists_cons_of_ne_nil hclosed.2
          have hc : c = '\x7d' := by
            have hnot := List.head?_dropWhile_not (fun c => decide (c ≠ '\x7d')) rest
            rw [hbehind] at hnot
            simpa using hnot
          refine ⟨fun hmem => by simpa using List.mem_takeWhile_imp hmem, behind, ?_,
            by simp [Nat.add_assoc]⟩
          conv_lhs =>
            rw [← List.takeWhile_append_dropWhile (p := fun c => decide (c ≠ '\x7d')) (l := rest)]
          rw [hbehind, hc, enclosed_assoc]

theorem bareForm_eq_some {count : Nat} (h : bareForm t = some (name, count)) :
    '\x7d' ∉ name ∧ ∃ rest, t = bare name ++ rest ∧ count = (bare name).length := by
  unfold bareForm at h
  split at h
  · next rest =>
      dsimp only at h
      split at h
      · cases h
        refine ⟨fun hmem => ?_, rest.dropWhile isIdentifierChar, ?_, rfl⟩
        · have hchar := List.mem_takeWhile_imp hmem
          cases hchar
        · rw [bare, List.cons_append, List.takeWhile_append_dropWhile]
      · cases h
  · cases h

/-- What is found is a reference of the style at the front of the text. -/
theorem Style.form_eq_some {count : Nat} (h : style.form t = some (name, count)) :
    '\x7d' ∉ name ∧ ∃ rest, t = style.write name ++ rest ∧ count = (style.write name).length := by
  cases style with
  | braced | processEnv => exact enclosed_eq_some h
  | bare => exact bareForm_eq_some h

/-- A reference starts with a dollar sign or an opening brace. -/
theorem exists_write (style : Style) (name : Text) :
    ∃ c rest, style.write name = c :: rest ∧ (c = '$' ∨ c = '\x7b') := by
  cases style with
  | braced => exact ⟨'$', _, (List.append_nil _).symm.trans (braced_append name []), .inl rfl⟩
  | bare => exact ⟨'$', name, rfl, .inl rfl⟩
  | processEnv =>
      have hopening : ("\x7bprocess.env." : Text) = '\x7b' :: ("process.env." : Text) := by decide
      exact ⟨'\x7b', _, congrArg (· ++ name ++ ("\x7d" : Text)) hopening, .inr rfl⟩

theorem drop_of_form_eq_some {c : Char} {count : Nat}
    (h : style.form (c :: t) = some (name, count)) :
    (c :: t).take count = style.write name ∧ style.write name ++ t.drop (count - 1) = c :: t := by
  obtain ⟨-, rest, htext, rfl⟩ := Style.form_eq_some h
  have htail : t.drop ((style.write name).length - 1) = rest := by
    obtain ⟨d, more, hwrite, -⟩ := exists_write style name
    have hpos : 0 < (style.write name).length := by simp [hwrite]
    rw [← List.drop_succ_cons (a := c), Nat.sub_add_cancel hpos, htext, List.drop_left]
  rw [htail, htext]
  exact ⟨List.take_left, rfl⟩

theorem flatMap_text_cutFrom (style : Style) (skip : Nat) (t : Text) :
    (cutFrom style skip t).flatMap Piece.text = t.drop skip := by
  induction t generalizing skip with
  | nil => simp [cutFrom]
  | cons c t ih =>
      cases skip with
      | succ skip => exact ih skip
      | zero =>
          rw [cutFrom]
          cases hform : style.form (c :: t) with
          | none => exact congrArg (c :: ·) (ih 0)
          | some found => exact (congrArg _ (ih _)).trans (drop_of_form_eq_some hform).2

theorem flatMap_text_cut (style : Style) (t : Text) : (cut style t).flatMap Piece.text = t :=
  flatMap_text_cutFrom style 0 t

/-- **A pass for the environment resolves the references of its cut.** -/
theorem substitute_eq_flatMap (style : Style) (env : Environment) (t : Text) :
    substitute style.form env t = (cut style t).flatMap (Piece.resolve style env.value?) := by
  have hfrom (skip : Nat) : Text.replaceByFrom (resolving style.form env) skip t =
      (cutFrom style skip t).flatMap (Piece.resolve style env.value?) := by
    induction t generalizing skip with
    | nil => cases skip <;> rfl
    | cons c t ih =>
        cases skip with
        | succ skip => exact ih skip
        | zero =>
            rw [Text.replaceByFrom, resolving, cutFrom]
            cases hform : style.form (c :: t) with
            | none => exact congrArg (c :: ·) (ih 0)
            | some found =>
                have hwritten := (drop_of_form_eq_some hform).1
                simp only [Option.map_some, hwritten, List.flatMap_cons, Piece.resolve, if_true, ih]
  exact hfrom 0

theorem of_reference_mem_cut {s : Style} (h : .reference s name ∈ cut style t) :
    s = style ∧ '\x7d' ∉ name := by
  have hfrom (skip : Nat) (t : Text) (h : .reference s name ∈ cutFrom style skip t) :
      s = style ∧ '\x7d' ∉ name := by
    induction t generalizing skip with
    | nil => cases h
    | cons c t ih =>
        cases skip with
        | succ skip => exact ih skip h
        | zero =>
            rw [cutFrom] at h
            cases hform : style.form (c :: t) with
            | none =>
                simp only [hform, List.mem_cons, reduceCtorEq, false_or] at h
                exact ih 0 h
            | some found =>
                simp only [hform, List.mem_cons, Piece.reference.injEq] at h
                rcases h with ⟨rfl, rfl⟩ | h
                · exact ⟨rfl, (Style.form_eq_some hform).1⟩
                · exact ih _ h
  exact hfrom 0 t h

/-! ## What is looked up -/

/-- The name that a piece refers to. -/
def Piece.name? : Piece → Option Text
  | literal _ => none
  | reference _ name => some name

/-- The styles of references to the environment, in the order of their passes. -/
def environmentStyles : List Style := [.processEnv, .braced, .bare]

/-- Passes for the environment, one for each style. -/
def substituteEach (env : Environment) : List Style → Text → Text
  | [], t => t
  | style :: rest, t => substituteEach env rest (substitute style.form env t)

/-- The names that these passes look up. -/
def lookedUp (env : Environment) : List Style → Text → List Text
  | [], _ => []
  | style :: rest, t =>
    (cut style t).filterMap Piece.name? ++ lookedUp env rest (substitute style.form env t)

/-- The names that the environment is asked for in the expansion of a command. -/
def asked (command : Text) (declared : VariableTable) (env : Environment) : List Text :=
  lookedUp env environmentStyles (declared.entries.foldl expandDeclared command)

theorem expand_eq_substituteEach (command : Text) (declared : VariableTable) (env : Environment) :
    expand command declared env =
      substituteEach env environmentStyles (declared.entries.foldl expandDeclared command) := rfl

theorem substitute_congr
    (h : ∀ name ∈ (cut style t).filterMap Piece.name?, env'.value? name = env.value? name) :
    substitute style.form env' t = substitute style.form env t := by
  rw [substitute_eq_flatMap, substitute_eq_flatMap]
  refine List.flatMap_congr fun p hp => ?_
  cases p with
  | literal s => rfl
  | reference s name =>
      have hvalue := h name (List.mem_filterMap.mpr ⟨_, hp, rfl⟩)
      rw [Piece.resolve, Piece.resolve, hvalue]

/-- Environments that agree on what is looked up give the same. -/
theorem substituteEach_congr
    (h : ∀ name ∈ lookedUp env styles t, env'.value? name = env.value? name) :
    substituteEach env' styles t = substituteEach env styles t := by
  induction styles generalizing t with
  | nil => rfl
  | cons style rest ih =>
      obtain ⟨hcut, hrest⟩ := List.forall_mem_append.mp h
      rw [substituteEach, substituteEach, substitute_congr hcut]
      exact ih hrest

/-! ## What is put in stays -/

/-- The values hold nothing that a reference starts with. -/
def Unmarked (env : Environment) : Prop :=
  ∀ name value, env name = some value → '$' ∉ value ∧ '\x7b' ∉ value

/-- The number of characters with which references start. -/
def marks (t : Text) : Nat := t.countP fun c => c = '$' ∨ c = '\x7b'

theorem marks_append (s t : Text) : marks (s ++ t) = marks s + marks t := List.countP_append

theorem marks_eq_zero (hdollar : '$' ∉ t) (hbrace : '\x7b' ∉ t) : marks t = 0 := by
  refine List.countP_eq_zero.mpr fun c hc => ?_
  rw [decide_eq_true_eq]
  rintro (rfl | rfl)
  · exact hdollar hc
  · exact hbrace hc

theorem marks_write_pos (style : Style) (name : Text) : 0 < marks (style.write name) := by
  obtain ⟨c, rest, hwrite, hc⟩ := exists_write style name
  exact List.countP_pos_iff.mpr ⟨c, hwrite ▸ List.mem_cons_self, decide_eq_true hc⟩

theorem count_write_le (style : Style) (hname : '\x7d' ∉ name) :
    (style.write name).count '\x7d' ≤ 1 := by
  have hcount : name.count '\x7d' = 0 := List.count_eq_zero.mpr hname
  have henclosed (opening : Text) (h : '\x7d' ∉ opening) :
      (opening ++ name ++ ("\x7d" : Text)).count '\x7d' ≤ 1 := by
    rw [List.count_append, List.count_append, List.count_eq_zero.mpr h, hcount]
    decide
  cases style with
  | braced | processEnv => exact henclosed _ (by decide)
  | bare => simp [Style.write, bare, hcount]

theorem marks_of_value? (henv : Unmarked env) (h : env.value? name = some value) :
    marks value = 0 := by
  obtain ⟨hdollar, hbrace⟩ := henv name value (eq_some_of_value? h)
  exact marks_eq_zero hdollar hbrace

/-- Resolving a reference adds no marks, and it loses at most one closing brace for each mark. -/
theorem resolve_counts (henv : Unmarked env) (hp : p ∈ cut style t) :
    p.text.count '\x7d' ≤ (p.resolve style env.value?).count '\x7d' + marks p.text ∧
      marks (p.resolve style env.value?) ≤ marks p.text := by
  cases p with
  | literal s => exact ⟨Nat.le_add_right _ _, Nat.le_refl _⟩
  | reference s name =>
      obtain ⟨rfl, hname⟩ := of_reference_mem_cut hp
      rw [Piece.resolve, if_pos rfl, Piece.text]
      cases hvalue : env.value? name with
      | none => exact ⟨Nat.le_add_right _ _, Nat.le_refl _⟩
      | some value =>
          have hpos := marks_write_pos s name
          have hcount := count_write_le s hname
          rw [Option.getD_some, marks_of_value? henv hvalue]
          omega

theorem substitute_counts (henv : Unmarked env) (style : Style) (t : Text) :
    t.count '\x7d' ≤ (substitute style.form env t).count '\x7d' + marks t ∧
      marks (substitute style.form env t) ≤ marks t := by
  have hpieces (pieces : List Piece) (h : pieces ⊆ cut style t) :
      (pieces.flatMap Piece.text).count '\x7d' ≤
          (pieces.flatMap (Piece.resolve style env.value?)).count '\x7d' +
            marks (pieces.flatMap Piece.text) ∧
        marks (pieces.flatMap (Piece.resolve style env.value?)) ≤
          marks (pieces.flatMap Piece.text) := by
    induction pieces with
    | nil => simp
    | cons p rest ih =>
        obtain ⟨hp, hrest⟩ := List.cons_subset.mp h
        have hfirst := resolve_counts henv hp
        have hbehind := ih hrest
        simp only [List.flatMap_cons, List.count_append, marks_append]
        omega
  have hcut := hpieces (cut style t) (List.Subset.refl _)
  rwa [flatMap_text_cut, ← substitute_eq_flatMap] at hcut

theorem substituteEach_counts (henv : Unmarked env) (styles : List Style) (t : Text) :
    t.count '\x7d' ≤ (substituteEach env styles t).count '\x7d' + styles.length * marks t := by
  induction styles generalizing t with
  | nil => simp [substituteEach]
  | cons style rest ih =>
      obtain ⟨hcount, hmarks⟩ := substitute_counts henv style t
      have hrest := ih (substitute style.form env t)
      have hbound := Nat.mul_le_mul_left rest.length hmarks
      rw [substituteEach, List.length_cons, Nat.succ_mul]
      omega

/-- A pass puts in the value of each name that it looks up. -/
theorem count_le_count_substitute (hname : name ∈ (cut style t).filterMap Piece.name?)
    (hvalue : env.value? name = some value) :
    value.count '\x7d' ≤ (substitute style.form env t).count '\x7d' := by
  obtain ⟨p, hp, hp'⟩ := List.mem_filterMap.mp hname
  cases p with
  | literal s => cases hp'
  | reference s other =>
      obtain rfl : other = name := Option.some.inj hp'
      obtain ⟨rfl, -⟩ := of_reference_mem_cut hp
      have hresolved : (Piece.reference s other).resolve s env.value? = value := by
        rw [Piece.resolve, if_pos rfl, hvalue, Option.getD_some]
      rw [substitute_eq_flatMap, List.flatMap_def]
      exact (List.sublist_flatten_of_mem (List.mem_map.mpr ⟨_, hp, hresolved⟩)).count_le _

/-- **The closing braces of a value that is looked up are in the result**, but for one for each mark
and pass. -/
theorem count_le_of_mem_lookedUp (henv : Unmarked env') (hvalue : env'.value? name = some value)
    (hagree : ∀ other, other ≠ name → env'.value? other = env.value? other)
    (hname : name ∈ lookedUp env styles t) :
    value.count '\x7d' ≤ (substituteEach env' styles t).count '\x7d' + styles.length * marks t := by
  induction styles generalizing t with
  | nil => cases hname
  | cons style rest ih =>
      have hmarks := (substitute_counts henv style t).2
      have hbound := Nat.mul_le_mul_left rest.length hmarks
      rw [substituteEach, List.length_cons, Nat.succ_mul]
      by_cases hfirst : name ∈ (cut style t).filterMap Piece.name?
      · -- the value is put in here, and the passes behind take in what the marks allow
        have hput := count_le_count_substitute hfirst hvalue
        have hkept := substituteEach_counts henv rest (substitute style.form env' t)
        omega
      · -- this pass does not ask for the name, so it makes the same of the text as before
        have hsame : substitute style.form env' t = substitute style.form env t :=
          substitute_congr fun other hother => hagree other fun heq => hfirst (heq ▸ hother)
        have hrest := ih ((List.mem_append.mp hname).resolve_left hfirst)
        rw [← hsame] at hrest
        omega

/-! ## Separated pieces -/

/-- Environments that differ at most in what the table declares. -/
def AgreesOff (declared : VariableTable) (env env' : Environment) : Prop :=
  ∀ name, declared.get? name = none → env' name = env name

theorem AgreesOff.value? (h : AgreesOff declared env env') (hname : declared.get? name = none) :
    env'.value? name = env.value? name := by
  rw [Environment.value?, Environment.value?, h name hname]

/-- The meaning of a piece depends on declared names in the environment form only. -/
theorem AgreesOff.meaning (h : AgreesOff declared env env')
    (hp : ∀ name, p = .reference .processEnv name → declared.get? name = none) :
    p.meaning declared env' = p.meaning declared env := by
  cases p with
  | literal s => rfl
  | reference style name =>
      cases hname : declared.get? name with
      | none => cases style <;> simp [Piece.meaning, hname, h.value? hname]
      | some value =>
          cases style with
          | braced | bare => simp [Piece.meaning, hname]
          | processEnv => simp [hp name rfl] at hname

theorem expand_cons (h : Tame declared env) (hpieces : Separated (p :: pieces)) :
    expand ((p :: pieces).flatMap Piece.text) declared env =
      p.meaning declared env ++ expand (pieces.flatMap Piece.text) declared env := by
  obtain ⟨hp, hbefore, hrest⟩ := hpieces
  have horderly : ∀ pass ∈ passes declared env, Orderly pass := fun pass hpass =>
    orderly_of_mem_passes h hpass
  have hswallows : ¬ Swallows (passes declared env) p.text (pieces.flatMap Piece.text) := by
    by_cases hbare : ∃ name, p = .reference .bare name
    · obtain ⟨name, rfl⟩ := hbare
      exact not_swallows_of_bounded horderly (bounded_runAll_of_comesBefore horderly hrest hbefore)
    · exact not_swallows_of_ne_bare horderly hp (not_exists.mp hbare) _
  have happend := runAll_append horderly (Built.of_piece hp) hswallows
  rw [← expand_eq_runAll, ← expand_eq_runAll, ← expand_eq_runAll, expand_piece h hp] at happend
  exact happend

theorem AgreesOff.expand_pieces_eq (hagree : AgreesOff declared env env') (h : Tame declared env)
    (h' : Tame declared env') (hpieces : Separated pieces)
    (hprocess : ∀ name, .reference .processEnv name ∈ pieces → declared.get? name = none) :
    expand (pieces.flatMap Piece.text) declared env' =
      expand (pieces.flatMap Piece.text) declared env := by
  induction pieces with
  | nil =>
      have hnil : (Piece.literal []).WellFormed := by simp [Piece.WellFormed, Clean]
      exact (expand_piece h' hnil).trans (expand_piece h hnil).symm
  | cons p rest ih =>
      have hmeaning : p.meaning declared env' = p.meaning declared env :=
        hagree.meaning fun name heq => hprocess name (heq ▸ List.mem_cons_self)
      rw [expand_cons h' hpieces, expand_cons h hpieces, hmeaning,
        ih hpieces.2.2 fun name hname => hprocess name (List.mem_cons_of_mem p hname)]

/-! ## The exact condition -/

/-- A name that is asked for has a value with which the result is another one: more closing braces
than the passes behind can take in, and than there are without this value. -/
theorem exists_expand_ne {command : Text} (henv : Unmarked env)
    (hname : name ∈ asked command declared env) :
    ∃ env', Unmarked env' ∧ (∀ other, other ≠ name → env' other = env other) ∧
      expand command declared env' ≠ expand command declared env := by
  let start := declared.entries.foldl expandDeclared command
  let braces := (expand command declared env).count '\x7d' + 3 * marks start + 1
  let env' : Environment := Function.update env name (some (List.replicate braces '\x7d'))
  have hothers : ∀ other, other ≠ name → env' other = env other := fun other hother =>
    Function.update_of_ne hother _ env
  have hunmarked : Unmarked env' := by
    intro other value hvalue
    by_cases heq : other = name
    · obtain rfl : List.replicate braces '\x7d' = value := by simpa [env', heq] using hvalue
      simp
    · exact henv other value (hothers other heq ▸ hvalue)
  have hvalue : env'.value? name = some (List.replicate braces '\x7d') := by
    simp [Environment.value?, env', braces]
  have hagree : ∀ other, other ≠ name → env'.value? other = env.value? other := by
    intro other hother
    rw [Environment.value?, Environment.value?, hothers other hother]
  refine ⟨env', hunmarked, hothers, fun heq => ?_⟩
  have hcount := count_le_of_mem_lookedUp hunmarked hvalue hagree hname
  rw [← expand_eq_substituteEach, heq, List.count_replicate_self] at hcount
  simp only [environmentStyles, List.length_cons, List.length_nil, braces, start] at hcount
  omega

/-- **Declared variables hide the environment** if and only if it is asked for none of them,
whatever the command and the declarations are.  Separated references to declared names hide it, all
but those in the environment form. -/
theorem environment_hidden_iff (command : Text) (declared : VariableTable) (henv : Unmarked env) :
    ((∀ env', Unmarked env' → AgreesOff declared env env' →
        expand command declared env' = expand command declared env) ↔
      ∀ name ∈ asked command declared env, declared.get? name = none) ∧
    ∀ pieces, command = pieces.flatMap Piece.text → Separated pieces →
      (∀ name, .reference .processEnv name ∈ pieces → declared.get? name = none) →
      ∀ env', Tame declared env → Tame declared env' → AgreesOff declared env env' →
        expand command declared env' = expand command declared env := by
  refine ⟨⟨fun hsame name hname => ?_, fun hnone env' _ hagree => ?_⟩, ?_⟩
  · by_contra hdeclared
    obtain ⟨env', hunmarked, hothers, hne⟩ := exists_expand_ne henv hname
    have hagree : AgreesOff declared env env' := fun other hother =>
      hothers other fun heq => hdeclared (heq ▸ hother)
    exact hne (hsame env' hunmarked hagree)
  · rw [expand_eq_substituteEach, expand_eq_substituteEach]
    exact substituteEach_congr fun name hname => hagree.value? (hnone name hname)
  · rintro pieces rfl hpieces hprocess env' h h' hagree
    exact hagree.expand_pieces_eq h h' hpieces hprocess

theorem unmarked_ofPairs {pairs : List (Text × Text)} (h : ∀ e ∈ pairs, '$' ∉ e.2 ∧ '\x7b' ∉ e.2) :
    Unmarked (.ofPairs pairs) := by
  intro name value hvalue
  rw [Environment.ofPairs, Table.get?_ofList] at hvalue
  obtain ⟨e, he, rfl⟩ := Option.map_eq_some_iff.mp hvalue
  exact h e (List.mem_reverse.mp (List.mem_of_find?_eq_some he))

/-- One command with a declaration that refers to a later one, and with a declaration that refers to
nothing. -/
theorem environment_hidden_iff_of_tools :
    let declared : VariableTable := .ofList [("TOOLS", "${ROOT}/bin"), ("ROOT", "/opt")]
    let plain : VariableTable := .ofList [("TOOLS", "/opt/bin")]
    let env := Environment.ofPairs [("TOOLS", "hidden"), ("ROOT", "hidden"), ("HOME", "/root")]
    let pieces : List Piece :=
      [.reference .bare "TOOLS", .literal ":", .reference .braced "HOME", .literal "/bin"]
    let command := pieces.flatMap Piece.text
    Unmarked env ∧ asked command declared env = ["HOME"] ∧
      (∀ env', Unmarked env' → AgreesOff declared env env' →
        expand command declared env' = "/opt/bin:/root/bin".toList) ∧
      Separated pieces ∧ Tame plain env ∧ Tame plain (Function.update env "TOOLS" none) ∧
      expand command plain (Function.update env "TOOLS" none) = "/opt/bin:/root/bin".toList := by
  intro declared plain env pieces command
  have henv : Unmarked env := unmarked_ofPairs (by decide)
  have hasked : asked command declared env = ["HOME"] := by decide
  have hsame := (environment_hidden_iff command declared henv).1.mpr (by rw [hasked]; decide)
  have hresult : expand command declared env = "/opt/bin:/root/bin".toList := by decide
  have htame : Tame plain env := ⟨by decide, by decide, clean_of_ofPairs (by decide)⟩
  have hagree : AgreesOff plain env (Function.update env "TOOLS" none) := by
    intro name hname
    refine Function.update_of_ne (fun heq => ?_) _ env
    rw [heq] at hname
    cases hname
  have htame' : Tame plain (Function.update env "TOOLS" none) := by
    refine ⟨htame.isIdentifier, htame.clean_declared, fun name value hvalue => ?_⟩
    by_cases heq : name = "TOOLS"
    · simp [heq] at hvalue
    · rw [Function.update_of_ne heq] at hvalue
      exact htame.clean_env name value hvalue
  have hpieces : Separated pieces := by decide
  have hplain :=
    (environment_hidden_iff command plain henv).2 pieces rfl hpieces (by simp [pieces]) _
      htame htame' hagree
  exact ⟨henv, hasked, fun env' h hother => (hsame env' h hother).trans hresult, hpieces, htame,
    htame', hplain.trans (by decide)⟩

/-- **The environment shows through** where a reference to a declared name comes back behind its
passes: in the value of a later declaration, behind a dollar sign, and between the braces of the
environment form. -/
theorem environment_shows_through :
    let declared : VariableTable := .ofList [("A", "x"), ("B", "$A"), ("C", "A"), ("D", "env.A")]
    let env := Environment.ofPairs [("A", "leak")]
    let commands : List Text := ["$B", "$${C}", "\x7bprocess.$D\x7d"]
    (∀ command ∈ commands, Text.contains command "process.env" = false) ∧
      (∀ e ∈ declared.entries, IsIdentifier e.1 ∧ Text.contains e.2 "process.env" = false) ∧
      Unmarked env ∧ Unmarked (.ofPairs []) ∧ AgreesOff declared env (.ofPairs []) ∧
      commands.map (expand · declared env) = ["leak", "leak", "leak"] ∧
      commands.map (expand · declared (.ofPairs [])) = ["$A", "$A", "\x7bprocess.env.A\x7d"] := by
  intro declared env commands
  have hagree : AgreesOff declared env (.ofPairs []) := by
    intro name hname
    by_cases heq : name = "A"
    · rw [heq] at hname
      cases hname
    · have hne : ('A' :: [] : Text) ≠ name := fun h => heq h.symm
      simp [env, Environment.ofPairs, Table.get?_ofList, hne]
  exact ⟨by decide, by decide, unmarked_ofPairs (by decide), unmarked_ofPairs (by simp), hagree,
    by decide, by decide⟩

end Runbook.Reference
