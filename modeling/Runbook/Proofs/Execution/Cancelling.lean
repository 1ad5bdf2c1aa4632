import Mathlib.Data.List.Induction
import Mathlib.Data.List.Infix
import Runbook.Proofs.Execution.Interleaving

/-!
# What a cancelled execution leaves behind

The store knows no owners of records; the last one to write a record wins.  An execution that is
declined at its question about a dangerous command puts back the record from before the question.
Is the store then as if the execution had never taken a step?

A run with the execution `i` is compared to the one in which its steps are left out.

* Up to the question, nobody notices `i` (`agree_of_fresh`).
* While the question is open, the record of its key is out of step (`Paused`).  If nobody else
  writes it, the run without `i` still has the record that `i` remembers (`paused_run`), and the no
  closes the gap (`agree_of_paused`).
* In general, records of other keys are never affected, nor is the course of another execution; and
  there is no trace of `i` if and only if the two runs agree when the no comes
  (`noTrace_iff_agree`).
-/

namespace Runbook

namespace Scene

variable {ι : Type} [DecidableEq ι] {xs : ι → Execution} {i : ι} {w w' : Scene ι} {step : Step ι}
  {keys : BlockKey → Prop} {previous : Option ExecutionRecord}

/-- Two scenes are the same to everybody but `i`. -/
abbrev Agree (xs : ι → Execution) (i : ι) (w w' : Scene ι) : Prop :=
  AgreeOn xs (fun _ => True) i w w'

/-- Whatever happens from now on, the records are those of the other scene, in which `i` takes no
step. -/
def NoTrace (xs : ι → Execution) (i : ι) (w w' : Scene ι) : Prop :=
  ∀ later key, (run xs w later).store.get? key = (run xs w' (without i later)).store.get? key

/-- The step does not write the record of this key, whatever the records are. -/
def Spares (xs : ι → Execution) (key : BlockKey) (w : Scene ι) (step : Step ι) : Prop :=
  ∀ store, (act xs { w with store } step).store.get? key = store.get? key

/-- Nobody but `i` writes the record of this key in these steps. -/
def Quiet (xs : ι → Execution) (key : BlockKey) (i : ι) : Scene ι → List (Step ι) → Prop
  | _, [] => True
  | w, step :: rest =>
    (step.actor? ≠ some i → Spares xs key w step) ∧ Quiet xs key i (act xs w step) rest

/-! ## The steps of one execution -/

theorem course_act (xs : ι → Execution) (w : Scene ι) (hstep : step.actor? = some i) :
    ∃ effect, Course (w.phase i) effect ∧
      (act xs w step).phase i = (effect.apply (xs i).key w.store).1 ∧
      (act xs w step).store = (effect.apply (xs i).key w.store).2 := by
  cases step with
  | write => cases hstep
  | go j now signal =>
      obtain rfl := Option.some.inj hstep
      obtain ⟨effect, hcourse, heffect⟩ := (xs j).course_advance now signal (w.phase j)
      refine ⟨effect, hcourse, ?_, ?_⟩
      · rw [phase_act_self, heffect]
      · rw [store_act_go, heffect]

/-- An execution that is still fresh has done nothing. -/
theorem fresh_of_act (hstep : step.actor? = some i) (h : IsFresh ((act xs w step).phase i)) :
    IsFresh (w.phase i) ∧ (act xs w step).store = w.store := by
  obtain ⟨effect, hcourse, hphase, hstore⟩ := course_act xs w hstep
  rw [hphase] at h
  rw [hstore]
  generalize w.phase i = phase at hcourse
  cases hcourse with
  | stays => exact ⟨h, rfl⟩
  | asks => exact ⟨.inl rfl, rfl⟩
  | declines => exact h.elim nofun nofun
  | warns => exact h.elim nofun nofun
  | withdraws => exact h.elim nofun nofun
  | commits _ committed =>
      rcases h with h | h
      · cases h
      · obtain rfl := Option.some.inj h
        exact committed.elim

/-- A question about a dangerous command was open before, or it is asked now. -/
theorem warned_of_act (h : (act xs w step).phase i = some (.warned previous)) :
    w.phase i = some (.warned previous) ∨
      step.actor? = some i ∧ IsFresh (w.phase i) ∧ w.store.get? (xs i).key = previous := by
  by_cases hstep : step.actor? = some i
  case neg => exact .inl ((phase_act_of_ne hstep).symm.trans h)
  obtain ⟨effect, hcourse, hphase, hstore⟩ := course_act xs w hstep
  rw [hphase] at h
  generalize w.phase i = phase at hcourse
  cases hcourse with
  | stays => exact .inl h
  | asks => cases h
  | declines => cases h
  | warns fresh => exact .inr ⟨hstep, fresh, Phase.warned.inj (Option.some.inj h)⟩
  | withdraws => cases h
  | commits _ committed =>
      obtain rfl := Option.some.inj h
      exact committed.elim

/-- An execution that is cancelled was cancelled before, or it is declined now, at one of its two
questions. -/
theorem cancelled_of_act (h : (act xs w step).phase i = some .cancelled) :
    w.phase i = some .cancelled ∨ step.actor? = some i ∧
      ((w.phase i = some .confirming ∧ (act xs w step).store = w.store) ∨
        ∃ previous, w.phase i = some (.warned previous) ∧
          (act xs w step).store = w.store.restore (xs i).key previous) := by
  by_cases hstep : step.actor? = some i
  case neg => exact .inl ((phase_act_of_ne hstep).symm.trans h)
  obtain ⟨effect, hcourse, hphase, hstore⟩ := course_act xs w hstep
  rw [hphase] at h
  rw [hstore]
  generalize w.phase i = phase at hcourse
  cases hcourse with
  | stays => exact .inl h
  | asks => cases h
  | declines => exact .inr ⟨hstep, .inl ⟨rfl, rfl⟩⟩
  | warns => cases h
  | withdraws previous => exact .inr ⟨hstep, .inr ⟨previous, rfl, rfl⟩⟩
  | commits _ committed =>
      obtain rfl := Option.some.inj h
      exact (committed rfl).elim

/-! ## Up to the question -/

theorem run_concat (w : Scene ι) (steps : List (Step ι)) (step : Step ι) :
    run xs w (steps ++ [step]) = act xs (run xs w steps) step :=
  run_append w steps [step]

theorem without_concat_of_actor (hstep : step.actor? = some i) (steps : List (Step ι)) :
    without i (steps ++ [step]) = without i steps := by
  rw [without_append, without_cons_of_actor hstep]
  exact List.append_nil _

theorem without_concat_of_ne (hstep : step.actor? ≠ some i) (steps : List (Step ι)) :
    without i (steps ++ [step]) = without i steps ++ [step] := by
  rw [without_append, without_cons_of_ne hstep]
  rfl

/-- **Before any question about danger nobody notices an execution.** -/
theorem agree_of_fresh {steps : List (Step ι)} (hfresh : IsFresh ((run xs w steps).phase i)) :
    Agree xs i (run xs w steps) (run xs w (without i steps)) := by
  induction steps using List.reverseRecOn with
  | nil => exact agreeOn_refl ..
  | append_singleton steps step ih =>
      rw [run_concat] at hfresh ⊢
      by_cases hstep : step.actor? = some i
      · obtain ⟨hbefore, hstore⟩ := fresh_of_act hstep hfresh
        rw [without_concat_of_actor hstep]
        exact agreeOn_act_left_of_records (ih hbefore) hstep fun key _ => by rw [hstore]
      · rw [phase_act_of_ne hstep] at hfresh
        rw [without_concat_of_ne hstep, run_concat]
        exact agreeOn_act (ih hfresh) hstep

/-- After the steps `before`, the execution `i` asks about its dangerous command and remembers the
record of the key, and the question stays open in the steps `during`. -/
structure Question (xs : ι → Execution) (w : Scene ι) (i : ι) (previous : Option ExecutionRecord)
    (before : List (Step ι)) (ask : Step ι) (during : List (Step ι)) : Prop where
  actor : ask.actor? = some i
  fresh : IsFresh ((run xs w before).phase i)
  remembers : (run xs w before).store.get? (xs i).key = previous
  stays : ∀ part, part <+: during →
    (run xs w (before ++ ask :: part)).phase i = some (.warned previous)

theorem Question.concat {before during : List (Step ι)} {ask : Step ι}
    (h : Question xs w i previous before ask during)
    (hopen : (run xs w (before ++ ask :: during ++ [step])).phase i = some (.warned previous)) :
    Question xs w i previous before ask (during ++ [step]) := by
  refine ⟨h.actor, h.fresh, h.remembers, fun part hpart => ?_⟩
  rcases List.prefix_concat_iff.mp hpart with rfl | hpart
  · rwa [List.append_assoc] at hopen
  · exact h.stays part hpart

/-- An open question was asked at some point and has been open since. -/
theorem exists_question (hbegin : w.phase i = none) {steps : List (Step ι)}
    (hopen : (run xs w steps).phase i = some (.warned previous)) :
    ∃ before ask during, steps = before ++ ask :: during ∧
      Question xs w i previous before ask during := by
  induction steps using List.reverseRecOn with
  | nil => cases hbegin.symm.trans hopen
  | append_singleton steps step ih =>
      have hlast := hopen
      rw [run_concat] at hlast
      rcases warned_of_act hlast with hbefore | ⟨hstep, hfresh, hprevious⟩
      · obtain ⟨before, ask, during, rfl, hquestion⟩ := ih hbefore
        exact ⟨before, ask, during ++ [step], List.append_assoc .., hquestion.concat hopen⟩
      · refine ⟨steps, step, [], rfl, hstep, hfresh, hprevious, fun part hpart => ?_⟩
        rw [List.prefix_nil.mp hpart]
        exact hopen

/-- A cancelled execution was declined at some point. -/
theorem exists_no (hbegin : w.phase i = none) {steps : List (Step ι)}
    (hend : (run xs w steps).phase i = some .cancelled) :
    ∃ early no after, steps = early ++ no :: after ∧ no.actor? = some i ∧
      (run xs w (early ++ [no])).phase i = some .cancelled ∧
      (((run xs w early).phase i = some .confirming ∧
          (act xs (run xs w early) no).store = (run xs w early).store) ∨
        ∃ previous, (run xs w early).phase i = some (.warned previous) ∧
          (act xs (run xs w early) no).store =
            (run xs w early).store.restore (xs i).key previous) := by
  induction steps using List.reverseRecOn with
  | nil => cases hbegin.symm.trans hend
  | append_singleton steps step ih =>
      have hlast := hend
      rw [run_concat] at hlast
      rcases cancelled_of_act hlast with hbefore | ⟨hstep, hno⟩
      · obtain ⟨early, no, after, rfl, hno⟩ := ih hbefore
        exact ⟨early, no, after ++ [step], List.append_assoc .., hno⟩
      · exact ⟨steps, step, [], rfl, hstep, hend, hno⟩

/-! ## While the question is open -/

/-- The question of `i` is open in the first scene, and the record that it remembers is the one of
the second scene, which has no `i`. -/
structure Paused (xs : ι → Execution) (i : ι) (previous : Option ExecutionRecord) (w w' : Scene ι) :
    Prop where
  phase : w.phase i = some (.warned previous)
  record : w'.store.get? (xs i).key = previous
  elsewhere : AgreeOn xs (· ≠ (xs i).key) i w w'
  phases : ∀ j, j ≠ i → w.phase j = w'.phase j

theorem paused_of_agree (h : Agree xs i w w') (hfresh : IsFresh (w.phase i))
    (hstep : step.actor? = some i) (hopen : (act xs w step).phase i = some (.warned previous)) :
    Paused xs i previous (act xs w step) w' := by
  have hprevious : w.store.get? (xs i).key = previous := by
    rcases warned_of_act hopen with hbefore | ⟨-, -, hprevious⟩
    · rw [hbefore] at hfresh
      exact hfresh.elim nofun nofun
    · exact hprevious
  have helsewhere : AgreeOn xs (· ≠ (xs i).key) i w w' :=
    ⟨fun key _ => h.records key trivial, fun j hj _ => h.phases j hj trivial, h.courses⟩
  refine ⟨hopen, (h.records _ trivial).symm.trans hprevious,
    agreeOn_act_left helsewhere (fun hne => hne rfl) hstep, fun j hj => ?_⟩
  rw [phase_act_of_actor hstep hj]
  exact h.phases j hj trivial

/-- A step of `i` itself that does not close the question changes nothing. -/
theorem paused_act_self (h : Paused xs i previous w w') (hstep : step.actor? = some i)
    (hopen : (act xs w step).phase i = some (.warned previous)) :
    Paused xs i previous (act xs w step) w' := by
  refine ⟨hopen, h.record, agreeOn_act_left h.elsewhere (fun hne => hne rfl) hstep, fun j hj => ?_⟩
  rw [phase_act_of_actor hstep hj]
  exact h.phases j hj

/-- A step of somebody else that does not write the key looks the same in both scenes. -/
theorem paused_act (h : Paused xs i previous w w') (hstep : step.actor? ≠ some i)
    (hspares : Spares xs (xs i).key w step) :
    Paused xs i previous (act xs w step) (act xs w' step) := by
  have helsewhere := agreeOn_act h.elsewhere hstep
  have hphase : (act xs w step).phase i = some (.warned previous) :=
    (phase_act_of_ne hstep).trans h.phase
  cases step with
  | write key record =>
      exact ⟨hphase, (hspares w'.store).trans h.record, helsewhere, h.phases⟩
  | go j now signal =>
      have hj : j ≠ i := fun hji => hstep (congrArg some hji)
      have hspared : ∀ store, ((xs j).advance now signal (w'.phase j) store).2.get? (xs i).key =
          store.get? (xs i).key := by
        intro store
        rw [← h.phases j hj]
        exact hspares store
      refine ⟨hphase, (hspared w'.store).trans h.record, helsewhere, fun l hl => ?_⟩
      by_cases hkey : (xs l).key = (xs i).key
      · by_cases hlj : l = j
        · subst hlj
          rw [← hkey] at hspared
          rw [phase_act_self, phase_act_self, h.phases l hl]
          exact Execution.advance_phase_eq_of_spares hspared _ _
        · rw [phase_act_go_of_ne hlj, phase_act_go_of_ne hlj, h.phases l hl]
      · exact helsewhere.phases l hl hkey

theorem paused_run {during : List (Step ι)} (h : Paused xs i previous w w')
    (hquiet : Quiet xs (xs i).key i w during)
    (hopen : ∀ part, part <+: during → (run xs w part).phase i = some (.warned previous)) :
    Paused xs i previous (run xs w during) (run xs w' (without i during)) := by
  induction during generalizing w w' with
  | nil => exact h
  | cons step rest ih =>
      have hrest : ∀ part, part <+: rest →
          (run xs (act xs w step) part).phase i = some (.warned previous) :=
        fun part hpart => hopen (step :: part) (List.cons_prefix_cons.mpr ⟨rfl, hpart⟩)
      by_cases hstep : step.actor? = some i
      · rw [without_cons_of_actor hstep]
        exact ih (paused_act_self h hstep (hrest [] List.nil_prefix)) hquiet.2 hrest
      · rw [without_cons_of_ne hstep]
        exact ih (paused_act h hstep (hquiet.1 hstep)) hquiet.2 hrest

/-- An open question is a pause, if nobody else has written the record of its key meanwhile. -/
theorem paused_of_question {before during : List (Step ι)} {ask : Step ι}
    (h : Question xs w i previous before ask during)
    (hagree : Agree xs i (run xs w before) (run xs w (without i before)))
    (hquiet : Quiet xs (xs i).key i (run xs w (before ++ [ask])) during) :
    Paused xs i previous (run xs w (before ++ ask :: during))
      (run xs w (without i (before ++ ask :: during))) := by
  have hopen : (act xs (run xs w before) ask).phase i = some (.warned previous) := by
    rw [← run_concat]
    exact h.stays [] List.nil_prefix
  rw [run_concat] at hquiet
  rw [run_append, without_append, without_cons_of_actor h.actor, run_append]
  refine paused_run (paused_of_agree hagree h.fresh h.actor hopen) hquiet fun part hpart => ?_
  have hpart := h.stays part hpart
  rwa [run_append] at hpart

/-- The no closes the gap. -/
theorem agree_of_paused (h : Paused xs i previous w w') (hstep : step.actor? = some i)
    (hstore : (act xs w step).store = w.store.restore (xs i).key previous) :
    Agree xs i (act xs w step) w' := by
  have helsewhere := agreeOn_act_left h.elsewhere (fun hne => hne rfl) hstep
  refine ⟨fun key _ => ?_, fun j hj _ => ?_, helsewhere.courses⟩
  · by_cases hkey : key = (xs i).key
    · rw [hstore, StatusStore.get?_restore, if_pos hkey, hkey, h.record]
    · exact helsewhere.records key hkey
  · rw [phase_act_of_actor hstep hj]
    exact h.phases j hj

/-! ## After the end -/

/-- A no brings to light what a question remembers. -/
theorem get?_run_no (hopen : w.phase i = some (.warned previous)) :
    (run xs w [.go i 0 (.answer false)]).store.get? (xs i).key = previous := by
  have hstore :
      (run xs w [.go i 0 (.answer false)]).store = w.store.restore (xs i).key previous := by
    rw [run, List.foldl_cons, List.foldl_nil, store_act_go, hopen]
    rfl
  rw [hstore, StatusStore.get?_restore, if_pos rfl]

/-- Two scenes that differ in a record differ for good, and so do two scenes in which an open
question remembers different records. -/
theorem noTrace_iff_agree {result : ExecutionResult} (h : AgreeOn xs (· ≠ (xs i).key) i w w')
    (hend : w.phase i = some (.ended result)) : NoTrace xs i w w' ↔ Agree xs i w w' := by
  constructor
  · intro hnone
    refine ⟨fun key _ => hnone [] key, fun j hj _ => ?_, h.courses⟩
    have hcourse := h.courses j hj
    generalize hphase : w.phase j = phase at hcourse
    generalize hphase' : w'.phase j = phase' at hcourse
    cases hcourse with
    | same => rfl
    | warned p p' =>
        have hother : (Step.go j 0 (.answer false)).actor? ≠ some i :=
          fun hji => hj (Option.some.inj hji)
        have hno := hnone [.go j 0 (.answer false)] (xs j).key
        rw [without_cons_of_ne hother] at hno
        exact congrArg (fun record => some (Phase.warned record))
          ((get?_run_no hphase).symm.trans (hno.trans (get?_run_no hphase')))
  · intro hagree later key
    exact (agreeOn_run_of_ended hagree hend later).records key trivial

/-- **What a cancelled execution leaves behind.**  It was declined with some step, and from then on
nothing but the records of its key can differ from the run without it, and what open questions on
this key remember; it leaves no trace if and only if the two runs agree when the no comes.  They do
if it was declined before it wrote anything.  If it was asked about a dangerous command, the record
of the key is the one from before the question, at which time the runs agreed; and they agree again
if nobody else has written this record in between. -/
theorem trace_of_cancelled (xs : ι → Execution) {steps : List (Step ι)} (hbegin : w.phase i = none)
    (hend : (run xs w steps).phase i = some .cancelled) :
    ∃ early no after, steps = early ++ no :: after ∧ no.actor? = some i ∧
      let closed := run xs w (early ++ [no])
      let never := run xs w (without i early)
      closed.phase i = some .cancelled ∧
      (∀ later,
        AgreeOn xs (· ≠ (xs i).key) i (run xs closed later) (run xs never (without i later))) ∧
      (NoTrace xs i closed never ↔ Agree xs i closed never) ∧
      ((run xs w early).phase i = some .confirming ∧ Agree xs i closed never ∨
        ∃ before ask during previous, early = before ++ ask :: during ∧
          Question xs w i previous before ask during ∧
          Agree xs i (run xs w before) (run xs w (without i before)) ∧
          closed.store.get? (xs i).key = previous ∧
          (Quiet xs (xs i).key i (run xs w (before ++ [ask])) during →
            Agree xs i closed never)) := by
  obtain ⟨early, no, after, hsteps, hstep, hclosed, hno⟩ := exists_no hbegin hend
  refine ⟨early, no, after, hsteps, hstep, ?_⟩
  intro closed never
  have helsewhere : AgreeOn xs (· ≠ (xs i).key) i closed never := by
    have h :=
      agreeOn_run (agreeOn_refl xs (· ≠ (xs i).key) i w) (fun hne => hne rfl) (early ++ [no])
    rwa [without_concat_of_actor hstep] at h
  have hact : closed = act xs (run xs w early) no := run_concat w early no
  refine ⟨hclosed, agreeOn_run helsewhere fun hne => hne rfl, noTrace_iff_agree helsewhere hclosed,
    ?_⟩
  rcases hno with ⟨hconfirming, hstore⟩ | ⟨previous, hopen, hstore⟩
  -- declined before it wrote anything: nobody has noticed `i` at all
  · refine .inl ⟨hconfirming, ?_⟩
    rw [hact]
    exact agreeOn_act_left_of_records (agree_of_fresh (.inr hconfirming)) hstep fun _ _ => by
      rw [hstore]
  -- declined at the question about danger: the scenes agreed when it was asked
  · obtain ⟨before, ask, during, rfl, hquestion⟩ := exists_question hbegin hopen
    have hagree : Agree xs i (run xs w before) (run xs w (without i before)) :=
      agree_of_fresh hquestion.fresh
    refine .inr ⟨before, ask, during, previous, rfl, hquestion, hagree, ?_, fun hquiet => ?_⟩
    · rw [hact, hstore, StatusStore.get?_restore, if_pos rfl]
    · have hpaused : Paused xs i previous (run xs w (before ++ ask :: during)) never :=
        paused_of_question hquestion hagree hquiet
      rw [hact]
      exact agree_of_paused hpaused hstep hstore

/-- One block runs to its end while the question of the other one is open. -/
theorem trace_of_cancelled_of_other_key :
    let document : Document := ⟨"book", "### a\nrmdir x\n### b\nls\n"⟩
    let xs : Bool → Execution
      | false => ⟨⟨"rmdir x", ⟨"book", 0⟩, .empty⟩, some document, .default, fun _ => none⟩
      | true => ⟨⟨"ls", ⟨"book", 14⟩, .empty⟩, some document, .default, fun _ => none⟩
    let w : Scene Bool := ⟨.empty, fun _ => none⟩
    let steps : List (Step Bool) :=
      [.go true 0 .begin, .go false 1 .begin, .go true 2 (.reply (.ok ())), .go true 3 .delayOver,
        .go false 4 (.answer false)]
    w.phase false = none ∧ (run xs w steps).phase false = some .cancelled ∧
      ∃ early no after, steps = early ++ no :: after ∧ no.actor? = some false ∧
        (run xs w (early ++ [no])).phase false = some .cancelled ∧
        ∀ later key, key ≠ ⟨"book", 0⟩ →
          (run xs (run xs w (early ++ [no])) later).store.get? key =
            (run xs (run xs w (without false early)) (without false later)).store.get? key := by
  intro document xs w steps
  have hbegin : w.phase false = none := rfl
  have hend : (run xs w steps).phase false = some .cancelled := rfl
  obtain ⟨early, no, after, hsteps, hactor, hclosed, helsewhere, -⟩ :=
    trace_of_cancelled xs hbegin hend
  exact ⟨hbegin, hend, early, no, after, hsteps, hactor, hclosed,
    fun later key hkey => (helsewhere later).records key hkey⟩

/-- A dangerous block that has failed before is executed twice. One execution succeeds while the
question of the other one is open, and the no to the other one puts the old failure in place of the
success. -/
theorem overwritten_of_cancelled :
    let x : Execution :=
      ⟨⟨"rmdir x", ⟨"book", 0⟩, .empty⟩, some ⟨"book", "### a\nrmdir x\n"⟩, .default, fun _ => none⟩
    let w : Scene Bool := ⟨StatusStore.empty.setResult 0 ⟨"book", 0⟩ false, fun _ => none⟩
    let steps : List (Step Bool) :=
      [.go true 1 .begin, .go false 2 .begin, .go false 3 (.answer true),
        .go false 4 (.reply (.ok ())), .go false 5 .delayOver, .go true 6 (.answer false)]
    w.phase true = none ∧ (run (fun _ => x) w steps).phase true = some .cancelled ∧
      (run (fun _ => x) w steps).store.get? ⟨"book", 0⟩ = some ⟨.failure, 0⟩ ∧
      (run (fun _ => x) w (without true steps)).store.get? ⟨"book", 0⟩ = some ⟨.success, 5⟩ := by
  intro x w steps
  exact ⟨rfl, rfl, by decide +kernel, by decide +kernel⟩

end Scene

end Runbook
