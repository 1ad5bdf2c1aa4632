import Runbook.Proofs.Status.Subscribers

/-!
# The order of broadcasts

A write changes the records first and sends its change second, and it does not hold the lock of the
store while it sends.  Tasks that write at the same time take turns between these two steps, so the
changes of one key may be sent in another order than they were made.  The last one that is sent can
then tell of a record that the store has no longer (`last_broadcast_of_overtaken`).

What the records come to depends on the updates alone (`records_takeAll`), and what subscribers hear
depends on the sends alone (`followedBy_takeAll`).  Both are the same changes (`perm_sends`) in two
orders.  The last change that is sent of a key tells of its current record if and only if the last
update of the key has left the same record (`last_broadcast_iff`).  If the mutations of the key come
one by one, they are sent in the order in which they were made, whatever happens to other keys in
between (`lastRecord?_sends_of_oneByOne`).
-/

namespace Runbook.StatusStore

open Subscription

variable {ι : Type} [DecidableEq ι] {s t : StatusStore} {reader : Text} {key : BlockKey}
  {got : List Received} {sent changes : List StatusChange} {tasks : ι → List StatusChange}

/-! ## Taking turns -/

/-- One of the two steps of a mutation. -/
inductive Step where
  /-- The records are changed, while the store is locked. -/
  | update (change : StatusChange)
  /-- The subscribers are told, when the lock has been released. -/
  | send (change : StatusChange)
deriving DecidableEq

namespace Step

/-- The change that the step belongs to. -/
def change : Step → StatusChange
  | .update change | .send change => change

/-- The change that the step makes. -/
def updated? : Step → Option StatusChange
  | .update change => some change
  | .send _ => none

/-- The change that the step tells of. -/
def sent? : Step → Option StatusChange
  | .update _ => none
  | .send change => some change

/-- The store after the step. -/
def take (s : StatusStore) : Step → StatusStore
  | .update change => s.update change.key change.record
  | .send change => s.broadcast change

end Step

/-- The steps of a task that makes changes one after another. -/
def mutations (changes : List StatusChange) : List Step :=
  changes.flatMap fun change => [.update change, .send change]

/-- The tasks make these changes. Each of them takes its own steps in order, and apart from that
they take turns in any way. -/
def Interleaves (tasks : ι → List StatusChange) (schedule : List (ι × Step)) : Prop :=
  ∀ i, (schedule.filter (·.1 = i)).map Prod.snd = mutations (tasks i)

/-- The store after some steps. -/
def takeAll (s : StatusStore) (steps : List Step) : StatusStore := steps.foldl Step.take s

/-- The changes in the order in which they were made. -/
def updates (steps : List Step) : List StatusChange := steps.filterMap Step.updated?

/-- The changes in the order in which they were sent. -/
def sends (steps : List Step) : List StatusChange := steps.filterMap Step.sent?

/-- The mutations of the key do not overlap: each of them is sent before the next one is made. -/
def OneByOne (key : BlockKey) (steps : List Step) : Prop :=
  ∃ changes, steps.filter (·.change.key = key) = mutations changes

@[simp] theorem updates_mutations (changes : List StatusChange) :
    updates (mutations changes) = changes := by
  induction changes with
  | nil => rfl
  | cons change rest ih => exact congrArg (change :: ·) ih

@[simp] theorem sends_mutations (changes : List StatusChange) :
    sends (mutations changes) = changes := by
  induction changes with
  | nil => rfl
  | cons change rest ih => exact congrArg (change :: ·) ih

/-! ## What each order decides -/

theorem followedBy_update (h : s.FollowedBy reader got sent) (change : StatusChange) :
    (s.update change.key change.record).FollowedBy reader got sent :=
  followedBy_congr (by cases hrecord : change.record <;> simp [update]) h

theorem followedBy_broadcast (h : s.FollowedBy reader got sent) (change : StatusChange) :
    (s.broadcast change).FollowedBy reader got (sent ++ [change]) := by
  obtain ⟨sub, hsub, hfollows⟩ := h
  exact ⟨sub.push change, by simp [broadcast, hsub], hfollows.push change⟩

/-- Subscribers hear the changes in the order in which they are sent. -/
theorem followedBy_takeAll (h : s.FollowedBy reader got sent) (steps : List Step) :
    (s.takeAll steps).FollowedBy reader got (sent ++ sends steps) := by
  induction steps generalizing s sent with
  | nil => simpa [sends, takeAll] using h
  | cons step rest ih =>
      cases step with
      | update change => exact ih (followedBy_update h change)
      | send change =>
          have hrest := ih (followedBy_broadcast h change)
          rwa [List.append_assoc, List.singleton_append] at hrest

/-- The records are the changes replayed in the order in which they were made. -/
theorem records_takeAll (h : t.records = s.records) (steps : List Step) :
    (t.takeAll steps).records = (s.replay (updates steps)).records := by
  induction steps generalizing s t with
  | nil => exact h
  | cons step rest ih =>
      cases step with
      | update change => exact ih (records_update h change.key change.record)
      | send change => exact ih (t := t.broadcast change) h

theorem lastRecord?_eq_none_iff :
    lastRecord? key changes = none ↔ ∀ change ∈ changes, change.key ≠ key := by
  simp [lastRecord?]

/-- Without a change of the key, its record stays. -/
theorem get?_replay_of_forall_ne (h : ∀ change ∈ changes, change.key ≠ key) (s : StatusStore) :
    (s.replay changes).get? key = s.get? key := by
  induction changes generalizing s with
  | nil => rfl
  | cons change rest ih =>
      obtain ⟨hfirst, hrest⟩ := List.forall_mem_cons.mp h
      have hupdate : (s.update change.key change.record).get? key = s.get? key := by
        rw [← get?_broadcast _ ⟨change.key, change.record⟩, ← write, get?_write, if_neg hfirst.symm]
      exact (ih hrest _).trans hupdate

/-- The last update of a key decides what its record is. -/
theorem get?_takeAll (s : StatusStore) (key : BlockKey) (steps : List Step) :
    (s.takeAll steps).get? key = (lastRecord? key (updates steps)).getD (s.get? key) := by
  have hreplay : (s.takeAll steps).get? key = (s.replay (updates steps)).get? key := by
    rw [get?, get?, records_takeAll rfl]
  rw [hreplay]
  cases hlast : lastRecord? key (updates steps) with
  | some record => exact get?_replay hlast
  | none => exact get?_replay_of_forall_ne (lastRecord?_eq_none_iff.mp hlast) s

/-! ## Both orders have the same changes -/

/-- The changes that some steps contribute, each with the task of its step. -/
def tagged (f : Step → Option StatusChange) (schedule : List (ι × Step)) :
    List (ι × StatusChange) :=
  schedule.filterMap fun turn => (f turn.2).map (turn.1, ·)

omit [DecidableEq ι] in
theorem map_snd_tagged (f : Step → Option StatusChange) (schedule : List (ι × Step)) :
    (tagged f schedule).map Prod.snd = (schedule.map Prod.snd).filterMap f := by
  simp [tagged, List.map_filterMap, List.filterMap_map, Function.comp_def]

/-- What a task contributes can be read off its own steps. -/
theorem filter_tagged (f : Step → Option StatusChange) (schedule : List (ι × Step)) (i : ι) :
    (tagged f schedule).filter (·.1 = i) =
      (((schedule.filter (·.1 = i)).map Prod.snd).filterMap f).map (i, ·) := by
  unfold tagged
  induction schedule with
  | nil => rfl
  | cons turn rest ih =>
      obtain ⟨j, step⟩ := turn
      by_cases hj : j = i
      · subst hj
        cases hf : f step <;> simp [hf, ih]
      · cases hf : f step <;> simp [hf, hj, ih]

/-- Every mutation is told of once. -/
theorem perm_sends {schedule : List (ι × Step)} (h : Interleaves tasks schedule) :
    (sends (schedule.map Prod.snd)).Perm (updates (schedule.map Prod.snd)) := by
  -- each task tells of what it has made, and so the two lists are the same for each task
  have htask : ∀ i, (tagged Step.sent? schedule).filter (·.1 = i) =
      (tagged Step.updated? schedule).filter (·.1 = i) := by
    intro i
    have hown : sends (mutations (tasks i)) = updates (mutations (tasks i)) := by simp
    rw [filter_tagged, filter_tagged, h i]
    exact congrArg (List.map (i, ·)) hown
  have hall : (tagged Step.sent? schedule).Perm (tagged Step.updated? schedule) := by
    rw [List.perm_iff_count]
    intro turn
    have hcount := congrArg (List.count turn) (htask turn.1)
    rwa [List.count_filter (by simp), List.count_filter (by simp)] at hcount
  have hchanges := hall.map Prod.snd
  rwa [map_snd_tagged, map_snd_tagged] at hchanges

/-! ## Mutations one by one -/

theorem lastRecord?_filter (key : BlockKey) (changes : List StatusChange) :
    lastRecord? key (changes.filter (·.key = key)) = lastRecord? key changes := by
  rw [lastRecord?, lastRecord?, ← List.filter_reverse, List.find?_filter]
  simp

omit [DecidableEq ι] in
/-- The changes of a key are those of the steps on it. -/
theorem filter_filterMap_steps {f : Step → Option StatusChange}
    (hf : ∀ step change, f step = some change → change = step.change) (key : BlockKey)
    (steps : List Step) :
    (steps.filterMap f).filter (·.key = key) = (steps.filter (·.change.key = key)).filterMap f := by
  rw [List.filter_filterMap, List.filterMap_filter]
  refine List.filterMap_congr fun step _ => ?_
  cases hstep : f step with
  | none => simp
  | some change =>
      obtain rfl := hf step change hstep
      simp [Option.filter]

theorem lastRecord?_sends_of_oneByOne {steps : List Step} (h : OneByOne key steps) :
    lastRecord? key (sends steps) = lastRecord? key (updates steps) := by
  obtain ⟨changes, hsteps⟩ := h
  have hsends : (sends steps).filter (·.key = key) = changes := by
    rw [sends, filter_filterMap_steps (by rintro (_ | _) change ⟨⟩; rfl), hsteps]
    exact sends_mutations changes
  have hupdates : (updates steps).filter (·.key = key) = changes := by
    rw [updates, filter_filterMap_steps (by rintro (_ | _) change ⟨⟩; rfl), hsteps]
    exact updates_mutations changes
  rw [← lastRecord?_filter, hsends, ← hupdates, lastRecord?_filter]

theorem filter_mutations (key : BlockKey) (changes : List StatusChange) :
    (mutations changes).filter (·.change.key = key) = mutations (changes.filter (·.key = key)) := by
  induction changes with
  | nil => rfl
  | cons change rest ih =>
      by_cases hkey : change.key = key <;> simp [mutations, Step.change, hkey] <;> exact ih

/-- A task that no other one meets on a key makes its mutations of the key one by one. -/
theorem oneByOne_of_alone {schedule : List (ι × Step)} (h : Interleaves tasks schedule) (i : ι)
    (halone : ∀ j ≠ i, ∀ change ∈ tasks j, change.key ≠ key) :
    OneByOne key (schedule.map Prod.snd) := by
  refine ⟨(tasks i).filter (·.key = key), ?_⟩
  have hown : ∀ turn ∈ schedule, turn.2.change.key = key → turn.1 = i := by
    intro turn hturn hkey
    by_contra hother
    have hmem : turn.2 ∈ mutations (tasks turn.1) := by
      rw [← h turn.1]
      exact List.mem_map_of_mem (List.mem_filter.mpr ⟨hturn, by simp⟩)
    obtain ⟨change, hchange, hstep⟩ := List.mem_flatMap.mp hmem
    refine halone turn.1 hother change hchange ?_
    rw [← hkey]
    rcases List.mem_pair.mp hstep with hstep | hstep <;> rw [hstep] <;> rfl
  rw [← filter_mutations, ← h i, List.filter_map, List.filter_map, List.filter_filter]
  refine congrArg (List.map Prod.snd) (List.filter_congr fun turn hturn => ?_)
  by_cases hkey : turn.2.change.key = key
  · simp [hkey, hown turn hturn hkey]
  · simp [hkey]

/-! ## The last broadcast -/

/-- **The last broadcast of a key** carries the record of the mutation that has sent last, and the
store holds the record of the mutation that has updated last.  So it is current if and only if these
two have left the same record, for instance if the mutations of the key did not overlap, as when
only one task has made them.  Each mutation is told of once, and a subscriber hears them in the
order of their sends. -/
theorem last_broadcast_iff (s : StatusStore) {schedule : List (ι × Step)}
    (h : Interleaves tasks schedule) :
    let steps := schedule.map Prod.snd
    let now := s.takeAll steps
    (∀ reader, ((s.subscribe reader).takeAll steps).FollowedBy reader [] (sends steps)) ∧
      (sends steps).Perm (updates steps) ∧
      (∀ i, sends ((schedule.filter (·.1 = i)).map Prod.snd) = tasks i) ∧
      ∀ key,
        ((∃ i, ∃ change ∈ tasks i, change.key = key) →
          ∃ record, lastRecord? key (sends steps) = some record) ∧
        (lastRecord? key (sends steps) = none → now.get? key = s.get? key) ∧
        (∀ record, lastRecord? key (sends steps) = some record →
          (now.get? key = record ↔ lastRecord? key (updates steps) = some record)) ∧
        (OneByOne key steps → ∀ record, lastRecord? key (sends steps) = some record →
          now.get? key = record) ∧
        ∀ i, (∀ j ≠ i, ∀ change ∈ tasks j, change.key ≠ key) → OneByOne key steps := by
  intro steps now
  have hperm : (sends steps).Perm (updates steps) := perm_sends h
  have hown : ∀ i, sends ((schedule.filter (·.1 = i)).map Prod.snd) = tasks i := by
    intro i
    rw [h i, sends_mutations]
  -- a key that was told of was changed, and so its last update decides
  have hcurrent : ∀ key record, lastRecord? key (sends steps) = some record →
      lastRecord? key (updates steps) = some (now.get? key) := by
    intro key record htold
    obtain ⟨change, hchange, -⟩ := Option.map_eq_some_iff.mp htold
    have hkey : change.key = key := by simpa using List.find?_some hchange
    have hmem : change ∈ updates steps :=
      hperm.mem_iff.mp (List.mem_reverse.mp (List.mem_of_find?_eq_some hchange))
    obtain ⟨latest, hlatest⟩ := exists_lastRecord? hmem
    rw [hkey] at hlatest
    rw [get?_takeAll, hlatest, Option.getD_some]
  refine ⟨fun reader => ?_, hperm, hown,
    fun key => ⟨?_, fun hnone => ?_, fun record htold => ?_, fun hone record htold => ?_,
      oneByOne_of_alone h⟩⟩
  · simpa using followedBy_takeAll (followedBy_subscribe s reader) steps
  · rintro ⟨i, change, hchange, rfl⟩
    have hsublist : (tasks i).Sublist (sends steps) := by
      rw [← hown i]
      exact (List.filter_sublist.map Prod.snd).filterMap Step.sent?
    exact exists_lastRecord? (hsublist.subset hchange)
  · rw [lastRecord?_eq_none_iff] at hnone
    have hnone' : lastRecord? key (updates steps) = none :=
      lastRecord?_eq_none_iff.mpr fun change hmem => hnone change (hperm.mem_iff.mpr hmem)
    rw [get?_takeAll, hnone', Option.getD_none]
  · rw [hcurrent key record htold, Option.some.injEq]
  · have hupdated := hcurrent key record htold
    rw [← lastRecord?_sends_of_oneByOne hone, htold] at hupdated
    exact (Option.some.inj hupdated).symm

/-- Two tasks meet between the two steps of their mutations, but each key is left to one of them. -/
theorem last_broadcast_iff_of_own_keys :
    let a : BlockKey := ⟨"book", 0⟩
    let b : BlockKey := ⟨"book", 9⟩
    let pending : BlockKey → StatusChange := fun key => ⟨key, some ⟨.pending, 1⟩⟩
    let success : StatusChange := ⟨a, some ⟨.success, 2⟩⟩
    let tasks : Bool → List StatusChange := fun second =>
      if second then [pending b, ⟨b, none⟩] else [pending a, success]
    let schedule : List (Bool × Step) :=
      [(false, .update (pending a)), (true, .update (pending b)), (true, .send (pending b)),
        (true, .update ⟨b, none⟩), (false, .send (pending a)), (false, .update success),
        (false, .send success), (true, .send ⟨b, none⟩)]
    let steps := schedule.map Prod.snd
    let now := (setPending empty 0 b).takeAll steps
    Interleaves tasks schedule ∧ sends steps ≠ updates steps ∧
      lastRecord? a (sends steps) = some (now.get? a) ∧ now.get? a = some ⟨.success, 2⟩ ∧
      lastRecord? b (sends steps) = some (now.get? b) ∧ now.get? b = none := by
  intro a b pending success tasks schedule steps now
  have hinterleaves : Interleaves tasks schedule := by
    rintro (_ | _) <;> rfl
  obtain ⟨-, -, -, hkeys⟩ := last_broadcast_iff (setPending empty 0 b) hinterleaves
  have hother : ∀ j ≠ false, ∀ change ∈ tasks j, change.key ≠ a := by decide
  have hother' : ∀ j ≠ true, ∀ change ∈ tasks j, change.key ≠ b := by decide
  have ha : now.get? a = some ⟨.success, 2⟩ :=
    (hkeys a).2.2.2.1 ((hkeys a).2.2.2.2 false hother) _ (by decide)
  have hb : now.get? b = none := (hkeys b).2.2.2.1 ((hkeys b).2.2.2.2 true hother') _ (by decide)
  exact ⟨hinterleaves, by decide, ha ▸ by decide, ha, hb ▸ by decide, hb⟩

/-- **The last broadcast is not always current.**  An execution succeeds while another one has made
the block pending and not sent this yet.  The reader is told last that the block is pending. -/
theorem last_broadcast_of_overtaken :
    let key : BlockKey := ⟨"book", 0⟩
    let pending : StatusChange := ⟨key, some ⟨.pending, 1⟩⟩
    let success : StatusChange := ⟨key, some ⟨.success, 2⟩⟩
    let tasks : Bool → List StatusChange := fun second => if second then [success] else [pending]
    let schedule : List (Bool × Step) :=
      [(false, .update pending), (true, .update success), (true, .send success),
        (false, .send pending)]
    let steps := schedule.map Prod.snd
    let now := (empty.subscribe "r").takeAll steps
    Interleaves tasks schedule ∧
      (now.subscriptions.get? "r").map receive = some [.change success, .change pending] ∧
      lastRecord? key (sends steps) = some pending.record ∧
      now.get? key = success.record ∧ pending.record ≠ success.record := by
  intro key pending success tasks schedule steps now
  have hinterleaves : Interleaves tasks schedule := by
    rintro (_ | _) <;> rfl
  exact ⟨hinterleaves, by decide, by decide, by decide, by decide⟩

end Runbook.StatusStore
