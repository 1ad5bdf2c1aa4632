import Mathlib.Data.List.Basic
import Mathlib.Data.List.Induction
import Runbook.Status

/-!
# What subscribers hear

A subscription loses changes when its reader is slow, but it says how many.  If each `lagged n`
stands for the `n` changes at its place, then what a reader has got and what still waits are
together the changes of the store since the subscription began, one by one and in order (`Covers`).

The invariant is `Follows`: the changes that were sent fall into those that the reader knows of and
those that are unread; of the unread ones the last 64 wait and the others are counted as lost.
Sending a change keeps it (`Follows.push`), and so does reading one thing (`Follows.receiveNext?`)
or everything (`Follows.receive`); a whole history keeps it by induction (`follows_performAll`).

The records of the store are the sent changes replayed (`records_performAll`).  A reader who never
lagged has them all.  After a lag the changes behind it are a back of all changes, and the latest
change of a key is the same in both.
-/

namespace Runbook

namespace Subscription

variable {sub next : Subscription} {got more : List Received} {sent unread : List StatusChange}
  {change : StatusChange}

/-! ## Reading one thing at a time -/

/-- What a reader gets next: the number of lost changes, if there are any, and else the oldest
change that waits. -/
def receiveNext? (sub : Subscription) : Option (Received × Subscription) :=
  if sub.lost = 0 then
    match sub.waiting with
    | [] => none
    | change :: rest => some (.change change, { sub with waiting := rest })
  else some (.lagged sub.lost, { sub with lost := 0 })

/-! ## Histories with gaps -/

/-- What was got tells of these changes, one by one and in order. A lag stands for as many changes
as it says. -/
inductive Covers : List Received → List StatusChange → Prop where
  | nil : Covers [] []
  | change (change : StatusChange) {got : List Received} {sent : List StatusChange}
      (rest : Covers got sent) : Covers (.change change :: got) (change :: sent)
  | lagged {missed : List StatusChange} (nonempty : missed ≠ []) {got : List Received}
      {sent : List StatusChange} (rest : Covers got sent) :
      Covers (.lagged missed.length :: got) (missed ++ sent)

/-- The changes among what was got. -/
def heard (got : List Received) : List StatusChange :=
  got.filterMap fun
    | .change change => some change
    | .lagged _ => none

theorem Covers.append (h : Covers got sent) (hmore : Covers more unread) :
    Covers (got ++ more) (sent ++ unread) := by
  induction h with
  | nil => exact hmore
  | change c _ ih => exact .change c ih
  | lagged hsome _ ih =>
      rw [List.cons_append, List.append_assoc]
      exact .lagged hsome ih

theorem covers_map_change (changes : List StatusChange) : Covers (changes.map .change) changes := by
  induction changes with
  | nil => exact .nil
  | cons change rest ih => exact .change change ih

theorem Covers.eq_of_map_change {changes : List StatusChange}
    (h : Covers (changes.map .change) sent) : sent = changes := by
  induction changes generalizing sent with
  | nil =>
      cases h
      rfl
  | cons change rest ih =>
      cases h with
      | change _ h => rw [ih h]

/-- Who has never lagged has heard everything. -/
theorem Covers.heard_eq (h : Covers got sent) (hnever : ∀ count, .lagged count ∉ got) :
    heard got = sent := by
  induction h with
  | nil => rfl
  | change c _ ih =>
      exact congrArg (c :: ·) (ih fun count hmem => hnever count (List.mem_cons_of_mem _ hmem))
  | lagged => exact absurd List.mem_cons_self (hnever _)

/-- What was heard without a lag at the end is a back of all changes. -/
theorem Covers.suffix_of_append_map {late : List StatusChange} {early : List Received}
    (h : Covers (early ++ late.map .change) sent) : late <:+ sent := by
  induction early generalizing sent with
  | nil => exact h.eq_of_map_change ▸ List.suffix_refl late
  | cons received early ih =>
      cases h with
      | change _ rest => exact (ih rest).trans (List.suffix_cons _ _)
      | lagged _ rest => exact (ih rest).trans (List.suffix_append _ _)

/-! ## Following a store -/

/-- The reader has got these things while these changes were sent. Of the changes that it does not
know of yet, the last ones wait, and the others are lost. -/
def Follows (sub : Subscription) (got : List Received) (sent : List StatusChange) : Prop :=
  ∃ read unread, sent = read ++ unread ∧ Covers got read ∧
    sub.waiting = unread.drop (unread.length - capacity) ∧ sub.lost = unread.length - capacity

theorem covers_lagged (h : unread.length - capacity ≠ 0) :
    Covers [.lagged (unread.length - capacity)] (unread.take (unread.length - capacity)) := by
  have hlength : (unread.take (unread.length - capacity)).length = unread.length - capacity :=
    List.length_take_of_le (Nat.sub_le _ _)
  have hmissed : unread.take (unread.length - capacity) ≠ [] := by
    rw [← List.length_pos_iff, hlength]
    exact Nat.pos_of_ne_zero h
  have hcovers := Covers.lagged hmissed .nil
  rwa [hlength, List.append_nil] at hcovers

/-- What waits tells of the changes that are unread. -/
theorem covers_receive (hwaiting : sub.waiting = unread.drop (unread.length - capacity))
    (hlost : sub.lost = unread.length - capacity) : Covers sub.receive unread := by
  rw [receive, hwaiting, hlost]
  split
  · next hnone =>
      rw [hnone, List.drop_zero]
      exact covers_map_change unread
  · next hsome =>
      have hcovers := (covers_lagged hsome).append
        (covers_map_change (unread.drop (unread.length - capacity)))
      rwa [List.take_append_drop] at hcovers

theorem follows_fresh : Follows fresh [] [] := ⟨[], [], rfl, .nil, rfl, rfl⟩

theorem Follows.push (h : Follows sub got sent) (change : StatusChange) :
    Follows (sub.push change) got (sent ++ [change]) := by
  obtain ⟨read, unread, rfl, hgot, hwaiting, hlost⟩ := h
  have hlength : sub.waiting.length = min unread.length capacity := by
    rw [hwaiting, List.length_drop]
    omega
  refine ⟨read, unread ++ [change], List.append_assoc .., hgot, ?_⟩
  rw [Subscription.push, List.length_append, List.length_singleton]
  split
  · next hroom =>
      -- there is room as long as not more changes are unread than fit
      have hfits : unread.length < capacity := by omega
      have hnone : unread.length + 1 - capacity = 0 := by omega
      rw [hnone, List.drop_zero, hlost, hwaiting, Nat.sub_eq_zero_of_le (Nat.le_of_lt hfits),
        List.drop_zero]
      exact ⟨rfl, rfl⟩
  · next hfull =>
      have hmore : unread.length + 1 - capacity = unread.length - capacity + 1 := by omega
      have hcut : unread.length - capacity + 1 ≤ unread.length := by
        have : 0 < capacity := Nat.zero_lt_succ _
        omega
      refine ⟨?_, by rw [hlost, hmore]⟩
      rw [hmore, List.drop_append_of_le_length hcut, hwaiting, List.tail_drop]

theorem Follows.receive (h : Follows sub got sent) : Follows fresh (got ++ sub.receive) sent := by
  obtain ⟨read, unread, rfl, hgot, hwaiting, hlost⟩ := h
  exact ⟨read ++ unread, [], (List.append_nil _).symm,
    hgot.append (covers_receive hwaiting hlost), rfl, rfl⟩

theorem Follows.receiveNext? {received : Received} (h : Follows sub got sent)
    (hnext : sub.receiveNext? = some (received, next)) : Follows next (got ++ [received]) sent := by
  obtain ⟨read, unread, rfl, hgot, hwaiting, hlost⟩ := h
  unfold Subscription.receiveNext? at hnext
  split at hnext
  · next hnone =>
      rw [hnone] at hlost
      rw [← hlost, List.drop_zero] at hwaiting
      rw [hwaiting] at hnext
      cases unread with
      | nil => cases hnext
      | cons change rest =>
          -- nothing is lost, and so the oldest change that waits is the oldest one that is unread
          obtain ⟨rfl, rfl⟩ := Prod.mk.inj (Option.some.inj hnext)
          have hrest : rest.length - capacity = 0 := by
            rw [List.length_cons] at hlost
            omega
          refine ⟨read ++ [change], rest, by simp, hgot.append (.change change .nil), ?_, ?_⟩
          · rw [hrest, List.drop_zero]
          · rw [hrest, hnone]
  · next hsome =>
      obtain ⟨rfl, rfl⟩ := Prod.mk.inj (Option.some.inj hnext)
      -- the reader knows now that the oldest unread changes are lost,
      -- and no more are unread than fit
      have hfit : (unread.drop (unread.length - capacity)).length - capacity = 0 := by
        rw [List.length_drop]
        omega
      rw [hlost] at hsome ⊢
      refine ⟨read ++ unread.take (unread.length - capacity),
        unread.drop (unread.length - capacity),
        ?_, hgot.append (covers_lagged hsome), ?_, hfit.symm⟩
      · rw [List.append_assoc, List.take_append_drop]
      · rw [hfit, List.drop_zero, hwaiting]

end Subscription

namespace StatusStore

open Subscription

variable {s t : StatusStore} {reader : Text} {got : List Received} {sent : List StatusChange}

/-! ## Histories of a store -/

/-- Takes the next thing that waits for a reader, if there is one. -/
def receiveNext? (s : StatusStore) (reader : Text) : Option (Received × StatusStore) :=
  ((s.subscriptions.get? reader).bind Subscription.receiveNext?).map fun (received, next) =>
    (received, { s with subscriptions := s.subscriptions.insert reader next })

/-- What can happen to a store, one thing after another. -/
inductive Event where
  | setPending (now : Instant) (key : BlockKey)
  | setResult (now : Instant) (key : BlockKey) (success : Bool)
  | clear (key : BlockKey)
  | restore (key : BlockKey) (record : Option ExecutionRecord)
  | subscribe (reader : Text)
  /-- A reader takes the next thing that waits. -/
  | receiveNext (reader : Text)
  /-- A reader takes everything that waits. -/
  | receive (reader : Text)
deriving DecidableEq

/-- The change that an event sends. -/
def Event.change? : Event → Option StatusChange
  | .setPending now key => some ⟨key, some ⟨.pending, now⟩⟩
  | .setResult now key success => some ⟨key, some ⟨if success then .success else .failure, now⟩⟩
  | .clear key => some ⟨key, none⟩
  | .restore key record => some ⟨key, record⟩
  | .subscribe _ | .receiveNext _ | .receive _ => none

/-- The store after an event. -/
def perform (s : StatusStore) : Event → StatusStore
  | .setPending now key => s.setPending now key
  | .setResult now key success => s.setResult now key success
  | .clear key => s.clear key
  | .restore key record => s.restore key record
  | .subscribe reader => s.subscribe reader
  | .receiveNext reader => ((s.receiveNext? reader).map Prod.snd).getD s
  | .receive reader => ((s.receive? reader).map Prod.snd).getD s

/-- What a reader gets in an event. -/
def gotAt (s : StatusStore) (reader : Text) : Event → List Received
  | .receiveNext other =>
    if other = reader then ((s.receiveNext? reader).map Prod.fst).toList else []
  | .receive other => if other = reader then ((s.receive? reader).map Prod.fst).getD [] else []
  | .setPending .. | .setResult .. | .clear _ | .restore .. | .subscribe _ => []

/-- The store after some events. -/
def performAll (s : StatusStore) (events : List Event) : StatusStore := events.foldl perform s

/-- What a reader gets in some events. -/
def gotIn (reader : Text) : StatusStore → List Event → List Received
  | _, [] => []
  | s, event :: rest => s.gotAt reader event ++ gotIn reader (s.perform event) rest

/-- The changes that some events send, in order. -/
def changes (events : List Event) : List StatusChange := events.filterMap Event.change?

/-! ## Subscriptions -/

/-- The reader has a subscription and follows the store with it. -/
def FollowedBy (s : StatusStore) (reader : Text) (got : List Received)
    (sent : List StatusChange) : Prop :=
  ∃ sub, s.subscriptions.get? reader = some sub ∧ sub.Follows got sent

theorem followedBy_subscribe (s : StatusStore) (reader : Text) :
    (s.subscribe reader).FollowedBy reader [] [] :=
  ⟨.fresh, by simp [subscribe], follows_fresh⟩

theorem followedBy_congr (h : t.subscriptions.get? reader = s.subscriptions.get? reader)
    (hs : s.FollowedBy reader got sent) : t.FollowedBy reader got sent := by
  obtain ⟨sub, hsub, hfollows⟩ := hs
  exact ⟨sub, h.trans hsub, hfollows⟩

theorem followedBy_write (h : s.FollowedBy reader got sent) (key : BlockKey)
    (record : Option ExecutionRecord) :
    (s.write key record).FollowedBy reader got (sent ++ [⟨key, record⟩]) := by
  obtain ⟨sub, hsub, hfollows⟩ := h
  refine ⟨sub.push ⟨key, record⟩, ?_, hfollows.push _⟩
  cases record <;> simp [write, update, broadcast, hsub]

/-- What another reader does to its own subscription does not matter. -/
theorem followedBy_insert {other : Text} (h : s.FollowedBy reader got sent)
    (hother : other ≠ reader)
    (next : Subscription) :
    FollowedBy { s with subscriptions := s.subscriptions.insert other next } reader got sent := by
  refine followedBy_congr ?_ h
  rw [Table.get?_insert, if_neg hother.symm]

theorem followedBy_receiveNext (h : s.FollowedBy reader got sent) (other : Text) :
    (s.perform (.receiveNext other)).FollowedBy reader (got ++ s.gotAt reader (.receiveNext other))
      sent := by
  by_cases hother : other = reader
  · subst hother
    obtain ⟨sub, hsub, hfollows⟩ := h
    rw [perform, gotAt, if_pos rfl, receiveNext?, hsub, Option.bind_some]
    cases hnext : sub.receiveNext? with
    | none =>
        rw [Option.map_none, Option.map_none, Option.map_none, Option.toList_none, List.append_nil]
        exact ⟨sub, hsub, hfollows⟩
    | some taken =>
        obtain ⟨received, next⟩ := taken
        exact ⟨next, by simp, hfollows.receiveNext? hnext⟩
  · rw [perform, gotAt, if_neg hother, List.append_nil, receiveNext?]
    cases (s.subscriptions.get? other).bind Subscription.receiveNext? with
    | none => exact h
    | some taken => exact followedBy_insert h hother taken.2

theorem followedBy_receive (h : s.FollowedBy reader got sent) (other : Text) :
    (s.perform (.receive other)).FollowedBy reader
      (got ++ s.gotAt reader (.receive other)) sent := by
  by_cases hother : other = reader
  · subst hother
    obtain ⟨sub, hsub, hfollows⟩ := h
    rw [perform, gotAt, if_pos rfl, receive?, hsub]
    exact ⟨.fresh, by simp, hfollows.receive⟩
  · rw [perform, gotAt, if_neg hother, List.append_nil, receive?]
    cases s.subscriptions.get? other with
    | none => exact h
    | some sub => exact followedBy_insert h hother .fresh

/-- One event keeps a reader on the track of the store, unless the reader subscribes anew. -/
theorem followedBy_perform {event : Event} (h : s.FollowedBy reader got sent)
    (hevent : event ≠ .subscribe reader) :
    (s.perform event).FollowedBy reader (got ++ s.gotAt reader event)
      (sent ++ event.change?.toList) := by
  cases event with
  | setPending | setResult | clear | restore =>
      rw [gotAt, List.append_nil]
      exact followedBy_write h _ _
  | subscribe other =>
      rw [gotAt, List.append_nil, Event.change?, Option.toList_none, List.append_nil]
      exact followedBy_insert h (fun heq => hevent (heq ▸ rfl)) .fresh
  | receiveNext other =>
      rw [Event.change?, Option.toList_none, List.append_nil]
      exact followedBy_receiveNext h other
  | receive other =>
      rw [Event.change?, Option.toList_none, List.append_nil]
      exact followedBy_receive h other

theorem followedBy_performAll {events : List Event} (h : s.FollowedBy reader got sent)
    (hevents : .subscribe reader ∉ events) :
    (s.performAll events).FollowedBy reader (got ++ gotIn reader s events)
      (sent ++ changes events) := by
  induction events generalizing s got sent with
  | nil => simpa [performAll, gotIn, changes] using h
  | cons event rest ih =>
      rw [List.mem_cons, not_or] at hevents
      have hrest := ih (followedBy_perform h (Ne.symm hevents.1)) hevents.2
      have hchanges : changes (event :: rest) = event.change?.toList ++ changes rest := by
        rw [changes, List.filterMap_cons]
        cases event.change? <;> rfl
      rwa [List.append_assoc, List.append_assoc, ← hchanges] at hrest

/-! ## Records -/

/-- The store after some changes that nobody is told of. -/
def replay (s : StatusStore) (changes : List StatusChange) : StatusStore :=
  changes.foldl (fun s change => s.update change.key change.record) s

/-- The record that the latest of some changes leaves for a key. -/
def lastRecord? (key : BlockKey) (changes : List StatusChange) : Option (Option ExecutionRecord) :=
  (changes.reverse.find? (·.key = key)).map StatusChange.record

theorem records_update (h : t.records = s.records) (key : BlockKey)
    (record : Option ExecutionRecord) :
    (t.update key record).records = (s.update key record).records := by
  cases record <;> simp [update, h]

/-- Readers do not matter to the records, and what is sent is what was changed. -/
theorem records_perform (s : StatusStore) (event : Event) :
    (s.perform event).records = (s.replay event.change?.toList).records := by
  cases event with
  | setPending | setResult | clear | restore | subscribe => rfl
  | receiveNext reader =>
      rw [perform, receiveNext?]
      cases (s.subscriptions.get? reader).bind Subscription.receiveNext? <;> rfl
  | receive reader =>
      rw [perform, receive?]
      cases s.subscriptions.get? reader <;> rfl

theorem records_replay (h : t.records = s.records) (changes : List StatusChange) :
    (t.replay changes).records = (s.replay changes).records := by
  induction changes generalizing s t with
  | nil => exact h
  | cons change rest ih => exact ih (records_update h change.key change.record)

/-- **The records are the changes replayed.** -/
theorem records_performAll (h : t.records = s.records) (events : List Event) :
    (t.performAll events).records = (s.replay (changes events)).records := by
  induction events generalizing s t with
  | nil => exact h
  | cons event rest ih =>
      have hfirst : (t.perform event).records = (s.replay event.change?.toList).records :=
        (records_perform t event).trans (records_replay h _)
      have hrest := ih hfirst
      rw [performAll, List.foldl_cons, ← performAll, hrest, changes, changes, List.filterMap_cons]
      cases event.change? <;> rfl

theorem get?_replay {key : BlockKey} {record : Option ExecutionRecord} {changes : List StatusChange}
    (h : lastRecord? key changes = some record) : (s.replay changes).get? key = record := by
  induction changes using List.reverseRecOn with
  | nil => cases h
  | append_singleton changes change ih =>
      have hupdate : (s.replay (changes ++ [change])).get? key =
          if key = change.key then change.record else (s.replay changes).get? key := by
        rw [replay, List.foldl_append, ← get?_write, write]
        rfl
      rw [lastRecord?, List.reverse_append, List.reverse_singleton, List.singleton_append,
        List.find?_cons] at h
      by_cases hkey : change.key = key
      · rw [hupdate, if_pos hkey.symm]
        simpa [hkey] using h
      · rw [hupdate, if_neg (Ne.symm hkey)]
        exact ih (by simpa [lastRecord?, hkey] using h)

/-- The latest change of a key that a back of all changes has is the latest one of all. -/
theorem lastRecord?_of_suffix {late : List StatusChange} {change : StatusChange} (h : late <:+ sent)
    (hmem : change ∈ late) : lastRecord? change.key late = lastRecord? change.key sent := by
  obtain ⟨early, rfl⟩ := h
  have hfound : (late.reverse.find? (·.key = change.key)).isSome := by
    rw [List.find?_isSome]
    exact ⟨change, List.mem_reverse.mpr hmem, by simp⟩
  rw [lastRecord?, lastRecord?, List.reverse_append, List.find?_append, Option.or_of_isSome hfound]

theorem exists_lastRecord? {change : StatusChange} (hmem : change ∈ sent) :
    ∃ record, lastRecord? change.key sent = some record := by
  rw [← Option.isSome_iff_exists, lastRecord?, Option.isSome_map, List.find?_isSome]
  exact ⟨change, List.mem_reverse.mpr hmem, by simp⟩

/-- The record that a back of all changes ends with is the current one. -/
theorem lastRecord?_eq_current {late : List StatusChange} {change : StatusChange}
    (hrecords : t.records = (s.replay sent).records) (h : late <:+ sent) (hmem : change ∈ late) :
    lastRecord? change.key late = some (t.get? change.key) := by
  obtain ⟨record, hrecord⟩ := exists_lastRecord? hmem
  have hcurrent : t.get? change.key = record := by
    rw [get?, hrecords]
    exact get?_replay (lastRecord?_of_suffix h hmem ▸ hrecord)
  rw [hrecord, hcurrent]

/-- **A subscriber hears the history of the store.** What it has got and what waits for it are
together the changes since it subscribed, in order, where a lag stands for as many changes as it
says; of the changes that it does not know of yet the last 64 wait, and the lag in front of them
counts the others. Without a lag, what it was told makes the records of now out of those at the
beginning. Behind a lag, each key that is told of ends with its record of now. -/
theorem subscriber_hears_history (s : StatusStore) (reader : Text) {events : List Event}
    (h : .subscribe reader ∉ events) :
    let now := (s.subscribe reader).performAll events
    let got := gotIn reader (s.subscribe reader) events
    ∃ sub read unread, now.subscriptions.get? reader = some sub ∧
      changes events = read ++ unread ∧ Covers got read ∧ Covers sub.receive unread ∧
      sub.waiting = unread.drop (unread.length - capacity) ∧
      sub.lost = unread.length - capacity ∧
      ((∀ count, .lagged count ∉ got ++ sub.receive) →
        heard (got ++ sub.receive) = changes events ∧
        (s.replay (heard (got ++ sub.receive))).snapshot = now.snapshot) ∧
      ∀ early late, got ++ sub.receive = early ++ late.map .change →
        ∀ change ∈ late, lastRecord? change.key late = some (now.get? change.key) := by
  intro now got
  -- the invariant at the end of the history, with what waits read at last
  obtain ⟨sub, hsub, read, unread, hsent, hgot, hwaiting, hlost⟩ :=
    followedBy_performAll (followedBy_subscribe s reader) h
  rw [List.nil_append] at hsent hgot
  have hunread := covers_receive hwaiting hlost
  have hall : Covers (got ++ sub.receive) (changes events) := hsent ▸ hgot.append hunread
  have hrecords : now.records = (s.replay (changes events)).records :=
    records_performAll (show (s.subscribe reader).records = s.records from rfl) events
  refine ⟨sub, read, unread, hsub, hsent, hgot, hunread, hwaiting, hlost, fun hnever => ?_, ?_⟩
  · have hheard := hall.heard_eq hnever
    refine ⟨hheard, ?_⟩
    rw [hheard, snapshot, snapshot, hrecords]
  · intro early late hreceived change hmem
    exact lastRecord?_eq_current hrecords (hreceived ▸ hall).suffix_of_append_map hmem

/-- Of 65 changes the first is lost. The reader learns of it, reads on while the store changes once
more, takes the rest, and is behind again by one change at the end. -/
theorem subscriber_hears_history_of_overrun :
    let a : BlockKey := ⟨"book", 0⟩
    let b : BlockKey := ⟨"book", 9⟩
    let pending : StatusChange := ⟨a, some ⟨.pending, 1⟩⟩
    let success : StatusChange := ⟨b, some ⟨.success, 5⟩⟩
    let events : List Event := .clear b :: List.replicate 64 (.setPending 1 a) ++
      [.receiveNext "r", .receiveNext "r", .restore a none, .receive "r", .setResult 5 b true]
    let now := (empty.subscribe "r").performAll events
    let late := List.replicate 64 pending ++ [⟨a, none⟩]
    .subscribe "r" ∉ events ∧
      gotIn "r" (empty.subscribe "r") events = .lagged 1 :: late.map .change ∧
      ∃ sub read unread, now.subscriptions.get? "r" = some sub ∧ sub.receive = [.change success] ∧
        changes events = read ++ unread ∧ Covers (.lagged 1 :: late.map .change) read ∧
        Covers [.change success] unread ∧
        lastRecord? a (late ++ [success]) = some (now.get? a) := by
  intro a b pending success events now late
  have hevents : .subscribe "r" ∉ events := by decide
  have hgot : gotIn "r" (empty.subscribe "r") events = .lagged 1 :: late.map .change := by
    decide +kernel
  have hnow : now.subscriptions.get? "r" = some ⟨[success], 0⟩ := by decide +kernel
  obtain ⟨sub, read, unread, hsub, hsent, hread, hunread, -, -, -, hlate⟩ :=
    subscriber_hears_history empty "r" hevents
  obtain rfl : ⟨[success], 0⟩ = sub := Option.some.inj (hnow.symm.trans hsub)
  have hreceived : .lagged 1 :: late.map .change ++ [.change success] =
      [.lagged 1] ++ (late ++ [success]).map Received.change := by
    rw [List.map_append]
    rfl
  rw [hgot] at hread hlate
  exact ⟨hevents, hgot, _, read, unread, hnow, rfl, hsent, hread, hunread,
    hlate [.lagged 1] (late ++ [success]) hreceived pending (by decide)⟩

end StatusStore

end Runbook
