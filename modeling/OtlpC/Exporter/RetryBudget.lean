import OtlpC.Exporter.Delivery
import OtlpC.Lib.History

/-!
# The retry budget

One attempt counter and one backoff serve the three signals, and a retry encodes whatever its signal has
pending. They describe one batch, which every retry replays, as long as no request starts between a
failure and its retry, and no item is drained between them.
-/

namespace OtlpC.Exporter

open History

variable {ι : Type*} {cap : ℕ}

/-! ### What the history says of a signal's POSTs -/

/-- The items of each POST of the signal, in order. -/
def postedBodies (s : Signal) (history : List (Obs ι)) : List (List ι) :=
  history.filterMap fun
    | .posted t items _ => if t = s then some items else none
    | _ => none

/-- The items of each POST of the signal that has ended, with its status, in order. -/
def answers (s : Signal) (history : List (Obs ι)) : List (List ι × ℤ) :=
  history.filterMap fun
    | .answered t items status => if t = s then some (items, status) else none
    | _ => none

/-- One more transient failure, or the end of the batch. -/
def countFailure (s : Signal) (n : ℕ) : Obs ι → ℕ
  | .answered t _ status => if t = s ∧ transient status = true then n + 1 else n
  | .freed t _ .clearInFlightBatch => if t = s then 0 else n
  | _ => n

/-- How often the signal's pending batch has failed: its transient failures since items of it were last
cleared. -/
def failures (s : Signal) (history : List (Obs ι)) : ℕ := history.foldl (countFailure s) 0

/-- The POST that has just ended, and the one whose end armed a backoff that no POST has followed. -/
structure Replay (ι : Type*) where
  ended : Option (Signal × List ι)
  awaited : Option (Signal × List ι)

/-- A `retryArmed` event right after the end of a POST is that POST's; `exporter_sync.c` has its own. -/
def Replay.next (r : Replay ι) : Obs ι → Replay ι
  | .answered s items _ => { r with ended := some (s, items) }
  | .event ev => { ended := none, awaited := if ev.code = .retryArmed then r.ended.or r.awaited else r.awaited }
  | .posted _ _ _ => { ended := none, awaited := none }
  | _ => { r with ended := none }

def replay (history : List (Obs ι)) : Replay ι := history.foldl Replay.next { ended := none, awaited := none }

theorem postedBodies_append (s : Signal) (history obs : List (Obs ι)) :
    postedBodies s (history ++ obs) = postedBodies s history ++ postedBodies s obs :=
  List.filterMap_append

theorem answers_append (s : Signal) (history obs : List (Obs ι)) :
    answers s (history ++ obs) = answers s history ++ answers s obs :=
  List.filterMap_append

/-- What neither starts nor ends a POST. -/
def Between : Obs ι → Prop
  | .posted _ _ _ | .answered _ _ _ => False
  | _ => True

/-- What tells nothing of a batch. -/
def Quiet : Obs ι → Prop
  | .posted _ _ _ | .answered _ _ _ | .freed _ _ .clearInFlightBatch => False
  | .event ev => ev.code ≠ .itemsDropped
  | _ => True

theorem Quiet.between {ob : Obs ι} (h : Quiet ob) : Between ob := by
  cases ob with
  | posted | answered => exact h.elim
  | _ => trivial

theorem postedBodies_between (s : Signal) {obs : List (Obs ι)} (h : ∀ ob ∈ obs, Between ob) :
    postedBodies s obs = [] := by
  refine List.filterMap_eq_nil_iff.2 fun ob hmem => ?_
  cases ob with
  | posted => exact (h _ hmem).elim
  | _ => rfl

theorem answers_between (s : Signal) {obs : List (Obs ι)} (h : ∀ ob ∈ obs, Between ob) :
    answers s obs = [] := by
  refine List.filterMap_eq_nil_iff.2 fun ob hmem => ?_
  cases ob with
  | answered => exact (h _ hmem).elim
  | _ => rfl

theorem clearedItems_quiet (s : Signal) {obs : List (Obs ι)} (h : ∀ ob ∈ obs, Quiet ob) :
    clearedItems s obs = [] := by
  refine List.filterMap_eq_nil_iff.2 fun ob hmem => ?_
  cases ob with
  | freed t item freer =>
    cases freer with
    | clearInFlightBatch => exact (h _ hmem).elim
    | _ => rfl
  | _ => rfl

theorem failures_quiet (s : Signal) (history : List (Obs ι)) {obs : List (Obs ι)}
    (h : ∀ ob ∈ obs, Quiet ob) : failures s (history ++ obs) = failures s history := by
  unfold failures
  rw [List.foldl_append]
  refine foldl_ignored fun ob hmem => ?_
  cases ob with
  | answered => exact (h _ hmem).elim
  | freed t item freer =>
    cases freer with
    | clearInFlightBatch => exact (h _ hmem).elim
    | _ => rfl
  | _ => rfl

theorem replay_between {history obs : List (Obs ι)} (hended : (replay history).ended = none)
    (h : ∀ ob ∈ obs, Between ob) : replay (history ++ obs) = replay history := by
  unfold replay at hended ⊢
  rw [List.foldl_append]
  generalize history.foldl Replay.next { ended := none, awaited := none } = r at hended
  obtain ⟨ended, awaited⟩ := r
  obtain rfl : ended = none := hended
  refine foldl_ignored fun ob hmem => ?_
  cases ob with
  | posted | answered => exact (h _ hmem).elim
  | event ev => simp [Replay.next]
  | _ => rfl

/-! ### What is to hold of a history -/

/-- The POST that follows an armed backoff carries the items of the POST that failed. -/
def ReplaysFailed (history : List (Obs ι)) : Obs ι → Prop
  | .posted s items _ => ∀ b ∈ (replay history).awaited, b = (s, items)
  | _ => True

/-- The batch of the signal whose POST has just ended was posted `tries` times, and failed each time. -/
structure SpentOn [DecidableEq ι] (tries : ℕ) (s : Signal) (history : List (Obs ι)) (items : List ι) :
    Prop where
  last : ∃ (earlier : List (List ι × ℤ)) (statuses : List ℤ),
    answers s history = earlier ++ statuses.map (Prod.mk items) ∧ statuses.length = tries ∧
      ∀ status ∈ statuses, transient status = true
  /-- An item that was accepted once was in no other POST. -/
  only : ∀ item ∈ items, (acceptedItems s history).count item = 1 →
    (postedBodies s history).countP (item ∈ ·) = tries ∧
      (answers s history).countP (item ∈ ·.1) = tries ∧
        ∀ a ∈ answers s history, item ∈ a.1 → transient a.2 = true

/-- The items that an exhausted budget drops were posted `maxRetries + 1` times. -/
def DropSpent [DecidableEq ι] (maxRetries : ℕ) (history : List (Obs ι)) : Obs ι → Prop
  | .event ev => ev.code = .itemsDropped → ev.dropReason = .maxRetries →
      ∃ items, ev.count = items.length ∧ SpentOn (maxRetries + 1) ev.signal history items
  | _ => True

/-- The retry budget belongs to one batch, and a retry replays that batch. -/
structure BudgetKept [DecidableEq ι] (w : World ι cap) : Prop where
  replays : Preceded ReplaysFailed w.history
  drops : Preceded (DropSpent w.exp.maxRetries) w.history
  posts_le : ∀ s item, (postedBodies s w.history).countP (item ∈ ·) ≤
    (w.exp.maxRetries + 1) * (acceptedItems s w.history).count item
  /-- The counter counts the failures of the batch it stands for; no other batch has failed. -/
  attempt_eq : ∀ s, failures s w.history = if w.exp.inFlightSignal = s then w.exp.attempt else 0

theorem Between.replaysFailed {ob : Obs ι} (h : Between ob) (history : List (Obs ι)) :
    ReplaysFailed history ob := by
  cases ob with
  | posted => exact h.elim
  | _ => trivial

theorem Quiet.dropSpent [DecidableEq ι] {ob : Obs ι} (h : Quiet ob) (maxRetries : ℕ)
    (history : List (Obs ι)) : DropSpent maxRetries history ob := by
  cases ob with
  | event => exact fun hcode => absurd hcode h
  | _ => trivial

/-! ### The invariant -/

/-- The POSTs of the signal that have ended: those of batches that are cleared, each within its budget,
and the failures of the batch that the counter stands for. -/
structure Tried [DecidableEq ι] (s : Signal) (w : World ι cap) (earlier : List (List ι × ℤ))
    (statuses : List ℤ) : Prop where
  answers_eq : answers s w.history = earlier ++ statuses.map (Prod.mk w.inFlightItems)
  length_eq : statuses.length = if w.exp.inFlightSignal = s then w.exp.attempt else 0
  transient_eq : ∀ status ∈ statuses, transient status = true
  count_le : ∀ item, earlier.countP (item ∈ ·.1) ≤
    (w.exp.maxRetries + 1) * (clearedItems s w.history).count item

structure RetryOk [DecidableEq ι] (w : World ι cap) : Prop where
  attempt_le : w.exp.attempt ≤ w.exp.maxRetries
  batch : 0 < w.exp.attempt ∨ w.exp.inFlight.isSome →
    w.inFlightItems ≠ [] ∧ w.inFlightItems <+: (w.exp.sig w.exp.inFlightSignal).pending
  posted_eq : ∀ s, postedBodies s w.history = (answers s w.history).map Prod.fst ++
    if w.exp.inFlight.isSome ∧ w.exp.inFlightSignal = s then [w.inFlightItems] else []
  tried : ∀ s, ∃ earlier statuses, Tried s w earlier statuses
  failures_eq : ∀ s, failures s w.history = if w.exp.inFlightSignal = s then w.exp.attempt else 0
  replay_eq : replay w.history = ⟨none, if w.exp.inFlight.isNone ∧ 0 < w.exp.attempt then
    some (w.exp.inFlightSignal, w.inFlightItems) else none⟩
  replays : Preceded ReplaysFailed w.history
  drops : Preceded (DropSpent w.exp.maxRetries) w.history

/-- A world with the same batch and the same counter, in which pending items may have been added. -/
structure Still (w w' : World ι cap) : Prop where
  inFlight_eq : w'.exp.inFlight.isSome = w.exp.inFlight.isSome
  signal_eq : w'.exp.inFlightSignal = w.exp.inFlightSignal
  items_eq : w'.inFlightItems = w.inFlightItems
  attempt_eq : w'.exp.attempt = w.exp.attempt
  maxRetries_eq : w'.exp.maxRetries = w.exp.maxRetries
  pending_isPrefix : ∀ t, (w.exp.sig t).pending <+: (w'.exp.sig t).pending
  quiet : ∃ obs, w'.history = w.history ++ obs ∧ ∀ ob ∈ obs, Quiet ob

theorem RetryOk.still [DecidableEq ι] {w w' : World ι cap} (hok : RetryOk w) (h : Still w w') :
    RetryOk w' := by
  obtain ⟨obs, hhistory, hquiet⟩ := h.quiet
  have hbetween : ∀ ob ∈ obs, Between ob := fun ob hmem => (hquiet ob hmem).between
  have hanswers : ∀ s, answers s w'.history = answers s w.history := fun s => by
    rw [hhistory, answers_append, answers_between s hbetween, List.append_nil]
  have hcleared : ∀ s, clearedItems s w'.history = clearedItems s w.history := fun s => by
    rw [hhistory, clearedItems_append, clearedItems_quiet s hquiet, List.append_nil]
  have hnone : w'.exp.inFlight.isNone = w.exp.inFlight.isNone := by
    rw [← Option.not_isSome, ← Option.not_isSome, h.inFlight_eq]
  refine ⟨?_, ?_, fun s => ?_, fun s => ?_, fun s => ?_, ?_, ?_, ?_⟩
  · rw [h.attempt_eq, h.maxRetries_eq]
    exact hok.attempt_le
  · rw [h.attempt_eq, h.inFlight_eq, h.items_eq, h.signal_eq]
    intro hbatch
    obtain ⟨hne, hprefix⟩ := hok.batch hbatch
    exact ⟨hne, hprefix.trans (h.pending_isPrefix _)⟩
  · rw [hanswers, h.inFlight_eq, h.signal_eq, h.items_eq, ← hok.posted_eq s, hhistory,
      postedBodies_append, postedBodies_between s hbetween, List.append_nil]
  · obtain ⟨earlier, statuses, htried⟩ := hok.tried s
    refine ⟨earlier, statuses, ?_, ?_, htried.transient_eq, ?_⟩
    · rw [hanswers, h.items_eq]
      exact htried.answers_eq
    · rw [h.signal_eq, h.attempt_eq]
      exact htried.length_eq
    · rw [hcleared, h.maxRetries_eq]
      exact htried.count_le
  · rw [hhistory, failures_quiet s _ hquiet, h.signal_eq, h.attempt_eq]
    exact hok.failures_eq s
  · rw [hhistory, replay_between (by rw [hok.replay_eq]) hbetween, hnone, h.attempt_eq, h.signal_eq,
      h.items_eq]
    exact hok.replay_eq
  · rw [hhistory]
    exact hok.replays.append_free fun ob hmem => (hbetween ob hmem).replaysFailed
  · rw [hhistory, h.maxRetries_eq]
    exact hok.drops.append_free fun ob hmem => (hquiet ob hmem).dropSpent _

/-! ### One step -/

/-- No request starts between a failure and its retry, the retry finds no more pending items than the
POST that failed carried, and the counter does not overflow. -/
def ReplaysBatch (x : State ι cap) (l : Label ι) : Prop :=
  (∀ a ∈ startAttempt x l, buildFails x.world a.1 a.2 = false → 0 < x.world.exp.attempt →
    a.1 = x.world.exp.inFlightSignal ∧
      (x.world.exp.sig a.1).pending.length = x.world.inFlightItems.length) ∧
  ∀ o ∈ requestEnds x l, transient o.status = true → x.world.exp.attempt ≠ 2 ^ 32 - 1

instance (x : State ι cap) (l : Label ι) : Decidable (ReplaysBatch x l) :=
  inferInstanceAs (Decidable (_ ∧ _))

theorem succ32_of_ne {n : ℕ} (h : n ≠ 2 ^ 32 - 1) : succ32 n = n + 1 := if_neg h

theorem answers_ends (s t : Signal) (items : List ι) (status : ℤ) (history : List (Obs ι))
    {obs : List (Obs ι)} (h : ∀ ob ∈ obs, Between ob) :
    answers s (history ++ .answered t items status :: obs) =
      answers s history ++ if t = s then [(items, status)] else [] := by
  rw [List.append_cons, answers_append, answers_append, answers_between s h, List.append_nil]
  by_cases hts : t = s
  · simp [answers, hts]
  · simp [answers, hts]

theorem postedBodies_ends (s t : Signal) (items : List ι) (status : ℤ) (history : List (Obs ι))
    {obs : List (Obs ι)} (h : ∀ ob ∈ obs, Between ob) :
    postedBodies s (history ++ .answered t items status :: obs) = postedBodies s history := by
  rw [List.append_cons, postedBodies_append, postedBodies_append, postedBodies_between s h]
  simp [postedBodies]

theorem endedObs_between (e : OtlpExporter ι cap) (status : ℤ) (more : List OtlpEvent) :
    ∀ ob ∈ endedObs e status more, Between ob := by
  intro ob hmem
  simp only [endedObs, List.mem_append, List.mem_cons, List.mem_map] at hmem
  rcases hmem with (rfl | ⟨ev, -, rfl⟩) | ⟨item, -, rfl⟩ <;> trivial

theorem failures_cleared (s : Signal) (n : ℕ) {items : List ι} (hne : items ≠ []) :
    (items.map fun item => Obs.freed s item .clearInFlightBatch).foldl (countFailure s) n = 0 := by
  obtain ⟨item, items, rfl⟩ := List.exists_cons_of_ne_nil hne
  have hreset : countFailure s n (Obs.freed s item .clearInFlightBatch) = 0 := by simp [countFailure]
  rw [List.map_cons, List.foldl_cons, hreset]
  exact foldl_ignored (by simp [countFailure])

theorem failures_ended (s : Signal) (e : OtlpExporter ι cap) (items : List ι) (status : ℤ)
    (more : List OtlpEvent) (history : List (Obs ι)) (hne : (e.sig e.inFlightSignal).pending ≠ []) :
    failures s (history ++ .answered e.inFlightSignal items status :: endedObs e status more) =
      if e.inFlightSignal = s then 0 else failures s history := by
  unfold failures endedObs
  rw [← List.cons_append, ← List.append_assoc, List.foldl_append]
  split
  · next hs =>
    subst hs
    exact failures_cleared _ _ hne
  · next hs =>
    rw [foldl_ignored (by simp [countFailure, hs]), List.foldl_append]
    exact foldl_ignored (by simp [countFailure, hs])

theorem quiet_heldObs (w : World ι cap) : ∀ ob ∈ heldObs w, Quiet ob := by
  intro ob hmem
  simp only [heldObs, List.mem_flatMap, List.mem_map] at hmem
  obtain ⟨s, -, item, -, rfl⟩ := hmem
  trivial

theorem finalEvent_code (e : OtlpExporter ι cap) (status : ℤ) :
    (finalEvent e status).code ≠ .retryArmed := by
  unfold finalEvent
  dsimp only
  split
  · simp
  · split <;> simp

section

variable [DecidableEq ι]

theorem RetryOk.started {w : World ι cap} (hok : RetryOk w) {s : Signal} {net : Http.Net}
    {r : Http.OtlpHttpRequest} {k : Option Http.Sock} (hidle : w.exp.inFlight = none)
    (hpending : (w.exp.sig s).pending ≠ [])
    (hsame : 0 < w.exp.attempt → s = w.exp.inFlightSignal ∧ (w.exp.sig s).pending = w.inFlightItems) :
    RetryOk ({
      net
      exp := w.exp.started s r
      inFlightItems := (w.exp.sig s).pending
      history := w.history ++
        [.encoded s (w.exp.sig s).pending, .posted s (w.exp.sig s).pending k] } : World ι cap) := by
  have hanswers : ∀ t, answers t (w.history ++
      [.encoded s (w.exp.sig s).pending, .posted s (w.exp.sig s).pending k]) = answers t w.history :=
    fun t => by simp [answers]
  have hcleared : ∀ t, clearedItems t (w.history ++
      [.encoded s (w.exp.sig s).pending, .posted s (w.exp.sig s).pending k]) = clearedItems t w.history :=
    fun t => by simp [clearedItems]
  -- the counter stands for this signal's batch before and after, or for none
  have hcount : ∀ t, (if s = t then w.exp.attempt else 0) =
      if w.exp.inFlightSignal = t then w.exp.attempt else 0 := fun t => by
    rcases Nat.eq_zero_or_pos w.exp.attempt with hzero | hpos
    · simp [hzero]
    · rw [(hsame hpos).1]
  have hawaited : ∀ b ∈ (replay w.history).awaited, b = (s, (w.exp.sig s).pending) := by
    rw [hok.replay_eq]
    intro b hb
    simp only [hidle, Option.isNone_none, true_and, Option.mem_def, Option.ite_none_right_eq_some,
      Option.some.injEq] at hb
    obtain ⟨hpos, rfl⟩ := hb
    obtain ⟨hs, hitems⟩ := hsame hpos
    rw [hitems, hs]
  refine ⟨hok.attempt_le, fun _ => ⟨hpending, ?_⟩, fun t => ?_, fun t => ?_, fun t => ?_, ?_, ?_, ?_⟩
  · exact pending_prefix_update _ s s List.prefix_rfl
  · have hposted := hok.posted_eq t
    simp only [hidle, Option.isSome_none, Bool.false_eq_true, false_and, if_false, List.append_nil]
      at hposted
    rw [hanswers, ← hposted, postedBodies_append]
    by_cases hst : s = t
    · simp [postedBodies, hst, OtlpExporter.started]
    · simp [postedBodies, hst, OtlpExporter.started]
  · obtain ⟨earlier, statuses, htried⟩ := hok.tried t
    refine ⟨earlier, statuses, ?_, ?_, htried.transient_eq, ?_⟩
    · rw [hanswers, htried.answers_eq]
      rcases Nat.eq_zero_or_pos w.exp.attempt with hzero | hpos
      · have hnil : statuses = [] := List.length_eq_zero_iff.1 (by simp [htried.length_eq, hzero])
        simp [hnil]
      · rw [(hsame hpos).2]
    · exact htried.length_eq.trans (hcount t).symm
    · rw [hcleared]
      exact htried.count_le
  · refine Eq.trans ?_ ((hok.failures_eq t).trans (hcount t).symm)
    simp [failures, countFailure]
  · simp [replay, Replay.next, OtlpExporter.started]
  · rw [List.append_cons]
    refine preceded_concat.2 ⟨preceded_concat.2 ⟨hok.replays, trivial⟩, ?_⟩
    rw [ReplaysFailed, replay_between (by rw [hok.replay_eq]) (by simp [Between])]
    exact hawaited
  · exact hok.drops.append_free (by simp [DropSpent])

theorem RetryOk.posted_ends {w : World ι cap} (hok : RetryOk w) (hflight : w.exp.inFlight.isSome)
    (s : Signal) {status : ℤ} {obs : List (Obs ι)} (h : ∀ ob ∈ obs, Between ob) :
    postedBodies s (w.history ++ .answered w.exp.inFlightSignal w.inFlightItems status :: obs) =
      (answers s (w.history ++ .answered w.exp.inFlightSignal w.inFlightItems status :: obs)).map
        Prod.fst := by
  rw [postedBodies_ends _ _ _ _ _ h, answers_ends _ _ _ _ _ h, hok.posted_eq s]
  by_cases hs : w.exp.inFlightSignal = s
  · simp [hs, hflight]
  · simp [hs]

theorem RetryOk.replays_ends {w : World ι cap} (hok : RetryOk w) {status : ℤ} {obs : List (Obs ι)}
    (h : ∀ ob ∈ obs, Between ob) : Preceded ReplaysFailed
      (w.history ++ .answered w.exp.inFlightSignal w.inFlightItems status :: obs) := by
  rw [List.append_cons]
  exact (preceded_concat.2 ⟨hok.replays, by trivial⟩).append_free fun ob hmem => (h ob hmem).replaysFailed

theorem RetryOk.failed {w : World ι cap} (hok : RetryOk w) {status : ℤ} {net : Http.Net} {t : Tally}
    {kept : Option Http.Sock} {ev : OtlpEvent} (hflight : w.exp.inFlight.isSome)
    (hretry : retries w.exp status = true) (hwrap : w.exp.attempt ≠ 2 ^ 32 - 1)
    (hev : ev.code = .retryArmed) :
    RetryOk { w with
      net
      exp := (w.exp.armed.tally t).released kept
      history := w.history ++ [.answered w.exp.inFlightSignal w.inFlightItems status, .event ev] } := by
  simp only [retries, Bool.and_eq_true, decide_eq_true_eq, succ32_of_ne hwrap] at hretry
  obtain ⟨htransient, hbudget⟩ := hretry
  have hattempt : ((w.exp.armed.tally t).released kept).attempt = w.exp.attempt + 1 := succ32_of_ne hwrap
  have hbetween : ∀ ob ∈ [Obs.event (ι := ι) ev], Between ob := by simp [Between]
  refine ⟨hattempt.trans_le hbudget, fun _ => hok.batch (.inr hflight), fun s => ?_, fun s => ?_,
    fun s => ?_, ?_, hok.replays_ends hbetween, ?_⟩
  · rw [hok.posted_ends hflight s hbetween]
    simp [OtlpExporter.released]
  · obtain ⟨earlier, statuses, htried⟩ := hok.tried s
    have hanswers := answers_ends s w.exp.inFlightSignal w.inFlightItems status w.history hbetween
    have hcount : ∀ item, earlier.countP (item ∈ ·.1) ≤ (w.exp.maxRetries + 1) *
        (clearedItems s (w.history ++
          [.answered w.exp.inFlightSignal w.inFlightItems status, .event ev])).count item := by
      simpa [clearedItems] using htried.count_le
    by_cases hs : w.exp.inFlightSignal = s
    · refine ⟨earlier, statuses ++ [status], ?_, ?_, ?_, hcount⟩
      · rw [hanswers, htried.answers_eq]
        simp [hs]
      · have hlength := htried.length_eq
        simp only [hs, if_true] at hlength
        rw [List.length_append, hlength, hattempt]
        simp [OtlpExporter.released, OtlpExporter.tally, OtlpExporter.armed, hs]
      · intro st hmem
        rcases List.mem_append.1 hmem with hmem | hmem
        · exact htried.transient_eq st hmem
        · rw [List.mem_singleton.1 hmem, htransient]
    · refine ⟨earlier, statuses, ?_, ?_, htried.transient_eq, hcount⟩
      · rw [hanswers, htried.answers_eq]
        simp [hs]
      · rw [htried.length_eq]
        simp [OtlpExporter.released, OtlpExporter.tally, OtlpExporter.armed, hs]
  · have hfailures := hok.failures_eq s
    unfold failures at hfailures ⊢
    rw [List.foldl_append, hfailures, hattempt]
    by_cases hs : w.exp.inFlightSignal = s
    · simp [countFailure, OtlpExporter.released, OtlpExporter.tally, OtlpExporter.armed, hs, htransient]
    · simp [countFailure, OtlpExporter.released, OtlpExporter.tally, OtlpExporter.armed, hs]
  · have hreplay := hok.replay_eq
    unfold replay at hreplay ⊢
    rw [List.foldl_append, hreplay, hattempt]
    simp [Replay.next, hev, OtlpExporter.released, OtlpExporter.tally, OtlpExporter.armed]
  · refine hok.drops.append_free ?_
    simp [DropSpent, hev]

theorem Tried.countP_eq_zero {w : World ι cap} {earlier : List (List ι × ℤ)} {statuses : List ℤ} {s : Signal}
    (htried : Tried s w earlier statuses) (hdelivery : DeliveryOk s w) {item : ι}
    (hpending : item ∈ (w.exp.sig s).pending) (honce : (acceptedItems s w.history).count item = 1) :
    earlier.countP (item ∈ ·.1) = 0 := by
  have hpos : 0 < (w.exp.sig s).pending.count item := List.count_pos_iff.2 hpending
  rw [hdelivery.order, List.count_append, List.count_append] at honce
  have hcleared : (clearedItems s w.history).count item = 0 := by omega
  have hle := htried.count_le item
  rw [hcleared] at hle
  exact Nat.le_zero.1 hle

theorem countP_mk (item : ι) (items : List ι) (statuses : List ℤ) :
    (statuses.map (Prod.mk items)).countP (item ∈ ·.1) = if item ∈ items then statuses.length else 0 := by
  rw [List.countP_map]
  split
  · next hmem => simp [Function.comp_def, hmem]
  · next hmem => simp [Function.comp_def, hmem]

theorem RetryOk.spent {w : World ι cap} (hok : RetryOk w) {status : ℤ} (hflight : w.exp.inFlight.isSome)
    (hdelivery : DeliveryOk w.exp.inFlightSignal w) (htransient : transient status = true)
    (hlast : w.exp.attempt = w.exp.maxRetries) :
    SpentOn (w.exp.maxRetries + 1) w.exp.inFlightSignal
      (w.history ++ [.answered w.exp.inFlightSignal w.inFlightItems status]) w.inFlightItems := by
  obtain ⟨earlier, statuses, htried⟩ := hok.tried w.exp.inFlightSignal
  have hanswers : answers w.exp.inFlightSignal
      (w.history ++ [.answered w.exp.inFlightSignal w.inFlightItems status]) =
        earlier ++ (statuses ++ [status]).map (Prod.mk w.inFlightItems) := by
    rw [answers_ends _ _ _ _ _ (by simp), htried.answers_eq]
    simp
  have hlength : (statuses ++ [status]).length = w.exp.maxRetries + 1 := by
    simp [htried.length_eq, hlast]
  have hfailed : ∀ st ∈ statuses ++ [status], transient st = true := by
    intro st hmem
    rcases List.mem_append.1 hmem with hmem | hmem
    · exact htried.transient_eq st hmem
    · rw [List.mem_singleton.1 hmem, htransient]
  refine ⟨⟨earlier, statuses ++ [status], hanswers, hlength, hfailed⟩, fun item hitem honce => ?_⟩
  have hpending := (hok.batch (.inr hflight)).2.subset hitem
  have hearlier := htried.countP_eq_zero hdelivery hpending (by simpa [acceptedItems] using honce)
  have htries : (answers w.exp.inFlightSignal
      (w.history ++ [.answered w.exp.inFlightSignal w.inFlightItems status])).countP (item ∈ ·.1) =
        w.exp.maxRetries + 1 := by
    rw [hanswers, List.countP_append, hearlier, countP_mk, if_pos hitem, hlength, Nat.zero_add]
  refine ⟨?_, htries, fun a ha hmem => ?_⟩
  · rw [hok.posted_ends hflight _ (by simp), List.countP_map]
    exact htries
  · rw [hanswers] at ha
    rcases List.mem_append.1 ha with ha | ha
    · exact absurd (decide_eq_true hmem) (List.countP_eq_zero.1 hearlier a ha)
    · obtain ⟨st, hst, rfl⟩ := List.mem_map.1 ha
      exact hfailed st hst

/-- The POSTs of a batch that has ended are within the budget of its items, which are cleared with it. -/
theorem RetryOk.count_le_ended {w : World ι cap} (hok : RetryOk w) {status : ℤ} {more : List OtlpEvent}
    (hflight : w.exp.inFlight.isSome) (s : Signal) (item : ι) :
    (answers s (w.history ++ .answered w.exp.inFlightSignal w.inFlightItems status ::
      endedObs w.exp status more)).countP (item ∈ ·.1) ≤ (w.exp.maxRetries + 1) *
        (clearedItems s (w.history ++ .answered w.exp.inFlightSignal w.inFlightItems status ::
          endedObs w.exp status more)).count item := by
  obtain ⟨earlier, statuses, htried⟩ := hok.tried s
  have hle := htried.count_le item
  have hlength := htried.length_eq
  rw [answers_ends _ _ _ _ _ (endedObs_between w.exp status more), htried.answers_eq,
    List.countP_append, List.countP_append, countP_mk, List.append_cons, clearedItems_append,
    clearedItems_append, clearedItems_ended, List.count_append, List.count_append]
  by_cases hs : w.exp.inFlightSignal = s
  · subst hs
    have hbudget := hok.attempt_le
    by_cases hitem : item ∈ w.inFlightItems
    · have hpos := List.count_pos_iff.2 ((hok.batch (.inr hflight)).2.subset hitem)
      have hmul : w.exp.maxRetries + 1 ≤
          (w.exp.maxRetries + 1) * (w.exp.sig w.exp.inFlightSignal).pending.count item :=
        Nat.le_mul_of_pos_right _ hpos
      simp only [if_true] at hlength
      simp only [hitem, if_true, List.countP_singleton, decide_true, hlength, Nat.mul_add]
      omega
    · simp only [hitem, if_true, if_false, List.countP_singleton, decide_false, Bool.false_eq_true,
        Nat.mul_add]
      omega
  · simp only [hs, if_false] at hlength
    simp only [hs, if_false, hlength, ite_self, List.countP_nil, Nat.mul_add]
    omega

theorem RetryOk.replay_ended {w : World ι cap} (hok : RetryOk w) {status : ℤ} {more : List OtlpEvent}
    (hflight : w.exp.inFlight.isSome) :
    replay (w.history ++ .answered w.exp.inFlightSignal w.inFlightItems status ::
      endedObs w.exp status more) = ⟨none, none⟩ := by
  have hnone : w.exp.inFlight.isNone = false := by simpa using hflight
  have hreplay := hok.replay_eq
  simp only [hnone, Bool.false_eq_true, false_and, if_false] at hreplay
  have hfinal : replay (w.history ++ [.answered w.exp.inFlightSignal w.inFlightItems status] ++
      [.event (finalEvent w.exp status)]) = ⟨none, none⟩ := by
    unfold replay at hreplay ⊢
    rw [List.foldl_append, List.foldl_append, hreplay]
    simp [Replay.next, finalEvent_code]
  have hbetween := endedObs_between w.exp status more
  rw [endedObs, List.cons_append] at hbetween ⊢
  rw [List.append_cons, List.append_cons, replay_between (by rw [hfinal]), hfinal]
  exact fun ob hmem => hbetween ob (List.mem_cons_of_mem _ hmem)

/-- An event that tells of an exhausted budget tells so of the batch that has ended. -/
theorem RetryOk.drops_ended {w : World ι cap} (hok : RetryOk w) {status : ℤ} {more : List OtlpEvent}
    (hflight : w.exp.inFlight.isSome) (hcount : w.exp.inFlightCount = w.inFlightItems.length)
    (hdelivery : DeliveryOk w.exp.inFlightSignal w) (hfinal : retries w.exp status = false)
    (hwrap : transient status = true → w.exp.attempt ≠ 2 ^ 32 - 1) (hmore : NoDrop more) :
    Preceded (DropSpent w.exp.maxRetries) (w.history ++
      .answered w.exp.inFlightSignal w.inFlightItems status :: endedObs w.exp status more) := by
  have hspent : DropSpent w.exp.maxRetries
      (w.history ++ [.answered w.exp.inFlightSignal w.inFlightItems status])
      (.event (finalEvent w.exp status)) := by
    intro hcode hreason
    unfold finalEvent at hcode hreason ⊢
    dsimp only at hcode hreason ⊢
    split at hcode
    · contradiction
    next hsuccess =>
    rw [if_neg hsuccess] at hreason ⊢
    split at hreason
    · next htransient =>
      have hlast : w.exp.attempt = w.exp.maxRetries := by
        have hle := hok.attempt_le
        rw [retries, htransient, Bool.true_and, decide_eq_false_iff_not,
          succ32_of_ne (hwrap htransient)] at hfinal
        omega
      rw [if_pos htransient]
      exact ⟨_, hcount, hok.spent hflight hdelivery htransient hlast⟩
    · contradiction
  rw [endedObs, List.cons_append, List.append_cons, List.append_cons]
  refine (preceded_concat.2 ⟨preceded_concat.2 ⟨hok.drops, by trivial⟩, hspent⟩).append_free ?_
  intro ob hmem pre
  simp only [List.mem_append, List.mem_map] at hmem
  rcases hmem with ⟨ev, hev, rfl⟩ | ⟨item, -, rfl⟩
  · exact fun hcode => absurd hcode (hmore ev hev)
  · trivial

theorem RetryOk.ended {w : World ι cap} (hok : RetryOk w) {status : ℤ} {net : Http.Net} {t : Tally}
    {kept : Option Http.Sock} {rejected : ℕ} {more : List OtlpEvent} (hflight : w.exp.inFlight.isSome)
    (hcount : w.exp.inFlightCount = w.inFlightItems.length)
    (hdelivery : DeliveryOk w.exp.inFlightSignal w) (hfinal : retries w.exp status = false)
    (hwrap : transient status = true → w.exp.attempt ≠ 2 ^ 32 - 1) (hmore : NoDrop more) :
    RetryOk { w with
      net
      exp := ((w.exp.ended status rejected).tally t).released kept
      history := w.history ++ .answered w.exp.inFlightSignal w.inFlightItems status ::
        endedObs w.exp status more } := by
  have hbetween := endedObs_between w.exp status more
  have hpending : (w.exp.sig w.exp.inFlightSignal).pending ≠ [] := by
    obtain ⟨hne, hprefix⟩ := hok.batch (.inr hflight)
    intro hnil
    rw [hnil, List.prefix_nil] at hprefix
    exact hne hprefix
  refine ⟨Nat.zero_le _, ?_, fun s => ?_, fun s => ?_, fun s => ?_, ?_, hok.replays_ends hbetween,
    hok.drops_ended hflight hcount hdelivery hfinal hwrap hmore⟩
  · simp [OtlpExporter.released, OtlpExporter.tally, OtlpExporter.ended]
  · rw [hok.posted_ends hflight s hbetween]
    simp [OtlpExporter.released]
  · refine ⟨_, [], (List.append_nil _).symm, ?_, by simp, hok.count_le_ended hflight s⟩
    exact (ite_self _).symm
  · rw [failures_ended s w.exp _ _ _ _ hpending, hok.failures_eq s]
    refine Eq.trans ?_ (ite_self _).symm
    split <;> rfl
  · rw [hok.replay_ended hflight]
    simp [OtlpExporter.released, OtlpExporter.tally, OtlpExporter.ended]

theorem ReplaysBatch.same {x : State ι cap} {l : Label ι} (h : ReplaysBatch x l) {s : Signal}
    {env : BuildEnv} (hattempt : startAttempt x l = some (s, env))
    (hstarts : buildFails x.world s env = false) (hok : RetryOk x.world)
    (hpos : 0 < x.world.exp.attempt) : s = x.world.exp.inFlightSignal ∧
      (x.world.exp.sig s).pending = x.world.inFlightItems := by
  obtain ⟨rfl, hlength⟩ := h.1 (s, env) hattempt hstarts hpos
  exact ⟨rfl, ((hok.batch (.inl hpos)).2.eq_of_length hlength.symm).symm⟩

theorem Effect.retryOk {x : State ι cap} {l : Label ι} {w : World ι cap} (h : Effect x l w)
    (hreal : RealOk x.world) (hdelivery : ∀ s, DeliveryOk s x.world) (hfree : l ≠ .free)
    (hreplays : ReplaysBatch x l) (hok : RetryOk x.world) : RetryOk w := by
  cases h with
  | quiet => exact hok
  | shutdown | disarmed =>
    exact hok.still ⟨rfl, rfl, rfl, rfl, rfl, fun _ => List.prefix_rfl, [], (List.append_nil _).symm, by simp⟩
  | progressed hcall r r' hflight hsock =>
    exact hok.still ⟨by rw [hflight]; rfl, rfl, rfl, rfl, rfl, fun _ => List.prefix_rfl, [],
      (List.append_nil _).symm, by simp⟩
  | refused hcall s item droppedFull evs hev =>
    refine hok.still ⟨rfl, rfl, rfl, rfl, rfl, fun t => pending_prefix_update _ _ t List.prefix_rfl, _, rfl, ?_⟩
    simp only [List.forall_mem_cons, List.forall_mem_map]
    exact ⟨trivial, trivial, fun ev hmem => by simp [Quiet, hev ev hmem]⟩
  | accepted =>
    exact hok.still ⟨rfl, rfl, rfl, rfl, rfl, fun t => pending_prefix_update _ _ t List.prefix_rfl, _, rfl,
      by simp [Quiet]⟩
  | drained =>
    exact hok.still ⟨rfl, rfl, rfl, rfl, rfl,
      fun t => pending_prefix_update _ _ t (List.prefix_append _ _), [], (List.append_nil _).symm, by simp⟩
  | startFailed s env net obs hattempt hfails hidle hnet hobs =>
    refine hok.still ⟨rfl, rfl, rfl, rfl, rfl, fun _ => List.prefix_rfl, obs, rfl, ?_⟩
    rcases hobs with rfl | rfl <;> simp [Quiet]
  | started s env net r k hattempt hstarts hidle hnet hsock =>
    exact hok.started hidle (startAttempt_cases hattempt).1 (hreplays.same hattempt hstarts hok)
  | answeredRetry r o net kept t ev hflight hends hretry hnet hev =>
    have htransient : transient o.status = true := by
      rw [retries, Bool.and_eq_true] at hretry
      exact hretry.1
    exact hok.failed (by rw [hflight]; rfl) hretry (hreplays.2 o hends htransient) hev
  | answeredFinal r o net kept t rejected more hflight hends hfinal hnet hmore =>
    have hsome : x.world.exp.inFlight.isSome := by rw [hflight]; rfl
    exact hok.ended hsome (hreal.flight hsome).count_eq (hdelivery _) hfinal (hreplays.2 o hends) hmore
  | nullOutcome hcall s status now hnull =>
    rw [hreal.nullTransport_eq] at hnull
    contradiction
  | flushed hcall s net prng evs ok hnet hevs =>
    refine hok.still ⟨rfl, rfl, rfl, rfl, rfl, fun t => pending_prefix_update _ _ t List.prefix_rfl, _, rfl, ?_⟩
    simp only [List.forall_mem_map]
    exact fun ev hmem => hevs ev hmem
  | freed hcall h => exact absurd h hfree

/-! ### Runs -/

/-- The tries of the batch that the counter stands for, the one in flight among them. -/
theorem RetryOk.tries_le {w : World ι cap} (hok : RetryOk w) (item : ι) :
    (if item ∈ w.inFlightItems then w.exp.attempt + (if w.exp.inFlight.isSome then 1 else 0) else 0) ≤
      (w.exp.maxRetries + 1) * (w.exp.sig w.exp.inFlightSignal).pending.count item := by
  have hbudget := hok.attempt_le
  split
  · next hitem =>
    by_cases hbatch : 0 < w.exp.attempt ∨ w.exp.inFlight.isSome
    · have hpos := List.count_pos_iff.2 ((hok.batch hbatch).2.subset hitem)
      have hmul := Nat.le_mul_of_pos_right (w.exp.maxRetries + 1) hpos
      split <;> omega
    · obtain ⟨hzero, hidle⟩ := not_or.1 hbatch
      rw [if_neg hidle, Nat.eq_zero_of_not_pos hzero]
      exact Nat.zero_le _
  · exact Nat.zero_le _

theorem RetryOk.posts_le {w : World ι cap} (hok : RetryOk w) {s : Signal} (hdelivery : DeliveryOk s w)
    (item : ι) : (postedBodies s w.history).countP (item ∈ ·) ≤
      (w.exp.maxRetries + 1) * (acceptedItems s w.history).count item := by
  obtain ⟨earlier, statuses, htried⟩ := hok.tried s
  have hle := htried.count_le item
  have hlength := htried.length_eq
  rw [hok.posted_eq s, List.countP_append, List.countP_map, Function.comp_def, htried.answers_eq,
    List.countP_append, countP_mk, hlength, hdelivery.order, List.count_append, List.count_append,
    Nat.mul_add, Nat.mul_add]
  by_cases hs : w.exp.inFlightSignal = s
  · subst hs
    have htries := hok.tries_le item
    by_cases hitem : item ∈ w.inFlightItems
    · by_cases hflight : w.exp.inFlight.isSome
      · simp only [hitem, hflight, if_true, and_self, List.countP_singleton, decide_true] at htries ⊢
        omega
      · simp only [hitem, hflight, if_true, Bool.false_eq_true, false_and, if_false, List.countP_nil]
          at htries ⊢
        omega
    · have hbatch : (if w.exp.inFlight.isSome ∧ w.exp.inFlightSignal = w.exp.inFlightSignal then
          [w.inFlightItems] else []).countP (item ∈ ·) = 0 := by
        split <;> simp [hitem]
      rw [hbatch, if_neg hitem]
      omega
  · simp only [hs, and_false, if_false, ite_self, List.countP_nil]
    omega

/-- A state of a run on the real transport. -/
structure Budgeted (x : State ι cap) : Prop where
  delivered : ∀ s, Delivered s x
  live : x.phase ≠ .freed → RetryOk x.world
  kept : BudgetKept x.world

theorem RetryOk.kept {w : World ι cap} (hok : RetryOk w) (hdelivery : ∀ s, DeliveryOk s w) :
    BudgetKept w :=
  ⟨hok.replays, hok.drops, fun s item => hok.posts_le (hdelivery s) item, hok.failures_eq⟩

theorem BudgetKept.free {w : World ι cap} (h : BudgetKept w) : BudgetKept (otlpExporterFree w) := by
  have hquiet := quiet_heldObs w
  have hbetween : ∀ ob ∈ heldObs w, Between ob := fun ob hmem => (hquiet ob hmem).between
  have hmax : (otlpExporterFree w).exp.maxRetries = w.exp.maxRetries :=
    (otlpExporterFree_config w).maxRetries_eq
  refine ⟨?_, ?_, fun s item => ?_, fun s => ?_⟩
  · rw [otlpExporterFree_history]
    exact h.replays.append_free fun ob hmem => (hbetween ob hmem).replaysFailed
  · rw [otlpExporterFree_history, hmax]
    exact h.drops.append_free fun ob hmem => (hquiet ob hmem).dropSpent _
  · rw [otlpExporterFree_history, hmax, postedBodies_append, postedBodies_between s hbetween,
      List.append_nil, acceptedItems_append, List.count_append, Nat.mul_add]
    exact (h.posts_le s item).trans (Nat.le_add_right _ _)
  · rw [otlpExporterFree_history, failures_quiet s _ hquiet, h.attempt_eq s, otlpExporterFree_exp]

theorem budgeted_step {x y : State ι cap} {l : Label ι} (hx : Budgeted x) (hreplays : ReplaysBatch x l)
    (h : step x l = some y) : Budgeted y := by
  have hdelivered : ∀ s, Delivered s y := fun s => delivered_step (hx.delivered s) h
  have hphase := (step_phase h).1
  by_cases hfree : l = .free
  · subst hfree
    refine ⟨hdelivered, fun hlive => ?_, ?_⟩
    · rw [step_free h] at hlive
      contradiction
    · rw [step_free h]
      exact hx.kept.free
  · have hok := (step_effect h).retryOk (hx.delivered .span).realOk
      (fun s => (hx.delivered s).live hphase) hfree hreplays (hx.live hphase)
    have hlive : y.phase ≠ .freed := fun hfreed => hfree ((step_phase h).2 hfreed).1
    exact ⟨hdelivered, fun _ => hok, hok.kept fun s => (hdelivered s).live hlive⟩

theorem Fresh.budgeted {e : OtlpExporter ι cap} (h : Fresh e) (fn : Bool) :
    Budgeted (State.init e false fn) := by
  have hok : RetryOk (State.init e false fn).world := by
    refine ⟨?_, ?_, fun s => ?_, fun s => ⟨[], [], ?_, ?_, ?_, ?_⟩, fun s => ?_, ?_, preceded_nil,
      preceded_nil⟩
    all_goals simp [State.init, h.attempt_eq, h.inFlight_eq, postedBodies, answers, failures, replay]
  exact ⟨h.delivered fn, fun _ => hok, hok.kept fun s => (h.delivered fn s).live (by simp [State.init])⟩

/-- **The retry budget belongs to one batch.** In every run on the real transport whose requests are
started either for a batch that has not failed or for the very batch whose POST failed, every retry carries
the items of that POST, every batch dropped for its retries was posted `max_retries + 1` times and failed
each time, no item is posted more often, and the counter counts the failures of one batch. -/
theorem budgetKept_of_run {opts : OtlpExporterOpts} {env : CreateEnv} {fn : Bool}
    {e : OtlpExporter ι (normalizeOpts opts).queueCapacity}
    (hcreate : otlpExporterCreate ι opts env = some e) {ls : List (Label ι)} {y : State ι _}
    (hrun : Steps.run step (State.init e false fn) ls = some y)
    (hreplays : Steps.Along step ReplaysBatch (State.init e false fn) ls) : BudgetKept y.world :=
  (Steps.along_invariant (P := Budgeted) (fun _ _ _ hx hC h => budgeted_step hx hC h)
    ((fresh_of_create hcreate).budgeted fn) hreplays hrun).kept

end

/-- A span is posted, answered with a 503, posted again and answered with a 503 again. -/
def exhaustedRun : List (Label ℕ) :=
  [.emitMove .span (some 1)] ++ tickRound 11 0 (.fine 0 []) ++
    tickRound 8 0 (.fine 0 (emptyResponse 503)) ++ tickRound 8 100000 (.fine 0 []) ++
    tickRound 8 100000 (.fine 0 []) ++ tickRound 8 100000 (.fine 0 (emptyResponse 503))

theorem budgetKept_of_run_exhausted :
    ∃ y : State ℕ _, runFrom (plainOpts 1 1) exhaustedRun = some y ∧
      answers .span y.world.history = [([1], 503), ([1], 503)] ∧ BudgetKept y.world := by
  have hanswers : (runFrom (plainOpts 1 1) exhaustedRun).map (fun y => answers .span y.world.history) =
      some [([1], 503), ([1], 503)] := by decide +kernel
  obtain ⟨y, hy, htwo⟩ := Option.map_eq_some_iff.1 hanswers
  obtain ⟨e, hcreate, hrun⟩ := runFrom_eq_some hy
  have hreplays : ∀ e ∈ otlpExporterCreate ℕ (plainOpts 1 1) .fine,
      Steps.Along step ReplaysBatch (State.init e false false) exhaustedRun := by decide +kernel
  exact ⟨y, hy, htwo, budgetKept_of_run hcreate hrun (hreplays e hcreate)⟩

/-- A second span is drained while the retry of the first one waits for its backoff. -/
def lateSpanRun : List (Label ℕ) :=
  [.emitMove .span (some 1)] ++ tickRound 11 0 (.fine 0 []) ++
    tickRound 8 0 (.fine 0 (emptyResponse 503)) ++ [.emitMove .span (some 2)] ++
    tickRound 9 100000 (.fine 0 [])

def TickEnv.tight : TickEnv :=
  { TickEnv.fine 0 [] with build := { BuildEnv.fine with bufInitOk := (· < 1000) } }

/-- The retry of a span cannot be built, and the POST of a metric can. -/
def takenOverRun : List (Label ℕ) :=
  [.emitMove .span (some 1)] ++ tickRound 11 0 (.fine 0 []) ++
    tickRound 8 0 (.fine 0 (emptyResponse 503)) ++ [.emitMove .metric (some 2)] ++
    tickRound 9 100000 .tight ++ tickRound 11 100000 .tight

/-- A retry that carries more than the POST that failed, and a metric whose first POST is counted as the
second try of a span. -/
theorem retry_not_replayed :
    (∃ y : State ℕ _, runFrom (plainOpts 1 1) lateSpanRun = some y ∧
      postedBodies .span y.world.history = [[1], [1, 2]] ∧ ¬BudgetKept y.world) ∧
    ∃ y : State ℕ _, runFrom (plainOpts 1 1) takenOverRun = some y ∧
      postedBodies .metric y.world.history = [[2]] ∧ y.world.exp.attempt = 1 ∧ ¬BudgetKept y.world := by
  constructor
  · have hrun : (runFrom (plainOpts 1 1) lateSpanRun).map (fun y => (postedBodies .span y.world.history,
        y.world.history.getLast?, (replay y.world.history.dropLast).awaited)) =
          some ([[1], [1, 2]], some (.posted .span [1, 2] (some 1)), some (.span, [1])) := by
      decide +kernel
    obtain ⟨y, hy, hposted⟩ := Option.map_eq_some_iff.1 hrun
    simp only [Prod.mk.injEq] at hposted
    obtain ⟨hbodies, hlast, hawaited⟩ := hposted
    refine ⟨y, hy, hbodies, fun hkept => ?_⟩
    have hreplays := hkept.replays
    rw [← List.dropLast_append_getLast? _ hlast] at hreplays
    exact absurd ((preceded_concat.1 hreplays).2 _ hawaited) (by decide)
  · have hrun : (runFrom (plainOpts 1 1) takenOverRun).map (fun y => (postedBodies .metric y.world.history,
        y.world.exp.attempt, y.world.exp.inFlightSignal, failures .metric y.world.history)) =
          some ([[2]], 1, .metric, 0) := by decide +kernel
    obtain ⟨y, hy, hposted⟩ := Option.map_eq_some_iff.1 hrun
    simp only [Prod.mk.injEq] at hposted
    obtain ⟨hbodies, hattempt, hsignal, hfailures⟩ := hposted
    refine ⟨y, hy, hbodies, hattempt, fun hkept => ?_⟩
    have heq := hkept.attempt_eq .metric
    rw [hsignal, hattempt, hfailures, if_pos rfl] at heq
    exact absurd heq Nat.zero_ne_one

end OtlpC.Exporter
