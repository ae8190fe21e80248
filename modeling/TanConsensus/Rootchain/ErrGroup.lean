import Mathlib.Logic.Function.Basic
import Mathlib.Data.List.Basic

/-! The fail-fast goroutine groups of `deployContracts` as a state machine: every
interleaving of the goroutines' events, with the first error kept and the group's
context cancelled. -/

namespace TanConsensus.Rootchain

inductive Phase
  | pending
  | running
  | finished
deriving DecidableEq, Repr

/-- Modelled from the spec: an `errgroup.Group` with its derived context, the
`results` slice its goroutines write, and the parent `cmdCtx`. `err` is what
`Wait` returns; a context error is `some` once the context is done. -/
structure Group (n : Nat) (α : Type) where
  phase : Fin n → Phase
  results : Fin n → Option α
  err : Option String
  ctxErr : Option String
  parentErr : Option String

inductive Event (n : Nat) (α : Type)
  /-- Goroutine `i` evaluates its `select`. -/
  | start (i : Fin n)
  /-- The body of goroutine `i` returns. -/
  | finish (i : Fin n) (returned : Except String α)
  /-- `cmdCtx` is cancelled, with the error its `Err` then reports. -/
  | cancelParent (reason : String)

variable {n : Nat} {α : Type}

namespace Group

def initial : Group n α := ⟨fun _ => .pending, fun _ => none, none, none, none⟩

/-- `errOnce.Do`: the first error is kept and the group's context is cancelled. -/
def record (g : Group n α) (e : String) : Group n α :=
  match g.err with
  | none => { g with err := some e, ctxErr := some (g.ctxErr.getD "context canceled") }
  | some _ => g

/-- One event. `watchGroup` says whether the goroutines' `select` reads the group's
context (`ctx.Done()`) or the parent's (`cmdCtx.Done()`); `none` is an event that
cannot happen in this state. -/
def step (watchGroup : Bool) (g : Group n α) : Event n α → Option (Group n α)
  | .start i =>
    if g.phase i = .pending then
      match if watchGroup then g.ctxErr else g.parentErr with
      | some reason => some ({ g with phase := Function.update g.phase i .finished }.record reason)
      | none => some { g with phase := Function.update g.phase i .running }
    else none
  | .finish i returned =>
    if g.phase i = .running then
      match returned with
      | .ok result =>
        some { g with phase := Function.update g.phase i .finished,
                      results := Function.update g.results i (some result) }
      | .error e => some ({ g with phase := Function.update g.phase i .finished }.record e)
    else none
  | .cancelParent reason =>
    some { g with parentErr := some (g.parentErr.getD reason), ctxErr := some (g.ctxErr.getD reason) }

def run (watchGroup : Bool) (g : Group n α) : List (Event n α) → Option (Group n α)
  | [] => some g
  | e :: es => (g.step watchGroup e).bind fun g' => g'.run watchGroup es

/-- `Wait` has returned: every goroutine has finished. -/
def Complete (g : Group n α) : Prop := ∀ i, g.phase i = .finished

@[simp] theorem record_phase (g : Group n α) (e : String) : (g.record e).phase = g.phase := by
  unfold record; split <;> rfl

@[simp] theorem record_results (g : Group n α) (e : String) : (g.record e).results = g.results := by
  unfold record; split <;> rfl

@[simp] theorem record_parentErr (g : Group n α) (e : String) : (g.record e).parentErr = g.parentErr := by
  unfold record; split <;> rfl

theorem record_err (g : Group n α) (e : String) : (g.record e).err = some (g.err.getD e) := by
  unfold record; split <;> simp_all

theorem isSome_record_ctxErr (g : Group n α) (e : String) (cancelled : g.err.isSome → g.ctxErr.isSome) :
    ((g.record e).ctxErr).isSome := by
  unfold record; split <;> simp_all

theorem record_of_err {g : Group n α} {first : String} (failed : g.err = some first) (e : String) :
    g.record e = g := by
  simp [record, failed]

theorem run_cons (watchGroup : Bool) (g : Group n α) (e : Event n α) (es : List (Event n α)) :
    g.run watchGroup (e :: es) = (g.step watchGroup e).bind fun g' => g'.run watchGroup es := rfl

theorem run_append (watchGroup : Bool) (g : Group n α) (es fs : List (Event n α)) :
    g.run watchGroup (es ++ fs) = (g.run watchGroup es).bind fun g' => g'.run watchGroup fs := by
  induction es generalizing g with
  | nil => rfl
  | cons e es ih =>
    simp only [List.cons_append, run_cons, ih]
    cases g.step watchGroup e <;> rfl

theorem step_cases {watchGroup : Bool} {g g' : Group n α} {e : Event n α}
    (stepped : g.step watchGroup e = some g') :
    (∃ i reason, e = .start i ∧ g.phase i = .pending ∧
        (if watchGroup then g.ctxErr else g.parentErr) = some reason ∧
        g' = { g with phase := Function.update g.phase i .finished }.record reason) ∨
      (∃ i, e = .start i ∧ g.phase i = .pending ∧ (if watchGroup then g.ctxErr else g.parentErr) = none ∧
        g' = { g with phase := Function.update g.phase i .running }) ∨
      (∃ i result, e = .finish i (.ok result) ∧ g.phase i = .running ∧
        g' = { g with phase := Function.update g.phase i .finished,
                      results := Function.update g.results i (some result) }) ∨
      (∃ i err, e = .finish i (.error err) ∧ g.phase i = .running ∧
        g' = { g with phase := Function.update g.phase i .finished }.record err) ∨
      (∃ reason, e = .cancelParent reason ∧
        g' = { g with parentErr := some (g.parentErr.getD reason), ctxErr := some (g.ctxErr.getD reason) }) := by
  cases e with
  | start i =>
    simp only [step] at stepped
    split at stepped
    · split at stepped
      next reason selected => exact .inl ⟨i, reason, rfl, ‹_›, selected, (Option.some.inj stepped).symm⟩
      next selected => exact .inr (.inl ⟨i, rfl, ‹_›, selected, (Option.some.inj stepped).symm⟩)
    · cases stepped
  | finish i returned =>
    simp only [step] at stepped
    split at stepped
    · cases returned with
      | ok result => exact .inr (.inr (.inl ⟨i, result, rfl, ‹_›, (Option.some.inj stepped).symm⟩))
      | error err => exact .inr (.inr (.inr (.inl ⟨i, err, rfl, ‹_›, (Option.some.inj stepped).symm⟩)))
    · cases stepped
  | cancelParent reason => exact .inr (.inr (.inr (.inr ⟨reason, rfl, (Option.some.inj stepped).symm⟩)))

/-- What every state reachable from `initial` satisfies: a stored result belongs to
a finished goroutine, `Wait`'s error is unset exactly while every finished
goroutine has stored its result, and a set error has cancelled the group's context. -/
structure Consistent (g : Group n α) : Prop where
  stored : ∀ i, (g.results i).isSome → g.phase i = .finished
  noError : g.err = none ↔ ∀ i, g.phase i = .finished → (g.results i).isSome
  cancelled : g.err.isSome → g.ctxErr.isSome

theorem consistent_initial : (initial : Group n α).Consistent :=
  ⟨by simp [initial], by simp [initial], by simp [initial]⟩

private theorem noError_of_failed {g : Group n α} (i : Fin n) (failed : g.err.isSome)
    (finished : g.phase i = .finished) (missing : g.results i = none) :
    g.err = none ↔ ∀ j, g.phase j = .finished → (g.results j).isSome := by
  refine iff_of_false (by simpa [Option.isSome_iff_ne_none] using failed) fun all => ?_
  simpa [missing] using all i finished

private theorem results_eq_none {g : Group n α} (consistent : g.Consistent) (i : Fin n)
    (unfinished : g.phase i ≠ .finished) : g.results i = none :=
  Option.not_isSome_iff_eq_none.mp fun stored => unfinished (consistent.stored i stored)

theorem Consistent.step {watchGroup : Bool} {g g' : Group n α} {e : Event n α} (consistent : g.Consistent)
    (stepped : g.step watchGroup e = some g') : g'.Consistent := by
  rcases step_cases stepped with ⟨i, reason, rfl, pending, -, rfl⟩ | ⟨i, rfl, pending, -, rfl⟩ |
    ⟨i, result, rfl, running, rfl⟩ | ⟨i, err, rfl, running, rfl⟩ | ⟨reason, rfl, rfl⟩
  · have missing := results_eq_none consistent i (by simp [pending])
    refine ⟨fun j stored => ?_, noError_of_failed i (by simp [record_err]) (by simp) (by simpa using missing),
      fun _ => isSome_record_ctxErr _ _ consistent.cancelled⟩
    by_cases same : j = i
    · subst same; simp_all
    · simpa [Function.update_noteq same] using consistent.stored j (by simpa using stored)
  · refine ⟨fun j stored => ?_, ?_, consistent.cancelled⟩
    · by_cases same : j = i
      · subst same; simp_all [results_eq_none consistent j]
      · simpa [Function.update_noteq same] using consistent.stored j stored
    · refine consistent.noError.trans (forall_congr' fun j => ?_)
      by_cases same : j = i
      · subst same; simp [pending]
      · simp [Function.update_noteq same]
  · refine ⟨fun j stored => ?_, ?_, consistent.cancelled⟩
    · by_cases same : j = i
      · subst same; simp
      · simpa [Function.update_noteq same] using consistent.stored j (by simpa [Function.update_noteq same] using stored)
    · refine consistent.noError.trans (forall_congr' fun j => ?_)
      by_cases same : j = i
      · subst same; simp [running]
      · simp [Function.update_noteq same]
  · have missing := results_eq_none consistent i (by simp [running])
    refine ⟨fun j stored => ?_, noError_of_failed i (by simp [record_err]) (by simp) (by simpa using missing),
      fun _ => isSome_record_ctxErr _ _ consistent.cancelled⟩
    by_cases same : j = i
    · subst same; simp_all
    · simpa [Function.update_noteq same] using consistent.stored j (by simpa using stored)
  · exact ⟨consistent.stored, consistent.noError, fun _ => by simp⟩

theorem Consistent.run {watchGroup : Bool} {g g' : Group n α} {es : List (Event n α)} (consistent : g.Consistent)
    (ran : g.run watchGroup es = some g') : g'.Consistent := by
  induction es generalizing g with
  | nil => cases ran; exact consistent
  | cons e es ih =>
    rw [run_cons] at ran
    cases stepped : g.step watchGroup e with
    | none => simp [stepped] at ran
    | some mid => exact ih (consistent.step stepped) (by simpa [stepped] using ran)

theorem step_results {watchGroup : Bool} {g g' : Group n α} {e : Event n α} {i : Fin n} {r : α}
    (stepped : g.step watchGroup e = some g') (stored : g'.results i = some r) :
    g.results i = some r ∨ e = .finish i (.ok r) := by
  rcases step_cases stepped with ⟨j, reason, rfl, -, -, rfl⟩ | ⟨j, rfl, -, -, rfl⟩ |
    ⟨j, result, rfl, -, rfl⟩ | ⟨j, returned, rfl, -, rfl⟩ | ⟨reason, rfl, rfl⟩
  · exact .inl (by simpa using stored)
  · exact .inl stored
  · by_cases same : i = j
    · subst same
      simp only [Function.update_same, Option.some.injEq] at stored
      exact .inr (by rw [stored])
    · exact .inl (by simpa [Function.update_noteq same] using stored)
  · exact .inl (by simpa using stored)
  · exact .inl stored

theorem run_results {watchGroup : Bool} {g g' : Group n α} {es : List (Event n α)} {i : Fin n} {r : α}
    (ran : g.run watchGroup es = some g') (stored : g'.results i = some r) :
    g.results i = some r ∨ Event.finish i (.ok r) ∈ es := by
  induction es generalizing g with
  | nil => cases ran; exact .inl stored
  | cons e es ih =>
    rw [run_cons] at ran
    cases stepped : g.step watchGroup e with
    | none => simp [stepped] at ran
    | some mid =>
      rcases ih (by simpa [stepped] using ran) with earlier | later
      · rcases step_results stepped earlier with before | now
        · exact .inl before
        · exact .inr (now ▸ List.mem_cons_self _ _)
      · exact .inr (List.mem_cons_of_mem _ later)

theorem step_of_finished {watchGroup : Bool} {g g' : Group n α} {e : Event n α} {i : Fin n}
    (finished : g.phase i = .finished) (stepped : g.step watchGroup e = some g') :
    g'.phase i = .finished ∧ g'.results i = g.results i := by
  rcases step_cases stepped with ⟨j, reason, rfl, pending, -, rfl⟩ | ⟨j, rfl, pending, -, rfl⟩ |
    ⟨j, result, rfl, running, rfl⟩ | ⟨j, returned, rfl, running, rfl⟩ | ⟨reason, rfl, rfl⟩
  · have other : i ≠ j := by rintro rfl; simp_all
    simp [Function.update_noteq other, finished]
  · have other : i ≠ j := by rintro rfl; simp_all
    simp [Function.update_noteq other, finished]
  · have other : i ≠ j := by rintro rfl; simp_all
    simp [Function.update_noteq other, finished]
  · have other : i ≠ j := by rintro rfl; simp_all
    simp [Function.update_noteq other, finished]
  · exact ⟨finished, rfl⟩

theorem run_of_finished {watchGroup : Bool} {g g' : Group n α} {es : List (Event n α)} {i : Fin n}
    (finished : g.phase i = .finished) (ran : g.run watchGroup es = some g') : g'.results i = g.results i := by
  induction es generalizing g with
  | nil => cases ran; rfl
  | cons e es ih =>
    rw [run_cons] at ran
    cases stepped : g.step watchGroup e with
    | none => simp [stepped] at ran
    | some mid =>
      obtain ⟨still, same⟩ := step_of_finished finished stepped
      exact (ih still (by simpa [stepped] using ran)).trans same

theorem step_finished_of_parent {g g' : Group n α} {e : Event n α} {i : Fin n} (calm : g.parentErr = none)
    (stepped : g.step false e = some g') (finished : g'.phase i = .finished) :
    g.phase i = .finished ∨ (∃ returned, e = .finish i returned) ∨ ∃ reason, e = .cancelParent reason := by
  rcases step_cases stepped with ⟨j, reason, rfl, -, selected, rfl⟩ | ⟨j, rfl, -, -, rfl⟩ |
    ⟨j, result, rfl, -, rfl⟩ | ⟨j, returned, rfl, -, rfl⟩ | ⟨reason, rfl, rfl⟩
  · simp [calm] at selected
  · have other : i ≠ j := by rintro rfl; simp at finished
    exact .inl (by simpa [Function.update_noteq other] using finished)
  · by_cases same : i = j
    · exact .inr (.inl ⟨.ok result, by rw [same]⟩)
    · exact .inl (by simpa [Function.update_noteq same] using finished)
  · by_cases same : i = j
    · exact .inr (.inl ⟨.error returned, by rw [same]⟩)
    · exact .inl (by simpa [Function.update_noteq same] using finished)
  · exact .inr (.inr ⟨reason, rfl⟩)

theorem step_parentErr {watchGroup : Bool} {g g' : Group n α} {e : Event n α} (calm : g.parentErr = none)
    (stepped : g.step watchGroup e = some g') (noCancel : ∀ reason, e ≠ .cancelParent reason) :
    g'.parentErr = none := by
  rcases step_cases stepped with ⟨j, reason, rfl, -, -, rfl⟩ | ⟨j, rfl, -, -, rfl⟩ |
    ⟨j, result, rfl, -, rfl⟩ | ⟨j, returned, rfl, -, rfl⟩ | ⟨reason, rfl, rfl⟩
  all_goals first | simpa using calm | exact absurd rfl (noCancel reason)

theorem run_finished_of_parent {g g' : Group n α} {es : List (Event n α)} {i : Fin n}
    (calm : g.parentErr = none) (noCancel : ∀ reason, Event.cancelParent reason ∉ es)
    (ran : g.run false es = some g') (finished : g'.phase i = .finished) :
    g.phase i = .finished ∨ ∃ returned, Event.finish i returned ∈ es := by
  induction es generalizing g with
  | nil => cases ran; exact .inl finished
  | cons e es ih =>
    rw [run_cons] at ran
    cases stepped : g.step false e with
    | none => simp [stepped] at ran
    | some mid =>
      have notHere : ∀ reason, e ≠ .cancelParent reason := fun reason same =>
        noCancel reason (same ▸ List.mem_cons_self _ _)
      rcases ih (step_parentErr calm stepped notHere)
          (fun reason member => noCancel reason (List.mem_cons_of_mem _ member))
          (by simpa [stepped] using ran) with earlier | ⟨returned, later⟩
      · rcases step_finished_of_parent calm stepped earlier with before | ⟨returned, rfl⟩ | ⟨reason, rfl⟩
        · exact .inl before
        · exact .inr ⟨returned, List.mem_cons_self _ _⟩
        · exact absurd rfl (notHere reason)
      · exact .inr ⟨returned, List.mem_cons_of_mem _ later⟩

/-- While `cmdCtx` is not cancelled, the group's context is cancelled only together
with a recorded error, and the recorded error is one that a body returned. -/
structure Attributed (g : Group n α) (history : List (Event n α)) : Prop where
  calm : g.parentErr = none
  cancelled : g.ctxErr.isSome → g.err.isSome
  returned : ∀ e, g.err = some e → ∃ i, Event.finish i (.error e) ∈ history

theorem Attributed.step {watchGroup : Bool} {g g' : Group n α} {e : Event n α} {history : List (Event n α)}
    (attributed : g.Attributed history) (stepped : g.step watchGroup e = some g')
    (noCancel : ∀ reason, e ≠ .cancelParent reason) : g'.Attributed (history ++ [e]) := by
  have earlier : ∀ err, g.err = some err → ∃ i, Event.finish i (.error err) ∈ history ++ [e] :=
    fun err failed => (attributed.returned err failed).imp fun _ member => List.mem_append_left _ member
  rcases step_cases stepped with ⟨i, reason, rfl, -, selected, rfl⟩ | ⟨i, rfl, -, -, rfl⟩ |
    ⟨i, result, rfl, -, rfl⟩ | ⟨i, err, rfl, -, rfl⟩ | ⟨reason, rfl, rfl⟩
  · cases watchGroup
    · simp [attributed.calm] at selected
    · obtain ⟨first, failed⟩ := Option.isSome_iff_exists.mp (attributed.cancelled (by simp_all))
      have unchanged : ({ g with phase := Function.update g.phase i .finished } : Group n α).err = some first := failed
      rw [record_of_err unchanged]
      exact ⟨attributed.calm, attributed.cancelled, earlier⟩
  · exact ⟨attributed.calm, attributed.cancelled, earlier⟩
  · exact ⟨attributed.calm, attributed.cancelled, earlier⟩
  · refine ⟨by simpa using attributed.calm, fun _ => by simp [record_err], fun e' failed => ?_⟩
    rw [record_err] at failed
    cases first : g.err with
    | none =>
      simp only [first, Option.getD_none, Option.some.injEq] at failed
      exact ⟨i, failed ▸ List.mem_append_right _ (List.mem_singleton_self _)⟩
    | some e0 =>
      simp only [first, Option.getD_some, Option.some.injEq] at failed
      exact earlier _ (failed ▸ first)
  · exact absurd rfl (noCancel reason)

theorem Attributed.run {watchGroup : Bool} {g g' : Group n α} {history es : List (Event n α)}
    (attributed : g.Attributed history) (ran : g.run watchGroup es = some g')
    (noCancel : ∀ reason, Event.cancelParent reason ∉ es) : g'.Attributed (history ++ es) := by
  induction es generalizing g history with
  | nil => cases ran; simpa using attributed
  | cons e es ih =>
    rw [run_cons] at ran
    cases stepped : g.step watchGroup e with
    | none => simp [stepped] at ran
    | some mid =>
      simpa using ih (attributed.step stepped fun reason same => noCancel reason (same ▸ List.mem_cons_self _ _))
        (by simpa [stepped] using ran) fun reason member => noCancel reason (List.mem_cons_of_mem _ member)

/-- In either group, unless `cmdCtx` is cancelled, the error `Wait` returns was
returned by a body, never by a `select` that saw a cancelled context. -/
theorem err_returned {watchGroup : Bool} {es : List (Event n α)} {g : Group n α}
    (ran : initial.run watchGroup es = some g) (noCancel : ∀ reason, Event.cancelParent reason ∉ es)
    {e : String} (failed : g.err = some e) : ∃ i, Event.finish i (.error e) ∈ es :=
  (Attributed.run (⟨rfl, by simp [initial], by simp [initial]⟩ : (initial : Group n α).Attributed []) ran
    noCancel).returned e failed

instance (g : Group n α) : Decidable g.Complete := inferInstanceAs (Decidable (∀ i, g.phase i = .finished))

/-! ### Every interleaving -/

/-- In every interleaving of either group, `Wait` returns nil exactly when every
goroutine has stored its result: a goroutine that leaves its slot empty, because
its body failed or because it saw a cancelled context, always makes `Wait` fail. -/
theorem wait_eq_none_iff {watchGroup : Bool} {es : List (Event n α)} {g : Group n α}
    (ran : initial.run watchGroup es = some g) (complete : g.Complete) :
    g.err = none ↔ ∀ i, (g.results i).isSome :=
  (consistent_initial.run ran).noError.trans (forall_congr' fun i => by simp [complete i])

theorem wait_eq_none_iff_two_deployed :
    ((((initial : Group 2 Nat).run true [.start 0, .start 1, .finish 1 (.ok 6), .finish 0 (.ok 5)]).get rfl).err =
        none ↔
      ∀ i, ((((initial : Group 2 Nat).run true
        [.start 0, .start 1, .finish 1 (.ok 6), .finish 0 (.ok 5)]).get rfl).results i).isSome) :=
  wait_eq_none_iff (Option.some_get _).symm (by decide)

/-- Deployment group, whose `select` reads the group's context: a goroutine that
reaches its `select` after the first error never deploys, and its slot stays nil. -/
theorem results_eq_none_of_start_after_err {pre post : List (Event n α)} {i : Fin n} {mid g : Group n α}
    (before : initial.run true pre = some mid) (failed : mid.err.isSome)
    (ran : initial.run true (pre ++ Event.start i :: post) = some g) : g.results i = none := by
  have consistent := consistent_initial.run before
  rw [run_append, before, Option.some_bind, run_cons] at ran
  cases stepped : mid.step true (.start i) with
  | none => simp [stepped] at ran
  | some next =>
    rw [stepped, Option.some_bind] at ran
    rcases step_cases stepped with ⟨j, reason, same, pending, -, rfl⟩ | ⟨j, same, -, selected, -⟩ |
      ⟨j, result, same, -, -⟩ | ⟨j, returned, same, -, -⟩ | ⟨reason, same, -⟩
    · cases same
      rw [run_of_finished (by simp) ran]
      simpa using results_eq_none consistent i (by simp [pending])
    · exact absurd (consistent.cancelled failed) (by simpa using selected)
    all_goals cases same

theorem results_eq_none_of_start_after_err_second :
    (((initial : Group 2 Nat).run true ([.start 0, .finish 0 (.error "a")] ++ [.start 1])).get
      (by decide)).results 1 = none :=
  results_eq_none_of_start_after_err (Option.some_get _).symm
    (show (((initial : Group 2 Nat).run true [.start 0, .finish 0 (.error "a")]).get rfl).err.isSome from rfl)
    (Option.some_get _).symm

/-- Initializer group, whose `select` reads `cmdCtx`: unless `cmdCtx` is cancelled,
every goroutine runs its body, whatever its siblings return; no initializer is
skipped after a failure. -/
theorem finish_mem_of_complete {es : List (Event n α)} {g : Group n α}
    (ran : initial.run false es = some g) (noCancel : ∀ reason, Event.cancelParent reason ∉ es)
    (complete : g.Complete) (i : Fin n) : ∃ returned, Event.finish i returned ∈ es :=
  (run_finished_of_parent rfl noCancel ran (complete i)).resolve_left (by simp [initial])

theorem finish_mem_of_complete_after_failure :
    ∃ returned, Event.finish (1 : Fin 2) returned ∈
      ([.start 0, .finish 0 (.error "a"), .start 1, .finish 1 (.ok ())] : List (Event 2 Unit)) :=
  let ran := (Option.some_get (show ((initial : Group 2 Unit).run false
    [.start 0, .finish 0 (.error "a"), .start 1, .finish 1 (.ok ())]).isSome by decide)).symm
  finish_mem_of_complete ran (by simp) (by decide) 1

end Group

end TanConsensus.Rootchain
