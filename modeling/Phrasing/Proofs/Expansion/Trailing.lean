import Phrasing.Proofs.Expansion.Invocations

/-!
# Runs that only leave invocations out

An expansion that remembers runs some of the callbacks that fresh expansion runs, in the same order
and for the same arguments.  What is reused from the store stands for a stretch of invocations that
would all have succeeded, so a callback that fails is never passed over: it is the last one in both
runs.
-/

namespace Phrasing

open Memo
open scoped List

/-- No callback has failed. -/
def Quiet (invocations : List Invocation) : Prop :=
  ∀ invocation ∈ invocations, invocation.fault = none

theorem quiet_nil : Quiet [] :=
  nofun

theorem Quiet.append {first second : List Invocation} (quiet_first : Quiet first)
    (quiet_second : Quiet second) : Quiet (first ++ second) := by
  intro invocation member
  rcases List.mem_append.mp member with earlier | later
  · exact quiet_first invocation earlier
  · exact quiet_second invocation later

theorem Quiet.sublist {fewer invocations : List Invocation} (quiet : Quiet invocations)
    (sublist : fewer <+ invocations) : Quiet fewer :=
  fun invocation member => quiet invocation (sublist.subset member)

/-- How a failing run ends: with an error of its own, or with a callback whose fault comes out. -/
inductive Ends : EngineError → List Invocation → Prop
  | own (error : EngineError) : Ends error []
  | fault (request : Request) (type : NodeType) (fault : Fault) :
      Ends (fault.surface type request.stage) [{ request, type := some type, fault := some fault }]

section Adding

variable {σ ε α β : Type}

/-- A computation adds invocations to the record; none of them failed unless it fails itself. -/
def Adds (computation : Action (Recording σ) ε α) : Prop :=
  ∀ start, ∃ added,
    (finalState (computation start)).ambient.invocations = start.ambient.invocations ++ added ∧
      ∀ result after, computation start = .ok result after → Quiet added

theorem adds_pure (result : α) : Adds (pure result : Action (Recording σ) ε α) :=
  fun _ => ⟨[], (List.append_nil _).symm, fun _ _ _ => quiet_nil⟩

theorem adds_throw (error : ε) : Adds (throw error : Action (Recording σ) ε α) :=
  fun _ => ⟨[], (List.append_nil _).symm, nofun⟩

theorem Adds.bind {computation : Action (Recording σ) ε α} {next : α → Action (Recording σ) ε β}
    (first : Adds computation) (rest : ∀ result, Adds (next result)) :
    Adds (computation >>= next) := by
  intro start
  obtain ⟨added, added_eq, quiet⟩ := first start
  cases run : computation start with
  | ok result after =>
      rw [run] at added_eq
      obtain ⟨more, more_eq, quiet_more⟩ := rest result after
      rw [bind_of_ok run]
      refine ⟨added ++ more, ?_, fun value last run_last =>
        (quiet result after run).append (quiet_more value last run_last)⟩
      rw [more_eq, ← List.append_assoc, ← added_eq]
      rfl
  | error error after =>
      rw [run] at added_eq
      rw [bind_of_error run]
      exact ⟨added, added_eq, nofun⟩

theorem adds_composes :
    Engine.Composes fun α (computation : Action (Recording σ) EngineError α) => Adds computation :=
  ⟨adds_pure, adds_throw, Adds.bind⟩

theorem adds_recording [Structured α] (request : α → Request)
    (typing : List Invocation → Option NodeType) (callback : α → Action σ Fault β) (argument : α) :
    Adds (recording request typing callback argument) := by
  intro world
  rw [recording]
  cases callback argument world.erase with
  | ok value after =>
      refine ⟨_, rfl, fun _ _ _ invocation member => ?_⟩
      rw [List.mem_singleton.mp member]
  | error fault after =>
      refine ⟨_, rfl, fun _ _ failed => ?_⟩
      cases failed

theorem Adds.surfacing {callback : Action (Recording σ) Fault α} (adds : Adds callback)
    (type : NodeType) (stage : Stage) : Adds (Phrasing.surfacing type stage callback) := by
  intro start
  obtain ⟨added, added_eq, quiet⟩ := adds start
  refine ⟨added, ?_, fun result after run => quiet result after (surfacing_eq_ok.mp run)⟩
  rw [← added_eq, Phrasing.surfacing]
  cases callback start <;> rfl

theorem adds_transforming (request : Value → Request) (transform : Option (Transform σ))
    (value : Value) : Adds (transforming (transform.map (recording request lastType)) value) := by
  cases transform with
  | none => exact adds_pure value
  | some transform => exact adds_recording request lastType transform value

/-- What is observed goes through the common source and the registration. -/
theorem adds_processing (processor : Processor σ) (type : NodeType) (observed : Value) :
    Adds (surfacing type .source (processor.recorded.sourced observed) >>= fun raw =>
      surfacing type .register (processor.recorded.registered raw)) :=
  ((adds_transforming .source processor.source observed).surfacing type .source).bind fun raw =>
    (adds_transforming .register processor.register raw).surfacing type .register

theorem adds_derivation {engine : Engine σ} {type : NodeType}
    {derive : Element → Action (Recording σ) EngineError Value}
    (derivation : engine.recorded.processor.derivation? engine.recorded.vocabulary type = some derive)
    (element : Element) : Adds (derive element) := by
  obtain ⟨source, -, rfl⟩ | ⟨observe, -, rfl⟩ := Engine.recorded_derivation derivation
  · exact (adds_recording _ _ source _).surfacing type .source
  · exact ((adds_recording _ _ observe _).surfacing type .observe).bind
      (adds_processing engine.processor type)

theorem adds_describing {engine : Engine σ} {type : NodeType}
    {describe : DescribeContext → Action (Recording σ) Fault Element}
    (present : (engine.recorded.vocabulary type).describe = some describe)
    (context : DescribeContext) : Adds (surfacing type .describe (describe context)) := by
  rw [engine.describe_recorded] at present
  obtain ⟨callback, -, rfl⟩ := Option.map_eq_some_iff.mp present
  exact (adds_recording _ _ callback context).surfacing type .describe

theorem adds_freshData (engine : Engine σ) (type : NodeType) (element : Element) :
    Adds (engine.recorded.freshData type element) :=
  adds_composes.freshData fun _ derivation => adds_derivation derivation element

theorem adds_freshAt (engine : Engine σ) (room : Nat) (position : Position) (element : Element) :
    Adds (engine.recorded.freshAt room position element) :=
  adds_composes.freshAt (fun _ _ element derivation => adds_derivation derivation element)
    (fun _ _ context present => adds_describing present context) room position element

end Adding

/-- How a run is watched: by the record in its states, and with which errors it may be cut short. -/
structure Watch (τ : Type) where
  /-- The record. -/
  invocations : τ → List Invocation
  /-- The errors that may cut a run short. -/
  Excuses : EngineError → τ → Prop

/-- Callbacks are not cut short. -/
def Watch.world {σ : Type} : Watch (World (Recording σ)) where
  invocations world := world.ambient.invocations
  Excuses _ _ := False

/-- An expansion that remembers may be misled by an overfull table. -/
def Watch.pass {σ : Type} : Watch (Pass (Recording σ)) where
  invocations pass := pass.world.ambient.invocations
  Excuses error pass :=
    (∃ table position found, error = .table (.misfiled table position found)) ∧ pass.store.Overfull

section Trails

variable {σ τ α β γ δ : Type}

/-- Of two runs, the first leaves out some invocations of the second, all of which succeed, and
otherwise the two come out in the same way.  The first may also be cut short. -/
inductive Watch.Trails (watch : Watch τ) (start : τ) (other : World (Recording σ)) :
    EStateM.Result EngineError τ α → EStateM.Result EngineError (World (Recording σ)) β → Prop
  | ok {result : α} {value : β} {after : τ} {last : World (Recording σ)}
      {run fresh : List Invocation} (sublist : run <+ fresh) (quiet : Quiet fresh)
      (run_eq : watch.invocations after = watch.invocations start ++ run)
      (fresh_eq : last.ambient.invocations = other.ambient.invocations ++ fresh) :
      Trails watch start other (.ok result after) (.ok value last)
  | failed {error : EngineError} {after : τ} {last : World (Recording σ)}
      {run fresh ending : List Invocation} (sublist : run <+ fresh) (quiet : Quiet fresh)
      (ends : Ends error ending)
      (run_eq : watch.invocations after = watch.invocations start ++ (run ++ ending))
      (fresh_eq : last.ambient.invocations = other.ambient.invocations ++ (fresh ++ ending)) :
      Trails watch start other (.error error after) (.error error last)
  | excused {error : EngineError} {after : τ}
      {outcome : EStateM.Result EngineError (World (Recording σ)) β} {run fresh : List Invocation}
      (sublist : run <+ fresh) (quiet : Quiet run) (excuse : watch.Excuses error after)
      (run_eq : watch.invocations after = watch.invocations start ++ run)
      (fresh_eq : (finalState outcome).ambient.invocations =
        other.ambient.invocations ++ fresh) :
      Trails watch start other (.error error after) outcome

namespace Watch

variable {watch : Watch τ} {start : τ} {other : World (Recording σ)}

theorem Trails.pure (result : α) (value : β) :
    watch.Trails start other ((Pure.pure result : EStateM EngineError τ α) start)
      ((Pure.pure value : Action (Recording σ) EngineError β) other) :=
  .ok (.refl []) quiet_nil (List.append_nil _).symm (List.append_nil _).symm

theorem Trails.throw (error : EngineError) :
    watch.Trails start other ((MonadExcept.throw error : EStateM EngineError τ α) start)
      ((MonadExcept.throw error : Action (Recording σ) EngineError β) other) :=
  .failed (.refl []) quiet_nil (.own error) (List.append_nil _).symm (List.append_nil _).symm

/-- A run may leave out everything that a successful run does. -/
theorem Trails.saved {result : α} {value : β} {after : τ} {last : World (Recording σ)}
    {computation : Action (Recording σ) EngineError β} (adds : Adds computation)
    (fresh_run : computation other = .ok value last)
    (same : watch.invocations after = watch.invocations start) :
    watch.Trails start other (.ok result after) (computation other) := by
  obtain ⟨added, added_eq, quiet⟩ := adds other
  have quiet_added := quiet value last fresh_run
  rw [fresh_run] at added_eq ⊢
  exact .ok (List.nil_sublist added) quiet_added (same.trans (List.append_nil _).symm) added_eq

/-- A run that is cut short at once leaves everything out. -/
theorem Trails.broken {error : EngineError} {after : τ}
    {computation : Action (Recording σ) EngineError β} (adds : Adds computation)
    (excuse : watch.Excuses error after)
    (same : watch.invocations after = watch.invocations start) :
    watch.Trails start other (.error error after : EStateM.Result EngineError τ α)
      (computation other) := by
  obtain ⟨added, added_eq, -⟩ := adds other
  exact .excused (List.nil_sublist added) quiet_nil excuse (same.trans (List.append_nil _).symm)
    added_eq

/-- What two runs did before is put in front of what they do. -/
theorem Trails.after {middle : τ} {late : World (Recording σ)} {run fresh : List Invocation}
    {outcome : EStateM.Result EngineError τ α}
    {fresh_outcome : EStateM.Result EngineError (World (Recording σ)) β} (sublist : run <+ fresh)
    (quiet : Quiet fresh)
    (run_eq : watch.invocations middle = watch.invocations start ++ run)
    (fresh_eq : late.ambient.invocations = other.ambient.invocations ++ fresh)
    (trails : watch.Trails middle late outcome fresh_outcome) :
    watch.Trails start other outcome fresh_outcome := by
  cases trails with
  | ok later_sublist later_quiet later_run later_fresh =>
      refine .ok (sublist.append later_sublist) (quiet.append later_quiet) ?_ ?_
      · rw [later_run, run_eq, List.append_assoc]
      · rw [later_fresh, fresh_eq, List.append_assoc]
  | failed later_sublist later_quiet ends later_run later_fresh =>
      refine .failed (sublist.append later_sublist) (quiet.append later_quiet) ends ?_ ?_
      · rw [later_run, run_eq, List.append_assoc, List.append_assoc]
      · rw [later_fresh, fresh_eq, List.append_assoc, List.append_assoc]
  | excused later_sublist later_quiet excuse later_run later_fresh =>
      refine .excused (sublist.append later_sublist) ((quiet.sublist sublist).append later_quiet)
        excuse ?_ ?_
      · rw [later_run, run_eq, List.append_assoc]
      · rw [later_fresh, fresh_eq, List.append_assoc]

/-- A run that records nothing before a point trails from there on. -/
theorem Trails.of_same {before : τ} {outcome : EStateM.Result EngineError τ α}
    {fresh_outcome : EStateM.Result EngineError (World (Recording σ)) β}
    (trails : watch.Trails start other outcome fresh_outcome)
    (same : watch.invocations start = watch.invocations before) :
    watch.Trails before other outcome fresh_outcome :=
  .after (.refl []) quiet_nil (same.trans (List.append_nil _).symm) (List.append_nil _).symm trails

theorem Trails.bind {computation : EStateM EngineError τ α} {next : α → EStateM EngineError τ γ}
    {fresh : Action (Recording σ) EngineError β}
    {fresh_next : β → Action (Recording σ) EngineError δ}
    (first : watch.Trails start other (computation start) (fresh other))
    (adds : ∀ value, Adds (fresh_next value))
    (rest : ∀ result value after last, computation start = .ok result after →
      fresh other = .ok value last →
      watch.Trails after last (next result after) (fresh_next value last)) :
    watch.Trails start other ((computation >>= next) start) ((fresh >>= fresh_next) other) := by
  generalize run : computation start = outcome at first
  generalize fresh_run : fresh other = fresh_outcome at first
  cases first with
  | ok sublist quiet run_eq fresh_eq =>
      rw [bind_of_ok run, bind_of_ok fresh_run]
      exact .after sublist quiet run_eq fresh_eq (rest _ _ _ _ run fresh_run)
  | failed sublist quiet ends run_eq fresh_eq =>
      rw [bind_of_error run, bind_of_error fresh_run]
      exact .failed sublist quiet ends run_eq fresh_eq
  | excused sublist quiet excuse run_eq fresh_eq =>
      rw [bind_of_error run]
      cases fresh_outcome with
      | ok value last =>
          -- The second run goes on after the first has been cut short.
          obtain ⟨added, added_eq, -⟩ := adds value last
          rw [bind_of_ok fresh_run]
          refine .excused (sublist.trans (List.sublist_append_left _ added)) quiet excuse run_eq ?_
          rw [added_eq, ← List.append_assoc, ← fresh_eq]
          rfl
      | error error last =>
          rw [bind_of_error fresh_run]
          exact .excused sublist quiet excuse run_eq fresh_eq

/-- Of two runs that record everything, the first records some of what the second does, and if a
callback fails, it is the last one in both. -/
theorem Trails.compare {outcome : EStateM.Result EngineError τ α}
    {fresh_outcome : EStateM.Result EngineError (World (Recording σ)) β}
    (trails : watch.Trails start other outcome fresh_outcome)
    (start_eq : watch.invocations start = []) (other_eq : other.ambient.invocations = []) :
    watch.invocations (finalState outcome) <+ (finalState fresh_outcome).ambient.invocations ∧
      (∀ invocation ∈ watch.invocations (finalState outcome), ∀ fault,
        invocation.fault = some fault →
        (watch.invocations (finalState outcome)).getLast? = some invocation ∧
          (finalState fresh_outcome).ambient.invocations.getLast? = some invocation ∧
          ∃ type after, invocation.type = some type ∧
            outcome = .error (fault.surface type invocation.request.stage) after) ∧
      ((∀ invocation ∈ (finalState fresh_outcome).ambient.invocations, invocation.fault ≠ none →
          invocation ∈ watch.invocations (finalState outcome)) ∨
        ∃ error after, outcome = .error error after ∧ watch.Excuses error after) := by
  have never {invocations : List Invocation} (quiet : Quiet invocations) {invocation : Invocation}
      (member : invocation ∈ invocations) {fault : Fault} (failed : invocation.fault = some fault) :
      False :=
    nomatch (quiet invocation member).symm.trans failed
  cases trails with
  | @ok _ _ _ _ run fresh sublist quiet run_eq fresh_eq =>
      rw [start_eq, List.nil_append] at run_eq
      rw [other_eq, List.nil_append] at fresh_eq
      simp only [finalState, run_eq, fresh_eq]
      exact ⟨sublist, fun _ member _ failed => (never (quiet.sublist sublist) member failed).elim,
        .inl fun invocation member failed => absurd (quiet invocation member) failed⟩
  | @failed error after last run fresh ending sublist quiet ends run_eq fresh_eq =>
      rw [start_eq, List.nil_append] at run_eq
      rw [other_eq, List.nil_append] at fresh_eq
      simp only [finalState, run_eq, fresh_eq]
      refine ⟨sublist.append (.refl ending), ?_, .inl ?_⟩
      · intro invocation member fault failed
        rcases List.mem_append.mp member with earlier | ended
        · exact (never (quiet.sublist sublist) earlier failed).elim
        · cases ends with
          | own => exact nomatch ended
          | fault request type other_fault =>
              obtain rfl := List.mem_singleton.mp ended
              obtain rfl := Option.some.inj failed
              exact ⟨List.getLast?_concat, List.getLast?_concat, type, after, rfl, rfl⟩
      · intro invocation member failed
        rcases List.mem_append.mp member with earlier | ended
        · exact absurd (quiet invocation earlier) failed
        · exact List.mem_append_right run ended
  | @excused error after _ run fresh sublist quiet excuse run_eq fresh_eq =>
      rw [start_eq, List.nil_append] at run_eq
      rw [other_eq, List.nil_append] at fresh_eq
      simp only [fresh_eq]
      simp only [finalState, run_eq]
      exact ⟨sublist, fun _ member _ failed => (never quiet member failed).elim,
        .inr ⟨error, after, rfl, excuse⟩⟩

theorem Trails.run {pass : Pass (Recording σ)} {call : Call}
    {callbacks : Action (Recording σ) EngineError α}
    {outcome : EStateM.Result EngineError (World (Recording σ)) β}
    (trails : Watch.world.Trails pass.world other (callbacks pass.world) outcome) :
    Watch.pass.Trails pass other (Pass.run call callbacks pass) outcome := by
  rw [Pass.run, Pass.act]
  simp only
  generalize callbacks pass.world = run_outcome at trails ⊢
  cases trails with
  | ok sublist quiet run_eq fresh_eq => exact .ok sublist quiet run_eq fresh_eq
  | failed sublist quiet ends run_eq fresh_eq => exact .failed sublist quiet ends run_eq fresh_eq
  | excused _ _ excuse _ _ => exact excuse.elim

end Watch

end Trails

end Phrasing
