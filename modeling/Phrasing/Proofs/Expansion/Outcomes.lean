import Mathlib.Data.List.Forall2
import Phrasing.Fault

/-!
# Computations that meet an expectation

A computation with a state meets an expectation when it comes out as expected: with a result that
reads as the expected one, or with the expected error.  A regime fixes what holds of the states all
along, how a later state is related to an earlier one, and which errors are excused.
-/

namespace Phrasing

section Results

variable {ε σ α : Type}

/-- The state in which a computation ends. -/
def finalState : EStateM.Result ε σ α → σ
  | .ok _ state => state
  | .error _ state => state

/-- What a computation gives, without the state in which it ends. -/
def outcomeOf : EStateM.Result ε σ α → Except ε α
  | .ok result _ => .ok result
  | .error error _ => .error error

theorem eq_ok_of_isOk {result : EStateM.Result ε σ α} (succeeds : (outcomeOf result).isOk = true) :
    ∃ value after, result = .ok value after := by
  cases result with
  | ok value after => exact ⟨value, after, rfl⟩
  | error error after => exact nomatch succeeds

theorem bind_of_ok {β : Type} {computation : EStateM ε σ α} {next : α → EStateM ε σ β}
    {start after : σ} {result : α} (run : computation start = .ok result after) :
    (computation >>= next) start = next result after := by
  change EStateM.bind computation next start = _
  rw [EStateM.bind, run]

theorem bind_of_error {β : Type} {computation : EStateM ε σ α} {next : α → EStateM ε σ β}
    {start after : σ} {error : ε} (run : computation start = .error error after) :
    (computation >>= next) start = .error error after := by
  change EStateM.bind computation next start = _
  rw [EStateM.bind, run]

theorem bind_eq_ok {β : Type} {computation : EStateM ε σ α} {next : α → EStateM ε σ β}
    {start last : σ} {result : β} :
    (computation >>= next) start = .ok result last ↔
      ∃ middle after, computation start = .ok middle after ∧ next middle after = .ok result last := by
  constructor
  · intro run
    cases first : computation start with
    | ok middle after => exact ⟨middle, after, rfl, (bind_of_ok first).symm.trans run⟩
    | error error after => exact nomatch (bind_of_error first).symm.trans run
  · rintro ⟨middle, after, first, rest⟩
    rw [bind_of_ok first, rest]

/-- What all continuations of a computation leave alone is as the computation leaves it. -/
theorem measure_bind {β μ : Type} {computation : EStateM ε σ α} {next : α → EStateM ε σ β}
    (measure : σ → μ)
    (keeps : ∀ result after, measure (finalState (next result after)) = measure after) (start : σ) :
    measure (finalState ((computation >>= next) start)) =
      measure (finalState (computation start)) := by
  cases run : computation start with
  | ok result after =>
      rw [bind_of_ok run, keeps result after]
      rfl
  | error error after =>
      rw [bind_of_error run]
      rfl

theorem except_bind_eq_ok {β : Type} {computation : Except ε α} {next : α → Except ε β}
    {result : β} :
    computation >>= next = .ok result ↔
      ∃ middle, computation = .ok middle ∧ next middle = .ok result := by
  cases computation <;> simp [bind, Except.bind]

theorem except_map_eq_ok {β : Type} {computation : Except ε α} {view : α → β} {result : β} :
    computation.map view = .ok result ↔ ∃ middle, computation = .ok middle ∧ view middle = result := by
  cases computation <;> simp [Except.map]

end Results

/-- What holds in the states of a computation, and which errors are excused. -/
structure Regime (τ : Type) where
  /-- What holds in every state. -/
  Valid : τ → Prop
  /-- How a later state is related to an earlier one. -/
  Leads : τ → τ → Prop
  /-- Which errors are excused in the state where they arise. -/
  Excuses : EngineError → τ → Prop
  /-- A state leads to itself. -/
  refl (state : τ) : Leads state state
  /-- Leading goes from state to state. -/
  trans {first second third : τ} : Leads first second → Leads second third → Leads first third

namespace Regime

variable {τ α β γ δ : Type}

/-- A result is as expected of a computation that starts in a given state. -/
inductive Meets (regime : Regime τ) (start : τ) (reads : τ → β → α → Prop) :
    EStateM.Result EngineError τ β → Except EngineError α → Prop
  | ok {result : β} {value : α} {after : τ} (valid : regime.Valid after)
      (leads : regime.Leads start after) (as_expected : reads after result value) :
      Meets regime start reads (.ok result after) (.ok value)
  | failed {error : EngineError} {after : τ} (valid : regime.Valid after)
      (leads : regime.Leads start after) :
      Meets regime start reads (.error error after) (.error error)
  | excused {error : EngineError} {after : τ} {expected : Except EngineError α}
      (valid : regime.Valid after) (leads : regime.Leads start after)
      (excuse : regime.Excuses error after) :
      Meets regime start reads (.error error after) expected

/-- One regime asks more of a computation than another. -/
structure Narrows (inner outer : Regime τ) : Prop where
  /-- What holds in every state implies what the other regime asks. -/
  valid {state : τ} : inner.Valid state → outer.Valid state
  /-- States are related as the other regime asks. -/
  leads {before after : τ} : inner.Leads before after → outer.Leads before after
  /-- Excused errors are excused in the other regime. -/
  excuses {error : EngineError} {state : τ} : inner.Excuses error state → outer.Excuses error state

theorem Narrows.refl (regime : Regime τ) : regime.Narrows regime :=
  ⟨id, id, id⟩

variable {regime inner outer : Regime τ}

theorem Meets.pure {start : τ} {reads : τ → β → α → Prop} {result : β} {value : α}
    (valid : regime.Valid start) (as_expected : reads start result value) :
    regime.Meets start reads ((Pure.pure result : EStateM EngineError τ β) start)
      (Pure.pure value) :=
  .ok valid (regime.refl start) as_expected

theorem Meets.after {start earlier : τ} {reads : τ → β → α → Prop}
    {outcome : EStateM.Result EngineError τ β} {expected : Except EngineError α}
    (leads : regime.Leads earlier start) (meets : regime.Meets start reads outcome expected) :
    regime.Meets earlier reads outcome expected := by
  cases meets with
  | ok valid later as_expected => exact .ok valid (regime.trans leads later) as_expected
  | failed valid later => exact .failed valid (regime.trans leads later)
  | excused valid later excuse => exact .excused valid (regime.trans leads later) excuse

/-- The regime of the first of two computations may ask more than that of the whole. -/
theorem Meets.bind {start : τ} {computation : EStateM EngineError τ β}
    {next : β → EStateM EngineError τ γ} {expected : Except EngineError α}
    {continued : α → Except EngineError δ} {reads : τ → β → α → Prop}
    {reads_next : τ → γ → δ → Prop} (narrows : inner.Narrows outer)
    (first : inner.Meets start reads (computation start) expected)
    (rest : ∀ result value after, expected = .ok value → inner.Valid after →
      inner.Leads start after → reads after result value →
      outer.Meets after reads_next (next result after) (continued value)) :
    outer.Meets start reads_next ((computation >>= next) start) (expected >>= continued) := by
  change outer.Meets start reads_next (EStateM.bind computation next start) _
  rw [EStateM.bind]
  generalize computation start = outcome at first ⊢
  cases first with
  | ok valid leads as_expected =>
      have continues := rest _ _ _ rfl valid leads as_expected
      change outer.Meets _ _ (next _ _) (continued _)
      generalize next _ _ = later_outcome at continues ⊢
      generalize continued _ = later_expected at continues ⊢
      cases continues with
      | ok later_valid later_leads later_expected =>
          exact .ok later_valid (outer.trans (narrows.leads leads) later_leads) later_expected
      | failed later_valid later_leads =>
          exact .failed later_valid (outer.trans (narrows.leads leads) later_leads)
      | excused later_valid later_leads excuse =>
          exact .excused later_valid (outer.trans (narrows.leads leads) later_leads) excuse
  | failed valid leads => exact .failed (narrows.valid valid) (narrows.leads leads)
  | excused valid leads excuse =>
      exact .excused (narrows.valid valid) (narrows.leads leads) (narrows.excuses excuse)

theorem Meets.mapM {ι : Type} {items : List ι} {run : ι → EStateM EngineError τ β}
    {meant : ι → Except EngineError α} {reads : β → α → Prop} {start : τ}
    (valid : regime.Valid start)
    (step : ∀ item ∈ items, ∀ state, regime.Valid state → regime.Leads start state →
      regime.Meets state (fun _ => reads) (run item state) (meant item)) :
    regime.Meets start (fun _ => List.Forall₂ reads) (items.mapM run start) (items.mapM meant) := by
  induction items generalizing start with
  | nil => exact .pure valid .nil
  | cons item rest induction =>
      rw [List.mapM_cons, List.mapM_cons]
      refine .bind (.refl regime) (step item List.mem_cons_self start valid (regime.refl start)) ?_
      intro result value after _ after_valid leads as_expected
      refine .bind (.refl regime) (induction after_valid fun other member state state_valid later =>
        step other (List.mem_cons_of_mem item member) state state_valid
          (regime.trans leads later)) ?_
      intro results values last _ last_valid _ all_expected
      exact .pure last_valid (.cons as_expected all_expected)

theorem Meets.valid {start : τ} {reads : τ → β → α → Prop}
    {outcome : EStateM.Result EngineError τ β} {expected : Except EngineError α}
    (meets : regime.Meets start reads outcome expected) : regime.Valid (finalState outcome) := by
  cases meets with
  | ok valid _ _ => exact valid
  | failed valid _ => exact valid
  | excused valid _ _ => exact valid

theorem Meets.leads {start : τ} {reads : τ → β → α → Prop}
    {outcome : EStateM.Result EngineError τ β} {expected : Except EngineError α}
    (meets : regime.Meets start reads outcome expected) :
    regime.Leads start (finalState outcome) := by
  cases meets with
  | ok _ leads _ => exact leads
  | failed _ leads => exact leads
  | excused _ leads _ => exact leads

/-- What is expected of a computation that gives a result. -/
theorem Meets.of_ok {start after : τ} {reads : τ → β → α → Prop} {result : β}
    {expected : Except EngineError α}
    (meets : regime.Meets start reads (.ok result after) expected) :
    ∃ value, expected = .ok value ∧ regime.Valid after ∧ regime.Leads start after ∧
      reads after result value := by
  cases meets with
  | ok valid leads as_expected => exact ⟨_, rfl, valid, leads, as_expected⟩

/-- What meets an expectation gives the expected outcome, unless its error is excused. -/
theorem Meets.agrees {start : τ} {view : β → α}
    {outcome : EStateM.Result EngineError τ β} {expected : Except EngineError α}
    (meets : regime.Meets start (fun _ result value => view result = value) outcome expected) :
    (outcomeOf outcome).map view = expected ∨
      ∃ error after, outcome = .error error after ∧ regime.Excuses error after := by
  cases meets with
  | ok _ _ same => exact .inl (congrArg Except.ok same)
  | failed => exact .inl rfl
  | excused _ _ excuse => exact .inr ⟨_, _, rfl, excuse⟩

theorem Meets.weaken {start : τ} {reads : τ → β → α → Prop} {weaker : τ → β → α → Prop}
    {outcome : EStateM.Result EngineError τ β} {expected : Except EngineError α}
    (narrows : inner.Narrows outer) (meets : inner.Meets start reads outcome expected)
    (implies : ∀ after result value, reads after result value → weaker after result value) :
    outer.Meets start weaker outcome expected := by
  cases meets with
  | ok valid leads as_expected =>
      exact .ok (narrows.valid valid) (narrows.leads leads) (implies _ _ _ as_expected)
  | failed valid leads => exact .failed (narrows.valid valid) (narrows.leads leads)
  | excused valid leads excuse =>
      exact .excused (narrows.valid valid) (narrows.leads leads) (narrows.excuses excuse)

/-- Whether it fails or not, a computation that starts in a given state ends in a valid one, and what
it gives is as described. -/
def Runs (regime : Regime τ) (start : τ) (gives : τ → β → Prop)
    (outcome : EStateM.Result EngineError τ β) : Prop :=
  regime.Meets start (fun after result _ => gives after result) outcome
    (.ok () : Except EngineError Unit)

theorem Runs.pure {start : τ} {gives : τ → β → Prop} {result : β} (valid : regime.Valid start)
    (given : gives start result) :
    regime.Runs start gives ((Pure.pure result : EStateM EngineError τ β) start) :=
  .ok valid (regime.refl start) given

/-- The regime of the first of two computations may ask more than that of the whole. -/
theorem Runs.bind_within {start : τ} {computation : EStateM EngineError τ β}
    {next : β → EStateM EngineError τ γ} {gives : τ → β → Prop} {gives_next : τ → γ → Prop}
    (narrows : inner.Narrows outer) (first : inner.Runs start gives (computation start))
    (rest : ∀ result after, inner.Valid after → inner.Leads start after → gives after result →
      outer.Runs after gives_next (next result after)) :
    outer.Runs start gives_next ((computation >>= next) start) := by
  have meets := Meets.bind narrows first (fun result _ after _ valid leads given =>
    rest result after valid leads given)
  exact meets

theorem Runs.bind {start : τ} {computation : EStateM EngineError τ β}
    {next : β → EStateM EngineError τ γ} {gives : τ → β → Prop} {gives_next : τ → γ → Prop}
    (first : regime.Runs start gives (computation start))
    (rest : ∀ result after, regime.Valid after → regime.Leads start after → gives after result →
      regime.Runs after gives_next (next result after)) :
    regime.Runs start gives_next ((computation >>= next) start) :=
  .bind_within (.refl regime) first rest

/-- Items are handled one after another; what each of them gives is as described. -/
theorem Runs.mapM {ι : Type} {items : List ι} {run : ι → EStateM EngineError τ β}
    {gives : ι → β → Prop} {start : τ} (valid : regime.Valid start)
    (step : ∀ item ∈ items, ∀ state, regime.Valid state → regime.Leads start state →
      regime.Runs state (fun _ result => gives item result) (run item state)) :
    regime.Runs start (fun _ results => List.Forall₂ gives items results)
      (items.mapM run start) := by
  induction items generalizing start with
  | nil => exact .pure valid .nil
  | cons item rest induction =>
      rw [List.mapM_cons]
      refine .bind (step item List.mem_cons_self start valid (regime.refl start)) ?_
      intro result after after_valid leads given
      refine .bind (induction after_valid fun other member state state_valid later =>
        step other (List.mem_cons_of_mem item member) state state_valid
          (regime.trans leads later)) ?_
      intro results last last_valid _ all_given
      exact .pure last_valid (.cons given all_given)

theorem Runs.after {start earlier : τ} {gives : τ → β → Prop}
    {outcome : EStateM.Result EngineError τ β} (leads : regime.Leads earlier start)
    (runs : regime.Runs start gives outcome) : regime.Runs earlier gives outcome :=
  Meets.after leads runs

theorem Runs.weaken {start : τ} {gives weaker : τ → β → Prop}
    {outcome : EStateM.Result EngineError τ β} (runs : regime.Runs start gives outcome)
    (implies : ∀ after result, gives after result → weaker after result) :
    regime.Runs start weaker outcome :=
  Meets.weaken (.refl regime) runs fun after result _ => implies after result

/-- What a regime asks of a computation is also asked by one that asks less. -/
theorem Runs.widen {start : τ} {gives : τ → β → Prop} {outcome : EStateM.Result EngineError τ β}
    (narrows : inner.Narrows outer) (runs : inner.Runs start gives outcome) :
    outer.Runs start gives outcome :=
  Meets.weaken narrows runs fun _ _ _ given => given

theorem Runs.valid {start : τ} {gives : τ → β → Prop} {outcome : EStateM.Result EngineError τ β}
    (runs : regime.Runs start gives outcome) : regime.Valid (finalState outcome) :=
  Meets.valid runs

/-- What a computation gives when it does not fail. -/
theorem Runs.of_ok {start after : τ} {gives : τ → β → Prop} {result : β}
    (runs : regime.Runs start gives (.ok result after)) :
    regime.Valid after ∧ regime.Leads start after ∧ gives after result := by
  obtain ⟨-, -, valid, leads, given⟩ := Meets.of_ok runs
  exact ⟨valid, leads, given⟩

end Regime

end Phrasing
