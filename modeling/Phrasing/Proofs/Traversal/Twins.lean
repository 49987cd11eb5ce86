import Phrasing.Proofs.Traversal.Forms

/-!
# Runs that come out alike

Two runs of a computation in different worlds come out alike when they give data of the same form or
fail with the same error.  A computation is uniform when it does so whenever its arguments are alike;
what primitives make of readings is uniform if what their children make of them is.
-/

namespace Phrasing

open Traversal

/-- The regime of callbacks in valid worlds: the census grows, and no error is excused. -/
def Census.reading {σ : Type} (census : Census σ) (valid : World σ → Prop) : Regime (World σ) :=
  { census.running with Valid := valid }

/-- Two runs come out alike. -/
inductive Regime.Twins {τ ε β : Type} (regime : Regime τ) (left right : τ)
    (alike : τ → τ → β → β → Prop) :
    EStateM.Result ε τ β → EStateM.Result ε τ β → Prop
  | ok {first second : β} {after_left after_right : τ} (valid_left : regime.Valid after_left)
      (valid_right : regime.Valid after_right) (leads_left : regime.Leads left after_left)
      (leads_right : regime.Leads right after_right)
      (relates : alike after_left after_right first second) :
      Twins regime left right alike (.ok first after_left) (.ok second after_right)
  | failed {error : ε} {after_left after_right : τ} (valid_left : regime.Valid after_left)
      (valid_right : regime.Valid after_right) (leads_left : regime.Leads left after_left)
      (leads_right : regime.Leads right after_right) :
      Twins regime left right alike (.error error after_left) (.error error after_right)

namespace Regime

variable {τ ε β γ : Type} {regime : Regime τ} {left right : τ} {alike : τ → τ → β → β → Prop}

theorem Twins.pure {first second : β} (valid_left : regime.Valid left)
    (valid_right : regime.Valid right) (relates : alike left right first second) :
    regime.Twins left right alike ((Pure.pure first : EStateM ε τ β) left)
      ((Pure.pure second : EStateM ε τ β) right) :=
  .ok valid_left valid_right (regime.refl left) (regime.refl right) relates

theorem Twins.throw (error : ε) (valid_left : regime.Valid left)
    (valid_right : regime.Valid right) :
    regime.Twins left right alike ((MonadExcept.throw error : EStateM ε τ β) left)
      ((MonadExcept.throw error : EStateM ε τ β) right) :=
  .failed valid_left valid_right (regime.refl left) (regime.refl right)

theorem Twins.bind {computation other : EStateM ε τ β} {next other_next : β → EStateM ε τ γ}
    {alike_next : τ → τ → γ → γ → Prop}
    (first : regime.Twins left right alike (computation left) (other right))
    (rest : ∀ result other_result after_left after_right, regime.Valid after_left →
      regime.Valid after_right → regime.Leads left after_left →
      regime.Leads right after_right → alike after_left after_right result other_result →
      regime.Twins after_left after_right alike_next (next result after_left)
        (other_next other_result after_right)) :
    regime.Twins left right alike_next ((computation >>= next) left)
      ((other >>= other_next) right) := by
  change regime.Twins left right alike_next (EStateM.bind computation next left)
    (EStateM.bind other other_next right)
  rw [EStateM.bind, EStateM.bind]
  generalize computation left = outcome at first ⊢
  generalize other right = other_outcome at first ⊢
  cases first with
  | ok valid_left valid_right leads_left leads_right relates =>
      have continues := rest _ _ _ _ valid_left valid_right leads_left leads_right relates
      simp only
      generalize next _ _ = later at continues ⊢
      generalize other_next _ _ = other_later at continues ⊢
      cases continues with
      | ok later_valid_left later_valid_right later_left later_right later_relates =>
          exact .ok later_valid_left later_valid_right (regime.trans leads_left later_left)
            (regime.trans leads_right later_right) later_relates
      | failed later_valid_left later_valid_right later_left later_right =>
          exact .failed later_valid_left later_valid_right (regime.trans leads_left later_left)
            (regime.trans leads_right later_right)
  | failed valid_left valid_right leads_left leads_right =>
      exact .failed valid_left valid_right leads_left leads_right

theorem Twins.map {computation other : EStateM ε τ β} {compute other_compute : β → γ}
    {alike_next : τ → τ → γ → γ → Prop}
    (twins : regime.Twins left right alike (computation left) (other right))
    (relates : ∀ result other_result after_left after_right, regime.Leads left after_left →
      regime.Leads right after_right → alike after_left after_right result other_result →
      alike_next after_left after_right (compute result) (other_compute other_result)) :
    regime.Twins left right alike_next
      ((computation >>= fun result => Pure.pure (compute result)) left)
      ((other >>= fun result => Pure.pure (other_compute result)) right) :=
  .bind twins fun _ _ _ _ valid_left valid_right leads_left leads_right related =>
    .pure valid_left valid_right (relates _ _ _ _ leads_left leads_right related)

/-- Two computations that meet the same expectation come out alike, if no error is excused. -/
theorem Meets.twins {α : Type} {reads : τ → β → α → Prop}
    {outcome other : EStateM.Result EngineError τ β} {expected : Except EngineError α}
    (strict : ∀ error state, ¬ regime.Excuses error state)
    (meets : regime.Meets left reads outcome expected)
    (other_meets : regime.Meets right reads other expected) :
    regime.Twins left right
      (fun after_left after_right first second =>
        ∃ value, reads after_left first value ∧ reads after_right second value) outcome other := by
  cases meets with
  | ok valid_left leads_left reads_left =>
      cases other_meets with
      | ok valid_right leads_right reads_right =>
          exact .ok valid_left valid_right leads_left leads_right ⟨_, reads_left, reads_right⟩
      | excused _ _ excuse => exact absurd excuse (strict _ _)
  | failed valid_left leads_left =>
      cases other_meets with
      | failed valid_right leads_right => exact .failed valid_left valid_right leads_left leads_right
      | excused _ _ excuse => exact absurd excuse (strict _ _)
  | excused _ _ excuse => exact absurd excuse (strict _ _)

theorem Twins.weaken {weaker : τ → τ → β → β → Prop} {outcome other : EStateM.Result ε τ β}
    (twins : regime.Twins left right alike outcome other)
    (implies : ∀ after_left after_right first second, alike after_left after_right first second →
      weaker after_left after_right first second) :
    regime.Twins left right weaker outcome other := by
  cases twins with
  | ok valid_left valid_right leads_left leads_right relates =>
      exact .ok valid_left valid_right leads_left leads_right (implies _ _ _ _ relates)
  | failed valid_left valid_right leads_left leads_right =>
      exact .failed valid_left valid_right leads_left leads_right

theorem Twins.valid {outcome other : EStateM.Result ε τ β}
    (twins : regime.Twins left right alike outcome other) : regime.Valid (finalState outcome) := by
  cases twins with
  | ok valid_left _ _ _ _ => exact valid_left
  | failed valid_left _ _ _ => exact valid_left

/-- Computations that come out alike have outcomes with the same view, if alike results have it. -/
theorem Twins.agrees {view : β → γ} {outcome other : EStateM.Result ε τ β}
    (twins : regime.Twins left right alike outcome other)
    (same : ∀ after_left after_right first second, alike after_left after_right first second →
      view first = view second) :
    (outcomeOf outcome).map view = (outcomeOf other).map view := by
  cases twins with
  | ok _ _ _ _ relates => exact congrArg Except.ok (same _ _ _ _ relates)
  | failed => rfl

end Regime

variable {σ ε : Type} {census : Census σ} {valid : World σ → Prop} {left right : World σ}

theorem twins_surfacing {β : Type} {alike : World σ → World σ → β → β → Prop}
    {callback other : EStateM Fault (World σ) β} (type : NodeType) (stage : Stage)
    (twins : (census.reading valid).Twins left right alike (callback left) (other right)) :
    (census.reading valid).Twins left right alike (surfacing type stage callback left)
      (surfacing type stage other right) := by
  rw [surfacing, surfacing]
  generalize callback left = outcome at twins ⊢
  generalize other right = other_outcome at twins ⊢
  cases twins with
  | ok valid_left valid_right leads_left leads_right relates =>
      exact .ok valid_left valid_right leads_left leads_right relates
  | failed valid_left valid_right leads_left leads_right =>
      exact .failed valid_left valid_right leads_left leads_right

theorem twins_passingOn {β : Type} {alike : World σ → World σ → β → β → Prop}
    {computation other : EStateM EngineError (World σ) β}
    (twins : (census.reading valid).Twins left right alike (computation left) (other right)) :
    (census.reading valid).Twins left right alike (passingOn computation left)
      (passingOn other right) := by
  rw [passingOn, passingOn]
  generalize computation left = outcome at twins ⊢
  generalize other right = other_outcome at twins ⊢
  cases twins with
  | ok valid_left valid_right leads_left leads_right relates =>
      exact .ok valid_left valid_right leads_left leads_right relates
  | failed valid_left valid_right leads_left leads_right =>
      exact .failed valid_left valid_right leads_left leads_right

section Uniform

variable {α β γ : Type} [Structured α] [Structured β] [Structured γ]

/-- Several data of two worlds are alike, one by one. -/
def Census.AlikeEach (census : Census σ) (left right : World σ) : List α → List α → Prop :=
  List.Forall₂ (census.Alike left.ambient right.ambient)

/-- From arguments that are alike a computation gives results that are alike, in any valid worlds. -/
def Census.Uniform (census : Census σ) (valid : World σ → Prop) (run : α → β → Action σ ε (List γ)) :
    Prop :=
  ∀ ⦃left right : World σ⦄ ⦃first second : α⦄ ⦃argument other : β⦄, valid left → valid right →
    census.Alike left.ambient right.ambient first second →
    census.Alike left.ambient right.ambient argument other →
    (census.reading valid).Twins left right census.AlikeEach (run first argument left)
      (run second other right)

theorem Census.AlikeEach.grow {first second : List α} {after_left after_right : World σ}
    (alike : census.AlikeEach left right first second)
    (grows_left : census.Grows left.ambient after_left.ambient)
    (grows_right : census.Grows right.ambient after_right.ambient) :
    census.AlikeEach after_left after_right first second :=
  List.Forall₂.imp (fun _ _ related => related.grow grows_left grows_right) alike

theorem Census.AlikeEach.append {first second rest others : List α}
    (alike : census.AlikeEach left right first second)
    (alike_rest : census.AlikeEach left right rest others) :
    census.AlikeEach left right (first ++ rest) (second ++ others) :=
  List.rel_append alike alike_rest

theorem Census.AlikeEach.map {first second : List α} {compute other : α → β}
    (alike : census.AlikeEach left right first second)
    (related : ∀ datum partner, census.Alike left.ambient right.ambient datum partner →
      census.Alike left.ambient right.ambient (compute datum) (other partner)) :
    census.AlikeEach left right (first.map compute) (second.map other) := by
  rw [AlikeEach, List.forall₂_map_left_iff, List.forall₂_map_right_iff]
  exact List.Forall₂.imp (fun _ _ => related _ _) alike

/-- Data that are alike are kept or dropped alike. -/
theorem Census.AlikeEach.filter {first second : List α} {keep : α → Bool}
    (alike : census.AlikeEach left right first second)
    (same : ∀ datum partner, census.Alike left.ambient right.ambient datum partner →
      keep datum = keep partner) :
    census.AlikeEach left right (first.filter keep) (second.filter keep) := by
  induction alike with
  | nil => exact .nil
  | cons related _ induction =>
      rw [List.filter_cons, List.filter_cons, same _ _ related]
      split
      · exact .cons related induction
      · exact induction

theorem gather_twins {step other : α → Action σ ε (List β)} {items others : List α}
    (valid_left : valid left) (valid_right : valid right)
    (alike : census.AlikeEach left right items others)
    (twins : ∀ after_left after_right item partner, valid after_left → valid after_right →
      census.Grows left.ambient after_left.ambient →
      census.Grows right.ambient after_right.ambient →
      census.Alike after_left.ambient after_right.ambient item partner →
      (census.reading valid).Twins after_left after_right census.AlikeEach (step item after_left)
        (other partner after_right)) :
    (census.reading valid).Twins left right census.AlikeEach (gather step items left)
      (gather other others right) := by
  induction items generalizing others left right with
  | nil =>
      cases alike
      exact .pure valid_left valid_right .nil
  | cons item rest induction =>
      obtain ⟨partner, partners, related, related_rest, rfl⟩ :=
        List.forall₂_cons_left_iff.mp alike
      rw [gather, gather]
      refine .bind (twins left right item partner valid_left valid_right (.refl census _)
        (.refl census _) related) ?_
      intro first second middle_left middle_right middle_valid_left middle_valid_right grows_left
        grows_right alike_first
      refine .map (induction middle_valid_left middle_valid_right
        (Census.AlikeEach.grow related_rest grows_left grows_right)
        fun after_left after_right item partner after_valid_left after_valid_right later_left
          later_right => twins after_left after_right item partner after_valid_left
            after_valid_right (grows_left.trans later_left) (grows_right.trans later_right)) ?_
      intro more others after_left after_right later_left later_right alike_rest
      exact (alike_first.grow later_left later_right).append alike_rest

end Uniform

end Phrasing
