import Phrasing.Compilation

/-!
# Readings of primitives as lists

Where the children of a node are read without effects, so is the node, and its readings are those
computed with plain lists.  What a list of readings holds is said by relations on single readings:
a reading passes the slots of a sequence one after another, and goes through the rounds of a
repetition one after another.
-/

namespace Phrasing.Traversal

variable {m : Type → Type} [Monad m] [LawfulMonad m]

section Gather

variable {α β γ : Type}

theorem gather_pure {step : α → m (List β)} {found : α → List β} {items : List α}
    (effectless : ∀ item ∈ items, step item = pure (found item)) :
    gather step items = pure (items.flatMap found) := by
  induction items with
  | nil => rfl
  | cons item rest induction =>
      rw [gather, effectless item List.mem_cons_self,
        induction fun other member => effectless other (List.mem_cons_of_mem item member)]
      simp

theorem gather_append (step : α → m (List β)) (front back : List α) :
    gather step (front ++ back) =
      (gather step front >>= fun first => gather step back >>= fun rest => pure (first ++ rest)) := by
  induction front with
  | nil => simp [gather]
  | cons item front induction =>
      rw [List.cons_append, gather, gather, induction]
      simp only [bind_assoc, pure_bind, List.append_assoc]

/-- To gather what is made of each result is to get all results and then make of them what is
gathered. -/
theorem gather_eq_mapM (run : α → m β) (make : α → β → List γ) (items : List α) :
    gather (fun item => run item >>= fun result => pure (make item result)) items =
      items.mapM run >>= fun results =>
        pure ((items.zip results).flatMap fun entry => make entry.1 entry.2) := by
  induction items with
  | nil => simp [gather]
  | cons item rest induction =>
      rw [gather, induction, List.mapM_cons]
      simp only [bind_assoc, pure_bind, List.zip_cons_cons, List.flatMap_cons]

omit [LawfulMonad m] in
theorem gather_congr {step other : α → m (List β)} {items : List α}
    (same : ∀ item ∈ items, step item = other item) : gather step items = gather other items := by
  induction items with
  | nil => rfl
  | cons item rest induction =>
      rw [gather, gather, same item List.mem_cons_self,
        induction fun other member => same other (List.mem_cons_of_mem item member)]

omit [LawfulMonad m] in
theorem gather_map (step : β → m (List γ)) (view : α → β) (items : List α) :
    gather step (items.map view) = gather (fun item => step (view item)) items := by
  induction items with
  | nil => rfl
  | cons item rest induction => rw [List.map_cons, gather, gather, induction]

end Gather

section Sequence

variable {child : Expansion → Reading → m (List Reading)} {read : Expansion → Reading → List Reading}

/-- One child of a sequence takes an entry further. -/
def readSlot (child : Expansion → Reading → m (List Reading)) (place : Expansion × Slot)
    (entry : Reading × Props) : m (List (Reading × Props)) := do
  let outs ← child place.1 (entry.1.withResult .null)
  pure (outs.map fun out => (out, place.2.put out.result entry.2))

omit [LawfulMonad m] in
theorem readSlots_cons (place : Expansion × Slot) (rest : List (Expansion × Slot))
    (partials : List (Reading × Props)) :
    readSlots child (place :: rest) partials =
      (gather (readSlot child place) partials >>= readSlots child rest) :=
  rfl

theorem readSlots_nil (slots : List (Expansion × Slot)) : readSlots child slots [] = pure [] := by
  induction slots with
  | nil => rfl
  | cons place rest induction => rw [readSlots_cons, gather, pure_bind, induction]

/-- The children of a sequence take readings on in two parts, one after the other. -/
theorem readSlots_append (front back : List (Expansion × Slot)) (partials : List (Reading × Props)) :
    readSlots child (front ++ back) partials =
      (readSlots child front partials >>= readSlots child back) := by
  induction front generalizing partials with
  | nil => simp [readSlots]
  | cons place front induction =>
      rw [List.cons_append, readSlots_cons, readSlots_cons, bind_assoc]
      congr 1
      funext next
      exact induction next

/-- The readings through the children of a sequence, as a list. -/
def slotReadings (read : Expansion → Reading → List Reading) :
    List (Expansion × Slot) → List (Reading × Props) → List (Reading × Props)
  | [], partials => partials
  | (node, slot) :: rest, partials =>
      slotReadings read rest (partials.flatMap fun entry =>
        (read node (entry.1.withResult .null)).map fun out => (out, slot.put out.result entry.2))

theorem readSlots_eq_pure {slots : List (Expansion × Slot)}
    (effectless : ∀ entry ∈ slots, ∀ reading, child entry.1 reading = pure (read entry.1 reading))
    (partials : List (Reading × Props)) :
    readSlots child slots partials = pure (slotReadings read slots partials) := by
  induction slots generalizing partials with
  | nil => rfl
  | cons entry rest induction =>
      obtain ⟨node, slot⟩ := entry
      have first : ∀ reading, child node reading = pure (read node reading) :=
        effectless (node, slot) List.mem_cons_self
      rw [readSlots, slotReadings]
      simp only [first, pure_bind]
      rw [gather_pure fun _ _ => rfl, pure_bind]
      exact induction (fun other member => effectless other (List.mem_cons_of_mem _ member)) _

/-- A reading passes through the children of a sequence, one reading of each child after another. -/
inductive Passes (read : Expansion → Reading → List Reading) :
    List (Expansion × Slot) → Reading × Props → Reading × Props → Prop
  | nil {entry : Reading × Props} : Passes read [] entry entry
  | cons {node : Expansion} {slot : Slot} {rest : List (Expansion × Slot)}
      {entry final : Reading × Props} {out : Reading}
      (found : out ∈ read node (entry.1.withResult .null))
      (further : Passes read rest (out, slot.put out.result entry.2) final) :
      Passes read ((node, slot) :: rest) entry final

theorem mem_slotReadings {slots : List (Expansion × Slot)} {partials : List (Reading × Props)}
    {final : Reading × Props} :
    final ∈ slotReadings read slots partials ↔
      ∃ entry ∈ partials, Passes read slots entry final := by
  induction slots generalizing partials with
  | nil =>
      constructor
      · intro member
        exact ⟨final, member, .nil⟩
      · rintro ⟨entry, member, passes⟩
        cases passes
        exact member
  | cons head rest induction =>
      obtain ⟨node, slot⟩ := head
      rw [slotReadings, induction]
      constructor
      · rintro ⟨next, member, passes⟩
        obtain ⟨entry, entry_member, step⟩ := List.mem_flatMap.mp member
        obtain ⟨out, found, rfl⟩ := List.mem_map.mp step
        exact ⟨entry, entry_member, .cons found passes⟩
      · rintro ⟨entry, member, passes⟩
        cases passes with
        | cons found further =>
            exact ⟨_, List.mem_flatMap.mpr ⟨entry, member, List.mem_map_of_mem found⟩, further⟩

end Sequence

section Repetition

variable {only : Reading → m (List Reading)} {list : Reading → List Reading}

/-- One more repetition after each reading of a frontier, as a list. -/
def stepReadings (list : Reading → List Reading) (frontier : List (Reading × List Value)) :
    List (Reading × Reading × List Value) :=
  frontier.flatMap fun entry =>
    (list entry.1).map fun out => (entry.1, out, entry.2 ++ [out.result])

/-- The readings that a round reports. -/
def reported (least round : Nat) (steps : List (Reading × Reading × List Value)) : List Reading :=
  if least ≤ round then steps.map fun step => step.2.1.withResult (.list step.2.2) else []

/-- The readings that a round passes on to the next one, if there is a next one. -/
def passedOn (least remaining round : Nat) (steps : List (Reading × Reading × List Value)) :
    List (Reading × List Value) :=
  if remaining = 0 then []
  else (steps.filter fun step => round < least || progressed step.1 step.2.1).map (·.2)

/-- The readings through the rounds of a repetition, as a list. -/
def roundReadings (list : Reading → List Reading) (least : Nat) :
    Nat → Nat → List (Reading × List Value) → List Reading
  | 0, _, _ => []
  | remaining + 1, round, frontier =>
      reported least round (stepReadings list frontier) ++
        roundReadings list least remaining (round + 1)
          (passedOn least remaining round (stepReadings list frontier))

omit [LawfulMonad m] in
theorem readRounds_succ (least remaining round : Nat) (frontier : List (Reading × List Value)) :
    readRounds only least (remaining + 1) round frontier =
      (readStep only frontier >>= fun steps =>
        if (passedOn least remaining round steps).isEmpty then pure (reported least round steps)
        else
          readRounds only least remaining (round + 1) (passedOn least remaining round steps) >>=
            fun others => pure (reported least round steps ++ others)) :=
  rfl

theorem roundReadings_nil (least remaining round : Nat) :
    roundReadings list least remaining round [] = [] := by
  induction remaining generalizing round with
  | zero => rfl
  | succ remaining induction =>
      have nothing : passedOn least remaining round [] = [] := by simp [passedOn]
      simp [roundReadings, stepReadings, reported, nothing, induction]

theorem readRounds_eq_pure (effectless : ∀ reading, only reading = pure (list reading))
    (least remaining round : Nat) (frontier : List (Reading × List Value)) :
    readRounds only least remaining round frontier =
      pure (roundReadings list least remaining round frontier) := by
  induction remaining generalizing round frontier with
  | zero => rfl
  | succ remaining induction =>
      have steps : readStep only frontier = pure (stepReadings list frontier) := by
        apply gather_pure
        intro entry _
        rw [effectless, pure_bind]
      rw [readRounds, steps, pure_bind, roundReadings]
      simp only [induction]
      change (if (passedOn least remaining round (stepReadings list frontier)).isEmpty then _ else _) = _
      split
      · rename_i nothing
        rw [List.isEmpty_iff.mp nothing, roundReadings_nil, List.append_nil]
        rfl
      · rw [pure_bind]
        rfl

/-- A reading goes through rounds of a repetition and is reported after the last of them.  It goes
on after a round while the least number is not reached, and then only if the round progressed. -/
inductive GoesThrough (list : Reading → List Reading) (least : Nat) :
    Nat → Nat → Reading × List Value → Reading × List Value → Prop
  | last {remaining round : Nat} {entry : Reading × List Value} {out : Reading}
      (found : out ∈ list entry.1) (enough : least ≤ round) :
      GoesThrough list least (remaining + 1) round entry (out, entry.2 ++ [out.result])
  | further {remaining round : Nat} {entry final : Reading × List Value} {out : Reading}
      (found : out ∈ list entry.1) (extends_on : round < least ∨ progressed entry.1 out = true)
      (rest : GoesThrough list least remaining (round + 1) (out, entry.2 ++ [out.result]) final) :
      GoesThrough list least (remaining + 1) round entry final

theorem mem_stepReadings {frontier : List (Reading × List Value)}
    {step : Reading × Reading × List Value} :
    step ∈ stepReadings list frontier ↔
      ∃ entry ∈ frontier, ∃ out ∈ list entry.1, step = (entry.1, out, entry.2 ++ [out.result]) := by
  simp [stepReadings, eq_comm]

theorem mem_reported {least round : Nat} {steps : List (Reading × Reading × List Value)}
    {reading : Reading} :
    reading ∈ reported least round steps ↔
      least ≤ round ∧ ∃ step ∈ steps, reading = step.2.1.withResult (.list step.2.2) := by
  by_cases enough : least ≤ round
  · simp [reported, enough, eq_comm]
  · simp [reported, enough]

theorem mem_passedOn {least remaining round : Nat} {steps : List (Reading × Reading × List Value)}
    {entry : Reading × List Value} :
    entry ∈ passedOn least remaining round steps ↔
      remaining ≠ 0 ∧ ∃ step ∈ steps,
        (round < least ∨ progressed step.1 step.2.1 = true) ∧ entry = step.2 := by
  by_cases last : remaining = 0
  · simp [passedOn, last]
  · rw [passedOn, if_neg last, List.mem_map]
    constructor
    · rintro ⟨step, member, rfl⟩
      obtain ⟨member, extends_on⟩ := List.mem_filter.mp member
      exact ⟨last, step, member, by simpa using extends_on, rfl⟩
    · rintro ⟨-, step, member, extends_on, rfl⟩
      exact ⟨step, List.mem_filter.mpr ⟨member, by simpa using extends_on⟩, rfl⟩

theorem mem_roundReadings {least remaining round : Nat} {frontier : List (Reading × List Value)}
    {reading : Reading} :
    reading ∈ roundReadings list least remaining round frontier ↔
      ∃ entry ∈ frontier, ∃ final, GoesThrough list least remaining round entry final ∧
        reading = final.1.withResult (.list final.2) := by
  induction remaining generalizing round frontier with
  | zero =>
      simp only [roundReadings, List.not_mem_nil, false_iff]
      rintro ⟨entry, -, final, ⟨⟩, -⟩
  | succ remaining induction =>
      rw [roundReadings, List.mem_append, mem_reported, induction]
      constructor
      · rintro (⟨enough, step, member, rfl⟩ | ⟨next, member, final, through, rfl⟩)
        · obtain ⟨entry, entry_member, out, found, rfl⟩ := mem_stepReadings.mp member
          exact ⟨entry, entry_member, _, .last found enough, rfl⟩
        · obtain ⟨-, step, step_member, extends_on, rfl⟩ := mem_passedOn.mp member
          obtain ⟨entry, entry_member, out, found, rfl⟩ := mem_stepReadings.mp step_member
          exact ⟨entry, entry_member, final, .further found extends_on through, rfl⟩
      · rintro ⟨entry, member, final, through, rfl⟩
        cases through with
        | last found enough =>
            exact .inl ⟨enough, _, mem_stepReadings.mpr ⟨entry, member, _, found, rfl⟩, rfl⟩
        | further found extends_on rest =>
            refine .inr ⟨_, mem_passedOn.mpr ⟨?_, _, mem_stepReadings.mpr
              ⟨entry, member, _, found, rfl⟩, extends_on, rfl⟩, final, rest, rfl⟩
            rintro rfl
            cases rest

end Repetition

end Phrasing.Traversal
