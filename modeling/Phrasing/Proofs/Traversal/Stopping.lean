import Phrasing.Proofs.Traversal.Accounting

/-!
# Repetitions stop

A repetition goes on with a reading after the least number of rounds only if its last round took
something from the rest of the input.  Nothing lengthens the rest of the input where no visit is
called.  So the frontier of a repetition is empty after as many rounds as the least number and the
bytes of the rest of the input together, and a greatest number beyond that has no effect.
-/

namespace Phrasing

open Relation Traversal

namespace Reading

/-- The number of bytes in the rest of the input; none for a completion. -/
def restSize (reading : Reading) : Nat :=
  reading.text.elim 0 String.utf8ByteSize

variable {before after : Reading}

/-- What goes on from a reading has no longer rest of the input. -/
theorem Continues.restSize_le (continues : before.Continues after) :
    after.restSize ≤ before.restSize := by
  obtain ⟨added, -, covers⟩ := continues
  rw [restSize, restSize]
  generalize before.text = text at covers ⊢
  generalize after.text = rest at covers ⊢
  cases covers with
  | within found split =>
      rw [← split]
      simp
  | beyond found missing split more => exact Nat.zero_le _
  | after missing => exact Nat.le_refl _

theorem restSize_lt_of_progressed (progress : progressed before after = true) :
    after.restSize < before.restSize := by
  obtain ⟨whole, rest, whole_eq, rest_eq, shorter⟩ := progressed_iff.mp progress
  rwa [restSize, restSize, whole_eq, rest_eq]

end Reading

/-- What comes after a computation matters only for what it returns. -/
theorem Returns.bind_congr {ε τ α β : Type} {gives : α → Prop} {computation : EStateM ε τ α}
    {next other : α → EStateM ε τ β} (returns : Returns gives computation)
    (same : ∀ result, gives result → next result = other result) :
    computation >>= next = computation >>= other := by
  funext start
  cases run : computation start with
  | ok result after =>
      rw [bind_of_ok run, bind_of_ok run, same result (returns start result after run)]
  | error error after => rw [bind_of_error run, bind_of_error run]

namespace Traversal

section Rounds

variable {m : Type → Type} [Monad m] {only : Reading → m (List Reading)}

/-- The readings with which a repetition goes on after a round, if it may have more rounds. -/
def extended (least round : Nat) (steps : List (Reading × Reading × List Value)) :
    List (Reading × List Value) :=
  (steps.filter fun step => round < least || progressed step.1 step.2.1).map (·.2)

/-- What the first rounds of a repetition report, and the frontier with which it goes on after them,
if it may have more rounds. -/
def readFirstRounds (only : Reading → m (List Reading)) (least : Nat) (reading : Reading) :
    Nat → m (List Reading × List (Reading × List Value))
  | 0 => pure ([], [(reading, [])])
  | rounds + 1 => do
      let (found, frontier) ← readFirstRounds only least reading rounds
      let steps ← readStep only frontier
      pure (found ++ reported least (rounds + 1) steps, extended least (rounds + 1) steps)

variable [LawfulMonad m]

/-- A repetition reports nothing more once its frontier is empty. -/
theorem readRounds_nil (least remaining round : Nat) :
    readRounds only least remaining round [] = pure [] := by
  cases remaining with
  | zero => rfl
  | succ remaining =>
      have no_steps : readStep only [] = pure [] := rfl
      have none_passed : passedOn least remaining round [] = [] := by simp [passedOn]
      rw [readRounds_succ, no_steps, pure_bind, none_passed]
      simp [reported]

/-- A round hands all it may extend to the rounds that remain. -/
theorem readRounds_extended (least remaining round : Nat) (frontier : List (Reading × List Value)) :
    readRounds only least (remaining + 1) round frontier =
      (readStep only frontier >>= fun steps =>
        readRounds only least remaining (round + 1) (extended least round steps) >>= fun others =>
          pure (reported least round steps ++ others)) := by
  rw [readRounds_succ]
  congr 1
  funext steps
  cases remaining with
  | zero => simp [passedOn, readRounds]
  | succ remaining =>
      have passed_eq : passedOn least (remaining + 1) round steps = extended least round steps := rfl
      rw [passed_eq]
      split
      · next nothing =>
          rw [List.isEmpty_iff.mp nothing, readRounds_nil, pure_bind, List.append_nil]
      · rfl

/-- All rounds are the first ones and those that remain after them. -/
theorem readRounds_add (least rounds remaining : Nat) (reading : Reading) :
    readRounds only least (rounds + remaining) 1 [(reading, [])] =
      (readFirstRounds only least reading rounds >>= fun first =>
        readRounds only least remaining (rounds + 1) first.2 >>= fun others =>
          pure (first.1 ++ others)) := by
  induction rounds generalizing remaining with
  | zero => simp [readFirstRounds]
  | succ rounds induction =>
      have count_eq : rounds + 1 + remaining = rounds + (remaining + 1) := by omega
      rw [count_eq, induction, readFirstRounds]
      simp only [readRounds_extended, bind_assoc, pure_bind, List.append_assoc]

end Rounds

section Frontiers

variable {ε τ : Type} {only : Reading → EStateM ε τ (List Reading)} {least : Nat} {reading : Reading}

/-- No reading that a child gives has a longer rest of the input. -/
def Shrinks (only : Reading → EStateM ε τ (List Reading)) : Prop :=
  ∀ reading, Returns (∀ out ∈ ·, out.restSize ≤ reading.restSize) (only reading)

theorem Carries.shrinks (carries : Carries only) : Shrinks only := by
  intro reading before readings after run out member
  have steps := carries reading before readings after run out member
  exact (Reading.continues_of_advances steps).restSize_le

/-- Enough rounds for a repetition: the least number, if it is not zero, and one for each byte of the
rest of the input. -/
def enoughRounds (least : Nat) (reading : Reading) : Nat :=
  max least 1 + reading.restSize

/-- What is left of the input in a frontier makes up for the rounds it took. -/
def Spends (least : Nat) (reading : Reading) (rounds : Nat) (frontier : List (Reading × List Value)) :
    Prop :=
  ∀ entry ∈ frontier,
    entry.1.restSize + max (rounds + 1) (max least 1) ≤ enoughRounds least reading

theorem spends_start : Spends least reading 0 [(reading, [])] := by
  intro entry member
  obtain rfl := List.mem_singleton.mp member
  dsimp only
  rw [enoughRounds]
  omega

/-- One round takes a byte from the rest of the input, or is among the least number of rounds. -/
theorem Spends.next {rounds : Nat} {frontier : List (Reading × List Value)}
    {steps : List (Reading × Reading × List Value)} (spends : Spends least reading rounds frontier)
    (shrunk : ∀ step ∈ steps, (∃ entry ∈ frontier, step.1 = entry.1) ∧
      step.2.1.restSize ≤ step.1.restSize) :
    Spends least reading (rounds + 1) (extended least (rounds + 1) steps) := by
  intro later member
  obtain ⟨step, kept, rfl⟩ := List.mem_map.mp member
  obtain ⟨among, goes_on⟩ := List.mem_filter.mp kept
  obtain ⟨⟨entry, entry_member, from_entry⟩, no_longer⟩ := shrunk step among
  have spent := spends entry entry_member
  rw [← from_entry] at spent
  -- While the least number is not reached, a round need not take anything: `max` makes up for it.
  rcases Bool.or_eq_true_iff.mp goes_on with early | progress
  · have few : rounds + 1 < least := of_decide_eq_true early
    omega
  · have shorter := Reading.restSize_lt_of_progressed progress
    omega

theorem returns_readStep (shrinks : Shrinks only) (frontier : List (Reading × List Value)) :
    Returns (∀ step ∈ ·, (∃ entry ∈ frontier, step.1 = entry.1) ∧
      step.2.1.restSize ≤ step.1.restSize) (readStep only frontier) := by
  refine returns_gather fun entry entry_member => ?_
  refine (shrinks entry.1).bind fun outs no_longer => returns_pure ?_
  intro step member
  obtain ⟨out, found, rfl⟩ := List.mem_map.mp member
  exact ⟨⟨entry, entry_member, rfl⟩, no_longer out found⟩

theorem returns_readFirstRounds (shrinks : Shrinks only) (rounds : Nat) :
    Returns (Spends least reading rounds ·.2) (readFirstRounds only least reading rounds) := by
  induction rounds with
  | zero => exact returns_pure spends_start
  | succ rounds induction =>
      refine induction.bind fun first spends => ?_
      refine (returns_readStep shrinks first.2).bind fun steps shrunk => ?_
      exact returns_pure (spends.next shrunk)

/-- After enough rounds, nothing is left to go on with. -/
theorem frontier_eq_nil (shrinks : Shrinks only) {rounds : Nat}
    (enough : enoughRounds least reading ≤ rounds) :
    Returns (·.2 = []) (readFirstRounds only least reading rounds) := by
  intro before first after run
  have spends := returns_readFirstRounds shrinks rounds before first after run
  apply List.eq_nil_iff_forall_not_mem.mpr
  intro entry member
  have spent := spends entry member
  omega

/-- Where there may be enough rounds, a repetition reports what enough rounds report. -/
theorem readRounds_enough (shrinks : Shrinks only) {greatest : Nat}
    (enough : enoughRounds least reading ≤ greatest) :
    readRounds only least greatest 1 [(reading, [])] =
      (readFirstRounds only least reading (enoughRounds least reading) >>= fun first =>
        pure first.1) := by
  obtain ⟨remaining, rfl⟩ := Nat.exists_eq_add_of_le enough
  rw [readRounds_add]
  refine (frontier_eq_nil shrinks (Nat.le_refl _)).bind_congr fun first nothing => ?_
  rw [nothing, readRounds_nil, pure_bind, List.append_nil]

end Frontiers

end Traversal

/-- A repetition of a node, with well-formed bounds. -/
structure Expansion.IsRepeatOf (node only : Expansion) : Prop where
  /-- The node repeats. -/
  kind : node.element.kind = .primitive .repeat
  /-- The other node is its only child. -/
  children : node.children = [only]
  /-- The least number is a count. -/
  least : Value.IsCount (node.element.prop? "min")
  /-- The greatest number is a count. -/
  greatest : Value.IsCount (node.element.prop? "max")

namespace Engine

variable {σ : Type}

/-- A repetition leaves its child out where none is needed, and else reads its rounds. -/
theorem traverseAt_repeat (engine : Engine σ) {room least greatest : Nat} {node only : Expansion}
    (repeats : node.IsRepeatOf only) (least_eq : node.element.leastRepeat = least)
    (greatest_eq : node.element.greatestRepeat engine.config.maxRepeat = greatest)
    (valid : max least 1 ≤ greatest) (reading : Reading) :
    engine.traverseAt (room + 1) node reading =
      (readRounds (engine.traverseAt room only) least greatest 1 [(reading, [])] >>= fun repeated =>
        pure ((if least = 0 then [reading.withResult (.list [])] else []) ++ repeated)) := by
  subst least_eq greatest_eq
  rw [traverseAt_primitive engine repeats.kind, readPrimitive, onlyChild, repeats.children,
    Element.bounds_ok repeats.least repeats.greatest (by omega) (by omega)]
  rfl

/-- A repetition of a silent expansion stops by itself.  Its traversal goes through first rounds,
whose frontier is empty when they are as many as the least number and the bytes of the rest of the
input, and greatest numbers that allow as many rounds make no difference, even where the expansion is
read without taking anything from the input. -/
theorem repeat_stops (engine : Engine σ) (room : Nat) {least greatest other_greatest : Nat}
    {node other only : Expansion} (silent : only.Silent engine.vocabulary)
    (repeats : node.IsRepeatOf only) (other_repeats : other.IsRepeatOf only)
    (least_eq : node.element.leastRepeat = least) (other_least_eq : other.element.leastRepeat = least)
    (greatest_eq : node.element.greatestRepeat engine.config.maxRepeat = greatest)
    (other_greatest_eq : other.element.greatestRepeat engine.config.maxRepeat = other_greatest)
    (reading : Reading) :
    (∀ rounds remaining, rounds + remaining = greatest → max least 1 ≤ greatest →
      engine.traverseAt (room + 1) node reading =
        (readFirstRounds (engine.traverseAt room only) least reading rounds >>= fun first =>
          readRounds (engine.traverseAt room only) least remaining (rounds + 1) first.2 >>= fun later =>
            pure ((if least = 0 then [reading.withResult (.list [])] else []) ++
              (first.1 ++ later)))) ∧
    (∀ rounds, max least 1 + reading.restSize ≤ rounds →
      Returns (·.2 = []) (readFirstRounds (engine.traverseAt room only) least reading rounds)) ∧
    (max least 1 + reading.restSize ≤ greatest → max least 1 + reading.restSize ≤ other_greatest →
      ∀ world, engine.traverseAt (room + 1) other reading world =
        engine.traverseAt (room + 1) node reading world) := by
  have shrinks : Shrinks (engine.traverseAt room only) := (carries_traverseAt silent room).shrinks
  refine ⟨?_, fun rounds enough => frontier_eq_nil shrinks enough, ?_⟩
  · rintro rounds remaining rfl valid
    rw [engine.traverseAt_repeat repeats least_eq greatest_eq valid, readRounds_add]
    simp only [bind_assoc, pure_bind]
  · intro enough other_enough world
    rw [engine.traverseAt_repeat repeats least_eq greatest_eq (by omega),
      engine.traverseAt_repeat other_repeats other_least_eq other_greatest_eq (by omega),
      readRounds_enough shrinks enough, readRounds_enough shrinks other_enough]

/-- An engine without custom types. -/
private def applauding : Engine Unit where
  vocabulary := fun _ => {}
  processor := .identity

/-- A clap, which may be left out. -/
private def clap : Expansion :=
  .structural (.make 1 (.primitive .optional) [] []) none [.structural (.literal 2 "clap") none []]

private theorem clap_silent : clap.Silent applauding.vocabulary := by
  refine .structural (fun _ _ => rfl) fun child member => ?_
  obtain rfl := List.mem_singleton.mp member
  exact .structural (fun _ _ => rfl) nofun

/-- Two claps or more, up to a number. -/
private def applause (most : Int64) : Expansion :=
  .structural (.make 0 (.primitive .repeat) [("max", .int most), ("min", .int 2)] []) none [clap]

/-- Ten rounds of applause are as many as a million millions. -/
theorem repeat_stops_applause :
    ∃ outs, applauding.traverseAt 3 (applause 1000000000000) (.ofInput "clapclap") ⟨.empty, ()⟩ =
      .ok outs ⟨.empty, ()⟩ ∧ outs.length = 10 := by
  have repeats (most : Int64) (count : 0 ≤ most.toInt) : (applause most).IsRepeatOf clap :=
    ⟨rfl, rfl, (by decide : 0 ≤ (2 : Int64).toInt), count⟩
  have least (most : Int64) : (applause most).element.leastRepeat = 2 := rfl
  have greatest (most : Int64) (maxRepeat : Nat) :
      (applause most).element.greatestRepeat maxRepeat = most.toInt.toNat := rfl
  have size : Reading.restSize (.ofInput "clapclap") = 8 := rfl
  obtain ⟨-, -, same⟩ := applauding.repeat_stops 2 clap_silent (repeats 10 (by decide))
    (repeats 1000000000000 (by decide)) (least 10) (least _) (greatest 10 _) (greatest _ _)
    (.ofInput "clapclap")
  rw [same (by rw [size]; decide) (by rw [size]; decide)]
  exact ⟨_, rfl, rfl⟩

end Engine

end Phrasing
