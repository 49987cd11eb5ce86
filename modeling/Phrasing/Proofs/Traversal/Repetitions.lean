import Mathlib.Data.List.Shortlex
import Phrasing.Content.Xxh3
import Phrasing.Proofs.Expansion.Outcomes
import Phrasing.Proofs.Grammar.Nodes

/-!
# Repetitions as chains

A repetition leads a reading through chains: in a chain, each reading is one of those that the child
gives after the reading before.  The repetition goes through the chains round by round and gives up
a chain where it may not go on.  What it reports are exactly the chains within its bounds whose
steps progress from the least number on, shorter chains first, and chains of one length in the order
of their choices.
-/

namespace Phrasing

open Traversal

/-- Both readings have a rest of the input, and that of the later one is shorter. -/
def Reading.Shortens (before after : Reading) : Prop :=
  ∃ whole rest, before.text = some whole ∧ after.text = some rest ∧
    rest.utf8ByteSize < whole.utf8ByteSize

namespace Traversal

/-- A sequence of readings, each of them chosen by its index from those that a child gives. -/
structure Chain where
  /-- The index of what is chosen at each step. -/
  choices : List Nat
  /-- The reading that is chosen at each step. -/
  steps : List Reading

namespace Chain

/-- The chain without steps. -/
def still : Chain :=
  ⟨[], []⟩

/-- The chain with one more step. -/
def further (chain : Chain) (choice : Nat) (next : Reading) : Chain :=
  ⟨chain.choices ++ [choice], chain.steps ++ [next]⟩

/-- The reading to which a chain leads from a start. -/
def last (start : Reading) (chain : Chain) : Reading :=
  chain.steps.getLastD start

/-- The reading before the last step of a chain. -/
def beforeLast (start : Reading) (chain : Chain) : Reading :=
  chain.steps.dropLast.getLastD start

/-- The results on the way. -/
def results (chain : Chain) : List Value :=
  chain.steps.map Reading.result

/-- What a repetition reports of a chain: its last reading, with all results in a list. -/
def report (start : Reading) (chain : Chain) : Reading :=
  (chain.last start).withResult (.list chain.results)

/-- Each reading is chosen from those that the child gives after the reading before. -/
structure Follows (chain : Chain) (child : Reading → List Reading) (start : Reading) : Prop where
  /-- There is a choice for each step. -/
  length_eq : chain.choices.length = chain.steps.length
  /-- It is a choice among the readings of the child. -/
  chosen {index choice : Nat} {before next : Reading} :
    (start :: chain.steps)[index]? = some before → chain.choices[index]? = some choice →
    chain.steps[index]? = some next → (child before)[choice]? = some next

/-- From the least number on, each of the first steps shortens the rest of the input. -/
def Progresses (chain : Chain) (least count : Nat) (start : Reading) : Prop :=
  ∀ (index : Nat) (before next : Reading), index < count → least ≤ index + 1 →
    (start :: chain.steps)[index]? = some before → chain.steps[index]? = some next →
    before.Shortens next

/-- A chain that a repetition reports: it has as many steps as the bounds allow, and every step but
the last progresses from the least number on. -/
structure Repeats (chain : Chain) (child : Reading → List Reading) (bounds : Bounds)
    (start : Reading) : Prop where
  /-- The child leads through the chain. -/
  follows : chain.Follows child start
  /-- There are enough steps. -/
  least_le : bounds.least ≤ chain.steps.length
  /-- There are not too many steps. -/
  le_greatest : chain.steps.length ≤ bounds.greatest
  /-- The steps but the last progress. -/
  progresses : chain.Progresses bounds.least (chain.steps.length - 1) start

/-- A chain that a repetition extends: it can have more steps, and all it has progress from the least
number on. -/
structure Extends (chain : Chain) (child : Reading → List Reading) (bounds : Bounds)
    (start : Reading) : Prop where
  /-- The child leads through the chain. -/
  follows : chain.Follows child start
  /-- There can be more steps. -/
  lt_greatest : chain.steps.length < bounds.greatest
  /-- The steps progress. -/
  progresses : chain.Progresses bounds.least chain.steps.length start

variable {child : Reading → List Reading} {start next : Reading} {chain : Chain} {choice : Nat}
  {least length : Nat}

@[simp]
theorem last_further : (chain.further choice next).last start = next := by
  simp [last, further]

@[simp]
theorem beforeLast_further : (chain.further choice next).beforeLast start = chain.last start := by
  simp [beforeLast, further, last]

@[simp]
theorem results_further :
    (chain.further choice next).results = chain.results ++ [next.result] := by
  simp [results, further]

@[simp]
theorem length_further : (chain.further choice next).steps.length = chain.steps.length + 1 := by
  simp [further]

/-- The last reading stands at the end of the start and the steps. -/
theorem getElem?_length : (start :: chain.steps)[chain.steps.length]? = some (chain.last start) := by
  rw [last]
  rcases List.eq_nil_or_concat chain.steps with steps_eq | ⟨before, final, steps_eq⟩
  · simp [steps_eq]
  · simp [steps_eq]

theorem getElem?_further {index : Nat} (inside : index < chain.steps.length) :
    (chain.further choice next).steps[index]? = chain.steps[index]? := by
  rw [further, List.getElem?_append_left inside]

theorem getElem?_start_further {index : Nat} (inside : index ≤ chain.steps.length) :
    (start :: (chain.further choice next).steps)[index]? = (start :: chain.steps)[index]? := by
  have inside_all : index < (start :: chain.steps).length := Nat.lt_succ_of_le inside
  rw [further, ← List.cons_append, List.getElem?_append_left inside_all]

theorem follows_still : still.Follows child start :=
  ⟨rfl, fun _ present => nomatch present⟩

/-- A chain with one more step follows a child when the chain does and the step is chosen. -/
theorem follows_further :
    (chain.further choice next).Follows child start ↔
      chain.Follows child start ∧ (child (chain.last start))[choice]? = some next := by
  constructor
  · intro follows
    have length_eq : chain.choices.length = chain.steps.length := by
      simpa [further] using follows.length_eq
    refine ⟨⟨length_eq, ?_⟩, ?_⟩
    · intro index earlier before after before_eq choice_eq after_eq
      have inside : index < chain.steps.length := (List.getElem?_eq_some_iff.mp after_eq).1
      refine follows.chosen ((getElem?_start_further inside.le).trans before_eq) ?_
        ((getElem?_further inside).trans after_eq)
      rw [further, List.getElem?_append_left (length_eq ▸ inside), choice_eq]
    · refine follows.chosen ((getElem?_start_further le_rfl).trans getElem?_length) ?_ ?_
      · rw [further, ← length_eq, List.getElem?_concat_length]
      · rw [further, List.getElem?_concat_length]
  · rintro ⟨follows, chosen⟩
    refine ⟨by simp [further, follows.length_eq], ?_⟩
    intro index other before after before_eq choice_eq after_eq
    have bound : index < chain.steps.length + 1 := by
      simpa using (List.getElem?_eq_some_iff.mp after_eq).1
    rw [getElem?_start_further (Nat.le_of_lt_succ bound)] at before_eq
    rcases Nat.lt_succ_iff_lt_or_eq.mp bound with inside | rfl
    · rw [getElem?_further inside] at after_eq
      rw [further, List.getElem?_append_left (follows.length_eq ▸ inside)] at choice_eq
      exact follows.chosen before_eq choice_eq after_eq
    · rw [getElem?_length] at before_eq
      rw [further, List.getElem?_concat_length] at after_eq
      rw [further, ← follows.length_eq, List.getElem?_concat_length] at choice_eq
      obtain rfl := Option.some.inj before_eq
      obtain rfl := Option.some.inj after_eq
      obtain rfl := Option.some.inj choice_eq
      exact chosen

/-- A chain that follows a child has no steps, or one more step than a chain. -/
theorem Follows.eq_still_or_further (follows : chain.Follows child start) :
    chain = still ∨ ∃ shorter choice next, chain = further shorter choice next := by
  obtain ⟨choices, steps⟩ := chain
  have length_eq : choices.length = steps.length := follows.length_eq
  rcases List.eq_nil_or_concat steps with rfl | ⟨before, final, rfl⟩
  · obtain rfl := List.length_eq_zero_iff.mp length_eq
    exact .inl rfl
  · rcases List.eq_nil_or_concat choices with rfl | ⟨earlier, choice, rfl⟩
    · simp at length_eq
    · exact .inr ⟨⟨earlier, before⟩, choice, final, by simp [further]⟩

theorem progresses_further_of_le {count : Nat} (inside : count ≤ chain.steps.length) :
    (chain.further choice next).Progresses least count start ↔ chain.Progresses least count start := by
  have same {index : Nat} (early : index < count) :
      (start :: (chain.further choice next).steps)[index]? = (start :: chain.steps)[index]? ∧
        (chain.further choice next).steps[index]? = chain.steps[index]? :=
    ⟨getElem?_start_further (early.le.trans inside), getElem?_further (early.trans_le inside)⟩
  constructor
  · intro progresses index before after early late before_eq after_eq
    exact progresses index before after early late ((same early).1.trans before_eq)
      ((same early).2.trans after_eq)
  · intro progresses index before after early late before_eq after_eq
    exact progresses index before after early late ((same early).1.symm.trans before_eq)
      ((same early).2.symm.trans after_eq)

/-- The steps of a longer chain progress when those of the chain do, and the last one does if it
must. -/
theorem progresses_further :
    (chain.further choice next).Progresses least (chain.steps.length + 1) start ↔
      chain.Progresses least chain.steps.length start ∧
        (chain.steps.length + 1 < least ∨ (chain.last start).Shortens next) := by
  have before_eq : (start :: (chain.further choice next).steps)[chain.steps.length]? =
      some (chain.last start) := (getElem?_start_further le_rfl).trans getElem?_length
  have next_eq : (chain.further choice next).steps[chain.steps.length]? = some next := by
    rw [further, List.getElem?_concat_length]
  rw [← progresses_further_of_le le_rfl]
  constructor
  · intro progresses
    refine ⟨fun index before after early => progresses index before after (early.trans (by omega)),
      ?_⟩
    by_cases short : chain.steps.length + 1 < least
    · exact .inl short
    · exact .inr (progresses _ _ _ (Nat.lt_succ_self _) (Nat.le_of_not_lt short) before_eq next_eq)
  · rintro ⟨progresses, final⟩ index before after early late before_here after_here
    rcases Nat.lt_succ_iff_lt_or_eq.mp early with inside | rfl
    · exact progresses index before after inside late before_here after_here
    · obtain rfl := Option.some.inj (before_eq.symm.trans before_here)
      obtain rfl := Option.some.inj (next_eq.symm.trans after_here)
      exact final.resolve_left (Nat.not_lt.mpr late)

theorem progresses_zero : chain.Progresses least 0 start :=
  fun index _ _ early => absurd early (Nat.not_lt_zero index)

end Chain

/-! ## Chains of one length -/

/-- The chains with one more step than some chains, chosen from what is given after each. -/
def furtherChains (given : Chain → List Reading) (chains : List Chain) : List Chain :=
  chains.flatMap fun chain =>
    (given chain).zipIdx.map fun entry => chain.further entry.2 entry.1

theorem mem_furtherChains {given : Chain → List Reading} {chains : List Chain} {chain : Chain} :
    chain ∈ furtherChains given chains ↔
      ∃ shorter ∈ chains, ∃ choice next,
        (given shorter)[choice]? = some next ∧ chain = shorter.further choice next := by
  rw [furtherChains, List.mem_flatMap]
  constructor
  · rintro ⟨shorter, member, longer⟩
    obtain ⟨⟨next, choice⟩, chosen, rfl⟩ := List.mem_map.mp longer
    exact ⟨shorter, member, choice, next, List.mem_zipIdx_iff_getElem?.mp chosen, rfl⟩
  · rintro ⟨shorter, member, choice, next, chosen, rfl⟩
    exact ⟨shorter, member,
      List.mem_map.mpr ⟨(next, choice), List.mem_zipIdx_iff_getElem?.mpr chosen, rfl⟩⟩

section Lengths

variable (child : Reading → List Reading) (least : Nat) (start : Reading)

/-- The chains with one more step than some chains. -/
def longerChains (chains : List Chain) : List Chain :=
  furtherChains (fun chain => child (chain.last start)) chains

/-- Whether a chain may go on after its last step. -/
def Chain.goesOn (chain : Chain) : Bool :=
  chain.steps.length < least || progressed (chain.beforeLast start) (chain.last start)

/-- The chains of a length that may go on. -/
def openChains : Nat → List Chain
  | 0 => [.still]
  | length + 1 =>
      (longerChains child start (openChains length)).filter fun chain => chain.goesOn least start

/-- The chains of a length, whether they may go on or not. -/
def chainsOf : Nat → List Chain
  | 0 => [.still]
  | length + 1 => longerChains child start (openChains child least start length)

end Lengths

section Members

variable {child : Reading → List Reading} {least length : Nat} {start : Reading} {chain : Chain}
  {chains : List Chain}

theorem goesOn_further {choice : Nat} {next : Reading} :
    (chain.further choice next).goesOn least start = true ↔
      chain.steps.length + 1 < least ∨ (chain.last start).Shortens next := by
  rw [Chain.goesOn, Bool.or_eq_true, decide_eq_true_iff, Chain.length_further,
    Chain.beforeLast_further, Chain.last_further, progressed_iff]
  rfl

/-- The chains that may go on are those whose steps progress. -/
theorem mem_openChains :
    chain ∈ openChains child least start length ↔
      chain.steps.length = length ∧ chain.Follows child start ∧
        chain.Progresses least length start := by
  induction length generalizing chain with
  | zero =>
      rw [openChains, List.mem_singleton]
      constructor
      · rintro rfl
        exact ⟨rfl, Chain.follows_still, Chain.progresses_zero⟩
      · rintro ⟨length_eq, follows, -⟩
        rcases follows.eq_still_or_further with rfl | ⟨shorter, choice, next, rfl⟩
        · rfl
        · simp at length_eq
  | succ length induction =>
      rw [openChains, List.mem_filter, longerChains, mem_furtherChains]
      constructor
      · rintro ⟨⟨shorter, member, choice, next, chosen, rfl⟩, goes_on⟩
        obtain ⟨rfl, follows, progresses⟩ := induction.mp member
        exact ⟨Chain.length_further, Chain.follows_further.mpr ⟨follows, chosen⟩,
          Chain.progresses_further.mpr ⟨progresses, goesOn_further.mp goes_on⟩⟩
      · rintro ⟨length_eq, follows, progresses⟩
        rcases follows.eq_still_or_further with rfl | ⟨shorter, choice, next, rfl⟩
        · exact absurd length_eq (Nat.succ_ne_zero length).symm
        · obtain rfl : shorter.steps.length = length := by simpa using length_eq
          obtain ⟨follows, chosen⟩ := Chain.follows_further.mp follows
          obtain ⟨progresses, final⟩ := Chain.progresses_further.mp progresses
          exact ⟨⟨shorter, induction.mpr ⟨rfl, follows, progresses⟩, choice, next, chosen, rfl⟩,
            goesOn_further.mpr final⟩

/-- The chains of a length are those whose steps but the last progress. -/
theorem mem_chainsOf :
    chain ∈ chainsOf child least start length ↔
      chain.steps.length = length ∧ chain.Follows child start ∧
        chain.Progresses least (length - 1) start := by
  cases length with
  | zero =>
      change chain ∈ openChains child least start 0 ↔ _
      exact mem_openChains
  | succ length =>
      rw [chainsOf, longerChains, mem_furtherChains, Nat.add_sub_cancel]
      constructor
      · rintro ⟨shorter, member, choice, next, chosen, rfl⟩
        obtain ⟨rfl, follows, progresses⟩ := mem_openChains.mp member
        exact ⟨Chain.length_further, Chain.follows_further.mpr ⟨follows, chosen⟩,
          (Chain.progresses_further_of_le le_rfl).mpr progresses⟩
      · rintro ⟨length_eq, follows, progresses⟩
        rcases follows.eq_still_or_further with rfl | ⟨shorter, choice, next, rfl⟩
        · exact absurd length_eq (Nat.succ_ne_zero length).symm
        · obtain rfl : shorter.steps.length = length := by simpa using length_eq
          obtain ⟨follows, chosen⟩ := Chain.follows_further.mp follows
          exact ⟨shorter, mem_openChains.mpr ⟨rfl, follows,
            (Chain.progresses_further_of_le le_rfl).mp progresses⟩, choice, next, chosen, rfl⟩

/-- Where no chain of a length goes on, there are no longer chains. -/
theorem openChains_eq_nil {longer : Nat} (none_open : openChains child least start length = [])
    (le : length ≤ longer) : openChains child least start longer = [] := by
  induction le with
  | refl => exact none_open
  | step _ induction =>
      rw [openChains, induction, longerChains, furtherChains, List.flatMap_nil, List.filter_nil]

/-- One chain comes before another in the order of their choices. -/
def Chain.Precedes (chain other : Chain) : Prop :=
  List.Lex (· < ·) chain.choices other.choices

/-- Words of one length stay in lexicographic order when each is extended. -/
theorem lex_append_of_length_eq {left right : List Nat} (lex : List.Lex (· < ·) left right)
    (length_eq : left.length = right.length) (front back : List Nat) :
    List.Lex (· < ·) (left ++ front) (right ++ back) := by
  induction lex with
  | nil => exact absurd length_eq (Nat.succ_ne_zero _).symm
  | rel less => exact .rel less
  | cons _ induction => exact .cons (induction (Nat.succ.inj length_eq))

theorem pairwise_furtherChains {given : Chain → List Reading}
    (ordered : chains.Pairwise Chain.Precedes)
    (length_eq : ∀ chain ∈ chains, chain.choices.length = length) :
    (furtherChains given chains).Pairwise Chain.Precedes := by
  rw [furtherChains, List.pairwise_flatMap]
  constructor
  · intro chain _
    have increasing : (given chain).zipIdx.Pairwise fun left right => left.2 < right.2 := by
      rw [← List.pairwise_map (f := Prod.snd) (R := (· < ·)), List.zipIdx_map_snd]
      exact List.pairwise_lt_range'
    refine List.pairwise_map.mpr (increasing.imp fun less => ?_)
    exact List.Lex.append_left _ (.rel less) chain.choices
  · refine ordered.imp_of_mem fun {left right} left_member right_member precedes => ?_
    intro longer member other other_member
    obtain ⟨entry, -, rfl⟩ := List.mem_map.mp member
    obtain ⟨other_entry, -, rfl⟩ := List.mem_map.mp other_member
    exact lex_append_of_length_eq precedes
      ((length_eq left left_member).trans (length_eq right right_member).symm) _ _

theorem length_choices_of_mem (member : chain ∈ openChains child least start length) :
    chain.choices.length = length := by
  obtain ⟨length_eq, follows, -⟩ := mem_openChains.mp member
  exact follows.length_eq.trans length_eq

theorem pairwise_openChains : (openChains child least start length).Pairwise Chain.Precedes := by
  induction length with
  | zero => exact List.pairwise_singleton _ _
  | succ length induction =>
      exact (pairwise_furtherChains induction fun _ => length_choices_of_mem).filter _

theorem pairwise_chainsOf : (chainsOf child least start length).Pairwise Chain.Precedes := by
  cases length with
  | zero => exact List.pairwise_singleton _ _
  | succ length =>
      exact pairwise_furtherChains pairwise_openChains fun _ => length_choices_of_mem

end Members

section Reports

variable {child : Reading → List Reading} {bounds : Bounds} {start : Reading} {chain : Chain}

/-- The chains of several lengths that are long enough, shorter ones first. -/
def chainsFrom (child : Reading → List Reading) (least : Nat) (start : Reading)
    (length remaining : Nat) : List Chain :=
  ((List.range' length remaining).filter (least ≤ ·)).flatMap (chainsOf child least start)

/-- The chains that a repetition reports, in the order of its reports. -/
def repeatedChains (child : Reading → List Reading) (bounds : Bounds) (start : Reading) :
    List Chain :=
  chainsFrom child bounds.least start 0 (bounds.greatest + 1)

theorem chainsFrom_succ (child : Reading → List Reading) (least : Nat) (start : Reading)
    (length remaining : Nat) :
    chainsFrom child least start length (remaining + 1) =
      (if least ≤ length then chainsOf child least start length else []) ++
        chainsFrom child least start (length + 1) remaining := by
  rw [chainsFrom, chainsFrom, List.range'_succ, List.filter_cons]
  by_cases enough : least ≤ length
  · simp [enough]
  · simp [enough]

theorem chainsFrom_eq_nil {least length remaining : Nat}
    (none_open : openChains child least start length = []) :
    chainsFrom child least start (length + 1) remaining = [] := by
  refine List.flatMap_eq_nil_iff.mpr fun longer member => ?_
  have later : length + 1 ≤ longer :=
    (List.mem_range'_1.mp (List.mem_filter.mp member).1).1
  obtain ⟨before, rfl⟩ : ∃ before, longer = before + 1 := ⟨longer - 1, by omega⟩
  rw [chainsOf, openChains_eq_nil none_open (Nat.le_of_succ_le_succ later), longerChains,
    furtherChains, List.flatMap_nil]

theorem mem_repeatedChains :
    chain ∈ repeatedChains child bounds start ↔ chain.Repeats child bounds start := by
  rw [repeatedChains, chainsFrom, List.mem_flatMap]
  constructor
  · rintro ⟨length, counted, member⟩
    obtain ⟨rfl, follows, progresses⟩ := mem_chainsOf.mp member
    obtain ⟨within, enough⟩ := List.mem_filter.mp counted
    have few := (List.mem_range'_1.mp within).2
    exact ⟨follows, of_decide_eq_true enough, by omega, progresses⟩
  · intro repeats
    refine ⟨chain.steps.length, List.mem_filter.mpr ⟨?_, decide_eq_true repeats.least_le⟩,
      mem_chainsOf.mpr ⟨rfl, repeats.follows, repeats.progresses⟩⟩
    have few := repeats.le_greatest
    exact List.mem_range'_1.mpr (by omega)

/-- Reported chains come in the order of their lengths, and then of their choices. -/
theorem pairwise_repeatedChains :
    (repeatedChains child bounds start).Pairwise fun chain other =>
      List.Shortlex (· < ·) chain.choices other.choices := by
  have length_eq {length : Nat} {chain : Chain}
      (member : chain ∈ chainsOf child bounds.least start length) :
      chain.choices.length = length := by
    obtain ⟨length_eq, follows, -⟩ := mem_chainsOf.mp member
    exact follows.length_eq.trans length_eq
  refine List.pairwise_flatMap.mpr ⟨fun length _ => ?_, ?_⟩
  · refine pairwise_chainsOf.imp_of_mem fun member other_member precedes => ?_
    exact .of_lex ((length_eq member).trans (length_eq other_member).symm) precedes
  · have increasing : (List.range' 0 (bounds.greatest + 1)).Pairwise (· < ·) :=
      List.pairwise_lt_range'
    refine (increasing.filter _).imp fun less chain member other other_member => ?_
    exact .of_length_lt (by rwa [length_eq member, length_eq other_member])

end Reports

/-! ## Reading a repetition -/

section Reading

variable {τ : Type} {valid : τ → Prop} {only : Reading → EStateM EngineError τ (List Reading)}
  {child : Reading → List Reading} {bounds : Bounds} {start : Reading}

/-- The regime of a repetition.  An error is excused where the child fails at the end of a chain that
is extended. -/
def repeating (valid : τ → Prop) (only : Reading → EStateM EngineError τ (List Reading))
    (child : Reading → List Reading) (bounds : Bounds) (start : Reading) : Regime τ where
  Valid := valid
  Leads _ _ := True
  Excuses error after := ∃ chain before, Chain.Extends chain child bounds start ∧ valid before ∧
    only (chain.last start) before = .error error after
  refl _ := trivial
  trans _ _ := trivial

/-- The entry of a chain in a frontier. -/
def Chain.entry (start : Reading) (chain : Chain) : Reading × List Value :=
  (chain.last start, chain.results)

/-- The last step of a chain. -/
def Chain.lastStep (start : Reading) (chain : Chain) : Reading × Reading × List Value :=
  (chain.beforeLast start, chain.last start, chain.results)

/-- The steps of a round lead to the chains with one more step. -/
theorem stepReadings_entries (child : Reading → List Reading) (start : Reading)
    (chains : List Chain) :
    stepReadings child (chains.map (Chain.entry start)) =
      (longerChains child start chains).map (Chain.lastStep start) := by
  have step_eq (chain : Chain) (out : Reading) (index : Nat) :
      (chain.further index out).lastStep start =
        (chain.last start, out, chain.results ++ [out.result]) := by
    simp [Chain.lastStep]
  have each (chain : Chain) (readings : List Reading) (index : Nat) :
      (readings.zipIdx index).map
          (fun entry => (chain.further entry.2 entry.1).lastStep start) =
        readings.map fun out => (chain.last start, out, chain.results ++ [out.result]) := by
    induction readings generalizing index with
    | nil => rfl
    | cons out rest induction =>
        rw [List.zipIdx_cons, List.map_cons, List.map_cons, step_eq, induction]
  simp only [stepReadings, longerChains, furtherChains, List.flatMap_map, List.map_flatMap, List.map_map,
    Function.comp_def, each]
  rfl

/-- In valid states, the child gives what it is said to give, or fails. -/
structure Answers (valid : τ → Prop) (only : Reading → EStateM EngineError τ (List Reading))
    (child : Reading → List Reading) : Prop where
  /-- It keeps states valid. -/
  keeps (reading : Reading) {before : τ} :
    valid before → valid (finalState (only reading before))
  /-- It gives what it is said to give. -/
  gives {reading : Reading} {before after : τ} {readings : List Reading} :
    valid before → only reading before = .ok readings after → readings = child reading

theorem only_runs (answers : Answers valid only child) {chain : Chain}
    (extend : chain.Extends child bounds start) {state : τ} (valid_state : valid state) :
    (repeating valid only child bounds start).Runs state
      (fun _ readings => readings = child (chain.last start)) (only (chain.last start) state) := by
  have keeps := answers.keeps (chain.last start) valid_state
  cases run : only (chain.last start) state with
  | ok readings after =>
      rw [run] at keeps
      exact .ok keeps trivial (answers.gives valid_state run)
  | error error after =>
      rw [run] at keeps
      exact .excused keeps trivial ⟨chain, state, extend, valid_state, run⟩

/-- One round takes every chain of the frontier further by what the child gives. -/
theorem readStep_runs (answers : Answers valid only child) {chains : List Chain}
    (extend : ∀ chain ∈ chains, chain.Extends child bounds start) {state : τ}
    (valid_state : valid state) :
    (repeating valid only child bounds start).Runs state
      (fun _ steps => steps = stepReadings child (chains.map (Chain.entry start)))
      (readStep only (chains.map (Chain.entry start)) state) := by
  induction chains generalizing state with
  | nil => exact .pure valid_state rfl
  | cons chain rest induction =>
      have first_runs : (repeating valid only child bounds start).Runs state
          (fun _ steps => steps = (child (chain.last start)).map fun out =>
            (chain.last start, out, chain.results ++ [out.result]))
          ((only (chain.last start) >>= fun outs => pure (outs.map fun out =>
            (chain.last start, out, chain.results ++ [out.result]))) state) := by
        refine .bind (only_runs answers (extend chain List.mem_cons_self) valid_state) ?_
        rintro readings after after_valid - rfl
        exact .pure after_valid rfl
      refine .bind first_runs ?_
      rintro first middle middle_valid - rfl
      refine .bind (induction (fun other member =>
        extend other (List.mem_cons_of_mem chain member)) middle_valid) ?_
      rintro others after after_valid - rfl
      exact .pure after_valid rfl

/-- Whether a round passes a chain on depends on its last step. -/
theorem passedOn_lastSteps {length remaining : Nat} {chains : List Chain}
    (length_eq : ∀ chain ∈ chains, chain.steps.length = length) (more : remaining ≠ 0) (least : Nat) :
    passedOn least remaining length (chains.map (Chain.lastStep start)) =
      (chains.filter fun chain => chain.goesOn least start).map (Chain.entry start) := by
  rw [passedOn, if_neg more, List.filter_map, List.map_map]
  have same : ∀ chain ∈ chains, ((fun step : Reading × Reading × List Value =>
      length < least || progressed step.1 step.2.1) ∘ Chain.lastStep start) chain =
        chain.goesOn least start := by
    intro chain member
    rw [Chain.goesOn, length_eq chain member]
    rfl
  rw [List.filter_congr same]
  rfl

theorem reported_lastSteps (least length : Nat) (chains : List Chain) :
    reported least length (chains.map (Chain.lastStep start)) =
      (if least ≤ length then chains else []).map (Chain.report start) := by
  rw [reported]
  split
  · rw [List.map_map]
    rfl
  · rfl

/-- The rounds that remain report the longer chains. -/
theorem readRounds_runs (answers : Answers valid only child) {length remaining : Nat}
    (count : length + remaining = bounds.greatest) {state : τ} (valid_state : valid state) :
    (repeating valid only child bounds start).Runs state
      (fun _ readings => readings =
        (chainsFrom child bounds.least start (length + 1) remaining).map (Chain.report start))
      (readRounds only bounds.least remaining (length + 1)
        ((openChains child bounds.least start length).map (Chain.entry start)) state) := by
  induction remaining generalizing length state with
  | zero => exact .pure valid_state rfl
  | succ remaining induction =>
      have extend : ∀ chain ∈ openChains child bounds.least start length,
          chain.Extends child bounds start := by
        intro chain member
        obtain ⟨rfl, follows, progresses⟩ := mem_openChains.mp member
        exact ⟨follows, by omega, progresses⟩
      have length_eq : ∀ chain ∈ chainsOf child bounds.least start (length + 1),
          chain.steps.length = length + 1 := fun chain member => (mem_chainsOf.mp member).1
      rw [readRounds_succ, chainsFrom_succ, List.map_append, ← reported_lastSteps]
      refine .bind (readStep_runs answers extend valid_state) ?_
      rintro steps middle middle_valid - rfl
      rw [stepReadings_entries, ← chainsOf]
      by_cases more : remaining = 0
      · subst more
        exact .pure middle_valid (List.append_nil _).symm
      rw [passedOn_lastSteps length_eq more, chainsOf, ← openChains]
      split
      · next nothing =>
          -- The rounds end early when no chain goes on, and then there are no longer chains.
          have none_open : openChains child bounds.least start (length + 1) = [] := by
            simpa using nothing
          refine .pure middle_valid ?_
          rw [chainsFrom_eq_nil none_open, List.map_nil, List.append_nil]
      · refine .bind (induction (by omega) middle_valid) ?_
        rintro others after after_valid - rfl
        exact .pure after_valid rfl

/-- A repetition reports the chains within its bounds, unless the child fails on the way. -/
theorem readRepeat_runs (answers : Answers valid only child) {state : τ}
    (valid_state : valid state) :
    (repeating valid only child bounds start).Runs state
      (fun _ readings => readings = (repeatedChains child bounds start).map (Chain.report start))
      (readRepeat only bounds start state) := by
  rw [repeatedChains, chainsFrom_succ, List.map_append, readRepeat]
  refine .bind (readRounds_runs answers (Nat.zero_add bounds.greatest) valid_state) ?_
  rintro repeated after after_valid - rfl
  refine .pure after_valid ?_
  simp only [Nat.le_zero]
  split
  · rfl
  · rfl

end Reading

end Traversal

namespace Engine

variable {σ : Type}

/-- The readings of a repetition are the reports of its chains, unless the child fails at the end of
a chain that is extended; then the repetition fails with it. -/
theorem repeat_reports_chains (engine : Engine σ) {room : Nat} {node only : Expansion}
    {bounds : Bounds} {child : Reading → List Reading} {valid : World σ → Prop}
    (kind : node.element.kind = .primitive .repeat) (one : node.children = [only])
    (bounded : Bounds.ofElement engine.config.maxRepeat node.element = .ok bounds)
    (answers : Answers valid (engine.traverseAt room only) child) (reading : Reading)
    {world : World σ} (valid_world : valid world) :
    (∃ (chains : List Chain) (after : World σ),
      engine.traverseAt (room + 1) node reading world =
        .ok (chains.map (Chain.report reading)) after ∧
      (∀ chain, chain ∈ chains ↔ Chain.Repeats chain child bounds reading) ∧
      chains.Pairwise fun chain other =>
        List.Shortlex (· < ·) chain.choices other.choices) ∨
    ∃ (chain : Chain) (before : World σ) (error : EngineError) (after : World σ),
      Chain.Extends chain child bounds reading ∧ valid before ∧
        engine.traverseAt room only (chain.last reading) before = .error error after ∧
        engine.traverseAt (room + 1) node reading world = .error error after := by
  have read_eq : engine.traverseAt (room + 1) node reading =
      readRepeat (engine.traverseAt room only) bounds reading := by
    rw [traverseAt_primitive engine kind, readPrimitive, onlyChild, one, bounded]
    rfl
  have runs : (repeating valid (engine.traverseAt room only) child bounds reading).Runs world _ _ :=
    readRepeat_runs answers valid_world
  rw [read_eq]
  generalize readRepeat (engine.traverseAt room only) bounds reading world = outcome at runs ⊢
  cases runs with
  | @ok readings _ after _ _ readings_eq =>
      exact .inl ⟨repeatedChains child bounds reading, after, by rw [readings_eq],
        fun chain => mem_repeatedChains, pairwise_repeatedChains⟩
  | @excused error after _ _ _ excuse =>
      obtain ⟨chain, before, extend, valid_before, failed⟩ := excuse
      exact .inr ⟨chain, before, error, after, extend, valid_before, failed, rfl⟩

/-- An engine without custom types. -/
private def cheering : Engine Unit where
  vocabulary := fun _ => {}
  processor := .identity

/-- A shout. -/
private def shout : Expansion :=
  .structural (.literal 1 "hey") none []

/-- Two or three shouts. -/
private def cheers : Expansion :=
  .structural (.make 0 (.primitive .repeat) [("max", .int 3), ("min", .int 2)] []) none [shout]

/-- The readings of a shout. -/
private def shouted (reading : Reading) : List Reading :=
  Literal.read { text := "hey", score := 1.0, result := .null } reading

private theorem shout_answers : Answers (fun _ => True) (cheering.traverseAt 1 shout) shouted where
  keeps _ _ _ := trivial
  gives {reading before _ _} _ run := by
    have effectless : cheering.traverseAt 1 shout reading before = .ok (shouted reading) before := rfl
    rw [effectless] at run
    exact (EStateM.Result.ok.inj run).1.symm

/-- Two shouts are reported as a chain of two steps. -/
theorem repeat_reports_chains_cheers :
    ∃ (chains : List Chain) (after : World Unit),
      cheering.traverseAt 2 cheers (.ofInput "heyhey") ⟨.empty, ()⟩ =
        .ok (chains.map (Chain.report (.ofInput "heyhey"))) after ∧
      ∃ chain ∈ chains, chain.choices = [0, 0] ∧
        (chain.last (.ofInput "heyhey")).text = some "" := by
  have bounded : Bounds.ofElement cheering.config.maxRepeat cheers.element = .ok ⟨2, 3⟩ := rfl
  rcases cheering.repeat_reports_chains rfl rfl bounded shout_answers (.ofInput "heyhey")
    (trivial : (fun _ => True) (⟨.empty, ()⟩ : World Unit)) with
    ⟨chains, after, run, reported, -⟩ | ⟨chain, before, error, after, -, -, failed, -⟩
  · obtain ⟨once, first, rest⟩ : ∃ once, (shouted (.ofInput "heyhey"))[0]? = some once ∧
        once.text = some "hey" := ⟨_, rfl, by decide⟩
    obtain ⟨twice, second, nothing⟩ : ∃ twice, (shouted once)[0]? = some twice ∧
        twice.text = some "" := by
      have nothing_left : Text.after? "hey" "hey" = some "" := by decide
      simp [shouted, Literal.read, rest, nothing_left]
    refine ⟨chains, after, run, (Chain.still.further 0 once).further 0 twice, ?_, rfl, ?_⟩
    · refine (reported _).mpr ⟨?_, le_rfl, Nat.le_succ 2, ?_⟩
      · exact Chain.follows_further.mpr ⟨Chain.follows_further.mpr ⟨Chain.follows_still, first⟩,
          second⟩
      · intro index _ _ early late
        exact absurd early (Nat.not_lt.mpr (Nat.le_of_succ_le_succ late))
    · rw [Chain.last_further, nothing]
  · have effectless : cheering.traverseAt 1 shout (chain.last (.ofInput "heyhey")) before =
        .ok (shouted (chain.last (.ofInput "heyhey"))) before := rfl
    rw [effectless] at failed
    cases failed

end Engine

end Phrasing
