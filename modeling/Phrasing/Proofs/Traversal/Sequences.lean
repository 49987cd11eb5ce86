import Phrasing.Proofs.Traversal.Gathering
import Phrasing.Proofs.Traversal.Repetitions

/-!
# Sequences as chains

A sequence leads a reading through chains: the first step of a chain is chosen from what the first
child gives after the start, the next one from what the second child gives after that step, and so
on.  The sequence enters its children in the order of the chains, shorter chains first, and each
chain is entered once.  What it reports are exactly the chains with a step for every child, in the
order of their choices, each with the fields that the children offer on the way.
-/

namespace Phrasing

open Traversal

namespace Traversal

/-! ## Chains that are discovered -/

/-- A chain that is found step by step, when certain readings are given after each chain. -/
inductive Chain.Discovered (given : Chain → List Reading) : Chain → Prop
  | still : Discovered given .still
  | further {chain : Chain} {choice : Nat} {next : Reading} (discovered : Discovered given chain)
      (chosen : (given chain)[choice]? = some next) : Discovered given (chain.further choice next)

/-- The chains of a length that are discovered, in the order of their choices. -/
def chainsOfLength (given : Chain → List Reading) : Nat → List Chain
  | 0 => [.still]
  | length + 1 => furtherChains given (chainsOfLength given length)

/-- The chains of several lengths that are discovered, shorter ones first. -/
def chainsOfLengths (given : Chain → List Reading) (length count : Nat) : List Chain :=
  (List.range' length count).flatMap (chainsOfLength given)

section Discoveries

variable {given other : Chain → List Reading} {chain : Chain} {length count : Nat}

theorem mem_chainsOfLength :
    chain ∈ chainsOfLength given length ↔ chain.Discovered given ∧ chain.steps.length = length := by
  induction length generalizing chain with
  | zero =>
      rw [chainsOfLength, List.mem_singleton]
      constructor
      · rintro rfl
        exact ⟨.still, rfl⟩
      · rintro ⟨discovered, length_eq⟩
        cases discovered with
        | still => rfl
        | further => simp at length_eq
  | succ length induction =>
      rw [chainsOfLength, mem_furtherChains]
      constructor
      · rintro ⟨shorter, member, choice, next, chosen, rfl⟩
        obtain ⟨discovered, rfl⟩ := induction.mp member
        exact ⟨.further discovered chosen, Chain.length_further⟩
      · rintro ⟨discovered, length_eq⟩
        cases discovered with
        | still => simp [Chain.still] at length_eq
        | further discovered chosen =>
            exact ⟨_, induction.mpr ⟨discovered, by simpa using length_eq⟩, _, _, chosen, rfl⟩

theorem mem_chainsOfLengths :
    chain ∈ chainsOfLengths given length count ↔
      chain.Discovered given ∧ length ≤ chain.steps.length ∧ chain.steps.length < length + count := by
  rw [chainsOfLengths, List.mem_flatMap]
  constructor
  · rintro ⟨steps, counted, member⟩
    obtain ⟨discovered, rfl⟩ := mem_chainsOfLength.mp member
    exact ⟨discovered, List.mem_range'_1.mp counted⟩
  · rintro ⟨discovered, within⟩
    exact ⟨chain.steps.length, List.mem_range'_1.mpr within,
      mem_chainsOfLength.mpr ⟨discovered, rfl⟩⟩

theorem Chain.Discovered.length_choices (discovered : chain.Discovered given) :
    chain.choices.length = chain.steps.length := by
  induction discovered with
  | still => rfl
  | further _ _ induction => simp [Chain.further, induction]

theorem length_choices_of_mem_chainsOfLength (member : chain ∈ chainsOfLength given length) :
    chain.choices.length = length := by
  obtain ⟨discovered, rfl⟩ := mem_chainsOfLength.mp member
  exact discovered.length_choices

/-- A chain is discovered only after a chain of every smaller length. -/
theorem Chain.Discovered.exists_shorter (discovered : chain.Discovered given)
    (shorter : length ≤ chain.steps.length) :
    ∃ other : Chain, other.Discovered given ∧ other.steps.length = length := by
  induction discovered with
  | still => exact ⟨.still, .still, (Nat.le_zero.mp shorter).symm⟩
  | @further chain choice next discovered chosen induction =>
      rw [Chain.length_further] at shorter
      rcases Nat.le_succ_iff.mp shorter with earlier | rfl
      · exact induction earlier
      · exact ⟨chain.further choice next, .further discovered chosen, Chain.length_further⟩

theorem pairwise_chainsOfLength : (chainsOfLength given length).Pairwise Chain.Precedes := by
  induction length with
  | zero => exact List.pairwise_singleton _ _
  | succ length induction =>
      apply pairwise_furtherChains induction
      intro chain member
      exact length_choices_of_mem_chainsOfLength member

theorem nodup_chainsOfLength : (chainsOfLength given length).Nodup := by
  apply pairwise_chainsOfLength.imp
  rintro chain _ precedes rfl
  exact List.lex_irrefl Nat.lt_irrefl _ precedes

theorem pairwise_chainsOfLengths :
    (chainsOfLengths given length count).Pairwise fun chain other =>
      List.Shortlex (· < ·) chain.choices other.choices := by
  refine List.pairwise_flatMap.mpr ⟨fun steps _ => ?_, ?_⟩
  · apply pairwise_chainsOfLength.imp_of_mem
    intro chain other member other_member precedes
    apply List.Shortlex.of_lex _ precedes
    rw [length_choices_of_mem_chainsOfLength member,
      length_choices_of_mem_chainsOfLength other_member]
  · have increasing : (List.range' length count).Pairwise (· < ·) := List.pairwise_lt_range'
    apply increasing.imp
    intro steps more less chain member other other_member
    apply List.Shortlex.of_length_lt
    rwa [length_choices_of_mem_chainsOfLength member,
      length_choices_of_mem_chainsOfLength other_member]

theorem furtherChains_congr {chains : List Chain} (same : ∀ chain ∈ chains, given chain = other chain) :
    furtherChains given chains = furtherChains other chains := by
  apply List.flatMap_congr
  intro chain member
  rw [same chain member]

/-- The chains of a length depend on what is given after shorter chains only. -/
theorem chainsOfLength_congr
    (same : ∀ chain : Chain, chain.steps.length < length → given chain = other chain) :
    chainsOfLength given length = chainsOfLength other length := by
  induction length with
  | zero => rfl
  | succ length induction =>
      rw [chainsOfLength, chainsOfLength,
        ← induction fun chain shorter => same chain (Nat.lt_succ_of_lt shorter)]
      apply furtherChains_congr
      intro chain member
      apply same
      rw [(mem_chainsOfLength.mp member).2]
      exact Nat.lt_succ_self length

theorem chainsOfLengths_succ (given : Chain → List Reading) (length count : Nat) :
    chainsOfLengths given length (count + 1) =
      chainsOfLength given length ++ chainsOfLengths given (length + 1) count := by
  rw [chainsOfLengths, List.range'_succ, List.flatMap_cons]
  rfl

end Discoveries

/-- Distinct keys can be given any values, without a change for other keys. -/
theorem exists_map_eq {α β : Type} {keys : List α} {values : List β} (distinct : keys.Nodup)
    (length_eq : values.length = keys.length) (given : α → β) :
    ∃ changed : α → β, (∀ key, key ∉ keys → changed key = given key) ∧ keys.map changed = values := by
  classical
  induction keys generalizing values with
  | nil =>
      obtain rfl := List.length_eq_zero_iff.mp length_eq
      exact ⟨given, fun _ _ => rfl, rfl⟩
  | cons key rest induction =>
      cases values with
      | nil => simp at length_eq
      | cons value values =>
          obtain ⟨fresh, distinct⟩ := List.nodup_cons.mp distinct
          obtain ⟨changed, unchanged, map_eq⟩ :=
            induction distinct (Nat.succ.inj length_eq)
          refine ⟨Function.update changed key value, ?_, ?_⟩
          · intro other absent
            have other_ne : other ≠ key := by
              rintro rfl
              exact absent List.mem_cons_self
            rw [Function.update_of_ne other_ne]
            exact unchanged other fun member => absent (List.mem_cons_of_mem key member)
          · rw [List.map_cons, Function.update_self, ← map_eq]
            congr 1
            apply List.map_congr_left
            rintro other member
            apply Function.update_of_ne
            rintro rfl
            exact fresh member

/-! ## Running a sequence -/

section Runs

variable {ε τ α β γ : Type}

/-- What is done for each item in turn is all done, or fails at one of the items. -/
theorem mapM_ok_or_error (run : α → EStateM ε τ β) (items : List α) (start : τ) :
    (∃ results after, items.mapM run start = .ok results after ∧ results.length = items.length) ∨
      ∃ front item back results before error after, items = front ++ item :: back ∧
        front.mapM run start = .ok results before ∧ results.length = front.length ∧
        run item before = .error error after ∧ items.mapM run start = .error error after := by
  induction items generalizing start with
  | nil => exact .inl ⟨[], start, rfl, rfl⟩
  | cons item rest induction =>
      cases first : run item start with
      | error error after =>
          refine .inr ⟨[], item, rest, [], start, error, after, rfl, rfl, rfl, first, ?_⟩
          rw [List.mapM_cons, bind_of_error first]
      | ok result middle =>
          rcases induction middle with ⟨results, after, run_rest, length_eq⟩ |
            ⟨front, failing, back, results, before, error, after, rfl, run_front, length_eq, failed,
              run_rest⟩
          · refine .inl ⟨result :: results, after, ?_, by simp [length_eq]⟩
            rw [List.mapM_cons, bind_of_ok first, bind_of_ok run_rest]
            rfl
          · refine .inr ⟨item :: front, failing, back, result :: results, before, error, after, rfl,
              ?_, by simp [length_eq], failed, ?_⟩
            · rw [List.mapM_cons, bind_of_ok first, bind_of_ok run_front]
              rfl
            · rw [List.mapM_cons, bind_of_ok first, bind_of_error run_rest]

variable (child : Expansion → Reading → EStateM ε τ (List Reading)) (children : List Expansion)
  (start : Reading)

/-- The traversal of the child that comes after a chain. -/
def Chain.traversal (chain : Chain) : EStateM ε τ (List Reading) :=
  match children[chain.steps.length]? with
  | some node => child node ((chain.last start).withResult .null)
  | none => pure []

/-- The reading to which a chain leads, with the fields offered on the way. -/
def Chain.gathering (chain : Chain) : Reading × Props :=
  (chain.last start, Fields.ofList (offered children chain.results))

variable {children start}

theorem offered_further {chain : Chain} {node : Expansion}
    (here : children[chain.steps.length]? = some node) (choice : Nat) (next : Reading) :
    offered children (chain.further choice next).results =
      offered children chain.results ++ node.element.slot.offers next.result := by
  obtain ⟨inside, node_eq⟩ := List.getElem?_eq_some_iff.mp here
  have length_eq : chain.results.length = chain.steps.length := by simp [Chain.results]
  have split : children =
      children.take chain.steps.length ++ node :: children.drop (chain.steps.length + 1) := by
    rw [← node_eq, ← List.drop_eq_getElem_cons inside, List.take_append_drop]
  have front_length : (children.take chain.steps.length).length = chain.results.length := by
    rw [List.length_take, length_eq]
    omega
  have zip_eq : children.zip chain.results =
      (children.take chain.steps.length).zip chain.results := by
    conv => lhs; rw [split]
    rw [← List.append_nil chain.results, List.zip_append front_length]
    simp
  rw [Chain.results_further, offered, offered, zip_eq]
  conv => lhs; rw [split]
  rw [List.zip_append front_length]
  simp

/-- One child takes the chains of a length to those with one more step. -/
theorem gather_chains (child : Expansion → Reading → EStateM ε τ (List Reading)) {node : Expansion}
    {chains : List Chain}
    (here : ∀ chain ∈ chains, children[chain.steps.length]? = some node) :
    gather (readSlot child (node, node.element.slot)) (chains.map (Chain.gathering children start)) =
    chains.mapM (Chain.traversal child children start) >>= fun results =>
      pure ((chains.zip results).flatMap fun entry =>
        (entry.2.zipIdx.map fun out => entry.1.further out.2 out.1).map
          (Chain.gathering children start)) := by
  rw [gather_map, ← gather_eq_mapM (Chain.traversal child children start) fun chain outs =>
    (outs.zipIdx.map fun out => chain.further out.2 out.1).map (Chain.gathering children start)]
  apply gather_congr
  intro chain member
  have gathered (choice : Nat) (out : Reading) :
      (chain.further choice out).gathering children start =
        (out, node.element.slot.put out.result (Fields.ofList (offered children chain.results))) := by
    rw [Chain.gathering, Chain.last_further, offered_further (here chain member),
      Fields.ofList_append, Slot.put_eq_insertAll]
  rw [readSlot, Chain.traversal, here chain member]
  congr
  funext outs
  simp only [List.map_map, Function.comp_def, gathered]
  conv => lhs; rw [← List.zipIdx_map_fst 0 outs, List.map_map]
  rfl

/-- A computation enters chains one after another.  Either the traversals that come after the chains
give what they are said to give, and the computation goes on, or it fails with one of them. -/
inductive Enters (traversal : Chain → EStateM ε τ (List Reading)) (given : Chain → List Reading)
    (goesOn : τ → EStateM.Result ε τ α) (chains : List Chain) (before : τ) :
    EStateM.Result ε τ α → Prop
  | all {after : τ} (run : chains.mapM traversal before = .ok (chains.map given) after) :
      Enters traversal given goesOn chains before (goesOn after)
  | failed {front back : List Chain} {chain : Chain} {middle after : τ} {error : ε}
      (split : chains = front ++ chain :: back)
      (run : front.mapM traversal before = .ok (front.map given) middle)
      (fails : traversal chain middle = .error error after) :
      Enters traversal given goesOn chains before (.error error after)

/-- After some chains, more chains are entered. -/
theorem Enters.after_all {traversal : Chain → EStateM ε τ (List Reading)}
    {given : Chain → List Reading} {goesOn : τ → EStateM.Result ε τ α} {chains more : List Chain}
    {before middle : τ} {outcome : EStateM.Result ε τ α}
    (run : chains.mapM traversal before = .ok (chains.map given) middle)
    (later : Enters traversal given goesOn more middle outcome) :
    Enters traversal given goesOn (chains ++ more) before outcome := by
  have run_append {others : List Chain} {last : τ}
      (run_others : others.mapM traversal middle = .ok (others.map given) last) :
      (chains ++ others).mapM traversal before = .ok ((chains ++ others).map given) last := by
    rw [List.mapM_append, bind_of_ok run, bind_of_ok run_others, List.map_append]
    rfl
  cases later with
  | all run_more => exact .all (run_append run_more)
  | failed split run_front fails =>
      exact .failed (by rw [split, List.append_assoc]) (run_append run_front) fails

/-- One child is entered after each chain of a length, and takes the chains one step further. -/
theorem readSlots_enters (child : Expansion → Reading → EStateM ε τ (List Reading))
    (start : Reading) {length : Nat} (inside : length < children.length) (given : Chain → List Reading) (before : τ) :
    ∃ changed : Chain → List Reading,
      (∀ chain : Chain, chain.steps.length < length → changed chain = given chain) ∧
      Enters (Chain.traversal child children start) changed
        (readSlots child ((placed children).drop (length + 1))
          ((chainsOfLength changed (length + 1)).map (Chain.gathering children start)))
        (chainsOfLength changed length) before
        (readSlots child ((placed children).drop length)
          ((chainsOfLength given length).map (Chain.gathering children start)) before) := by
  have lengths : ∀ chain ∈ chainsOfLength given length, chain.steps.length = length :=
    fun chain member => (mem_chainsOfLength.mp member).2
  have here : ∀ chain ∈ chainsOfLength given length,
      children[chain.steps.length]? = some children[length] := by
    intro chain member
    rw [lengths chain member, List.getElem?_eq_getElem inside]
  have slots_eq : (placed children).drop length =
      (children[length], children[length].element.slot) :: (placed children).drop (length + 1) := by
    rw [List.drop_eq_getElem_cons (by simpa [placed] using inside)]
    simp [placed]
  rw [slots_eq, readSlots_cons, gather_chains child here]
  -- What is given after chains of this length can be set without a change for shorter chains.
  have unchanged {changed : Chain → List Reading} {some_chains : List Chain}
      (among : ∀ chain ∈ some_chains, chain ∈ chainsOfLength given length)
      (same : ∀ chain, chain ∉ some_chains → changed chain = given chain) :
      ∀ chain : Chain, chain.steps.length < length → changed chain = given chain := by
    intro chain shorter
    apply same
    intro member
    exact absurd (lengths chain (among chain member)) shorter.ne
  rcases mapM_ok_or_error (Chain.traversal child children start) (chainsOfLength given length)
    before with
    ⟨results, middle, run, length_eq⟩ |
    ⟨front, chain, back, results, middle, error, after, split, run_front, length_eq, fails, run⟩
  · obtain ⟨changed, same, map_eq⟩ := exists_map_eq nodup_chainsOfLength length_eq given
    have chains_eq : chainsOfLength changed length = chainsOfLength given length :=
      chainsOfLength_congr (unchanged (fun _ => id) same)
    refine ⟨changed, unchanged (fun _ => id) same, ?_⟩
    have next_eq : ((chainsOfLength given length).zip results).flatMap (fun entry =>
          (entry.2.zipIdx.map fun out => entry.1.further out.2 out.1).map
            (Chain.gathering children start)) =
        (chainsOfLength changed (length + 1)).map (Chain.gathering children start) := by
      rw [chainsOfLength, chains_eq, furtherChains, List.map_flatMap, ← map_eq,
        ← List.map_prod_left_eq_zip, List.flatMap_map]
    rw [bind_assoc, bind_of_ok run, pure_bind, next_eq]
    exact .all (by rw [chains_eq, run, map_eq])
  · have distinct : front.Nodup :=
      (List.nodup_append.mp (split ▸ nodup_chainsOfLength)).1
    have among : ∀ chain ∈ front, chain ∈ chainsOfLength given length :=
      fun chain member => split ▸ List.mem_append_left _ member
    obtain ⟨changed, same, map_eq⟩ := exists_map_eq distinct length_eq given
    refine ⟨changed, unchanged among same, ?_⟩
    rw [bind_assoc, bind_of_error run]
    exact .failed ((chainsOfLength_congr (unchanged among same)).trans split)
      (by rw [run_front, map_eq]) fails

/-- The children that are left are entered after each chain that is long enough, and take the chains
to those with a step for every child. -/
theorem readSlots_enters_all (child : Expansion → Reading → EStateM ε τ (List Reading))
    (start : Reading) {length count : Nat} (all : length + count = children.length) (given : Chain → List Reading)
    (before : τ) :
    ∃ changed : Chain → List Reading,
      (∀ chain : Chain, chain.steps.length < length → changed chain = given chain) ∧
      Enters (Chain.traversal child children start) changed
        (.ok ((chainsOfLength changed (length + count)).map (Chain.gathering children start)))
        (chainsOfLengths changed length count) before
        (readSlots child ((placed children).drop length)
          ((chainsOfLength given length).map (Chain.gathering children start)) before) := by
  induction count generalizing length given before with
  | zero =>
      refine ⟨given, fun _ _ => rfl, ?_⟩
      rw [List.drop_eq_nil_of_le (by simp [placed, ← all])]
      exact .all rfl
  | succ count induction =>
      obtain ⟨first, same_first, enters⟩ :=
        readSlots_enters child start (by omega : length < children.length) given before
      generalize readSlots child ((placed children).drop length) _ before = outcome at enters ⊢
      cases enters with
      | @all middle run =>
          obtain ⟨changed, same, enters⟩ :=
            induction (by omega : length + 1 + count = children.length) first middle
          have chains_eq : chainsOfLength changed length = chainsOfLength first length :=
            chainsOfLength_congr fun chain shorter => same chain (by omega)
          have map_eq : (chainsOfLength first length).map changed =
              (chainsOfLength first length).map first := by
            apply List.map_congr_left
            intro chain member
            apply same
            rw [(mem_chainsOfLength.mp member).2]
            exact Nat.lt_succ_self length
          refine ⟨changed, fun chain shorter => ?_, ?_⟩
          · rw [same chain (by omega), same_first chain shorter]
          · rw [chainsOfLengths_succ, ← Nat.add_assoc, Nat.add_right_comm]
            apply Enters.after_all _ enters
            rw [chains_eq, map_eq, run]
      | @failed front back chain middle after error split run fails =>
          have split_all : chainsOfLengths first length (count + 1) =
              front ++ chain :: (back ++ chainsOfLengths first (length + 1) count) := by
            rw [chainsOfLengths_succ, split, List.append_assoc, List.cons_append]
          exact ⟨first, same_first, .failed split_all run fails⟩

/-- What is computed from the result of a computation does not change which chains it enters. -/
theorem Enters.map {traversal : Chain → EStateM ε τ (List Reading)} {given : Chain → List Reading}
    {chains : List Chain} {before : τ} {computation : EStateM ε τ α} {result : α}
    (enters : Enters traversal given (.ok result) chains before (computation before))
    (compute : α → β) :
    Enters traversal given (.ok (compute result)) chains before
      ((computation >>= fun result => pure (compute result)) before) := by
  generalize run_eq : computation before = outcome at enters
  cases enters with
  | all run =>
      rw [bind_of_ok run_eq]
      exact .all run
  | failed split run fails =>
      rw [bind_of_error run_eq]
      exact .failed split run fails

/-- What a sequence reports of a chain: its last reading, with the fields gathered on the way. -/
def Chain.gatheringReport (node : Expansion) (start : Reading) (chain : Chain) : Reading :=
  (chain.last start).withResult (node.gathered chain.results)

/-- A sequence enters its children after the chains that are too short, and reports those with a step
for every child. -/
theorem readSequence_enters (child : Expansion → Reading → EStateM ε τ (List Reading))
    (node : Expansion) (start : Reading) (before : τ) :
    ∃ given : Chain → List Reading,
      Enters (Chain.traversal child node.children start) given
        (.ok ((chainsOfLength given node.children.length).map (Chain.gatheringReport node start)))
        (chainsOfLengths given 0 node.children.length) before
        (readSequence child (placed node.children) (node.element.prop? "value") start before) := by
  obtain ⟨given, -, enters⟩ := readSlots_enters_all child start
    (Nat.zero_add node.children.length) (fun _ => []) before
  refine ⟨given, ?_⟩
  let report : Reading × Props → Reading := fun entry =>
    entry.1.withResult (sequenceResult (placed node.children) (node.element.prop? "value") entry.2)
  have reports_eq : (chainsOfLength given node.children.length).map (Chain.gatheringReport node start) =
      ((chainsOfLength given node.children.length).map (Chain.gathering node.children start)).map
        report := by
    rw [List.map_map]
    apply List.map_congr_left
    intro chain _
    rw [Chain.gatheringReport, Expansion.gathered_eq_sequenceResult]
    rfl
  have start_eq : (chainsOfLength (fun _ => []) 0).map (Chain.gathering node.children start) =
      [(start, [])] := by
    simp [chainsOfLength, Chain.gathering, Chain.still, Chain.last, Chain.results, offered,
      Fields.ofList, Fields.insertAll]
  rw [Nat.zero_add, start_eq] at enters
  rw [reports_eq]
  exact enters.map fun entries => entries.map report

end Runs

end Traversal

namespace Engine

variable {σ : Type}

/-- A sequence enters its children after the chains that are too short for a report, each once and in
their order, and reports the chains with a step for every child, unless a child fails.  Where no chain
reaches a number of steps, no later child is entered.  A name that is offered more than once stands
for the last offer. -/
theorem sequence_reports_chains (engine : Engine σ) {room : Nat} {node : Expansion}
    (kind : node.element.kind = .primitive .sequence)
    (each : ∀ child ∈ node.children, child.element.Placed) (reading : Reading) (world : World σ) :
    ∃ (given : Chain → List Reading) (entered finished : List Chain),
      Enters (Chain.traversal (engine.traverseAt room) node.children reading) given
        (.ok (finished.map (Chain.gatheringReport node reading))) entered world
        (engine.traverseAt (room + 1) node reading world) ∧
      (∀ chain, chain ∈ entered ↔
        chain.Discovered given ∧ chain.steps.length < node.children.length) ∧
      (entered.Pairwise fun chain other => List.Shortlex (· < ·) chain.choices other.choices) ∧
      (∀ chain, chain ∈ finished ↔
        chain.Discovered given ∧ chain.steps.length = node.children.length) ∧
      finished.Pairwise Chain.Precedes ∧
      (∀ count, (∀ chain : Chain, chain.Discovered given → chain.steps.length ≠ count) →
        ∀ chain ∈ entered, chain.steps.length < count) ∧
      ∀ results name, (Fields.ofList (offered node.children results)).lookup name =
        (offered node.children results).reverse.lookup name := by
  obtain ⟨given, enters⟩ := readSequence_enters (engine.traverseAt room) node reading world
  refine ⟨given, chainsOfLengths given 0 node.children.length,
    chainsOfLength given node.children.length, ?_, ?_, pairwise_chainsOfLengths, ?_,
    pairwise_chainsOfLength, ?_, fun results => Fields.lookup_ofList _⟩
  · rw [engine.traverseAt_sequence kind each]
    exact enters
  · intro chain
    rw [mem_chainsOfLengths]
    simp
  · intro chain
    exact mem_chainsOfLength
  · intro count none_reach chain member
    by_contra far
    obtain ⟨shorter, discovered, length_eq⟩ :=
      (mem_chainsOfLengths.mp member).1.exists_shorter (not_lt.mp far)
    exact none_reach shorter discovered length_eq

/-- An engine without custom types. -/
private def reciting : Engine Unit where
  vocabulary := fun _ => {}
  processor := .identity

/-- A word of a rhyme, which is to be known by a name. -/
private def rhymeWord (text : String) (number : Int64) : Expansion :=
  .structural (.make 0 (.primitive .literal)
    [("id", .text "word"), ("text", .text text), ("value", .int number)] []) none []

/-- Two words of a rhyme under one name. -/
private def rhyme : Expansion :=
  .structural (.make 0 (.primitive .sequence) [] []) none [rhymeWord "twinkle" 1, rhymeWord "star" 2]

/-- The second word of the rhyme takes the place of the first. -/
theorem sequence_reports_chains_rhyme :
    ∃ (given : Chain → List Reading) (chain : Chain), chain.Discovered given ∧
      chain.steps.length = 2 ∧
      (Chain.gatheringReport rhyme (.ofInput "twinklestar") chain).text = some "" ∧
      (Chain.gatheringReport rhyme (.ofInput "twinklestar") chain).result =
        .map [("word", .int 2)] := by
  have each : ∀ child ∈ rhyme.children, child.element.Placed := by
    intro child member
    rcases List.mem_pair.mp member with rfl | rfl <;> exact ⟨trivial, trivial⟩
  obtain ⟨given, entered, finished, enters, -, -, reported, -⟩ :=
    @sequence_reports_chains _ reciting 1 rhyme rfl each (.ofInput "twinklestar") ⟨.empty, ()⟩
  obtain ⟨out, read, text_eq, result_eq⟩ : ∃ out,
      reciting.traverseAt 2 rhyme (.ofInput "twinklestar") ⟨.empty, ()⟩ =
        .ok [out] ⟨.empty, ()⟩ ∧ out.text = some "" ∧ out.result = .map [("word", .int 2)] :=
    ⟨_, rfl, by decide, rfl⟩
  rw [read] at enters
  generalize outcome_eq : EStateM.Result.ok [out] (⟨.empty, ()⟩ : World Unit) = outcome at enters
  cases enters with
  | failed _ _ _ => exact nomatch outcome_eq
  | all _ =>
      obtain ⟨reports_eq, -⟩ := EStateM.Result.ok.inj outcome_eq
      obtain ⟨chain, member, report_eq⟩ := List.mem_map.mp (reports_eq ▸ List.mem_singleton_self out)
      obtain ⟨discovered, length_eq⟩ := (reported chain).mp member
      exact ⟨given, chain, discovered, length_eq, report_eq ▸ text_eq, report_eq ▸ result_eq⟩

end Engine

end Phrasing
