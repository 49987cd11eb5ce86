import Phrasing.Proofs.Expansion.Recall
import Phrasing.Proofs.Traversal.Primitives

/-!
# Readings do not depend on the store

A parser reads an input with the store at hand: visits hand elements back, and their expansions are
remembered by content.  Whatever went on with the store before, and whichever elements share a content
hash, the same readings come out, or the same error; only the identities of nodes that were made on
the way may differ.
-/

namespace Phrasing

open Memo Relation

variable {σ : Type} {census : Census σ} {meaning : Meaning} {valid : World σ → Prop}
  {left right : World σ}

theorem Census.AlikeEach.forms_eq {α : Type} [Structured α] {first second : List α}
    (alike : census.AlikeEach left right first second) :
    first.map (Structured.form .structural) = second.map (Structured.form .structural) := by
  induction alike with
  | nil => rfl
  | cons related _ induction => rw [List.map_cons, List.map_cons, related.form_eq, induction]

namespace Engine

variable {engine : Engine σ}

/-- Visits read alike in valid worlds, as long as the traverser they are given does. -/
def VisitsAlike (engine : Engine σ) (census : Census σ) (valid : World σ → Prop) : Prop :=
  ∀ type visit, (engine.vocabulary type).visit = some visit → ∀ traverser : Traverser σ,
    census.Uniform valid traverser.traverse → census.Uniform valid traverser.traverseExpanded →
    census.Uniform valid fun reading context => visit reading context traverser

/-- In valid worlds, elements that are alike get expansions that are alike. -/
def ExpandsAlike (engine : Engine σ) (census : Census σ) (valid : World σ → Prop) : Prop :=
  ∀ ⦃left right : World σ⦄ ⦃element other : Element⦄, valid left → valid right →
    census.Alike left.ambient right.ambient element other →
    (census.reading valid).Twins left right
      (fun after_left after_right => census.Alike after_left.ambient after_right.ambient)
      (engine.expandAdHoc element left) (engine.expandAdHoc other right)

/-- Traversal reads alike, however deep visits enter it again. -/
theorem traverseAt_uniform (expansions : engine.ExpandsAlike census valid)
    (visits : engine.VisitsAlike census valid) (room : Nat) :
    census.Uniform valid (engine.traverseAt room) := by
  induction room with
  | zero =>
      intro left right node other first second valid_left valid_right nodes readings
      have name_eq : node.element.kindName = other.element.kindName := by
        rw [Element.kindName, Element.kindName, nodes.element.kind_eq]
      rw [traverseAt, traverseAt, name_eq]
      exact .throw _ valid_left valid_right
  | succ room induction =>
      intro left right node other first second valid_left valid_right nodes readings
      rw [traverseAt, traverseAt, nodes.element.kind_eq]
      cases other.element.kind with
      | primitive builtIn =>
          exact engine.readPrimitive_twins induction builtIn valid_left valid_right nodes readings
      | custom type =>
          cases present : (engine.vocabulary type).visit with
          | some visit =>
              -- The visit can only enter traversal again with less room, where it is uniform.
              simp only [present]
              refine twins_surfacing type .visit (visits type visit present _ ?_ induction valid_left
                valid_right readings nodes.visitContext)
              intro start other_start element partner reading other_reading valid_start valid_other
                elements readings
              refine .bind (expansions valid_start valid_other elements) ?_
              intro expansion other_expansion middle_left middle_right middle_valid_left
                middle_valid_right grows_left grows_right alike_expansions
              exact induction middle_valid_left middle_valid_right alike_expansions
                (readings.grow grows_left grows_right)
          | none =>
              simp only [present]
              have related := nodes.description
              generalize node.description? = body at related ⊢
              generalize other.description? = other_body at related ⊢
              cases related with
              | some bodies => exact induction valid_left valid_right bodies readings
              | none => exact .throw _ valid_left valid_right

/-- A parser reads alike if traversal does. -/
theorem parse_twins [Digest] {parser : Parser σ}
    (uniform : ∀ room, census.Uniform valid (parser.engine.traverseAt room)) (input : String)
    (valid_left : valid left) (valid_right : valid right)
    (knows_left : census.Knows left.ambient parser.root)
    (knows_right : census.Knows right.ambient parser.root) :
    (census.reading valid).Twins left right census.AlikeEach (parser.parse input left)
      (parser.parse input right) := by
  have start : census.Alike left.ambient right.ambient (Reading.ofInput input)
      (Reading.ofInput input) :=
    ⟨trivial, trivial, rfl⟩
  refine .map (uniform _ valid_left valid_right ⟨knows_left, knows_right, rfl⟩ start) ?_
  intro readings others after_left after_right _ _ alike
  have accepted : census.AlikeEach after_left after_right (readings.filter Reading.isAccepted)
      (others.filter Reading.isAccepted) := by
    refine alike.filter fun reading partner related => ?_
    simp only [Reading.isAccepted, Reading.isComplete, Reading.isSuggestion, related.rest_eq]
  split
  · exact accepted
  · exact List.forall₂_take _ accepted

section Trusted

variable {element other : Element}

theorem meantFresh_eq (elements : census.Alike left.ambient right.ambient element other) :
    engine.meantFresh meaning element = engine.meantFresh meaning other := by
  have form_eq : element.form .structural = other.form .structural := elements.form_eq
  rw [meantFresh, meantFresh, form_eq]

/-- Computations that read as the same expansion come out alike. -/
theorem twins_of_reads {outcome other_outcome : EStateM.Result EngineError (World σ) Expansion}
    {expected : Except EngineError Expansion}
    (reads : (census.reading valid).Meets left census.Reads outcome expected)
    (other_reads : (census.reading valid).Meets right census.Reads other_outcome expected) :
    (census.reading valid).Twins left right
      (fun after_left after_right => census.Alike after_left.ambient after_right.ambient)
      outcome other_outcome := by
  refine (reads.twins (fun _ _ => id) other_reads).weaken ?_
  rintro after_left after_right first second ⟨form, ⟨knows_first, first_eq⟩, knows_second, second_eq⟩
  exact ⟨knows_first, knows_second, first_eq.trans second_eq.symm⟩

variable (discerns : ∀ ambient, Focus.structural.Discerns census.number (census.Lists ambient))
  (orderly : engine.Orderly census) (computes : engine.Computes census meaning)

include discerns orderly computes

theorem expandsAlike_of_trusts : engine.ExpandsAlike census (engine.Trusts census meaning) := by
  intro left right element other trusts_left trusts_right elements
  have reads := expandAdHoc_reads discerns orderly computes trusts_left elements.knows_left
  rw [meantFresh_eq elements] at reads
  exact twins_of_reads reads
    (expandAdHoc_reads discerns orderly computes trusts_right elements.knows_right)

/-- An expansion from the store, if it is there, is like one that is computed anew. -/
theorem expandAdHoc_twins_fresh (trusts_left : engine.Trusts census meaning left)
    (trusts_right : engine.Trusts census meaning right)
    (elements : census.Alike left.ambient right.ambient element other) :
    (census.reading (engine.Trusts census meaning)).Twins left right
      (fun after_left after_right => census.Alike after_left.ambient after_right.ambient)
      (engine.expandAdHoc element left) (engine.expandFresh other right) := by
  have reads := expandAdHoc_reads discerns orderly computes trusts_left elements.knows_left
  rw [meantFresh_eq elements] at reads
  exact twins_of_reads reads (expandFresh_reads trusts_endures orderly computes trusts_right
    elements.knows_right)

end Trusted

section Sessions

variable [Digest]

/-- One operation on a shared store: callbacks go about their own affairs, an engine with the same
limit on depth compiles, the store is swept, or it is cleared. -/
inductive Serves (engine : Engine σ) (census : Census σ) : World σ → World σ → Prop
  | grow {world : World σ} {ambient : σ} (grows : census.Grows world.ambient ambient) :
      Serves engine census world { world with ambient }
  | compile {world : World σ} {config : Config} {grammar : Element}
      (same : config.maxDepth = engine.config.maxDepth)
      (knows : census.Knows world.ambient grammar) :
      Serves engine census world (finalState ((engine.withConfig config).compile grammar world))
  | sweep {world : World σ} : Serves engine census world { world with store := world.store.sweep.2 }
  | clear {world : World σ} : Serves engine census world { world with store := world.store.clear }

/-- The worlds that operations and readings lead to, starting with a store that remembers nothing. -/
inductive Session (engine : Engine σ) (census : Census σ) : World σ → Prop
  | start (ambient : σ) : Session engine census { store := .empty, ambient }
  | serve {world after : World σ} (session : Session engine census world)
      (serves : engine.Serves census world after) : Session engine census after
  | parse {world : World σ} (session : Session engine census world) {config : Config}
      (same : config.maxDepth = engine.config.maxDepth) {root : Expansion}
      (knows : census.Knows world.ambient root) (input : String) :
      Session engine census
        (finalState (Parser.parse { engine := engine.withConfig config, root } input world))

/-- Visits read alike in all worlds with a property that operations keep. -/
def VisitsUniform (engine : Engine σ) (census : Census σ) : Prop :=
  ∀ valid : World σ → Prop,
    (∀ world after, engine.Serves census world after → valid world → valid after) →
    engine.VisitsAlike census valid

theorem Trusts.serve (orderly : engine.Orderly census) (computes : engine.Computes census meaning)
    {world after : World σ} (serves : engine.Serves census world after)
    (trusts : engine.Trusts census meaning world) : engine.Trusts census meaning after := by
  cases serves with
  | grow grows => exact trusts_endures world _ trusts grows
  | @compile config grammar same knows =>
      have keeps := compile_keeps (orderly.withConfig config) (computes.withConfig config)
        trusts.kept knows
      rw [finalState_compile]
      exact ⟨keeps.kept, (trusts.recalls.subset keeps.adHoc).grow keeps.grows⟩
  | sweep => exact ⟨trusts.kept.sweep, trusts.recalls.subset fun _ member =>
      (List.mem_filter.mp member).1⟩
  | clear => exact ⟨Standard.wellKept_clear _ _, nofun⟩

variable (discerns : ∀ ambient, Focus.structural.Discerns census.number (census.Lists ambient))
  (orderly : engine.Orderly census) (computes : engine.Computes census meaning)
  (visits : engine.VisitsUniform census)

include discerns orderly computes visits

/-- With any configuration that has the same limit on depth, traversal is uniform in trusted worlds. -/
theorem traverseAt_uniform_of_trusts {config : Config}
    (same : config.maxDepth = engine.config.maxDepth) (room : Nat) :
    census.Uniform (engine.Trusts census meaning) ((engine.withConfig config).traverseAt room) := by
  have expansions : (engine.withConfig config).ExpandsAlike census (engine.Trusts census meaning) := by
    rw [← trusts_withConfig same]
    exact expandsAlike_of_trusts discerns (orderly.withConfig config) (computes.withConfig config)
  have alike : engine.VisitsAlike census (engine.Trusts census meaning) :=
    visits _ fun _ _ serves => Trusts.serve orderly computes serves
  exact traverseAt_uniform expansions alike room

theorem Session.trusts {world : World σ} (session : engine.Session census world) :
    engine.Trusts census meaning world := by
  induction session with
  | start ambient => exact ⟨Standard.wellKept_empty _, nofun⟩
  | serve _ serves induction => exact induction.serve orderly computes serves
  | @parse world _ config same root knows input induction =>
      exact (parse_twins (traverseAt_uniform_of_trusts discerns orderly computes visits same) input
        induction induction knows knows).valid

end Sessions

/-- The readings that a computation gives, without the identities of nodes, or its error. -/
def readingsOf {ε τ : Type} (outcome : EStateM.Result ε τ (List Reading)) :
    Except ε (List Reading) :=
  (outcomeOf outcome).map (List.map (Structured.form .structural))

theorem readingsOf_eq {ε : Type} {outcome other : EStateM.Result ε (World σ) (List Reading)}
    (twins : (census.reading valid).Twins left right census.AlikeEach outcome other) :
    readingsOf outcome = readingsOf other :=
  twins.agrees fun _ _ _ _ alike => Census.AlikeEach.forms_eq alike

/-- Whatever sessions went before, a parser gives the same readings or the same error, and reading with
an element that is handed over is the same with an expansion from the store and with a fresh one. -/
theorem parse_independent {σ : Type} [Digest] (engine : Engine σ) (census : Census σ)
    (meaning : Meaning)
    (unsigned : ∀ number, census.number number → number.toBits ≠ 0x8000000000000000)
    (orderly : engine.Orderly census) (computes : engine.Computes census meaning)
    (visits : engine.VisitsUniform census) {config : Config}
    (same : config.maxDepth = engine.config.maxDepth) {world after : World σ}
    (session : engine.Session census world) {grammar : Element}
    (knows : census.Knows world.ambient grammar) {parser : Parser σ}
    (run : (engine.withConfig config).compile grammar world = .ok parser after)
    {left right : World σ} (session_left : engine.Session census left)
    (session_right : engine.Session census right)
    (grows_left : census.Grows after.ambient left.ambient)
    (grows_right : census.Grows after.ambient right.ambient) :
    (∀ input, readingsOf (parser.parse input left) = readingsOf (parser.parse input right)) ∧
      ∀ room element reading, census.Knows left.ambient element →
        census.Knows right.ambient element → census.Knows left.ambient reading →
        census.Knows right.ambient reading →
        readingsOf ((parser.engine.expandAdHoc element >>= fun expansion =>
            parser.engine.traverseAt room expansion reading) left) =
          readingsOf ((parser.engine.expandFresh element >>= fun expansion =>
            parser.engine.traverseAt room expansion reading) right) := by
  have discerns (ambient : σ) : Focus.structural.Discerns census.number (census.Lists ambient) :=
    Census.discerns (fun first second first_number second_number equal =>
      Number.eq_of_same (unsigned first first_number) (unsigned second second_number) equal) ambient
  have trusts := session.trusts discerns orderly computes visits
  have trusts_left := session_left.trusts discerns orderly computes visits
  have trusts_right := session_right.trusts discerns orderly computes visits
  have knows_root := knows_compiled (orderly.withConfig config) (computes.withConfig config)
    trusts.kept knows run
  obtain ⟨parser_engine, root⟩ := parser
  obtain rfl : parser_engine = engine.withConfig config := engine_of_compile_ok run
  have uniform (room : Nat) :
      census.Uniform (engine.Trusts census meaning) ((engine.withConfig config).traverseAt room) :=
    traverseAt_uniform_of_trusts discerns orderly computes visits same room
  refine ⟨fun input => ?_, fun room element reading knows_left knows_right reading_left
    reading_right => ?_⟩
  · exact readingsOf_eq (parse_twins uniform input trusts_left trusts_right
      (knows_root.grow grows_left) (knows_root.grow grows_right))
  · rw [← trusts_withConfig same] at trusts_left trusts_right uniform
    refine readingsOf_eq (.bind (expandAdHoc_twins_fresh discerns (orderly.withConfig config)
      (computes.withConfig config) trusts_left trusts_right ⟨knows_left, knows_right, rfl⟩) ?_)
    intro expansion other after_left after_right valid_left valid_right later_left later_right alike
    have readings : census.Alike left.ambient right.ambient reading reading :=
      ⟨reading_left, reading_right, rfl⟩
    exact uniform room valid_left valid_right alike (readings.grow later_left later_right)

namespace Letter

/-- A type whose nodes read a letter that is not part of the compiled tree. -/
def reader : NodeType :=
  ⟨2, "Reader"⟩

/-- Reads on with the letter. -/
def readDraft (reading : Reading) (_context : VisitContext) (traverser : Traverser Nat) :
    Action Nat Fault (List Reading) :=
  passingOn (traverser.traverse draft reading)

/-- An engine for letters and their readers. -/
def aloud : Engine Nat where
  vocabulary type := if type = reader then { visit := some readDraft } else greeter.vocabulary type
  processor := .identity

/-- A node that reads the letter. -/
def readerNode : Element :=
  .ofType 5 reader

/-- The nodes of the letters, with one that reads them. -/
def directory : Census Nat :=
  { listing with
    nodeAt := fun count id => if id = 5 then some readerNode else listing.nodeAt count id }

private theorem knows_directory {α : Type} [Structured α] {count : Nat} {data : α}
    (knows : listing.Knows count data) : directory.Knows count data := by
  refine Structured.every_imp (fun node listed => ⟨?_, listed.2⟩) knows
  have present := listed.1
  have other : node.id ≠ 5 := by
    rintro here
    rw [here] at present
    cases present
  simp only [directory, if_neg other]
  exact present

private theorem grows_directory {count later : Nat} (le : count ≤ later) :
    directory.Grows count later := by
  intro id node listed
  simp only [directory, listing] at listed ⊢
  grind

private theorem describes_greeting {type : NodeType}
    {callback : DescribeContext → Action Nat Fault Element}
    (present : (aloud.vocabulary type).describe = some callback) :
    (greeter.vocabulary greeting).describe = some callback := by
  simp only [aloud, greeter] at present ⊢
  split at present
  · cases present
  · split at present
    · exact present
    · cases present

private theorem orderly_aloud : aloud.Orderly directory where
  observe {type _} present := by
    simp only [aloud, greeter] at present
    grind
  describe present := by
    have described := describes_greeting present
    have orderly_greet := orderly.describe described
    obtain rfl := Option.some.inj described
    refine ⟨orderly_greet.store, fun _ world => grows_directory (Nat.le_succ world.ambient), ?_⟩
    intro _ world after result _ run
    have knows_nothing : listing.Knows world.ambient
        ({ data := none, props := [], children := [] } : DescribeContext) :=
      ⟨Census.knows_none, trivial, trivial⟩
    exact knows_directory (orderly_greet.knows knows_nothing run)
  register present := nomatch present
  source present := nomatch present
  sourceFor present := nomatch present

private theorem computes_aloud : aloud.Computes directory greeterMeaning where
  observe {type _} present := by
    simp only [aloud, greeter] at present
    grind
  describe present := by
    obtain rfl := Option.some.inj (describes_greeting present)
    intro _ _ _
    rfl
  register present := nomatch present
  source present := nomatch present
  sourceFor present := nomatch present

private theorem visits_aloud : aloud.VisitsUniform directory := by
  intro valid _ type visit present traverser uniform _ left right first second context other
    valid_left valid_right readings _
  obtain rfl : readDraft = visit := by
    simp only [aloud, greeter] at present
    grind
  exact twins_passingOn (uniform valid_left valid_right
    ⟨knows_directory (knows_draft _), knows_directory (knows_draft _), rfl⟩ readings)

private theorem compile_reader :
    ∃ after, aloud.compile readerNode { store := .empty, ambient := 0 } =
        .ok { engine := aloud, root := .structural readerNode none [] } after ∧ after.ambient = 0 :=
  ⟨_, rfl, rfl⟩

private def rememberedByReading : Nat :=
  match aloud.compile readerNode { store := .empty, ambient := 0 } with
  | .ok parser after => (finalState (parser.parse "hello" after)).store.adHoc.length
  | .error _ _ => 0

private theorem rememberedByReading_eq : rememberedByReading = 1 := by
  decide +kernel

private theorem knows_reader (count : Nat) : directory.Knows count readerNode := by
  have childless : 0 < UInt32.size := by decide
  exact ⟨⟨rfl, childless⟩, trivial, trivial⟩

private theorem knows_reader_root (count : Nat) :
    directory.Knows count (Expansion.structural readerNode none []) :=
  ⟨knows_reader count, Census.knows_none, trivial⟩

end Letter

open Letter in
/-- Once it has read the letter, a parser has its expansion at hand, and reads it as before. -/
theorem parse_independent_letter :
    ∃ parser after, Letter.aloud.compile readerNode { store := .empty, ambient := 0 } =
        .ok parser after ∧
      (finalState (parser.parse "hello" after)).store.adHoc.length = 1 ∧
      readingsOf (parser.parse "hello" (finalState (parser.parse "hello" after))) =
        readingsOf (parser.parse "hello" after) := by
  obtain ⟨after, compiled, ambient_eq⟩ := compile_reader
  have remembered := rememberedByReading_eq
  rw [rememberedByReading, compiled] at remembered
  have start : Letter.aloud.Session directory { store := .empty, ambient := 0 } := .start 0
  have configured : (Letter.aloud.withConfig Letter.aloud.config).compile readerNode
      { store := .empty, ambient := 0 } =
        .ok { engine := Letter.aloud, root := .structural readerNode none [] } after :=
    compiled
  have session : Letter.aloud.Session directory after := by
    have served := start.serve (.compile (Eq.refl Letter.aloud.config.maxDepth) (knows_reader 0))
    rwa [configured] at served
  have later : Letter.aloud.Session directory (finalState (Parser.parse
      { engine := Letter.aloud, root := .structural readerNode none [] } "hello" after)) :=
    .parse session (Eq.refl Letter.aloud.config.maxDepth) (knows_reader_root _) "hello"
  have grows {count : Nat} : directory.Grows after.ambient count :=
    grows_directory (ambient_eq ▸ Nat.zero_le count)
  exact ⟨_, after, compiled, remembered, (parse_independent Letter.aloud directory greeterMeaning
    (fun _ number => number.1) orderly_aloud computes_aloud visits_aloud rfl start (knows_reader 0)
    configured later session grows grows).1 "hello"⟩

end Engine

end Phrasing
