import Phrasing.Proofs.Expansion.Disciplines
import Phrasing.Proofs.Expansion.Entries
import Phrasing.Proofs.Expansion.Histories

/-!
# Pipelines of processors that share a store

Processors that are made from one another by adding sources share one store, and a stored output is
found again by the inputs of a node alone.  So a compilation may give data that the callbacks of
another processor computed earlier.  All data come from one of the processors that share the store.
-/

namespace Phrasing

open Memo Relation

/-- Processors that share a store, and what their callbacks compute. -/
structure Sharing (σ : Type) where
  /-- The capabilities of node types. -/
  vocabulary : Vocabulary σ
  /-- The processors that share the store. -/
  Includes : Processor σ → Prop
  /-- What descriptions compute. -/
  describe : NodeType → DescribeContext → Except Fault Element
  /-- What the callbacks of a compilation with a processor compute. -/
  meaning : Processor σ → Meaning
  /-- Descriptions are not a matter of the processor. -/
  describe_eq (processor : Processor σ) : (meaning processor).describe = describe

namespace Sharing

variable {σ : Type}

/-- The engine of a processor. -/
def engine (sharing : Sharing σ) (processor : Processor σ) : Engine σ where
  vocabulary := sharing.vocabulary
  processor := processor

/-- One of the processors computes the data from the structure of a node. -/
def Gives (sharing : Sharing σ) (type : NodeType) (element : Element) (data : Option Value) : Prop :=
  ∃ processor, sharing.Includes processor ∧
    (sharing.engine processor).meantData (sharing.meaning processor) type element = .ok data

/-- The expansion stems from the structure of an element: every node of a custom type has data that
one of the processors computes for it, and is described from these data. -/
inductive Stems (sharing : Sharing σ) : Element → Expansion → Prop
  | primitive {element : Element} {builtIn : Primitive} {children : List Expansion}
      (kind : element.kind = .primitive builtIn)
      (below : List.Forall₂ sharing.Stems element.children children) :
      Stems sharing element (.structural element none children)
  | kept {element : Element} {type : NodeType} {data : Option Value} {children : List Expansion}
      (kind : element.kind = .custom type) (bare : (sharing.vocabulary type).describe = none)
      (gives : sharing.Gives type element data)
      (below : List.Forall₂ sharing.Stems element.children children) :
      Stems sharing element (.structural element data children)
  | described {element output : Element} {type : NodeType} {data : Option Value} {body : Expansion}
      (kind : element.kind = .custom type)
      (present : (sharing.vocabulary type).describe.isSome = true)
      (gives : sharing.Gives type element data)
      (describes : surfaced type .describe (sharing.describe type
        { data, props := element.props, children := element.children }) = .ok output)
      (below : sharing.Stems output body) :
      Stems sharing element (.described element data body)

/-- The callbacks of all processors are orderly and pure. -/
structure Pure (sharing : Sharing σ) (census : Census σ) : Prop where
  /-- They are orderly. -/
  orderly {processor : Processor σ} :
    sharing.Includes processor → (sharing.engine processor).Orderly census
  /-- They are pure. -/
  computes {processor : Processor σ} :
    sharing.Includes processor →
    (sharing.engine processor).Computes census (sharing.meaning processor)

/-- Stored data are computed by one of the processors, and stored expansions stem from the nodes for
which they are stored. -/
def Fills (sharing : Sharing σ) (census : Census σ) (ambient : σ) (store : Store) : Prop :=
  store.Every
    (fun _ inputs data => census.Knows ambient inputs ∧ census.Knows ambient data ∧
      ∀ type, inputs.kind = .custom type →
        sharing.Gives type (Structured.form .structural inputs).element
          (some (data.form .structural)))
    fun _ inputs expansion => census.Knows ambient inputs ∧
      sharing.Stems (Structured.form .structural inputs).element (expansion.form .structural)

variable {sharing : Sharing σ} {census : Census σ}

theorem Fills.grow {before after : σ} {store : Store}
    (fills : sharing.Fills census before store) (grows : census.Grows before after) :
    sharing.Fills census after store :=
  fills.imp
    (fun _ _ _ ⟨knows_inputs, knows_data, gives⟩ =>
      ⟨knows_inputs.grow grows, knows_data.grow grows, gives⟩)
    fun _ _ _ ⟨knows_inputs, stems⟩ => ⟨knows_inputs.grow grows, stems⟩

theorem forms_of_children {element : Element} {children : List Expansion}
    (below : List.Forall₂ (fun child expansion =>
      sharing.Stems (child.form .structural) (expansion.form .structural)) element.children children) :
    List.Forall₂ sharing.Stems (element.form .structural).children
      (Expansion.forms .structural children) := by
  rw [Element.children_form, Element.formChildren_eq_map]
  generalize element.children = elements at below ⊢
  induction below with
  | nil => exact .nil
  | cons first _ induction => exact .cons first induction

variable (discerns : ∀ ambient, Focus.structural.Discerns census.number (census.Lists ambient))

/-- The discipline of processors that share a store. -/
def discipline : Discipline σ where
  Valid pass := sharing.Fills census pass.world.ambient pass.store
  Grows := census.Grows
  Input := census.Knows
  Datum ambient type element data := census.Knows ambient data ∧
    sharing.Gives type (element.form .structural) (Structured.form .structural data)
  Result element expansion :=
    sharing.Stems (element.form .structural) (expansion.form .structural)
  refl := .refl census
  trans := .trans
  input_grow grows knows := knows.grow grows
  datum_grow grows datum := ⟨datum.1.grow grows, datum.2⟩
  child knows member := knows.child member
  observations_filed fills := fills.observations_filed
  expansions_filed fills := fills.expansions_filed
  grow fills grows := fills.grow grows
  log _ fills := fills
  countObservations stats fills := fills.countObservations stats
  countExpansions stats fills := fills.countExpansions stats
  keepSubtree root fills := fills.keepSubtree root
  reuseData {_ _ type element entry _} fills knows kind found same puts := by
    -- Inputs do not name a processor: whichever filed the entry computed its data.
    obtain ⟨knows_inputs, knows_output, gives⟩ := fills.observation found
    refine ⟨fills.putObservation puts ⟨knows_inputs, knows_output, gives⟩,
      Census.knows_some.mpr knows_output, ?_⟩
    have forms := ObserveInputs.form_eq_of_beq (discerns _) knows_inputs knows.observeInputs same
    have kind_eq : entry.inputs.kind = .custom type :=
      (congrArg ObserveInputs.kind forms).trans kind
    have given := gives type kind_eq
    rwa [forms, ObserveInputs.element_form] at given
  storeData {_ _ type element data _ _ _} fills knows kind datum _ puts := by
    refine fills.putObservation puts
      ⟨knows.observeInputs, Census.knows_some.mp datum.1, fun other kind_eq => ?_⟩
    obtain rfl : type = other := Kind.custom.inj (kind.symm.trans kind_eq)
    rw [ObserveInputs.element_form]
    exact datum.2
  reuseExpansion {_ _ _ element data entry _} fills knows _ datum found same puts := by
    obtain ⟨knows_inputs, stems⟩ := fills.description found
    refine ⟨fills.putExpansion puts ⟨knows_inputs, stems⟩, ?_⟩
    rwa [DescribeInputs.form_eq_of_beq (discerns _) knows_inputs (knows.describeInputs datum.1) same,
      DescribeInputs.element_form] at stems
  storeExpansion {_ _ _ element data _ _ _ _} fills knows _ datum result _ puts := by
    refine fills.putExpansion puts ⟨knows.describeInputs datum.1, ?_⟩
    rw [DescribeInputs.element_form]
    exact result

variable {discerns}

/-- What meets an expectation gives what is expected, or fails. -/
theorem runs_of_meets {α β : Type} {world : World σ} {reads : World σ → β → α → Prop}
    {outcome : EStateM.Result EngineError (World σ) β} {expected : Except EngineError α}
    (meets : census.running.Meets world reads outcome expected) :
    (sharing.discipline discerns).running.Runs world
      (fun after result => ∃ value, expected = .ok value ∧ reads after result value) outcome := by
  cases meets with
  | ok _ grows as_expected => exact .ok trivial grows ⟨_, rfl, as_expected⟩
  | failed _ grows => exact .excused trivial grows trivial
  | excused _ _ excuse => exact excuse.elim

variable (discerns)

/-- Whatever its limits, a compilation with one of the processors follows the discipline. -/
theorem follows (pure : sharing.Pure census) {processor : Processor σ}
    (included : sharing.Includes processor) (config : Config) :
    ((sharing.engine processor).withConfig config).Follows (sharing.discipline discerns) where
  bare {_ type _} derivation kind _ := by
    have silent : (sharing.engine processor).meantDerivation? (sharing.meaning processor) type = none :=
      Engine.meantDerivation?_eq_none derivation
    refine ⟨Census.knows_none, processor, included, ?_⟩
    rw [Engine.meantData, silent]
    rfl
  derive derivation kind knows := by
    obtain ⟨meant, meant_eq, meets⟩ :=
      Engine.derivation_meets (pure.orderly included) (pure.computes included) derivation
    refine (runs_of_meets (meets _ _ knows)).weaken ?_
    rintro after data ⟨form, computed, knows_data, rfl⟩
    refine ⟨Census.knows_some.mpr knows_data, processor, included, ?_⟩
    rw [Engine.meantData, meant_eq]
    simp only [computed]
    rfl
  describe {type _ element data _} present kind knows datum := by
    refine (runs_of_meets (Engine.describing_meets (pure.orderly included) (pure.computes included)
      present knows datum.1)).weaken ?_
    rintro after output ⟨form, computed, knows_output, rfl⟩
    refine ⟨knows_output, fun body stems => ?_⟩
    rw [sharing.describe_eq] at computed
    exact .described ((Element.kind_form _ element).trans kind) (Option.isSome_of_eq_some present)
      datum.2 computed stems
  primitive {_ element _} kind below :=
    .primitive ((Element.kind_form _ element).trans kind) (forms_of_children below)
  kept {_ _ element _ _} kind bare datum below :=
    .kept ((Element.kind_form _ element).trans kind) bare datum.2 (forms_of_children below)

section Histories

variable [Digest]

/-- One operation on a shared store: callbacks go about their own affairs, one of the processors
compiles under any configuration, expansions by content come and go, or the store is cleared. -/
inductive Serves (sharing : Sharing σ) (census : Census σ) : World σ → World σ → Prop
  | grow {world : World σ} {ambient : σ} (grows : census.Grows world.ambient ambient) :
      Serves sharing census world { world with ambient }
  | compile {world : World σ} {processor : Processor σ} (included : sharing.Includes processor)
      (config : Config) {root : Element} (knows : census.Knows world.ambient root) :
      Serves sharing census world
        (finalState (((sharing.engine processor).withConfig config).compile root world))
  | remember {world : World σ} {adHoc : List (ContentHash × AdHocEntry)} {adHocStats : Stats} :
      Serves sharing census world { world with store := { world.store with adHoc, adHocStats } }
  | clear {world : World σ} :
      Serves sharing census world { world with store := world.store.clear }

/-- The worlds that operations and readings lead to, starting with a store that remembers nothing. -/
inductive History (sharing : Sharing σ) (census : Census σ) : World σ → Prop
  | start (ambient : σ) : History sharing census { store := .empty, ambient }
  | serve {world after : World σ} (history : History sharing census world)
      (serves : sharing.Serves census world after) : History sharing census after
  | parse {world : World σ} (history : History sharing census world) {processor : Processor σ}
      (included : sharing.Includes processor)
      (visits : (sharing.engine processor).VisitsStay (sharing.Serves census)) (config : Config)
      (root : Expansion) (input : String) :
      History sharing census (finalState (Parser.parse
        { engine := (sharing.engine processor).withConfig config, root } input world))

theorem Serves.fills
    (discerns : ∀ ambient, Focus.structural.Discerns census.number (census.Lists ambient))
    (pure : sharing.Pure census) {world after : World σ} (serves : sharing.Serves census world after)
    (fills : sharing.Fills census world.ambient world.store) :
    sharing.Fills census after.ambient after.store := by
  cases serves with
  | grow grows => exact fills.grow grows
  | @compile processor included config root knows =>
      have opening : (sharing.discipline discerns).Valid (Pass.opening world) := fills.begin
      obtain ⟨late, valid, ends, -⟩ :=
        Engine.expand_follows (follows discerns pure included config) opening knows
      rw [Engine.finalState_compile]
      rcases ends with ended | ⟨-, expansion, swept⟩
      · rw [ended]
        exact valid
      · rw [swept]
        exact valid.sweep
  | remember =>
      exact ⟨fills.observations_filed, fills.expansions_filed, fills.observation, fills.description⟩
  | clear => exact Store.every_clear

theorem parse_serves (pure : sharing.Pure census) {processor : Processor σ}
    (included : sharing.Includes processor)
    (visits : (sharing.engine processor).VisitsStay (sharing.Serves census)) (config : Config)
    (root : Expansion) (input : String) :
    Stays (sharing.Serves census) (Parser.parse
      { engine := (sharing.engine processor).withConfig config, root } input) :=
  Engine.stays_parse (fun element => Engine.stays_expandAdHoc
    (((pure.orderly included).withConfig config).callbacksStay .grow) .remember element) visits input

theorem History.fills
    (discerns : ∀ ambient, Focus.structural.Discerns census.number (census.Lists ambient))
    (pure : sharing.Pure census) {world : World σ} (history : sharing.History census world) :
    sharing.Fills census world.ambient world.store := by
  induction history with
  | start ambient => exact Store.every_empty
  | serve _ serves induction => exact serves.fills discerns pure induction
  | @parse world _ processor included visits config root input induction =>
      have steps := parse_serves pure included visits config root input world
      generalize finalState _ = after at steps ⊢
      induction steps with
      | refl => exact induction
      | tail _ serves fills => exact serves.fills discerns pure fills

/-- After any history of compilations with processors that share a store, of readings and clearings,
all data that a compilation gives are computed by one of these processors, though not always by its
own.  With a single processor they are its own. -/
theorem compile_stems (sharing : Sharing σ) (census : Census σ)
    (unsigned : ∀ number, census.number number → number.toBits ≠ 0x8000000000000000)
    (pure : sharing.Pure census) {world : World σ} (history : sharing.History census world)
    {processor : Processor σ} (included : sharing.Includes processor) (config : Config)
    {root : Element} (knows : census.Knows world.ambient root) {parser : Parser σ} {after : World σ}
    (run : ((sharing.engine processor).withConfig config).compile root world = .ok parser after) :
    sharing.Stems (root.form .structural) (parser.root.form .structural) := by
  have discerns (ambient : σ) : Focus.structural.Discerns census.number (census.Lists ambient) :=
    Census.discerns (fun left right left_number right_number same =>
      Number.eq_of_same (unsigned left left_number) (unsigned right right_number) same) ambient
  have opening : (sharing.discipline discerns).Valid (Pass.opening world) :=
    (history.fills discerns pure).begin
  obtain ⟨pass, expanding, -⟩ := Engine.of_compile_ok run
  obtain ⟨-, -, -, results⟩ :=
    Engine.expand_follows (follows discerns pure included config) opening knows
  exact results parser.root pass expanding

end Histories

namespace Gauge

/-- A type whose nodes show three. -/
def gauge : NodeType :=
  ⟨1, "Gauge"⟩

/-- A gauge. -/
def gaugeNode : Element :=
  .ofType 0 gauge

/-- What is shown. -/
def vocabulary : Vocabulary Unit :=
  fun type => if type = gauge then { observe := some fun _ => pure (.int 3) } else {}

/-- The processor that takes what is shown for the data. -/
def plain : Processor Unit :=
  .identity

/-- The processor that is made from it with a source that gives six. -/
def doubled : Processor Unit :=
  plain.withSource fun _ => pure (.int 6)

/-- Both processors. -/
def both : Sharing Unit where
  vocabulary := vocabulary
  Includes processor := processor = plain ∨ processor = doubled
  describe _ _ := .ok gaugeNode
  meaning _ :=
    { observe := fun _ _ => .ok (.int 3), describe := fun _ _ => .ok gaugeNode
      register := .ok, source := fun _ => .ok (.int 6), sourceFor := fun _ => .ok }
  describe_eq _ := rfl

theorem includes_plain : both.Includes plain :=
  Or.inl rfl

theorem includes_doubled : both.Includes doubled :=
  Or.inr rfl

/-- Gauges are the only nodes. -/
def tally : Census Unit where
  nodeAt _ id := if id = 0 then some gaugeNode else none
  number value := value.toBits ≠ 0x8000000000000000
  node _ := True

theorem knows_gauge : tally.Knows () gaugeNode :=
  ⟨⟨rfl, trivial⟩, trivial, trivial⟩

section Callbacks

variable {type : NodeType} {processor : Processor Unit}

private theorem observe_eq {callback : ObserveContext → Action Unit Fault Value}
    (present : (vocabulary type).observe = some callback) : callback = fun _ => pure (.int 3) := by
  rw [vocabulary] at present
  split at present
  · exact (Option.some.inj present).symm
  · exact nomatch present

private theorem describe_eq_none : (vocabulary type).describe = none := by
  rw [vocabulary]
  split <;> rfl

private theorem register_eq_none (included : both.Includes processor) :
    processor.register = none := by
  rcases included with rfl | rfl <;> rfl

private theorem source_eq (included : both.Includes processor) {callback : Transform Unit}
    (present : processor.source = some callback) : callback = fun _ => pure (.int 6) := by
  rcases included with rfl | rfl
  · exact nomatch present
  · exact (Option.some.inj present).symm

private theorem sourceFor_eq_none (included : both.Includes processor) :
    processor.sourceFor? type = none := by
  rcases included with rfl | rfl <;> rfl

/-- A callback that always gives the same number is orderly. -/
theorem orderly_constant {α : Type} [Structured α] (number : Int64) :
    tally.Orderly fun _ : α => (pure (.int number) : Action Unit Fault Value) where
  store _ _ := rfl
  grows _ _ := .refl tally _
  knows _ run := by
    obtain ⟨rfl, rfl⟩ := EStateM.Result.ok.inj run
    exact trivial

theorem pure_both : both.Pure tally where
  orderly included := {
    observe := fun present => observe_eq present ▸ orderly_constant 3
    describe := fun present => nomatch describe_eq_none.symm.trans present
    register := fun present => nomatch (register_eq_none included).symm.trans present
    source := fun present => source_eq included present ▸ orderly_constant 6
    sourceFor := fun present => nomatch (sourceFor_eq_none included).symm.trans present }
  computes included := {
    observe := fun present => observe_eq present ▸ fun _ _ _ => rfl
    describe := fun present => nomatch describe_eq_none.symm.trans present
    register := fun present => nomatch (register_eq_none included).symm.trans present
    source := fun present => source_eq included present ▸ fun _ _ _ => rfl
    sourceFor := fun present => nomatch (sourceFor_eq_none included).symm.trans present }

end Callbacks

private def shows (number : Int64) (outcome : Except EngineError (Parser Unit)) : Bool :=
  match outcome with
  | .ok { root := .structural _ (some (.int shown)) _, .. } => shown == number
  | _ => false

private theorem of_shows {number : Int64} {result : EStateM.Result EngineError (World Unit) (Parser Unit)}
    (showing : shows number (outcomeOf result) = true) :
    ∃ parser after, result = .ok parser after ∧ parser.root.data = some (.int number) := by
  match result, showing with
  | .ok { root := .structural _ (some (.int shown)) _, .. } after, showing =>
    obtain rfl : shown = number := eq_of_beq showing
    exact ⟨_, after, rfl, rfl⟩

private theorem compile_doubled_first :
    shows 6 (outcomeOf ((both.engine doubled).compile gaugeNode ⟨.empty, ()⟩)) = true := by
  decide +kernel

private theorem compile_doubled_later :
    shows 3 (outcomeOf ((both.engine doubled).compile gaugeNode
      (finalState ((both.engine plain).compile gaugeNode ⟨.empty, ()⟩)))) = true := by
  decide +kernel

end Gauge

open Gauge in
/-- After a compilation with the plain processor, the other one gives the data of the plain one, and
not those that it gives with an empty store. -/
theorem compile_recalls_foreign_data :
    (∃ parser after, (both.engine doubled).compile gaugeNode ⟨.empty, ()⟩ = .ok parser after ∧
      parser.root.data = some (.int 6)) ∧
    ∃ parser after, (both.engine doubled).compile gaugeNode
        (finalState ((both.engine plain).compile gaugeNode ⟨.empty, ()⟩)) = .ok parser after ∧
      parser.root.data = some (.int 3) :=
  ⟨of_shows compile_doubled_first, of_shows compile_doubled_later⟩

open Gauge in
/-- The data that the doubling processor gives come from one of the two processors. -/
theorem compile_stems_gauge :
    ∃ world parser after, both.History tally world ∧ both.Includes doubled ∧
      (both.engine doubled).compile gaugeNode world = .ok parser after ∧
      parser.root.data = some (.int 3) ∧
      both.Stems (gaugeNode.form .structural) (parser.root.form .structural) := by
  obtain ⟨parser, after, run, data_eq⟩ := of_shows compile_doubled_later
  have history : both.History tally
      (finalState ((both.engine plain).compile gaugeNode ⟨.empty, ()⟩)) :=
    .serve (.start ()) (.compile includes_plain (both.engine plain).config knows_gauge)
  exact ⟨_, parser, after, history, includes_doubled, run, data_eq, compile_stems both tally
    (fun _ number => number) pure_both history includes_doubled (both.engine doubled).config knows_gauge
    run⟩

end Sharing

end Phrasing
