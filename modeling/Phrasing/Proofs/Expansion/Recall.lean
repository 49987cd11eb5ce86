import Phrasing.Proofs.Expansion.Histories
import Phrasing.Proofs.Expansion.Operations
import Phrasing.Proofs.Store.ByContent
import Phrasing.Proofs.Traversal.Twins

/-!
# Expansions remembered by content

An element that a visit hands over finds its expansion by content.  Whatever is remembered has the
form that fresh expansion gives, so it makes no difference whether an element finds its expansion, or
finds nothing, or meets another element with the same content hash.
-/

namespace Phrasing

open Memo Relation

variable {σ : Type} {engine : Engine σ} {census : Census σ} {meaning : Meaning}

namespace Engine

/-- Callbacks that meet an expectation uphold the standard that everything is listed. -/
theorem runs_of_meets {α β : Type} {world : World σ} {reads : World σ → β → α → Prop}
    {gives : World σ → β → Prop} {outcome : EStateM.Result EngineError (World σ) β}
    {expected : Except EngineError α} (meets : census.running.Meets world reads outcome expected)
    (implies : ∀ after result form, reads after result form → gives after result) :
    census.standard.running.Runs world gives outcome := by
  cases meets with
  | ok _ grows as_expected => exact .ok trivial grows (implies _ _ _ as_expected)
  | failed _ grows => exact .excused trivial grows trivial
  | excused _ _ excuse => exact excuse.elim

theorem Orderly.upholds (orderly : engine.Orderly census) (computes : engine.Computes census meaning) :
    engine.Upholds census.standard where
  derive {_ _ element world} derivation knows := by
    obtain ⟨meant, -, meets⟩ := derivation_meets orderly computes derivation
    exact runs_of_meets (meets element world knows) fun _ _ _ reads => Census.knows_some.mpr reads.1
  describe present knows knows_data :=
    runs_of_meets (describing_meets orderly computes present knows knows_data)
      fun _ _ _ reads => reads.1
  node knows knows_data _ _ := ⟨knows, knows_data⟩

/-- The form of what fresh expansion of an element is meant to give. -/
def meantFresh (engine : Engine σ) (meaning : Meaning) (element : Element) :
    Except EngineError Expansion :=
  engine.meantAt meaning (engine.config.maxDepth + 1) .root (element.form .structural)

/-- Fresh expansion gives an expansion that is listed and has the form that is meant. -/
theorem expandFresh_meets (orderly : engine.Orderly census)
    (computes : engine.Computes census meaning) {element : Element} {world : World σ}
    (knows : census.Knows world.ambient element) :
    census.running.Meets world census.Reads (engine.expandFresh element world)
      (engine.meantFresh meaning element) := by
  have runs := freshAt_runs (orderly.upholds computes) (engine.config.maxDepth + 1) .root element rfl
    world knows
  have meets := freshAt_meets orderly computes (engine.config.maxDepth + 1) .root element world knows
  rw [expandFresh, meantFresh]
  generalize engine.freshAt _ _ element world = outcome at runs meets ⊢
  generalize engine.meantAt _ _ _ _ = expected at meets ⊢
  cases meets with
  | ok _ grows form_eq => exact .ok trivial grows ⟨Census.knows_of_meets runs.of_ok.2.2, form_eq⟩
  | failed _ grows => exact .failed trivial grows
  | excused _ _ excuse => exact excuse.elim

theorem expandFresh_store (orderly : engine.Orderly census) (element : Element) (world : World σ) :
    (finalState (engine.expandFresh element world)).store = world.store := by
  have callbacks : engine.CallbacksStay fun before after => after.store = before.store :=
    orderly.callbacksStay fun _ => rfl
  have steps := stays_freshAt callbacks (engine.config.maxDepth + 1) .root element world
  rw [expandFresh]
  generalize finalState _ = after at steps ⊢
  induction steps with
  | refl => rfl
  | tail _ same induction => exact same.trans induction

/-- A property of worlds outlives the growth of a census. -/
def Endures (census : Census σ) (valid : World σ → Prop) : Prop :=
  ∀ (world : World σ) (ambient : σ), valid world → census.Grows world.ambient ambient →
    valid { world with ambient }

theorem expandFresh_reads {valid : World σ → Prop} (endures : Endures census valid)
    (orderly : engine.Orderly census) (computes : engine.Computes census meaning)
    {element : Element} {world : World σ} (valid_before : valid world)
    (knows : census.Knows world.ambient element) :
    (census.reading valid).Meets world census.Reads (engine.expandFresh element world)
      (engine.meantFresh meaning element) := by
  have store_eq := expandFresh_store orderly element world
  have meets := expandFresh_meets orderly computes knows
  generalize engine.expandFresh element world = outcome at store_eq meets ⊢
  generalize engine.meantFresh meaning element = expected at meets ⊢
  have valid_after {after : World σ} (grows : census.Grows world.ambient after.ambient)
      (same : after.store = world.store) : valid after := by
    have endured := endures world _ valid_before grows
    rwa [← same] at endured
  cases meets with
  | ok _ grows reads => exact .ok (valid_after grows store_eq) grows reads
  | failed _ grows => exact .failed (valid_after grows store_eq) grows
  | excused _ _ excuse => exact excuse.elim

/-- Every remembered expansion is listed and has the form that is meant for its element. -/
def Recalls (engine : Engine σ) (census : Census σ) (meaning : Meaning) (ambient : σ)
    (adHoc : List (ContentHash × AdHocEntry)) : Prop :=
  ∀ stored ∈ adHoc, census.Knows ambient stored.2.element ∧
    census.Knows ambient stored.2.expansion ∧
    engine.meantFresh meaning stored.2.element = .ok (stored.2.expansion.form .structural)

theorem Recalls.grow {before after : σ} {adHoc : List (ContentHash × AdHocEntry)}
    (recalls : engine.Recalls census meaning before adHoc) (grows : census.Grows before after) :
    engine.Recalls census meaning after adHoc := by
  intro stored member
  obtain ⟨knows, knows_expansion, meant⟩ := recalls stored member
  exact ⟨knows.grow grows, knows_expansion.grow grows, meant⟩

theorem Recalls.subset {ambient : σ} {adHoc fewer : List (ContentHash × AdHocEntry)}
    (recalls : engine.Recalls census meaning ambient adHoc) (subset : fewer ⊆ adHoc) :
    engine.Recalls census meaning ambient fewer :=
  fun stored member => recalls stored (subset member)

theorem Recalls.put {ambient : σ} {adHoc : List (ContentHash × AdHocEntry)} {hash : ContentHash}
    {entry : AdHocEntry} (recalls : engine.Recalls census meaning ambient adHoc)
    (knows : census.Knows ambient entry.element) (knows_expansion : census.Knows ambient entry.expansion)
    (meant : engine.meantFresh meaning entry.element = .ok (entry.expansion.form .structural)) :
    engine.Recalls census meaning ambient (Store.putAdHoc hash entry adHoc) := by
  intro stored member
  rcases Store.mem_putAdHoc member with rfl | member
  · exact ⟨knows, knows_expansion, meant⟩
  · exact recalls stored member

/-- A look-up that finds an expansion finds one of the form that is meant for the element itself. -/
theorem Recalls.lookup (discerns : ∀ ambient,
      Focus.structural.Discerns census.number (census.Lists ambient))
    {ambient : σ} {store : Store} {element : Element}
    (recalls : engine.Recalls census meaning ambient store.adHoc)
    (knows : census.Knows ambient element) :
    engine.Recalls census meaning ambient (store.lookupAdHoc element).2.adHoc ∧
      ∀ expansion, (store.lookupAdHoc element).1 = some expansion →
        census.Knows ambient expansion ∧
          engine.meantFresh meaning element = .ok (expansion.form .structural) := by
  rw [Store.lookupAdHoc]
  split
  · exact ⟨recalls, fun _ present => absurd present.symm (Option.some_ne_none _)⟩
  · next entry found =>
      split
      · next same =>
          obtain ⟨knows_entry, knows_expansion, meant⟩ := recalls _ (Store.mem_of_lookup found)
          have form_eq := Element.form_eq_of_same (discerns ambient) knows_entry knows same
          refine ⟨recalls.put knows_entry knows_expansion meant, fun expansion present => ?_⟩
          obtain rfl := Option.some.inj present
          rw [meantFresh, form_eq] at meant
          exact ⟨knows_expansion, meant⟩
      · exact ⟨recalls, fun _ present => absurd present.symm (Option.some_ne_none _)⟩

/-- Whatever the store of a world gives out is listed, and what it remembers by content is right. -/
structure Trusts (engine : Engine σ) (census : Census σ) (meaning : Meaning) (world : World σ) :
    Prop where
  /-- The tables are well kept. -/
  kept : census.standard.WellKept world.ambient world.store
  /-- What is remembered by content is right. -/
  recalls : engine.Recalls census meaning world.ambient world.store.adHoc

theorem trusts_endures : Endures census (engine.Trusts census meaning) :=
  fun _ _ trusts grows => ⟨trusts.kept.grow grows, trusts.recalls.grow grows⟩

/-- An element handed to traversal gets the expansion that fresh expansion gives, up to identities,
from the store or not. -/
theorem expandAdHoc_reads (discerns : ∀ ambient,
      Focus.structural.Discerns census.number (census.Lists ambient))
    (orderly : engine.Orderly census) (computes : engine.Computes census meaning)
    {element : Element} {world : World σ} (trusts : engine.Trusts census meaning world)
    (knows : census.Knows world.ambient element) :
    (census.reading (engine.Trusts census meaning)).Meets world census.Reads
      (engine.expandAdHoc element world) (engine.meantFresh meaning element) := by
  rw [expandAdHoc]
  split
  · obtain ⟨recalls, found⟩ := trusts.recalls.lookup discerns knows
    obtain ⟨adHoc, adHocStats, store_eq⟩ := Store.lookupAdHoc_store world.store element
    have trusts_then : engine.Trusts census meaning
        { world with store := (world.store.lookupAdHoc element).2 } := by
      refine ⟨trusts.kept.of_tables ?_ ?_, recalls⟩
      · rw [store_eq]
      · rw [store_eq]
    have looked : (modifyGet fun (world : World σ) =>
          ((world.store.lookupAdHoc element).1,
            { world with store := (world.store.lookupAdHoc element).2 }) :
          Action σ EngineError (Option Expansion)) world =
        .ok (world.store.lookupAdHoc element).1
          { world with store := (world.store.lookupAdHoc element).2 } :=
      rfl
    rw [bind_of_ok looked]
    -- A look-up counts and renews what it finds, so the rest runs in another world.
    have leads : (census.reading (engine.Trusts census meaning)).Leads world
        { world with store := (world.store.lookupAdHoc element).2 } :=
      Census.Grows.refl census world.ambient
    cases present : (world.store.lookupAdHoc element).1 with
    | some expansion =>
        obtain ⟨knows_expansion, meant⟩ := found expansion present
        rw [meant]
        exact .ok trusts_then leads ⟨knows_expansion, rfl⟩
    | none =>
        rw [← bind_pure (engine.meantFresh meaning element)]
        refine .after leads (.bind (.refl _)
          (expandFresh_reads trusts_endures orderly computes trusts_then knows) ?_)
        rintro expansion form after meant after_trusts grows ⟨knows_expansion, rfl⟩
        refine .ok ⟨after_trusts.kept.of_tables rfl rfl, ?_⟩ (.refl census _)
          ⟨knows_expansion, rfl⟩
        exact after_trusts.recalls.put (knows.grow grows) knows_expansion meant
  · exact expandFresh_reads trusts_endures orderly computes trusts knows

theorem trusts_withConfig {config : Config} (same : config.maxDepth = engine.config.maxDepth) :
    (engine.withConfig config).Trusts census meaning = engine.Trusts census meaning := by
  have meant_eq (element : Element) : (engine.withConfig config).meantFresh meaning element =
      engine.meantFresh meaning element := by
    have depth_eq : (engine.withConfig config).config.maxDepth = engine.config.maxDepth := same
    rw [meantFresh, meantFresh, depth_eq, meantAt_withConfig same]
  have recalls_eq (ambient : σ) (adHoc : List (ContentHash × AdHocEntry)) :
      (engine.withConfig config).Recalls census meaning ambient adHoc ↔
        engine.Recalls census meaning ambient adHoc := by
    simp only [Recalls, meant_eq]
  funext world
  exact propext ⟨fun trusts => ⟨trusts.kept, (recalls_eq _ _).mp trusts.recalls⟩,
    fun trusts => ⟨trusts.kept, (recalls_eq _ _).mpr trusts.recalls⟩⟩

/-- Compiling goes on with a well-kept store and remembers nothing new by content. -/
theorem compile_keeps [Digest] (orderly : engine.Orderly census)
    (computes : engine.Computes census meaning) {world : World σ} {grammar : Element}
    (kept : census.standard.WellKept world.ambient world.store)
    (knows : census.Knows world.ambient grammar) :
    Keeps census.standard (Pass.opening world)
      (finalState (engine.expand grammar (Pass.opening world))) := by
  have knows_opening : census.Knows (Pass.opening world).world.ambient grammar := knows
  exact expand_keeps (fun _ => orderly.upholds computes) kept.begin knows fun _ =>
    (expandFresh_meets orderly computes knows_opening).leads

/-- Every node of a parser that is compiled in a trusted world is listed. -/
theorem knows_compiled [Digest] (orderly : engine.Orderly census)
    (computes : engine.Computes census meaning) {grammar : Element} {world after : World σ}
    {parser : Parser σ} (kept : census.standard.WellKept world.ambient world.store)
    (knows : census.Knows world.ambient grammar)
    (run : engine.compile grammar world = .ok parser after) :
    census.Knows after.ambient parser.root := by
  obtain ⟨pass, expanding, rfl⟩ := of_compile_ok run
  have knows_opening : census.Knows (Pass.opening world).world.ambient grammar := knows
  exact Census.knows_of_meets (expand_meets_standard (orderly.upholds computes)
    (fun _ => kept.begin) knows_opening expanding)

end Engine

end Phrasing
