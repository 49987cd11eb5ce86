import Phrasing.Proofs.Expansion.Histories
import Phrasing.Proofs.Expansion.Operations

/-!
# Depth of expansions

The limit on depth is checked where an expansion is computed.  A stored expansion is reused as it is,
so the nodes of what a compilation gives are as deep as the largest limit under which the store was
filled allows, and they can be deeper than the limit of that compilation.
-/

namespace Phrasing.Engine

open Relation

/-- A compilation gives no node deeper than its limit, or than the largest limit of the compilations
that filled the store, if it remembers. -/
theorem compile_depth_le {σ : Type} [Digest] (engine : Engine σ) (limit : Nat)
    {start world after : World σ} (empty : start.store = .empty)
    (history : ReflTransGen (Proceeds fun earlier _ _ =>
      earlier.config.remember = true → earlier.config.maxDepth ≤ limit) start world)
    {root : Element} {parser : Parser σ} (run : engine.compile root world = .ok parser after)
    {position : Position} {node : Expansion}
    (located : parser.root.Located .root position node) :
    position.depth ≤
      if engine.config.remember then max limit engine.config.maxDepth
      else engine.config.maxDepth := by
  let bound := if engine.config.remember then max limit engine.config.maxDepth
    else engine.config.maxDepth
  have upholds : engine.Upholds (.steady fun position _ _ => position.depth ≤ bound) := by
    refine upholds_steady fun position _ _ shallow _ => Nat.le_trans shallow ?_
    simp only [bound]
    split
    · exact Nat.le_max_right limit _
    · exact Nat.le_refl _
  obtain ⟨pass, expanding, rfl⟩ := of_compile_ok run
  refine expand_meets_standard upholds (fun remember => ?_) trivial expanding position node located
  have bound_eq : bound = max limit engine.config.maxDepth := if_pos remember
  refine (wellKept_of_history (fun earlier _ _ permitted remembers => ?_) history empty).begin
  refine upholds_steady fun position _ _ shallow _ => ?_
  rw [bound_eq]
  exact Nat.le_trans shallow (Nat.le_trans (permitted remembers) (Nat.le_max_left limit _))

namespace Letter

/-- An engine for letters that allows one step of depth. -/
def shallowGreeter : Engine Nat :=
  greeter.withConfig { maxDepth := 1 }

private def givesGreeting (outcome : Except EngineError (Parser Nat)) : Bool :=
  match outcome with
  | .ok { root := .structural _ _ (.described _ _ _ :: _), .. } => true
  | _ => false

private theorem compile_draft_shallow :
    givesGreeting (outcomeOf (shallowGreeter.compile draft
      (finalState (greeter.compile draft { store := .empty, ambient := 0 })))) = true := by
  decide +kernel

private theorem compile_draft_reused :
    ∃ parser after body, shallowGreeter.compile draft
        (finalState (greeter.compile draft { store := .empty, ambient := 0 })) = .ok parser after ∧
      parser.root.Located .root (Position.root.child 0).expansion body := by
  have gives := compile_draft_shallow
  cases run : shallowGreeter.compile draft
    (finalState (greeter.compile draft { store := .empty, ambient := 0 })) with
  | error error after =>
      rw [run] at gives
      cases gives
  | ok parser after =>
      rw [run] at gives
      obtain ⟨engine, root⟩ := parser
      match root, gives with
      | .structural element data (.described node node_data body :: rest), _ =>
          exact ⟨_, after, body, rfl, .child rfl (.body .here)⟩

end Letter

open Letter in
/-- A letter has a node two steps deep, which is reused under a limit of one step. -/
theorem compile_exceeds_depth :
    ∃ world after parser position node,
      ReflTransGen (Proceeds fun _ _ _ => True) { store := .empty, ambient := 0 } world ∧
        shallowGreeter.compile draft world = .ok parser after ∧
        parser.root.Located .root position node ∧
        shallowGreeter.config.maxDepth < position.depth := by
  obtain ⟨parser, after, body, run, located⟩ := compile_draft_reused
  refine ⟨_, after, parser, _, body, .single (.compile greeter draft trivial), run, located, ?_⟩
  decide

open Letter in
/-- The nodes of the reused letter are not deeper than the limit of the compilation before. -/
theorem compile_depth_le_letter :
    ∃ world after parser, shallowGreeter.compile draft world = .ok parser after ∧
      ∀ position node, parser.root.Located .root position node →
        position.depth ≤ greeter.config.maxDepth := by
  obtain ⟨parser, after, body, run, -⟩ := compile_draft_reused
  refine ⟨_, after, parser, run, fun position node located => ?_⟩
  exact compile_depth_le shallowGreeter greeter.config.maxDepth rfl
    (.single (.compile greeter draft fun _ => Nat.le_refl _)) run located

end Phrasing.Engine
