import Phrasing.Proofs.Expansion.Histories
import Phrasing.Proofs.Expansion.Operations

/-!
# Entries below stored expansions

As long as an expansion is stored, so is whatever was stored for the nodes in it.  Entries are
replaced, swept and kept for different reasons, but an entry is never dropped while a stored expansion
above it is kept.
-/

namespace Phrasing

open Relation

/-- Below a stored expansion there is an expansion for every described node and an observation for
every node with data, after any history of operations on the store. -/
theorem Store.stored_expansion_backed {σ : Type} [Digest] {start world : World σ}
    (empty : start.store = .empty)
    (history : ReflTransGen (Proceeds fun _ _ _ => True) start world)
    {entry : Memo.Entry DescribeInputs Expansion}
    (stored : entry ∈ world.store.expansions.stored) :
    ∃ body, entry.output.description? = some body ∧
      ∀ position node, body.Located entry.position.expansion position node →
        (node.description?.isSome = true → world.store.expansions.contains position = true) ∧
        (node.data.isSome = true → world.store.observations.contains position = true) := by
  have kept : (Standard.steady fun _ _ _ => True).WellKept world.ambient world.store :=
    wellKept_of_history (fun _ _ _ _ _ => Engine.upholds_steady fun _ _ _ _ _ => trivial) history
      empty
  have found := kept.expansions.filed.entryAt_of_mem stored
  obtain ⟨element, body, output_eq⟩ := (kept.expansions.proper found).output_eq
  refine ⟨body, by rw [output_eq]; rfl, fun position node located => ?_⟩
  have located_entry : entry.output.Located entry.position position node := by
    rw [output_eq]
    exact .body located
  have backs := kept.backs found located_entry
  refine ⟨fun described => ?_, fun observed => ?_⟩
  · obtain ⟨other, other_found, -⟩ := backs.described described
    exact kept.expansions.filed.contains_of_entryAt other_found
  · obtain ⟨other, other_found, -⟩ := backs.observed observed
    exact kept.observations.filed.contains_of_entryAt other_found

namespace Engine.Letter

/-- A type whose nodes stand for the sequence of their children. -/
def bundle : NodeType :=
  ⟨2, "Bundle"⟩

/-- The sequence of the children of a bundle, a new node each time. -/
def unpack (context : DescribeContext) : Action Nat Fault Element :=
  fun world =>
    .ok (.sequence (10 + world.ambient) context.children)
      { world with ambient := world.ambient + 1 }

/-- An engine for bundles of letters. -/
def bundler : Engine Nat where
  vocabulary type :=
    if type = bundle then { describe := some unpack } else greeter.vocabulary type
  processor := .identity

/-- A bundle of greetings. -/
def bundleOf (children : List Element) : Element :=
  .make 5 (.custom bundle) [] children

private theorem stored_bundle :
    ∃ greeting_entry bundle_entry sequence body,
      (finalState (bundler.compile (bundleOf [greetingNode])
          { store := .empty, ambient := 0 })).store.expansions.stored =
        [greeting_entry, bundle_entry] ∧
      bundle_entry.output = .described (bundleOf [greetingNode]) none
        (.structural sequence none [.described greetingNode none body]) :=
  ⟨_, _, _, _, rfl, rfl⟩

end Engine.Letter

open Engine Engine.Letter in
/-- A bundle of one greeting is stored, and so is the greeting below it. -/
theorem Store.stored_expansion_backed_bundle :
    ∃ world, ReflTransGen (Proceeds fun _ _ _ => True) { store := .empty, ambient := 0 } world ∧
      ∃ entry ∈ world.store.expansions.stored, ∃ body position node,
        entry.output.description? = some body ∧
          body.Located entry.position.expansion position node ∧
          node.description?.isSome = true ∧
          world.store.expansions.contains position = true := by
  obtain ⟨first, entry, sequence, inner, stored_eq, output_eq⟩ := stored_bundle
  have history : ReflTransGen (Proceeds fun _ _ _ => True) { store := .empty, ambient := 0 }
      (finalState (bundler.compile (bundleOf [greetingNode]) { store := .empty, ambient := 0 })) :=
    .single (.compile bundler (bundleOf [greetingNode]) trivial)
  have stored : entry ∈ (finalState (bundler.compile (bundleOf [greetingNode])
      { store := .empty, ambient := 0 })).store.expansions.stored := by
    rw [stored_eq]
    exact List.mem_cons_of_mem _ List.mem_cons_self
  obtain ⟨body, described, backed⟩ := stored_expansion_backed rfl history stored
  have body_eq : .structural sequence none [.described greetingNode none inner] = body := by
    rw [output_eq] at described
    exact Option.some.inj described
  have located : body.Located entry.position.expansion (entry.position.expansion.child 0)
      (.described greetingNode none inner) := by
    rw [← body_eq]
    exact .child rfl .here
  exact ⟨_, history, entry, stored, body, _, _, described, located, rfl, (backed _ _ located).1 rfl⟩

end Phrasing
