import Phrasing.Content.Xxh3
import Phrasing.Proofs.Traversal.Advancing

/-!
# Accounting for the input

The fragments that a reading adds on its way account for the rest of the input: first come those
found in it, which it begins with, and once it has run out in the middle of a literal come those
that are suggested.
-/

namespace Phrasing

open Relation Traversal

namespace Fragment

/-- A piece found in the input. -/
def found (text : String) : Fragment :=
  ⟨text, true⟩

/-- A piece suggested beyond the input. -/
def suggested (text : String) : Fragment :=
  ⟨text, false⟩

end Fragment

namespace Reading

/-- Fragments account for what lies between the rest of an input and a further rest. -/
inductive Covers : Option String → List Fragment → Option String → Prop
  | within {whole rest : String} (found : List String) (split : String.join found ++ rest = whole) :
      Covers (some whole) (found.map Fragment.found) (some rest)
  | beyond {whole : String} (found missing : List String) (split : String.join found = whole)
      (more : String.join missing ≠ "") :
      Covers (some whole) (found.map Fragment.found ++ missing.map Fragment.suggested) none
  | after (missing : List String) : Covers none (missing.map Fragment.suggested) none

namespace Covers

theorem nil (text : Option String) : Covers text [] text := by
  cases text with
  | none => exact .after []
  | some rest => exact .within [] (by simp)

theorem append {before middle after : Option String} {first second : List Fragment}
    (left : Covers before first middle) (right : Covers middle second after) :
    Covers before (first ++ second) after := by
  cases left with
  | within found split =>
      cases right with
      | within others split_rest =>
          rw [← List.map_append]
          refine .within (found ++ others) ?_
          rw [String.join_append, String.append_assoc, split_rest, split]
      | beyond others missing split_rest more =>
          rw [← List.append_assoc, ← List.map_append]
          refine .beyond (found ++ others) missing ?_ more
          rw [String.join_append, split_rest, split]
  | beyond found missing split more =>
      cases right with
      | after further =>
          rw [List.append_assoc, ← List.map_append]
          refine .beyond found (missing ++ further) split ?_
          rw [String.join_append, ne_eq, String.append_eq_empty_iff]
          exact fun both => more both.1
  | after missing =>
      cases right with
      | after further =>
          rw [← List.map_append]
          exact .after (missing ++ further)

end Covers

/-- A later reading has all the fragments of an earlier one, and those it adds account for the rest
of the input. -/
def Continues (before after : Reading) : Prop :=
  ∃ added, after.fragments = before.fragments ++ added ∧ Covers before.text added after.text

theorem Continues.refl (reading : Reading) : reading.Continues reading :=
  ⟨[], (List.append_nil _).symm, .nil reading.text⟩

theorem Continues.trans {first second third : Reading} (left : first.Continues second)
    (right : second.Continues third) : first.Continues third := by
  obtain ⟨added, fragments_eq, covers⟩ := left
  obtain ⟨further, further_eq, covers_further⟩ := right
  exact ⟨added ++ further, by rw [further_eq, fragments_eq, List.append_assoc],
    covers.append covers_further⟩

/-- A literal is found, or what it begins with is found and what it goes on with is suggested. -/
theorem continues_literal {literal : Literal} {reading out : Reading}
    (member : out ∈ literal.read reading) : reading.Continues out := by
  rw [Literal.read] at member
  split at member
  · next text_eq =>
      obtain rfl := List.mem_singleton.mp member
      exact ⟨_, rfl, text_eq ▸ .after [literal.text]⟩
  · next rest text_eq =>
      split at member
      · next remaining matched =>
          obtain rfl := List.mem_singleton.mp member
          have split := Text.after?_eq_some_iff.mp matched
          exact ⟨_, rfl, text_eq ▸ .within [literal.text] (by simp [split])⟩
      · next unmatched =>
          split at member
          · next missing suggested =>
              obtain rfl := List.mem_singleton.mp member
              have split := Text.after?_eq_some_iff.mp suggested
              have more : missing ≠ "" := by
                rintro rfl
                have matched : Text.after? literal.text rest = some "" :=
                  Text.after?_eq_some_iff.mpr (by simp [split])
                simp [unmatched] at matched
              refine ⟨_, rfl, text_eq ▸ ?_⟩
              -- Where the input has run out before, nothing of the literal is found.
              by_cases nothing : rest = ""
              · subst nothing
                exact .beyond [] [missing] rfl (by simpa using more)
              · have present : ¬rest.isEmpty = true := by simpa using nothing
                rw [if_neg present]
                exact .beyond [rest] [missing] (by simp) (by simpa using more)
          · cases member

theorem continues_advances {reading out : Reading} (step : reading.Advances out) :
    reading.Continues out := by
  cases step with
  | literal literal found => exact continues_literal found
  | relabel result => exact ⟨[], (List.append_nil _).symm, .nil reading.text⟩

theorem continues_of_advances {reading out : Reading} (steps : ReflTransGen Advances reading out) :
    reading.Continues out := by
  induction steps with
  | refl => exact .refl reading
  | tail _ step induction => exact induction.trans (continues_advances step)

/-- What was found and what was suggested in an accepted reading of an input. -/
theorem Covers.accepted {input : String} {added : List Fragment} {text : Option String}
    (covers : Covers (some input) added text) (accepted : text = some "" ∨ text = none) :
    String.join ((added.filter Fragment.isMatched).map Fragment.text) = input ∧
      (String.join (added.map Fragment.text) = input ↔ text = some "") := by
  cases covers with
  | within found split =>
      obtain rfl := Option.some.inj (accepted.resolve_right (Option.some_ne_none _))
      rw [String.append_empty] at split
      simp [List.filter_map, Function.comp_def, Fragment.found, split]
  | beyond found missing split more =>
      have longer : input ++ String.join missing ≠ input := by
        rw [ne_eq, String.append_eq_left_iff]
        exact more
      simp [List.filter_map, Function.comp_def, Fragment.found, Fragment.suggested, split, longer]

end Reading

namespace Engine

variable {σ : Type}

/-- Whatever a silent expansion adds to a reading accounts for the rest of its input.  So what is
found in an input joins to the input, and a phrase is the input when nothing is suggested. -/
theorem readings_account (engine : Engine σ) {node : Expansion}
    (silent : node.Silent engine.vocabulary) :
    (∀ room reading before readings after,
      engine.traverseAt room node reading before = .ok readings after →
        ∀ out ∈ readings, reading.Continues out) ∧
    ∀ input before readings after,
      Parser.parse { engine, root := node } input before = .ok readings after →
        ∀ out ∈ readings,
          String.join ((out.fragments.filter Fragment.isMatched).map Fragment.text) = input ∧
            (out.phrase = input ↔ out.isComplete = true) := by
  have continues : ∀ room reading before readings after,
      engine.traverseAt room node reading before = .ok readings after →
        ∀ out ∈ readings, reading.Continues out :=
    fun room reading before readings after run out member =>
      Reading.continues_of_advances
        (carries_traverseAt silent room reading before readings after run out member)
  refine ⟨continues, fun input before readings after run out member => ?_⟩
  rw [Parser.parse] at run
  obtain ⟨all, middle, traversed, selected⟩ := bind_eq_ok.mp run
  obtain ⟨rfl, -⟩ := EStateM.Result.ok.inj selected
  have kept : out ∈ all.filter Reading.isAccepted := by
    split at member
    · exact member
    · exact List.mem_of_mem_take member
  obtain ⟨found, accepted⟩ := List.mem_filter.mp kept
  obtain ⟨added, fragments_eq, covers⟩ := continues _ _ _ _ _ traversed out found
  obtain rfl : out.fragments = added := fragments_eq
  have ⟨matched, whole⟩ := covers.accepted (Reading.isAccepted_iff.mp accepted)
  exact ⟨matched, whole.trans (by rw [Reading.isComplete, decide_eq_true_iff])⟩

/-- An engine without custom types. -/
private def wishing : Engine Unit where
  vocabulary := fun _ => {}
  processor := .identity

/-- A wish in two words. -/
private def wish : Expansion :=
  .structural (.make 0 (.primitive .sequence) [] []) none
    [.structural (.literal 1 "good") none [], .structural (.literal 2 "night") none []]

private theorem wish_silent : wish.Silent wishing.vocabulary := by
  refine .structural (fun _ _ => rfl) fun child member => ?_
  rcases List.mem_pair.mp member with rfl | rfl <;> exact .structural (fun _ _ => rfl) nofun

/-- The wish is suggested where the input runs out in its second word. -/
theorem readings_account_wish :
    ∃ readings after, Parser.parse { engine := wishing, root := wish } "goodn" ⟨.empty, ()⟩ =
        .ok readings after ∧
      ∃ out ∈ readings, out.fragments = [⟨"good", true⟩, ⟨"n", true⟩, ⟨"ight", false⟩] ∧
        String.join ((out.fragments.filter Fragment.isMatched).map Fragment.text) = "goodn" ∧
        out.phrase ≠ "goodn" := by
  obtain ⟨readings, after, run, out, member, fragments_eq, text_eq⟩ :
      ∃ readings after, Parser.parse { engine := wishing, root := wish } "goodn" ⟨.empty, ()⟩ =
          .ok readings after ∧
        ∃ out ∈ readings, out.fragments = [⟨"good", true⟩, ⟨"n", true⟩, ⟨"ight", false⟩] ∧
          out.text = none :=
    ⟨_, _, rfl, _, List.mem_cons_self, by decide, rfl⟩
  obtain ⟨matched, whole⟩ :=
    (wishing.readings_account wish_silent).2 "goodn" _ readings after run out member
  refine ⟨readings, after, run, out, member, fragments_eq, matched, fun same => ?_⟩
  have complete := whole.mp same
  simp [Reading.isComplete, text_eq] at complete

end Engine

end Phrasing
