import Mathlib.Data.List.Forall2
import Phrasing.Proofs.Grammar.Leading
import Phrasing.Proofs.Grammar.Steps

/-!
# Reading a language

A way to read reads a language when it goes from a reading exactly through the words of the
language, and when what it found for an input it finds again for a longer input that agrees with
it.  Each primitive reads the language that it makes of the languages of its children.
-/

namespace Phrasing.Traversal

open Reading

/-- A way to read goes through the words of a language. -/
structure Reads (language : String → Prop) (read : Reading → List Reading) : Prop where
  /-- Every reading found goes on by a word. -/
  sound {before out : Reading} (found : out ∈ read before) :
    ∃ word, language word ∧ out.phrase = before.phrase ++ word ∧
      Leads before.text word out.text
  /-- Wherever a word leads, a reading is found. -/
  complete {before : Reading} {word : String} {after : Option String} (derived : language word)
    (lead : Leads before.text word after) : ∃ out ∈ read before, out.text = after
  /-- A reading that agrees with a longer input is found again for it. -/
  stable {input extra : String} {before resumed out : Reading} {after : Option String}
    (resumes : Resumes input (input ++ extra) before resumed) (found : out ∈ read before)
    (agrees : Leads (some (input ++ extra)) out.phrase after) :
    ∃ again ∈ read resumed, Resumes input (input ++ extra) out again

theorem leads_of_mem_literal {literal : Literal} {before out : Reading}
    (found : out ∈ literal.read before) :
    out.phrase = before.phrase ++ literal.text ∧ Leads before.text literal.text out.text ∧
      out.result = literal.result ∧ out.score = before.score * literal.score := by
  rw [Literal.read] at found
  split at found
  · rename_i text_eq
    obtain rfl := List.mem_singleton.mp found
    rw [text_eq]
    exact ⟨by simp [phrase], .after, rfl, rfl⟩
  · rename_i rest text_eq
    rw [text_eq]
    split at found
    · rename_i remaining matched
      obtain rfl := List.mem_singleton.mp found
      exact ⟨by simp [phrase], .within (Text.after?_eq_some_iff.mp matched), rfl, rfl⟩
    · rename_i unmatched
      split at found
      · rename_i missing suggested
        obtain rfl := List.mem_singleton.mp found
        have split := Text.after?_eq_some_iff.mp suggested
        refine ⟨?_, .beyond split ?_, rfl, rfl⟩
        · by_cases nothing : rest = "" <;> simp [phrase, nothing, split]
        · rintro rfl
          have matched : Text.after? literal.text rest = some "" :=
            Text.after?_eq_some_iff.mpr (by simp [split])
          simp [unmatched] at matched
      · simp at found

theorem exists_mem_literal {literal : Literal} {before : Reading} {after : Option String}
    (lead : Leads before.text literal.text after) : ∃ out, out ∈ literal.read before := by
  rw [Literal.read]
  generalize before.text = text at lead ⊢
  cases lead with
  | after => exact ⟨_, List.mem_singleton.mpr rfl⟩
  | within split =>
      dsimp only
      rw [Text.after?_eq_some_iff.mpr split]
      exact ⟨_, List.mem_singleton.mpr rfl⟩
  | @beyond rest _ missing split more =>
      dsimp only
      rw [Text.after?_eq_some_iff.mpr split]
      cases Text.after? literal.text rest with
      | none => exact ⟨_, List.mem_singleton.mpr rfl⟩
      | some remaining => exact ⟨_, List.mem_singleton.mpr rfl⟩

theorem reads_literal (literal : Literal) : Reads (· = literal.text) literal.read where
  sound found := by
    obtain ⟨phrase_eq, lead, -, -⟩ := leads_of_mem_literal found
    exact ⟨literal.text, rfl, phrase_eq, lead⟩
  complete := by
    rintro before word after rfl lead
    obtain ⟨out, found⟩ := exists_mem_literal lead
    exact ⟨out, found, (leads_of_mem_literal found).2.1.unique lead⟩
  stable := by
    intro input extra before resumed out after resumes found agrees
    obtain ⟨phrase_eq, lead, result_eq, score_eq⟩ := leads_of_mem_literal found
    obtain ⟨middle, first, second⟩ := Leads.split (phrase_eq ▸ agrees)
    have middle_eq : middle = resumed.text :=
      first.unique (resumes.phrase ▸ resumes.accounts_longer)
    obtain ⟨again, again_found⟩ := exists_mem_literal (middle_eq ▸ second)
    obtain ⟨again_phrase, again_lead, again_result, again_score⟩ := leads_of_mem_literal again_found
    refine ⟨again, again_found, ?_⟩
    constructor
    · rw [again_phrase, phrase_eq, resumes.phrase]
    · rw [again_result, result_eq]
    · rw [again_score, score_eq, resumes.score]
    · rw [Accounts, phrase_eq]
      exact resumes.accounts.append lead
    · rw [Accounts, again_phrase]
      exact resumes.accounts_longer.append again_lead

section Nodes

variable {m : Type → Type} [Monad m] [LawfulMonad m] {child : Expansion → Reading → m (List Reading)}
  {language : Expansion → String → Prop} {read : Expansion → Reading → List Reading}

/-- The readings of a choice, as a list. -/
def choiceReadings (read : Expansion → Reading → List Reading) (children : List Expansion)
    (fixed : Option Value) (reading : Reading) : List Reading :=
  children.flatMap fun node =>
    match fixed with
    | some value => (read node reading).map (·.withResult value)
    | none => read node reading

theorem readChoice_eq_pure {children : List Expansion}
    (effectless : ∀ node ∈ children, ∀ reading, child node reading = pure (read node reading))
    (fixed : Option Value) (reading : Reading) :
    readChoice child children fixed reading = pure (choiceReadings read children fixed reading) := by
  apply gather_pure
  intro node member
  rw [effectless node member, pure_bind]
  cases fixed <;> rfl

theorem mem_choiceReadings {children : List Expansion} {fixed : Option Value}
    {reading out : Reading} :
    out ∈ choiceReadings read children fixed reading ↔
      ∃ node ∈ children, ∃ inner ∈ read node reading,
        out = match fixed with
          | some value => inner.withResult value
          | none => inner := by
  cases fixed <;> simp [choiceReadings, eq_comm]

theorem reads_choice {children : List Expansion} (fixed : Option Value)
    (each : ∀ node ∈ children, Reads (language node) (read node)) :
    Reads (fun word => ∃ node ∈ children, language node word)
      (choiceReadings read children fixed) where
  sound found := by
    obtain ⟨node, member, inner, inner_found, rfl⟩ := mem_choiceReadings.mp found
    obtain ⟨word, derived, phrase_eq, lead⟩ := (each node member).sound inner_found
    refine ⟨word, ⟨node, member, derived⟩, ?_⟩
    cases fixed <;> exact ⟨phrase_eq, lead⟩
  complete := by
    rintro before word after ⟨node, member, derived⟩ lead
    obtain ⟨inner, inner_found, text_eq⟩ := (each node member).complete derived lead
    refine ⟨_, mem_choiceReadings.mpr ⟨node, member, inner, inner_found, rfl⟩, ?_⟩
    cases fixed <;> exact text_eq
  stable := by
    intro input extra before resumed out after resumes found agrees
    obtain ⟨node, member, inner, inner_found, rfl⟩ := mem_choiceReadings.mp found
    have inner_agrees : Leads (some (input ++ extra)) inner.phrase after := by
      cases fixed <;> exact agrees
    obtain ⟨again, again_found, again_resumes⟩ :=
      (each node member).stable resumes inner_found inner_agrees
    refine ⟨_, mem_choiceReadings.mpr ⟨node, member, again, again_found, rfl⟩, ?_⟩
    cases fixed with
    | none => exact again_resumes
    | some value => exact again_resumes.withResult value

/-- The readings of an optional child, as a list. -/
def optionalReadings (list : Reading → List Reading) (preferred : Bool) (reading : Reading) :
    List Reading :=
  if preferred then list reading ++ [reading.withResult .null]
  else reading.withResult .null :: list reading

theorem readOptional_eq_pure {node : Expansion}
    (effectless : ∀ reading, child node reading = pure (read node reading)) (preferred : Bool)
    (reading : Reading) :
    readOptional child node preferred reading =
      pure (optionalReadings (read node) preferred reading) := by
  rw [readOptional, effectless, pure_bind]
  rfl

theorem mem_optionalReadings {list : Reading → List Reading} {preferred : Bool}
    {reading out : Reading} :
    out ∈ optionalReadings list preferred reading ↔
      out = reading.withResult .null ∨ out ∈ list reading := by
  cases preferred <;> simp [optionalReadings, or_comm]

theorem reads_optional {derives : String → Prop} {list : Reading → List Reading} (preferred : Bool)
    (child : Reads derives list) :
    Reads (fun word => word = "" ∨ derives word) (optionalReadings list preferred) where
  sound found := by
    rcases mem_optionalReadings.mp found with rfl | found
    · exact ⟨"", .inl rfl, by simp, .nil _⟩
    · obtain ⟨word, derived, phrase_eq, lead⟩ := child.sound found
      exact ⟨word, .inr derived, phrase_eq, lead⟩
  complete := by
    rintro before word after (rfl | derived) lead
    · exact ⟨_, mem_optionalReadings.mpr (.inl rfl), (Leads.nil _).unique lead⟩
    · obtain ⟨out, found, text_eq⟩ := child.complete derived lead
      exact ⟨out, mem_optionalReadings.mpr (.inr found), text_eq⟩
  stable := by
    intro input extra before resumed out after resumes found agrees
    rcases mem_optionalReadings.mp found with rfl | found
    · exact ⟨_, mem_optionalReadings.mpr (.inl rfl), resumes.withResult .null⟩
    · obtain ⟨again, again_found, again_resumes⟩ := child.stable resumes found agrees
      exact ⟨again, mem_optionalReadings.mpr (.inr again_found), again_resumes⟩

theorem Passes.sound {slots : List (Expansion × Slot)} {entry final : Reading × Props}
    (each : ∀ place ∈ slots, Reads (language place.1) (read place.1))
    (passes : Passes read slots entry final) :
    ∃ words, List.Forall₂ language (slots.map Prod.fst) words ∧
      final.1.phrase = entry.1.phrase ++ String.join words ∧
      Leads entry.1.text (String.join words) final.1.text := by
  induction passes with
  | nil => exact ⟨[], .nil, by simp, by simpa using Leads.nil _⟩
  | @cons node slot rest entry final out found further induction =>
      obtain ⟨word, derived, phrase_eq, lead⟩ := (each (node, slot) List.mem_cons_self).sound found
      obtain ⟨words, derived_rest, phrase_rest, lead_rest⟩ :=
        induction fun place member => each place (List.mem_cons_of_mem _ member)
      refine ⟨word :: words, .cons derived derived_rest, ?_, ?_⟩
      · rw [phrase_rest, phrase_eq]
        simp [String.append_assoc]
      · simpa using lead.append lead_rest

theorem Passes.complete {slots : List (Expansion × Slot)} {words : List String}
    {entry : Reading × Props} {after : Option String}
    (each : ∀ place ∈ slots, Reads (language place.1) (read place.1))
    (derived : List.Forall₂ language (slots.map Prod.fst) words)
    (lead : Leads entry.1.text (String.join words) after) :
    ∃ final, Passes read slots entry final ∧ final.1.text = after := by
  induction slots generalizing words entry with
  | nil =>
      cases derived
      exact ⟨entry, .nil, (Leads.nil _).unique (by simpa using lead)⟩
  | cons place rest induction =>
      obtain ⟨node, slot⟩ := place
      cases derived with
      | @cons _ word _ words derived derived_rest =>
          rw [String.join_cons] at lead
          obtain ⟨middle, first, second⟩ := lead.split
          have each_rest : ∀ place ∈ rest, Reads (language place.1) (read place.1) :=
            fun place member => each place (List.mem_cons_of_mem _ member)
          obtain ⟨out, found, rfl⟩ : ∃ out ∈ read node (entry.1.withResult .null),
              out.text = middle :=
            (each (node, slot) List.mem_cons_self).complete derived first
          obtain ⟨final, passes, text_eq⟩ : ∃ final,
              Passes read rest (out, slot.put out.result entry.2) final ∧ final.1.text = after :=
            induction each_rest derived_rest second
          exact ⟨final, .cons found passes, text_eq⟩

theorem Passes.stable {slots : List (Expansion × Slot)} {input extra : String}
    {entry resumed final : Reading × Props} {after : Option String}
    (each : ∀ place ∈ slots, Reads (language place.1) (read place.1))
    (passes : Passes read slots entry final)
    (resumes : Resumes input (input ++ extra) entry.1 resumed.1) (fields : resumed.2 = entry.2)
    (agrees : Leads (some (input ++ extra)) final.1.phrase after) :
    ∃ again, Passes read slots resumed again ∧
      Resumes input (input ++ extra) final.1 again.1 ∧ again.2 = final.2 := by
  induction passes generalizing resumed with
  | nil => exact ⟨resumed, .nil, resumes, fields⟩
  | @cons node slot rest entry final out found further induction =>
      have each_rest : ∀ place ∈ rest, Reads (language place.1) (read place.1) :=
        fun place member => each place (List.mem_cons_of_mem _ member)
      obtain ⟨words, -, phrase_rest, -⟩ := further.sound each_rest
      obtain ⟨middle, out_agrees, -⟩ := Leads.split (phrase_rest ▸ agrees)
      obtain ⟨next, next_found, next_resumes⟩ := (each (node, slot) List.mem_cons_self).stable
        (resumes.withResult .null) found out_agrees
      have next_fields : slot.put next.result resumed.2 = slot.put out.result entry.2 := by
        rw [next_resumes.result, fields]
      obtain ⟨again, passes_again, again_resumes, again_fields⟩ : ∃ again,
          Passes read rest (next, slot.put next.result resumed.2) again ∧
            Resumes input (input ++ extra) final.1 again.1 ∧ again.2 = final.2 :=
        induction each_rest next_resumes next_fields agrees
      exact ⟨again, .cons next_found passes_again, again_resumes, again_fields⟩

/-- The readings of a sequence, as a list. -/
def sequenceReadings (read : Expansion → Reading → List Reading) (slots : List (Expansion × Slot))
    (result : Props → Value) (reading : Reading) : List Reading :=
  (slotReadings read slots [(reading, [])]).map fun entry => entry.1.withResult (result entry.2)

/-- The result of a sequence with given fields. -/
def sequenceResult (slots : List (Expansion × Slot)) (fixed : Option Value) (fields : Props) :
    Value :=
  match fixed with
  | some value => value
  | none => if slots.any fun place => place.2.isKeyed then .map fields else .null

theorem readSequence_eq_pure {slots : List (Expansion × Slot)}
    (effectless : ∀ place ∈ slots, ∀ reading, child place.1 reading = pure (read place.1 reading))
    (fixed : Option Value) (reading : Reading) :
    readSequence child slots fixed reading =
      pure (sequenceReadings read slots (sequenceResult slots fixed) reading) := by
  rw [readSequence, readSlots_eq_pure effectless, pure_bind]
  rfl

theorem mem_sequenceReadings {slots : List (Expansion × Slot)} {result : Props → Value}
    {reading out : Reading} :
    out ∈ sequenceReadings read slots result reading ↔
      ∃ final, Passes read slots (reading, []) final ∧ out = final.1.withResult (result final.2) := by
  simp only [sequenceReadings, List.mem_map, mem_slotReadings, List.mem_singleton,
    exists_eq_left, eq_comm]

theorem reads_sequence {slots : List (Expansion × Slot)} (result : Props → Value)
    (each : ∀ place ∈ slots, Reads (language place.1) (read place.1)) :
    Reads (fun word => ∃ words, List.Forall₂ language (slots.map Prod.fst) words ∧
        word = String.join words)
      (sequenceReadings read slots result) where
  sound found := by
    obtain ⟨final, passes, rfl⟩ := mem_sequenceReadings.mp found
    obtain ⟨words, derived, phrase_eq, lead⟩ := passes.sound each
    exact ⟨_, ⟨words, derived, rfl⟩, phrase_eq, lead⟩
  complete := by
    rintro before word after ⟨words, derived, rfl⟩ lead
    obtain ⟨final, passes, text_eq⟩ :
        ∃ final, Passes read slots (before, []) final ∧ final.1.text = after :=
      Passes.complete each derived lead
    exact ⟨_, mem_sequenceReadings.mpr ⟨final, passes, rfl⟩, text_eq⟩
  stable := by
    intro input extra before resumed out after resumes found agrees
    obtain ⟨final, passes, rfl⟩ := mem_sequenceReadings.mp found
    obtain ⟨again, passes_again, again_resumes, fields⟩ : ∃ again,
        Passes read slots (resumed, []) again ∧
          Resumes input (input ++ extra) final.1 again.1 ∧ again.2 = final.2 :=
      passes.stable each resumes rfl agrees
    refine ⟨_, mem_sequenceReadings.mpr ⟨again, passes_again, rfl⟩, ?_⟩
    rw [fields]
    exact again_resumes.withResult _

end Nodes

end Phrasing.Traversal
