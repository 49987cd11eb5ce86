import Phrasing.Proofs.Grammar.Reads

/-!
# Reading repetitions

A repetition reads the concatenations of as many words of its child as its bounds allow, although
it stops extending a reading whose last repetition did not progress.  A repetition of the empty
word above the least number can be left out, and a completion above the least number is reported
where it stands.
-/

namespace Phrasing.Traversal

open Reading

variable {language : String → Prop} {list : Reading → List Reading} {least remaining round : Nat}

theorem progressed_iff {before after : Reading} :
    progressed before after = true ↔
      ∃ whole rest, before.text = some whole ∧ after.text = some rest ∧
        rest.utf8ByteSize < whole.utf8ByteSize := by
  rw [progressed]
  cases before.text <;> cases after.text <;> simp

/-- A word that is not empty progresses within the input. -/
theorem progressed_of_leads {before after : Reading} {word rest : String}
    (lead : Leads before.text word (some rest)) (text_eq : after.text = some rest)
    (nonempty : word ≠ "") : progressed before after = true := by
  generalize whole_eq : before.text = whole at lead
  cases lead with
  | within split =>
      refine progressed_iff.mpr ⟨_, rest, whole_eq, text_eq, ?_⟩
      have positive : word.utf8ByteSize ≠ 0 := by simpa using nonempty
      rw [split, String.utf8ByteSize_append]
      omega

theorem GoesThrough.sound {entry final : Reading × List Value} (child : Reads language list)
    (through : GoesThrough list least remaining round entry final) :
    ∃ words : List String, words.length ≤ remaining ∧ least + 1 ≤ round + words.length ∧
      (∀ word ∈ words, language word) ∧ final.1.phrase = entry.1.phrase ++ String.join words ∧
      Leads entry.1.text (String.join words) final.1.text := by
  induction through with
  | @last remaining round entry out found enough =>
      obtain ⟨word, derived, phrase_eq, lead⟩ := child.sound found
      refine ⟨[word], by simp, by simp; omega, by simpa using derived, ?_, ?_⟩
      · simpa using phrase_eq
      · simpa using lead
  | @further remaining round entry final out found extends_on rest induction =>
      obtain ⟨word, derived, phrase_eq, lead⟩ := child.sound found
      obtain ⟨words, few, many, derived_rest, phrase_rest, lead_rest⟩ := induction
      refine ⟨word :: words, by simp; omega, by simp; omega, ?_, ?_, ?_⟩
      · simpa using ⟨derived, derived_rest⟩
      · rw [phrase_rest, phrase_eq]
        simp [String.append_assoc]
      · simpa using lead.append lead_rest

theorem GoesThrough.complete {words : List String} {entry : Reading × List Value}
    {after : Option String} (child : Reads language list) (some_word : words ≠ [])
    (few : words.length ≤ remaining) (many : least + 1 ≤ round + words.length)
    (derived : ∀ word ∈ words, language word)
    (lead : Leads entry.1.text (String.join words) after) :
    ∃ final, GoesThrough list least remaining round entry final ∧ final.1.text = after := by
  induction words generalizing remaining round entry with
  | nil => exact (some_word rfl).elim
  | cons word words induction =>
      obtain ⟨remaining, rfl⟩ : ∃ rest, remaining = rest + 1 :=
        ⟨remaining - 1, by simp at few; omega⟩
      have word_derived : language word := derived word List.mem_cons_self
      have rest_derived : ∀ other ∈ words, language other :=
        fun other member => derived other (List.mem_cons_of_mem word member)
      simp only [List.length_cons] at few many
      rw [String.join_cons] at lead
      obtain ⟨middle, first, second⟩ := lead.split
      obtain ⟨out, found, rfl⟩ := child.complete word_derived first
      by_cases last : words = []
      · subst last
        simp only [List.length_nil] at many
        exact ⟨_, .last found (by omega), (Leads.nil _).unique (by simpa using second)⟩
      have rest_through (extends_on : round < least ∨ progressed entry.1 out = true) :
          ∃ final, GoesThrough list least (remaining + 1) round entry final ∧
            final.1.text = after := by
        obtain ⟨final, through, text_eq⟩ : ∃ final,
            GoesThrough list least remaining (round + 1) (out, entry.2 ++ [out.result]) final ∧
              final.1.text = after :=
          induction last (by omega) (by omega) rest_derived second
        exact ⟨final, .further found extends_on through, text_eq⟩
      by_cases short : round < least
      · exact rest_through (.inl short)
      cases out_text : out.text with
      | none =>
          -- The completion is reported here; the words that remain are not needed.
          rw [out_text] at second
          cases second
          exact ⟨_, .last found (by omega), out_text⟩
      | some rest =>
          by_cases nothing : word = ""
          · -- A repetition of the empty word is left out.
            subst nothing
            have same : entry.1.text = out.text := (Leads.nil _).unique first
            rw [← same] at second
            have positive : 1 ≤ words.length := List.length_pos_of_ne_nil last
            exact induction last (by omega) (by omega) rest_derived second
          · exact rest_through (.inr (progressed_of_leads (out_text ▸ first) out_text nothing))

/-- What progressed within an input progresses within a longer one. -/
theorem progressed_of_resumes {input extra : String} {before out resumed again : Reading}
    (before_resumes : Resumes input (input ++ extra) before resumed)
    (out_resumes : Resumes input (input ++ extra) out again)
    (progress : progressed before out = true) : progressed resumed again = true := by
  obtain ⟨whole, rest, before_text, out_text, shorter⟩ := progressed_iff.mp progress
  have longer {reading other : Reading} {text : String}
      (resumes : Resumes input (input ++ extra) reading other)
      (text_eq : reading.text = some text) : other.text = some (text ++ extra) := by
    have lead := resumes.accounts
    rw [Accounts, text_eq] at lead
    exact Leads.unique resumes.accounts_longer (resumes.phrase.symm ▸ lead.extend extra)
  refine progressed_iff.mpr ⟨_, _, longer before_resumes before_text, longer out_resumes out_text, ?_⟩
  rw [String.utf8ByteSize_append, String.utf8ByteSize_append]
  omega

theorem GoesThrough.stable {input extra : String} {entry final resumed : Reading × List Value}
    {after : Option String} (child : Reads language list)
    (through : GoesThrough list least remaining round entry final)
    (resumes : Resumes input (input ++ extra) entry.1 resumed.1) (results : resumed.2 = entry.2)
    (agrees : Leads (some (input ++ extra)) final.1.phrase after) :
    ∃ again, GoesThrough list least remaining round resumed again ∧
      Resumes input (input ++ extra) final.1 again.1 ∧ again.2 = final.2 := by
  induction through generalizing resumed with
  | last found enough =>
      obtain ⟨again, again_found, again_resumes⟩ := child.stable resumes found agrees
      refine ⟨_, .last again_found enough, again_resumes, ?_⟩
      rw [again_resumes.result, results]
  | @further remaining round entry final out found extends_on rest induction =>
      obtain ⟨words, -, -, -, phrase_rest, -⟩ := rest.sound child
      obtain ⟨middle, out_agrees, -⟩ := Leads.split (phrase_rest ▸ agrees)
      obtain ⟨next, next_found, next_resumes⟩ := child.stable resumes found out_agrees
      have next_results : resumed.2 ++ [next.result] = entry.2 ++ [out.result] := by
        rw [next_resumes.result, results]
      obtain ⟨again, again_through, again_resumes, again_results⟩ : ∃ again,
          GoesThrough list least remaining (round + 1) (next, resumed.2 ++ [next.result]) again ∧
            Resumes input (input ++ extra) final.1 again.1 ∧ again.2 = final.2 :=
        induction next_resumes next_results agrees
      refine ⟨again, .further next_found ?_ again_through, again_resumes, again_results⟩
      exact extends_on.imp_right (progressed_of_resumes resumes next_resumes)

/-- The readings of a repetition, as a list. -/
def repeatReadings (list : Reading → List Reading) (bounds : Bounds) (reading : Reading) :
    List Reading :=
  (if bounds.least = 0 then [reading.withResult (.list [])] else []) ++
    roundReadings list bounds.least bounds.greatest 1 [(reading, [])]

theorem readRepeat_eq_pure {m : Type → Type} [Monad m] [LawfulMonad m]
    {only : Reading → m (List Reading)}
    (effectless : ∀ reading, only reading = pure (list reading)) (bounds : Bounds)
    (reading : Reading) : readRepeat only bounds reading = pure (repeatReadings list bounds reading) := by
  rw [readRepeat, readRounds_eq_pure effectless, pure_bind]
  rfl

theorem mem_repeatReadings {bounds : Bounds} {reading out : Reading} :
    out ∈ repeatReadings list bounds reading ↔
      bounds.least = 0 ∧ out = reading.withResult (.list []) ∨
        ∃ final, GoesThrough list bounds.least bounds.greatest 1 (reading, []) final ∧
          out = final.1.withResult (.list final.2) := by
  rw [repeatReadings, List.mem_append, mem_roundReadings]
  simp

theorem reads_repeat {bounds : Bounds} (child : Reads language list) :
    Reads (fun word => ∃ words : List String, bounds.least ≤ words.length ∧
        words.length ≤ bounds.greatest ∧ (∀ part ∈ words, language part) ∧
        word = String.join words)
      (repeatReadings list bounds) where
  sound found := by
    rcases mem_repeatReadings.mp found with ⟨none_needed, rfl⟩ | ⟨final, through, rfl⟩
    · exact ⟨"", ⟨[], by simp [none_needed], by simp, by simp, rfl⟩, by simp, .nil _⟩
    · obtain ⟨words, few, many, derived, phrase_eq, lead⟩ := through.sound child
      exact ⟨_, ⟨words, by omega, few, derived, rfl⟩, phrase_eq, lead⟩
  complete := by
    rintro before word after ⟨words, many, few, derived, rfl⟩ lead
    by_cases no_word : words = []
    · subst no_word
      refine ⟨_, mem_repeatReadings.mpr (.inl ⟨by simpa using many, rfl⟩), ?_⟩
      exact (Leads.nil _).unique (by simpa using lead)
    · obtain ⟨final, through, text_eq⟩ : ∃ final,
          GoesThrough list bounds.least bounds.greatest 1 (before, []) final ∧
            final.1.text = after :=
        GoesThrough.complete child no_word few (by omega) derived lead
      exact ⟨_, mem_repeatReadings.mpr (.inr ⟨final, through, rfl⟩), text_eq⟩
  stable := by
    intro input extra before resumed out after resumes found agrees
    rcases mem_repeatReadings.mp found with ⟨none_needed, rfl⟩ | ⟨final, through, rfl⟩
    · exact ⟨_, mem_repeatReadings.mpr (.inl ⟨none_needed, rfl⟩), resumes.withResult _⟩
    · obtain ⟨again, again_through, again_resumes, results⟩ : ∃ again,
          GoesThrough list bounds.least bounds.greatest 1 (resumed, []) again ∧
            Resumes input (input ++ extra) final.1 again.1 ∧ again.2 = final.2 :=
        through.stable child resumes rfl agrees
      refine ⟨_, mem_repeatReadings.mpr (.inr ⟨again, again_through, rfl⟩), ?_⟩
      rw [results]
      exact again_resumes.withResult _

end Phrasing.Traversal
