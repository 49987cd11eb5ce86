import Phrasing.Compilation

/-!
# Leading through words

A word leads from the rest of an input to what remains after the word: it lies within the rest, or
goes beyond it, and after that nothing remains to be read.  Words lead in succession exactly when
their concatenation leads.  A reading accounts for an input when its phrase leads from the whole
input to its rest.
-/

namespace Phrasing

/-- Texts that are fronts of one text are comparable. -/
theorem Text.append_eq_append {left rest word missing : String}
    (same : left ++ rest = word ++ missing) :
    (∃ more, left = word ++ more ∧ missing = more ++ rest) ∨
      ∃ more, word = left ++ more ∧ more ≠ "" ∧ rest = more ++ missing := by
  have characters : left.toList ++ rest.toList = word.toList ++ missing.toList := by
    simpa using congrArg String.toList same
  rcases List.append_eq_append_iff.mp characters with ⟨more, split, rest_split⟩ | ⟨more, split, rest_split⟩
  · by_cases empty : more = []
    · subst empty
      refine .inl ⟨"", ?_, ?_⟩ <;> apply String.toList_inj.mp <;> simp_all
    · refine .inr ⟨String.ofList more, ?_, ?_, ?_⟩
      · apply String.toList_inj.mp
        simpa using split
      · intro nothing
        exact empty (by simpa using congrArg String.toList nothing)
      · apply String.toList_inj.mp
        simpa using rest_split
  · refine .inl ⟨String.ofList more, ?_, ?_⟩ <;> apply String.toList_inj.mp <;> simpa

namespace Reading

/-- A word leads from the rest of an input to a further rest; once it has gone beyond the input,
nothing remains. -/
inductive Leads : Option String → String → Option String → Prop
  | within {whole word rest : String} (split : whole = word ++ rest) :
      Leads (some whole) word (some rest)
  | beyond {rest word missing : String} (split : word = rest ++ missing) (more : missing ≠ "") :
      Leads (some rest) word none
  | after {word : String} : Leads none word none

namespace Leads

theorem nil (text : Option String) : Leads text "" text := by
  cases text with
  | none => exact .after
  | some rest => exact .within (by simp)

theorem append {before middle after : Option String} {left right : String}
    (first : Leads before left middle) (second : Leads middle right after) :
    Leads before (left ++ right) after := by
  cases first with
  | after => cases second; exact .after
  | beyond split more =>
      cases second
      refine .beyond (by rw [split, String.append_assoc]) ?_
      simp [String.append_eq_empty_iff, more]
  | within split =>
      cases second with
      | within split_rest => exact .within (by rw [split, split_rest, String.append_assoc])
      | beyond split_rest more =>
          exact .beyond (by rw [split, split_rest, String.append_assoc]) more

theorem unique {before after other : Option String} {word : String}
    (one : Leads before word after) (another : Leads before word other) : after = other := by
  cases one with
  | after => cases another; rfl
  | within split =>
      cases another with
      | within split_other => rw [(String.append_right_inj _).mp (split.symm.trans split_other)]
      | beyond split_other more =>
          rw [split, String.append_assoc, eq_comm] at split_other
          simp [more] at split_other
  | beyond split more =>
      cases another with
      | within split_other =>
          rw [split_other, String.append_assoc, eq_comm] at split
          simp [more] at split
      | beyond => rfl

theorem split {before after : Option String} {left right : String}
    (whole : Leads before (left ++ right) after) :
    ∃ middle, Leads before left middle ∧ Leads middle right after := by
  cases whole with
  | after => exact ⟨none, .after, .after⟩
  | within split => exact ⟨_, .within (by rw [split, String.append_assoc]), .within rfl⟩
  | @beyond rest _ missing split more =>
      rcases Text.append_eq_append split with ⟨further, left_split, missing_split⟩ |
        ⟨further, rest_split, -, right_split⟩
      · by_cases nothing : further = ""
        · subst nothing
          have right_split : right = "" ++ missing := by simp [missing_split]
          exact ⟨some "", .within (by simp [left_split]), .beyond right_split more⟩
        · exact ⟨none, .beyond left_split nothing, .after⟩
      · exact ⟨some further, .within rest_split, .beyond right_split more⟩

/-- What remains of a longer input where something remains of the input. -/
theorem extend {input word rest : String} (lead : Leads (some input) word (some rest))
    (extra : String) : Leads (some (input ++ extra)) word (some (rest ++ extra)) := by
  cases lead with
  | within split => exact .within (by rw [split, String.append_assoc])

end Leads

/-- The phrase of a reading leads from an input to the rest of the reading. -/
def Accounts (reading : Reading) (input : String) : Prop :=
  Leads (some input) reading.phrase reading.text

theorem ofInput_accounts (input : String) : (ofInput input).Accounts input :=
  .within (by simp [ofInput, phrase])

@[simp]
theorem withResult_text (reading : Reading) (result : Value) :
    (reading.withResult result).text = reading.text :=
  rfl

@[simp]
theorem withResult_phrase (reading : Reading) (result : Value) :
    (reading.withResult result).phrase = reading.phrase :=
  rfl

@[simp]
theorem withResult_score (reading : Reading) (result : Value) :
    (reading.withResult result).score = reading.score :=
  rfl

@[simp]
theorem withResult_result (reading : Reading) (result : Value) :
    (reading.withResult result).result = result :=
  rfl

theorem isAccepted_iff {reading : Reading} :
    reading.isAccepted = true ↔ reading.text = some "" ∨ reading.text = none := by
  simp [isAccepted, isComplete, isSuggestion]

/-- The same point of two readings, one of an input and one of a longer input. -/
structure Resumes (input longer : String) (reading resumed : Reading) : Prop where
  /-- The two readings have read the same text. -/
  phrase : resumed.phrase = reading.phrase
  /-- They have the same result. -/
  result : resumed.result = reading.result
  /-- They have met the same factors. -/
  score : resumed.score = reading.score
  /-- The first reads the input. -/
  accounts : reading.Accounts input
  /-- The second reads the longer input. -/
  accounts_longer : resumed.Accounts longer

theorem Resumes.withResult {input longer : String} {reading resumed : Reading}
    (resumes : Resumes input longer reading resumed) (result : Value) :
    Resumes input longer (reading.withResult result) (resumed.withResult result) where
  phrase := resumes.phrase
  result := rfl
  score := resumes.score
  accounts := resumes.accounts
  accounts_longer := resumes.accounts_longer

end Reading

end Phrasing
