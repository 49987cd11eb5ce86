import Phrasing.Content.Xxh3
import Phrasing.Proofs.Grammar.Nodes

/-!
# Parsing with legible expansions

A parser of a legible expansion within the depth limit accepts exactly the texts that the expansion
derives, and suggests more exactly where the input is a proper front of such a text.  What it
suggests is stable: a reading stays while the input grows along its phrase.
-/

namespace Phrasing

open Reading Traversal

namespace Parser

section Parsing

variable {σ : Type} [Digest]

/-- Reading an input with a parser of a legible expansion has no effect and does not fail. -/
theorem exists_parse_eq_pure (parser : Parser σ)
    (legible : parser.root.Legible parser.engine.vocabulary parser.engine.config.maxRepeat)
    (shallow : parser.root.height ≤ parser.engine.config.maxDepth)
    (unlimited : parser.engine.config.maxReadings = 0) :
    ∃ read, Reads (parser.root.Derives parser.engine.config.maxRepeat) read ∧
      ∀ input, parser.parse input = pure ((read (.ofInput input)).filter Reading.isAccepted) := by
  obtain ⟨read, nodes⟩ := parser.engine.exists_readsNode (parser.engine.config.maxDepth + 1)
  have root := nodes parser.root (by omega) legible
  refine ⟨read parser.root, root.reads, fun input => ?_⟩
  rw [parse, Engine.traverse, root.effectless, pure_bind]
  simp only [unlimited, if_true]

/-- A parser accepts an input exactly when its expansion derives the input, and suggests more text
exactly when the input is a proper front of a derived text.  Whatever it reads is derived. -/
theorem parse_accepts_language (parser : Parser σ)
    (legible : parser.root.Legible parser.engine.vocabulary parser.engine.config.maxRepeat)
    (shallow : parser.root.height ≤ parser.engine.config.maxDepth)
    (unlimited : parser.engine.config.maxReadings = 0) (input : String) (world : World σ) :
    ∃ readings, parser.parse input world = .ok readings world ∧
      ((∃ reading ∈ readings, reading.text = some "") ↔
        parser.root.Derives parser.engine.config.maxRepeat input) ∧
      ((∃ reading ∈ readings, reading.text = none) ↔
        ∃ missing, missing ≠ "" ∧
          parser.root.Derives parser.engine.config.maxRepeat (input ++ missing)) ∧
      ∀ reading ∈ readings,
        parser.root.Derives parser.engine.config.maxRepeat reading.phrase ∧
          (reading.text = some "" ∧ reading.phrase = input ∨
            reading.text = none ∧ ∃ missing, missing ≠ "" ∧ reading.phrase = input ++ missing) := by
  obtain ⟨read, reads, parse_eq⟩ := parser.exists_parse_eq_pure legible shallow unlimited
  have derived (reading : Reading) (found : reading ∈ read (.ofInput input)) :
      parser.root.Derives parser.engine.config.maxRepeat reading.phrase ∧
        Leads (some input) reading.phrase reading.text := by
    obtain ⟨word, derived, phrase_eq, lead⟩ := reads.sound found
    have same : reading.phrase = word := by simpa [Reading.ofInput, phrase] using phrase_eq
    exact ⟨same ▸ derived, same ▸ lead⟩
  have complete_phrase {reading : Reading} (found : reading ∈ read (.ofInput input))
      (complete : reading.text = some "") : reading.phrase = input := by
    have lead := (derived reading found).2
    rw [complete] at lead
    cases lead with
    | within split => simpa using split.symm
  have suggested_phrase {reading : Reading} (found : reading ∈ read (.ofInput input))
      (suggested : reading.text = none) :
      ∃ missing, missing ≠ "" ∧ reading.phrase = input ++ missing := by
    have lead := (derived reading found).2
    rw [suggested] at lead
    cases lead with
    | beyond split more => exact ⟨_, more, split⟩
  refine ⟨(read (.ofInput input)).filter Reading.isAccepted, by rw [parse_eq]; rfl, ?_, ?_, ?_⟩
  · constructor
    · rintro ⟨reading, member, complete⟩
      obtain ⟨found, -⟩ := List.mem_filter.mp member
      exact complete_phrase found complete ▸ (derived reading found).1
    · intro whole
      obtain ⟨reading, found, complete⟩ : ∃ out ∈ read (.ofInput input), out.text = some "" :=
        reads.complete whole (.within (by simp))
      exact ⟨reading, List.mem_filter.mpr ⟨found, isAccepted_iff.mpr (.inl complete)⟩, complete⟩
  · constructor
    · rintro ⟨reading, member, suggested⟩
      obtain ⟨found, -⟩ := List.mem_filter.mp member
      obtain ⟨missing, more, phrase_eq⟩ := suggested_phrase found suggested
      exact ⟨missing, more, phrase_eq ▸ (derived reading found).1⟩
    · rintro ⟨missing, more, whole⟩
      obtain ⟨reading, found, suggested⟩ : ∃ out ∈ read (.ofInput input), out.text = none :=
        reads.complete whole (.beyond rfl more)
      exact ⟨reading, List.mem_filter.mpr ⟨found, isAccepted_iff.mpr (.inr suggested)⟩, suggested⟩
  · intro reading member
    obtain ⟨found, accepted⟩ := List.mem_filter.mp member
    refine ⟨(derived reading found).1, ?_⟩
    rcases isAccepted_iff.mp accepted with complete | suggested
    · exact .inl ⟨complete, complete_phrase found complete⟩
    · exact .inr ⟨suggested, suggested_phrase found suggested⟩

/-- A reading stays when the input is extended along its phrase, and is complete when the input is
the whole phrase. -/
theorem parse_resumes (parser : Parser σ)
    (legible : parser.root.Legible parser.engine.vocabulary parser.engine.config.maxRepeat)
    (shallow : parser.root.height ≤ parser.engine.config.maxDepth)
    (unlimited : parser.engine.config.maxReadings = 0) {input longer extra left : String}
    {world after : World σ} {readings : List Reading} {reading : Reading}
    (parsed : parser.parse input world = .ok readings after) (found : reading ∈ readings)
    (extended : longer = input ++ extra) (agrees : reading.phrase = longer ++ left)
    (other : World σ) :
    ∃ others, parser.parse longer other = .ok others other ∧
      ∃ again ∈ others, again.phrase = reading.phrase ∧ again.result = reading.result ∧
        again.score = reading.score ∧ (longer = reading.phrase → again.text = some "") := by
  subst extended
  obtain ⟨read, reads, parse_eq⟩ := parser.exists_parse_eq_pure legible shallow unlimited
  have parsed_list : parser.parse input world =
      .ok ((read (.ofInput input)).filter Reading.isAccepted) world := by
    rw [parse_eq]
    rfl
  obtain ⟨rfl, -⟩ := EStateM.Result.ok.inj (parsed_list.symm.trans parsed)
  obtain ⟨found, -⟩ := List.mem_filter.mp found
  have start : Resumes input (input ++ extra) (.ofInput input) (.ofInput (input ++ extra)) :=
    { phrase := rfl
      result := rfl
      score := rfl
      accounts := ofInput_accounts input
      accounts_longer := ofInput_accounts (input ++ extra) }
  have reaches : ∃ text, Leads (some (input ++ extra)) reading.phrase text ∧
      (text = some "" ∨ text = none) ∧ (input ++ extra = reading.phrase → text = some "") := by
    by_cases nothing : left = ""
    · refine ⟨some "", .within (by simp [agrees, nothing]), .inl rfl, fun _ => rfl⟩
    · refine ⟨none, .beyond agrees nothing, .inr rfl, fun whole => ?_⟩
      rw [agrees, eq_comm] at whole
      simp [nothing] at whole
  obtain ⟨text, lead, accepted, complete⟩ := reaches
  obtain ⟨again, again_found, resumes⟩ := reads.stable start found lead
  have text_eq : again.text = text := resumes.accounts_longer.unique (resumes.phrase.symm ▸ lead)
  refine ⟨_, by rw [parse_eq]; rfl, again, List.mem_filter.mpr ⟨again_found, ?_⟩, resumes.phrase,
    resumes.result, resumes.score, fun whole => text_eq.trans (complete whole)⟩
  exact isAccepted_iff.mpr (text_eq ▸ accepted)

end Parsing

/-- A type whose nodes stand for a literal. -/
private def mark : NodeType :=
  ⟨1, "Mark"⟩

/-- Two or three syllables, some of them mute. -/
private def syllables : Expansion :=
  .structural (.make 1 (.primitive .repeat) [("max", .int 3), ("min", .int 2)] []) none
    [.structural (.make 2 (.primitive .choice) [] []) none
      [.structural (.literal 3 "hey") none [], .structural (.literal 4 "") none []]]

/-- A mark that may be left out. -/
private def ending : Expansion :=
  .structural (.make 5 (.primitive .optional) [] []) none
    [.described (.ofType 6 mark) none (.structural (.literal 7 "!") none [])]

/-- A parser of syllables with an ending. -/
private def call : Parser Unit where
  engine := { vocabulary := fun _ => {}, processor := .identity }
  root := .structural (.make 0 (.primitive .sequence) [] []) none [syllables, ending]

private theorem literal_legible (id : NodeId) (text : String) :
    Expansion.Legible call.engine.vocabulary call.engine.config.maxRepeat
      (.structural (.literal id text) none []) :=
  .literal rfl ⟨trivial, trivial, trivial⟩ rfl trivial

private theorem call_legible :
    call.root.Legible call.engine.vocabulary call.engine.config.maxRepeat := by
  refine .sequence rfl ⟨trivial, trivial, trivial⟩ fun child member => ?_
  rcases List.mem_pair.mp member with rfl | rfl
  · refine .repeated rfl ⟨trivial, trivial, trivial⟩ rfl ?_ ?_ (by decide) (by decide)
      (.choice rfl ⟨trivial, trivial, trivial⟩ fun child member => ?_)
    · exact (by decide : 0 ≤ (2 : Int64).toInt)
    · exact (by decide : 0 ≤ (3 : Int64).toInt)
    · rcases List.mem_pair.mp member with rfl | rfl <;> exact literal_legible _ _
  · exact .optional rfl ⟨trivial, trivial, trivial⟩ rfl
      (.described rfl rfl ⟨trivial, trivial, trivial⟩ rfl (literal_legible 7 "!"))

private theorem call_shallow : call.root.height ≤ call.engine.config.maxDepth := by
  decide

private theorem syllables_derives : syllables.Derives call.engine.config.maxRepeat "heyhey" := by
  have joined : "heyhey" = String.join ["hey", "hey"] := by simp
  rw [joined]
  refine .repeated rfl (List.mem_singleton.mpr rfl) (by decide) (by decide) fun word member => ?_
  obtain rfl : word = "hey" := by simpa using member
  exact .choice rfl List.mem_cons_self (.literal rfl rfl)

private theorem call_derives {marks : String}
    (ends : ending.Derives call.engine.config.maxRepeat marks) :
    call.root.Derives call.engine.config.maxRepeat ("heyhey" ++ marks) := by
  have joined : "heyhey" ++ marks = String.join ["heyhey", marks] := by simp
  rw [joined]
  exact .sequence rfl (.cons syllables_derives (.cons ends .nil))

/-- Two syllables are accepted as they are, and a mark may follow them. -/
theorem parse_accepts_language_call :
    call.root.Legible call.engine.vocabulary call.engine.config.maxRepeat ∧
      call.root.height ≤ call.engine.config.maxDepth ∧ call.engine.config.maxReadings = 0 ∧
      ∃ readings, call.parse "heyhey" ⟨.empty, ()⟩ = .ok readings ⟨.empty, ()⟩ ∧
        (∃ reading ∈ readings, reading.text = some "") ∧
        ∃ reading ∈ readings, reading.text = none := by
  refine ⟨call_legible, call_shallow, rfl, ?_⟩
  obtain ⟨readings, parsed, complete, suggested, -⟩ :=
    parse_accepts_language call call_legible call_shallow rfl "heyhey" ⟨.empty, ()⟩
  refine ⟨readings, parsed, complete.mpr ?_, suggested.mpr ⟨"!", by decide, ?_⟩⟩
  · simpa using call_derives (.skipped rfl)
  · exact call_derives (.taken rfl List.mem_cons_self (.described rfl rfl (.literal rfl rfl)))

/-- What is suggested after one syllable is found again, complete, for the whole phrase. -/
theorem parse_resumes_call :
    ∃ readings reading missing, call.parse "hey" ⟨.empty, ()⟩ = .ok readings ⟨.empty, ()⟩ ∧
      reading ∈ readings ∧ reading.phrase = "hey" ++ missing ∧ missing ≠ "" ∧
      ∃ others, call.parse ("hey" ++ missing) ⟨.empty, ()⟩ = .ok others ⟨.empty, ()⟩ ∧
        ∃ again ∈ others, again.phrase = reading.phrase ∧ again.text = some "" := by
  obtain ⟨read, reads, parse_eq⟩ := exists_parse_eq_pure call call_legible call_shallow rfl
  have two_syllables : call.root.Derives call.engine.config.maxRepeat "heyhey" := by
    simpa using call_derives (.skipped rfl)
  obtain ⟨reading, found, text_eq⟩ : ∃ out ∈ read (.ofInput "hey"), out.text = none :=
    reads.complete two_syllables (.beyond (by decide : "heyhey" = "hey" ++ "hey") (by decide))
  obtain ⟨word, -, phrase_eq, lead⟩ := reads.sound found
  rw [text_eq] at lead
  cases lead with
  | @beyond _ _ missing split more =>
      have reading_phrase : reading.phrase = "hey" ++ missing := by
        simpa [Reading.ofInput, phrase, split] using phrase_eq
      have parsed : call.parse "hey" ⟨.empty, ()⟩ =
          .ok ((read (.ofInput "hey")).filter Reading.isAccepted) ⟨.empty, ()⟩ := by
        rw [parse_eq]
        rfl
      have member := List.mem_filter.mpr ⟨found, isAccepted_iff.mpr (.inr text_eq)⟩
      have agrees : reading.phrase = "hey" ++ missing ++ "" := by simpa using reading_phrase
      obtain ⟨others, parsed_again, again, again_found, again_phrase, -, -, complete⟩ :=
        parse_resumes call call_legible call_shallow rfl parsed member rfl agrees ⟨.empty, ()⟩
      exact ⟨_, reading, missing, parsed, member, reading_phrase, more, others, parsed_again, again,
        again_found, again_phrase, complete reading_phrase.symm⟩

end Parser

end Phrasing
