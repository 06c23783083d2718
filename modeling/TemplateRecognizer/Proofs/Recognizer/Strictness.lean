import TemplateRecognizer.Proofs.Grammar.Pending
import TemplateRecognizer.Proofs.Recognizer.Leniency
import TemplateRecognizer.Proofs.Token.TagNames

/-!
# The two checks are filters

A recognition never looks at the checks to find its way.  To ask for the end of the input
only adds a last question to an acceptance.  To compare the names of tags ends a recognition
at the first tag that is closed by another name than it was opened by, and changes nothing
before.
-/

set_option autoImplicit false

namespace TemplateRecognizer

/-! ## Where names of tags are waited for -/

def Symbol.Passes : Symbol → Place → Place → Prop
  | .token kind _, place, next =>
    place.behind kind = next ∧ (kind = .identifier → ∃ further, place = .inside further)
  | .openingName, place, next => place = .outside ∧ next = .outside
  | .closingName _, place, next => place = .behindSlash ∧ next = .outside
  | .enter, place, next | .leave, place, next => place = next
  | .phrase inner, place, next => match inner with
    | .tags | .tag | .statements | .statement | .body => place = .outside ∧ next = .outside
    | .directive | .conditional | .loop => place = .inside 0 ∧ next = .outside
    | _ => ∃ further, place = .inside further ∧ next = .inside further

theorem Phrase.leads_passes {phrase : Phrase} {ahead : Kind} {expansion : List Symbol}
    {place next : Place} (passes : (Symbol.phrase phrase).Passes place next)
    (predicted : phrase.expand ahead = some expansion) :
    Leads Symbol.Passes expansion place next := by
  cases phrase
  case tags | tag | statements | statement | body | directive | conditional | loop =>
    obtain ⟨rfl, rfl⟩ := passes
    simp only [expand] at predicted
    first
      | (split at predicted <;> cases predicted <;> simp [Leads, Symbol.Passes, Place.behind])
      | (cases predicted; simp [Leads, Symbol.Passes, Place.behind])
  all_goals
    obtain ⟨further, rfl, rfl⟩ := passes
    simp only [expand] at predicted
    first
      | (split at predicted <;> cases predicted <;> simp [Leads, Symbol.Passes, Place.behind])
      | (cases predicted; simp [Leads, Symbol.Passes])

/-- `stage.Awaits place opened` says that a stage stands at `place` and waits for the ends of
the tags that bear the names `opened`. -/
def Stage.Awaits (stage : Stage) (place : Place) (opened : List Token) : Prop :=
  (∃ finish, Leads Symbol.Passes stage.pending place finish) ∧
    stage.pending.filterMap Symbol.closes? = opened.map Token.textOrEmpty

def TagNames.mismatch (names : TagNames) : ParseError :=
  .mismatchedTag names.opening.textOrEmpty names.closing.textOrEmpty names.closing.position

def Options.comparing (options : Options) : Options := { options with strictTagNames := true }

section

variable {options : Options} {tokens : Nat → Token} {stage next final : Stage}
  {verdict : Except ParseError Unit} {place : Place} {opened : List Token}

theorem tagNamesFrom_between {taken last : Nat} {kind : Kind} (same : (tokens taken).kind = kind)
    (within : taken + 1 ≤ last)
    (inside : kind = .identifier → ∃ further, place = .inside further) :
    tagNamesFrom place opened (between tokens taken last) =
      tagNamesFrom (place.behind kind) opened (between tokens (taken + 1) last) := by
  rw [between_of_lt tokens within, tagNamesFrom_other (by rwa [same]), same]

/-- A step that compares no names goes on as well if names are compared; and one that takes a
closing name does so if the name fits, and ends there otherwise. -/
theorem Stage.Awaits.advances (awaits : stage.Awaits place opened)
    (advances : stage.Advances options tokens next) :
    (∃ place' opened', next.Awaits place' opened' ∧
      stage.Advances options.comparing tokens next ∧
      ∀ last, next.taken ≤ last →
        tagNamesFrom place opened (between tokens stage.taken last) =
          tagNamesFrom place' opened' (between tokens next.taken last)) ∨
    ∃ names opened', next.Awaits .outside opened' ∧
      (∀ last, next.taken ≤ last →
        tagNamesFrom place opened (between tokens stage.taken last) =
          names :: tagNamesFrom .outside opened' (between tokens next.taken last)) ∧
      if names.differ then
        ∃ halted, stage.Halts options.comparing tokens (.error names.mismatch) halted ∧
          halted.taken = next.taken
      else stage.Advances options.comparing tokens next := by
  obtain ⟨⟨finish, leads⟩, named⟩ := awaits
  cases advances with
  | @token taken depth rest kind visible same =>
    obtain ⟨_, ⟨rfl, inside⟩, leads⟩ := leads
    refine .inl ⟨_, opened, ⟨⟨finish, leads⟩, named⟩, .token same, ?_⟩
    intro last within
    exact tagNamesFrom_between same within inside
  | @openingName taken depth rest same =>
    obtain ⟨_, ⟨rfl, rfl⟩, leads⟩ := leads
    refine .inl ⟨.outside, tokens taken :: opened, ⟨⟨finish, ?_⟩, ?_⟩, .openingName same, ?_⟩
    · -- The element that follows the name leads from outside of braces to outside of them.
      simpa [Symbol.afterOpeningName, Leads, Symbol.Passes, Place.behind] using leads
    · simpa [Symbol.afterOpeningName, List.filterMap_cons, Symbol.closes?] using named
    · intro last within
      rw [between_of_lt tokens within, tagNamesFrom_opening same]
  | @closingName taken depth rest opening same fits =>
    obtain ⟨_, ⟨rfl, rfl⟩, leads⟩ := leads
    cases opened with
    | nil => simp [Symbol.closes?] at named
    | cons name opened =>
      simp only [List.filterMap_cons, Symbol.closes?, List.map_cons, List.cons.injEq] at named
      obtain ⟨rfl, named⟩ := named
      refine .inr ⟨⟨name, tokens taken⟩, opened, ⟨⟨finish, leads⟩, named⟩, ?_, ?_⟩
      · intro last within
        rw [between_of_lt tokens within, tagNamesFrom_closing same]
      · by_cases agree : name.textOrEmpty = (tokens taken).textOrEmpty
        · rw [if_neg (by simp [TagNames.differ, agree])]
          exact .closingName same fun _ => agree
        · rw [if_pos (by simp [TagNames.differ, agree])]
          exact ⟨_, .mismatched rfl same agree, rfl⟩
  | enter shallow =>
    obtain ⟨_, rfl, leads⟩ := leads
    exact .inl ⟨_, opened, ⟨⟨finish, leads⟩, named⟩, .enter shallow, fun _ _ => rfl⟩
  | leave =>
    obtain ⟨_, rfl, leads⟩ := leads
    exact .inl ⟨_, opened, ⟨⟨finish, leads⟩, named⟩, .leave, fun _ _ => rfl⟩
  | phrase predicted =>
    obtain ⟨_, passes, leads⟩ := leads
    refine .inl ⟨place, opened, ⟨⟨finish, (Phrase.leads_passes passes predicted).append leads⟩, ?_⟩,
      .phrase predicted, fun _ _ => rfl⟩
    rw [List.filterMap_append,
      List.filterMap_eq_nil_iff.mpr (Phrase.closes?_of_expand predicted)]
    exact named

theorem Stage.Halts.taken_eq (halts : stage.Halts options tokens verdict final)
    (permissive : options.strictTagNames = false) : final.taken = stage.taken := by
  cases halts with
  | mismatched strict _ _ => cases permissive.symm.trans strict
  | _ => rfl

theorem Stage.Halts.comparing (halts : stage.Halts options tokens verdict final)
    (permissive : options.strictTagNames = false) :
    stage.Halts options.comparing tokens verdict final := by
  cases halts with
  | done => exact .done
  | unexpected awaited wrong => exact .unexpected awaited wrong
  | mismatched strict _ _ => cases permissive.symm.trans strict
  | tooDeep deep => exact .tooDeep deep
  | unrecognized refused => exact .unrecognized refused

theorem Course.comparing_of_agree (course : Course options tokens stage verdict final)
    (permissive : options.strictTagNames = false) (awaits : stage.Awaits place opened)
    (agree : ∀ names ∈ tagNamesFrom place opened (between tokens stage.taken final.taken),
      names.differ = false) :
    Course options.comparing tokens stage verdict final := by
  induction course generalizing place opened with
  | halts halts => exact .halts (halts.comparing permissive)
  | advances advances course inductionHypothesis =>
    rcases awaits.advances advances with ⟨place', opened', awaits', another, read⟩ |
      ⟨names, opened', awaits', read, compared⟩
    · rw [read _ course.taken_le] at agree
      exact .advances another (inductionHypothesis awaits' agree)
    · rw [read _ course.taken_le, List.forall_mem_cons] at agree
      rw [if_neg (by simp [agree.1])] at compared
      exact .advances compared (inductionHypothesis awaits' agree.2)

theorem Course.comparing_of_differ {names : TagNames}
    (course : Course options tokens stage verdict final) (awaits : stage.Awaits place opened)
    (permissive : options.strictTagNames = false)
    (first : (tagNamesFrom place opened (between tokens stage.taken final.taken)).find?
      TagNames.differ = some names) :
    ∃ halted, Course options.comparing tokens stage (.error names.mismatch) halted ∧
      halted.taken ≤ final.taken := by
  induction course generalizing place opened with
  | halts halts =>
    rw [halts.taken_eq permissive, between_self] at first
    cases first
  | advances advances course inductionHypothesis =>
    rcases awaits.advances advances with ⟨place', opened', awaits', another, read⟩ |
      ⟨names', opened', awaits', read, compared⟩
    · rw [read _ course.taken_le] at first
      obtain ⟨halted, stopped, earlier⟩ := inductionHypothesis awaits' first
      exact ⟨halted, .advances another stopped, earlier⟩
    · rw [read _ course.taken_le, List.find?_cons] at first
      cases differ : names'.differ with
      | true =>
        rw [differ] at first compared
        cases first
        obtain ⟨halted, halts, place⟩ := compared
        exact ⟨halted, .halts halts, place ▸ course.taken_le⟩
      | false =>
        rw [differ] at first compared
        obtain ⟨halted, stopped, earlier⟩ := inductionHypothesis awaits' first
        exact ⟨halted, .advances compared stopped, earlier⟩

end

/-! ## Recognitions with and without the checks -/

section

variable {σ : Type} [FiniteSource σ]

theorem recognizeFrom_requireEnd (source : σ) (strict : Bool) (maxDepth : Nat)
    (validator : Validator) :
    recognizeFrom source ⟨strict, true, maxDepth⟩ validator =
      (recognizeFrom source ⟨strict, false, maxDepth⟩ validator).checkEnd
        ⟨strict, true, maxDepth⟩ := by
  have optional : (Options.mk strict false maxDepth).requireEndOfInput = false := rfl
  by_cases opens : (TokenSource.token source 0).kind = .lessThan
  · obtain ⟨verdict, final, course⟩ := Course.exists_of_source
      ⟨strict, false, maxDepth⟩ source ⟨0, [.phrase .tags], 0⟩
    have tighter : (Options.mk strict false maxDepth).Tighter ⟨strict, true, maxDepth⟩ :=
      ⟨Nat.le_refl _, fun same => same⟩
    rcases course.relax tighter with another | ⟨error, _, excludes, _⟩
    · rw [recognizeFrom_of_course opens another, recognizeFrom_of_course opens course,
        Recognition.checkEnd_of_optional optional]
    · cases excludes with
      | tooDeep deeper => exact absurd deeper (Nat.lt_irrefl maxDepth)
      | mismatched strict permissive => cases strict.symm.trans permissive
  · rw [recognizeFrom_of_noTemplate _ opens, recognizeFrom_of_noTemplate _ opens,
      Recognition.checkEnd_of_optional optional]

/-- The names that a recognition has read tell what it comes to if they are compared. -/
theorem recognizeFrom_strict (source : σ) (requireEnd : Bool) (maxDepth : Nat)
    (validator : Validator) :
    let permissive := recognizeFrom source ⟨false, requireEnd, maxDepth⟩ validator
    let strict := recognizeFrom source ⟨true, requireEnd, maxDepth⟩ validator
    let names := tagNames (TokenSource.upcoming (permissive.pulled - 1) source)
    ((∀ tag ∈ names, tag.differ = false) → strict = permissive) ∧
      ∀ tag, names.find? TagNames.differ = some tag →
        strict.verdict = .error tag.mismatch ∧ strict.pulled ≤ permissive.pulled := by
  intro permissive strict names
  by_cases opens : (TokenSource.token source 0).kind = .lessThan
  · obtain ⟨verdict, final, course⟩ := Course.exists_of_source
      ⟨false, requireEnd, maxDepth⟩ source ⟨0, [.phrase .tags], 0⟩
    have reported : permissive = _ := recognizeFrom_of_course opens course validator
    have pulled : permissive.pulled = final.taken + 1 := by
      rw [reported, Recognition.pulled_checkEnd]
    have read : names = tagNamesFrom .outside []
        (between (TokenSource.token source) 0 final.taken) := by
      change tagNames _ = _
      rw [pulled, TokenSource.upcoming_eq_between]
      rfl
    have awaits : (Stage.mk 0 [.phrase .tags] 0).Awaits .outside [] :=
      ⟨⟨.outside, .outside, ⟨rfl, rfl⟩, rfl⟩, rfl⟩
    refine ⟨?_, ?_⟩
    · intro agree
      rw [read] at agree
      have another := course.comparing_of_agree rfl awaits agree
      have compared : strict = _ := recognizeFrom_of_course opens another validator
      rw [compared, reported]
      exact Recognition.checkEnd_congr rfl _
    · intro tag first
      rw [read] at first
      obtain ⟨halted, another, earlier⟩ := course.comparing_of_differ awaits rfl first
      have compared : strict = _ := recognizeFrom_of_course opens another validator
      rw [Recognition.checkEnd_of_error rfl] at compared
      rw [compared, pulled]
      exact ⟨rfl, Nat.succ_le_succ earlier⟩
  · have reported : permissive = _ :=
      recognizeFrom_of_noTemplate ⟨false, requireEnd, maxDepth⟩ opens validator
    have compared : strict = _ :=
      recognizeFrom_of_noTemplate ⟨true, requireEnd, maxDepth⟩ opens validator
    have pulled : permissive.pulled = 1 := by
      rw [reported, Recognition.pulled_checkEnd, pulled_recognizeAtOnce]
    refine ⟨?_, ?_⟩
    · intro _
      rw [compared, reported]
      exact Recognition.checkEnd_congr rfl _
    · intro tag first
      change (tagNames (TokenSource.upcoming (permissive.pulled - 1) source)).find? _ = _ at first
      rw [pulled] at first
      cases first

end

/-- The two checks are independent filters on the permissive recognition.  To ask for the end
turns an acceptance before another token into an error that names this token.  To compare
names ends a recognition at the first closing name it reads that is not the name its own tag
was opened by.  Neither does anything else, and so what is accepted under them is accepted
without them, from the same tokens. -/
theorem checks_are_independent_filters {σ : Type} [FiniteSource σ] (source : σ) (maxDepth : Nat)
    (validator : Validator) :
    let run := fun strict requireEnd =>
      recognizeFrom source ⟨strict, requireEnd, maxDepth⟩ validator
    (∀ strict,
      (∀ error, (run strict false).verdict = .error error → run strict true = run strict false) ∧
      ((run strict false).verdict = .ok () →
        (run strict true).pulled = (run strict false).pulled ∧
        (run strict true).verdict =
          if (run strict false).lookahead.kind = .eof then .ok ()
          else .error (.unexpectedToken .eof (run strict false).lookahead.kind
            (run strict false).lookahead.position))) ∧
    (∀ requireEnd,
      let names := tagNames
        (TokenSource.upcoming ((run false requireEnd).pulled - 1) source)
      ((∀ tag ∈ names, tag.differ = false) → run true requireEnd = run false requireEnd) ∧
      ∀ tag, names.find? TagNames.differ = some tag →
        (run true requireEnd).verdict = .error (.mismatchedTag tag.opening.textOrEmpty
          tag.closing.textOrEmpty tag.closing.position) ∧
        (run true requireEnd).pulled ≤ (run false requireEnd).pulled) ∧
    ∀ strict requireEnd, (run strict requireEnd).verdict = .ok () →
      (run false false).verdict = .ok () ∧
        (run strict requireEnd).pulled = (run false false).pulled := by
  intro run
  have ends : ∀ strict, run strict true = (run strict false).checkEnd ⟨strict, true, maxDepth⟩ :=
    fun strict => recognizeFrom_requireEnd source strict maxDepth validator
  have compares := fun requireEnd => recognizeFrom_strict source requireEnd maxDepth validator
  refine ⟨?_, compares, ?_⟩
  · intro strict
    rw [ends]
    refine ⟨?_, ?_⟩
    · intro error failed
      exact Recognition.checkEnd_of_error failed
    · intro accepted
      exact ⟨Recognition.pulled_checkEnd _, Recognition.verdict_checkEnd_of_ok accepted rfl⟩
  · intro strict requireEnd accepted
    have unended : (run strict false).verdict = .ok () ∧
        (run strict requireEnd).pulled = (run strict false).pulled := by
      cases requireEnd with
      | false => exact ⟨accepted, rfl⟩
      | true =>
        rw [ends] at accepted ⊢
        refine ⟨?_, Recognition.pulled_checkEnd _⟩
        cases reached : (run strict false).verdict with
        | ok _ => rfl
        | error error =>
          rw [Recognition.checkEnd_of_error reached, reached] at accepted
          cases accepted
    cases strict with
    | false => exact unended
    | true =>
      obtain ⟨agree, differ⟩ := compares false
      cases found : (tagNames (TokenSource.upcoming ((run false false).pulled - 1) source)).find?
          TagNames.differ with
      | none =>
        rw [List.find?_eq_none] at found
        have same : run true false = run false false :=
          agree fun tag member => Bool.eq_false_iff.mpr (found tag member)
        rwa [same] at unended
      | some tag => cases unended.1.symm.trans (differ tag found).1

end TemplateRecognizer
