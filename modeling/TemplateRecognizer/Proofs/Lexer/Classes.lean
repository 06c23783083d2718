import TemplateRecognizer.Proofs.Lexer.Course

/-!
# The classes of lexemes

A lexeme belongs to a class by its own characters, whatever stands around it, and every class says
of which kind its lexemes are.  Many lexemes can stand at the front of one text, as `1`, `1.2` and
`1.25` do at the front of `1.25`.  The one that is read there is the longest of them all.
-/

set_option autoImplicit false

namespace TemplateRecognizer

namespace Lexeme

def IsDigits (text : List Char) : Prop :=
  text ≠ [] ∧ ∀ character ∈ text, character.isDigit = true

def IsWord (text : List Char) : Prop :=
  ∃ head tail, text = head :: tail ∧ isWordStart head = true ∧
    ∀ character ∈ tail, isWordPart character = true

inductive Classified : Lexeme → Prop where
  /-- A lexeme whose kind has but one spelling: a keyword, a punctuation mark or a comparison. -/
  | symbol {kind : Kind} {symbol : String} :
      kind.symbol? = some symbol → Classified ⟨kind, none, symbol.toList⟩
  | name {word : List Char} :
      IsWord word → (∀ kind : Kind, kind.symbol? ≠ some (String.ofList word)) →
        Classified (verbatim .identifier word)
  | integer {digits : List Char} : IsDigits digits → Classified (verbatim .intConstant digits)
  | decimal {whole fraction : List Char} :
      IsDigits whole → IsDigits fraction →
        Classified (verbatim .floatConstant (whole ++ '.' :: fraction))
  | string {quote : Char} {body : List Char} :
      isQuote quote = true → quote ∉ body →
        Classified ⟨.stringConstant, some (String.ofList body), quote :: body ++ [quote]⟩
  /-- A character that neither is a blank nor begins a number or a word, and is no punctuation
  mark.  A quote is such a character, but it is read by itself only where it ends its text. -/
  | other {character : Char} :
      isBlank character = false → character.isDigit = false → isWordStart character = false →
        (∀ kind : Kind, kind.symbol? ≠ some (String.ofList [character])) →
          Classified (verbatim .unknown [character])

/-- `Candidate text lexeme` says that `lexeme` can be read at the front of `text`.  All of a text
can be read where it opens a string that it never closes. -/
inductive Candidate (text : List Char) : Lexeme → Prop where
  | classified {lexeme : Lexeme} :
      Classified lexeme → lexeme.spelling <+: text → Candidate text lexeme
  | unclosed {quote : Char} {tail : List Char} :
      isQuote quote = true → quote ∉ tail → text = quote :: tail →
        Candidate text (verbatim .unknown text)

/-- Holds of the one candidate that every other is shorter than. -/
structure Longest (text : List Char) (lexeme : Lexeme) : Prop where
  candidate : Candidate text lexeme
  unrivalled : ∀ other, Candidate text other →
    other = lexeme ∨ other.spelling.length < lexeme.spelling.length

/-! ## First characters -/

theorem isDigit_of_isWordStart {head : Char} (starts : isWordStart head = true) :
    head.isDigit = false := by
  have letter : ((decide (65 ≤ head.val ∧ head.val ≤ 90) ||
      (decide (97 ≤ head.val) && decide (head.val ≤ 122))) || head == '_') = true := starts
  have digit : head.isDigit = (decide (48 ≤ head.val) && decide (head.val ≤ 57)) := rfl
  by_cases underscore : head = '_'
  · rw [underscore]
    rfl
  · grind

theorem isQuote_iff {head : Char} : isQuote head = true ↔ head = '\x22' ∨ head = '\x27' := by
  simp [isQuote]

theorem first_eq_quoted {quote : Char} (quotes : isQuote quote = true) (tail : List Char) :
    first quote tail = quoted quote tail := by
  rcases isQuote_iff.mp quotes with rfl | rfl <;> rfl

theorem first_eq_number {head : Char} (digit : head.isDigit = true) (tail : List Char) :
    first head tail = number (head :: tail) :=
  if_pos digit

theorem first_eq_word_of_start {head : Char} (starts : isWordStart head = true)
    (tail : List Char) : first head tail = word (head :: tail) := by
  rw [first, isDigit_of_isWordStart starts, if_pos starts]
  rfl

theorem first_eq_sign {head : Char} (noDigit : head.isDigit = false)
    (noWord : isWordStart head = false) (noQuote : isQuote head = false) (tail : List Char) :
    first head tail = sign head tail := by
  rw [first, noDigit, noWord, noQuote]
  rfl

theorem IsDigits.head {digits tail : List Char} {head : Char} (isDigits : IsDigits digits)
    (starts : digits <+: head :: tail) : head.isDigit = true := by
  obtain ⟨present, all⟩ := isDigits
  cases digits with
  | nil => exact absurd rfl present
  | cons first digits =>
    rw [(List.cons_prefix_cons.mp starts).1] at all
    exact all head List.mem_cons_self

theorem IsWord.head {word tail : List Char} {head : Char} (isWord : IsWord word)
    (starts : word <+: head :: tail) : isWordStart head = true := by
  obtain ⟨first, more, rfl, letter, _⟩ := isWord
  rwa [(List.cons_prefix_cons.mp starts).1] at letter

theorem symbol?_of_ofPunctuation? {head : Char} {kind : Kind}
    (found : Kind.ofPunctuation? head = some kind) :
    kind.symbol? = some (String.ofList [head]) := by
  unfold Kind.ofPunctuation? at found
  split at found <;> cases found <;> rfl

theorem ofPunctuation?_eq_none {head : Char}
    (plain : ∀ kind : Kind, kind.symbol? ≠ some (String.ofList [head])) :
    Kind.ofPunctuation? head = none := by
  cases found : Kind.ofPunctuation? head with
  | none => rfl
  | some kind => exact absurd (symbol?_of_ofPunctuation? found) (plain kind)

theorem symbol?_ne_of_ofPunctuation? {head : Char} (plain : Kind.ofPunctuation? head = none)
    (kind : Kind) : kind.symbol? ≠ some (String.ofList [head]) := by
  intro fixed
  have alone {symbol : String} (spelled : kind.symbol? = some symbol) : symbol.toList = [head] := by
    rw [← Option.some.inj (fixed.symm.trans spelled), String.toList_ofList]
  cases spelled : kind.symbol? with
  | none => cases fixed.symm.trans spelled
  | some symbol =>
    have same := alone spelled
    cases kind <;> cases spelled <;> cases same <;> cases plain

theorem symbol_ne_nil {kind : Kind} {symbol : String} (fixed : kind.symbol? = some symbol) :
    symbol.toList ≠ [] := by
  cases kind <;> cases fixed <;> decide

theorem ofKeyword?_symbol {kind : Kind} {symbol : String} (fixed : kind.symbol? = some symbol)
    (reserved : kind.isKeyword = true) : Kind.ofKeyword? symbol = some kind := by
  cases kind <;> cases reserved <;> cases fixed <;> decide

theorem ofKeyword?_eq_none {word : String} (free : ∀ kind : Kind, kind.symbol? ≠ some word) :
    Kind.ofKeyword? word = none := by
  cases found : Kind.ofKeyword? word with
  | none => rfl
  | some kind =>
    have accepted := List.find?_some found
    simp only [Bool.and_eq_true, beq_iff_eq] at accepted
    exact absurd accepted.2 (free kind)

theorem isKeyword_of_isWord {kind : Kind} {symbol : String} (fixed : kind.symbol? = some symbol)
    (isWord : IsWord symbol.toList) : kind.isKeyword = true := by
  obtain ⟨head, tail, spelled, starts, _⟩ := isWord
  cases reserved : kind.isKeyword with
  | true => rfl
  | false =>
    cases kind <;> cases reserved <;> cases fixed <;> cases spelled <;> cases starts

theorem symbol?_ne_of_ofKeyword? {word : List Char} (isWord : IsWord word)
    (free : Kind.ofKeyword? (String.ofList word) = none) (kind : Kind) :
    kind.symbol? ≠ some (String.ofList word) := by
  intro fixed
  have reserved := isKeyword_of_isWord fixed (by rwa [String.toList_ofList])
  cases free.symm.trans (ofKeyword?_symbol fixed reserved)

/-! ## What is read is a candidate -/

theorem isDigits_takeWhile {head : Char} {tail : List Char} (digit : head.isDigit = true) :
    IsDigits ((head :: tail).takeWhile Char.isDigit) :=
  ⟨by simp [digit], List.all_eq_true.mp List.all_takeWhile⟩

theorem number_classified {head : Char} (digit : head.isDigit = true) (tail : List Char) :
    Classified (number (head :: tail)) := by
  have whole : IsDigits ((head :: tail).takeWhile Char.isDigit) := isDigits_takeWhile digit
  unfold number
  split
  · rename_i rest behind
    dsimp only
    split
    · exact .integer whole
    · rename_i present
      exact .decimal whole ⟨by simpa using present, List.all_eq_true.mp List.all_takeWhile⟩
  · exact .integer whole

theorem word_classified {head : Char} (starts : isWordStart head = true) (tail : List Char) :
    Classified (word (head :: tail)) := by
  have isWord : IsWord ((head :: tail).takeWhile isWordPart) := by
    refine ⟨head, tail.takeWhile isWordPart, ?_, starts, List.all_eq_true.mp List.all_takeWhile⟩
    rw [List.takeWhile_cons_of_pos (by simp [isWordPart, starts])]
  unfold word
  dsimp only
  split
  · rename_i kind reserved
    have accepted := List.find?_some reserved
    simp only [Bool.and_eq_true, beq_iff_eq] at accepted
    have classified := Classified.symbol accepted.2
    rwa [String.toList_ofList] at classified
  · rename_i free
    exact .name isWord (symbol?_ne_of_ofKeyword? isWord free)

theorem quoted_candidate {quote : Char} (quotes : isQuote quote = true) (tail : List Char) :
    Candidate (quote :: tail) (quoted quote tail) := by
  have front := quoted_spelling_front quote tail
  unfold quoted at front ⊢
  split
  · rename_i closing rest found
    rw [found] at front
    have same : closing = quote := by
      have first := List.head?_dropWhile_not (· != quote) tail
      simpa [found] using first
    subst same
    refine .classified (.string quotes ?_) front
    intro member
    have other := List.all_eq_true.mp List.all_takeWhile closing member
    simp at other
  · rename_i found
    refine .unclosed quotes ?_ rfl
    intro member
    have other := List.dropWhile_eq_nil_iff.mp found quote member
    simp at other

theorem comparison_classified {kind : Kind} {head : Char} (tail : List Char)
    (fixed : kind.symbol? = some (String.ofList [head, '=']))
    (alone : Classified (verbatim .unknown [head])) :
    Classified (comparison kind head tail) := by
  unfold comparison
  split
  · have classified := Classified.symbol fixed
    rwa [String.toList_ofList] at classified
  · exact alone

theorem sign_classified {head : Char} (nonblank : isBlank head = false)
    (noDigit : head.isDigit = false) (noWord : isWordStart head = false) (tail : List Char) :
    Classified (sign head tail) := by
  unfold sign
  split
  · rename_i kind found
    have classified := Classified.symbol (symbol?_of_ofPunctuation? found)
    rwa [String.toList_ofList] at classified
  · rename_i plain
    have alone : Classified (verbatim .unknown [head]) :=
      .other nonblank noDigit noWord (symbol?_ne_of_ofPunctuation? plain)
    by_cases equal : head = '='
    · rw [if_pos equal]
      exact comparison_classified tail (by rw [equal]; rfl) alone
    · rw [if_neg equal]
      by_cases exclamation : head = '!'
      · rw [if_pos exclamation]
        exact comparison_classified tail (by rw [exclamation]; rfl) alone
      · rw [if_neg exclamation]
        exact alone

theorem first_candidate {head : Char} (nonblank : isBlank head = false) (tail : List Char) :
    Candidate (head :: tail) (first head tail) := by
  by_cases quotes : isQuote head = true
  · rw [first_eq_quoted quotes]
    exact quoted_candidate quotes tail
  refine .classified ?_ (first_spelling_front head tail)
  by_cases digit : head.isDigit = true
  · rw [first_eq_number digit]
    exact number_classified digit tail
  by_cases starts : isWordStart head = true
  · rw [first_eq_word_of_start starts]
    exact word_classified starts tail
  · rw [Bool.not_eq_true] at digit starts quotes
    rw [first_eq_sign digit starts quotes]
    exact sign_classified nonblank digit starts tail

/-! ## No other candidate is as long -/

theorem verbatim_rivals {kind : Kind} {front spelling : List Char} (starts : front <+: spelling) :
    verbatim kind front = verbatim kind spelling ∨
      (verbatim kind front).spelling.length < (verbatim kind spelling).spelling.length := by
  rcases Nat.eq_or_lt_of_le starts.length_le with same | shorter
  · exact .inl (congrArg (verbatim kind) (starts.eq_of_length same))
  · exact .inr shorter

theorem prefix_takeWhile {holds : Char → Bool} {front text : List Char} (starts : front <+: text)
    (all : ∀ character ∈ front, holds character = true) : front <+: text.takeWhile holds := by
  obtain ⟨behind, rfl⟩ := starts
  rw [List.takeWhile_append_of_pos all]
  exact List.prefix_append _ _

theorem integer_rivals {digits text : List Char} (isDigits : IsDigits digits)
    (starts : digits <+: text) :
    verbatim .intConstant digits = number text ∨
      digits.length < (number text).spelling.length := by
  have front := prefix_takeWhile starts isDigits.2
  unfold number
  split
  · dsimp only
    split
    · exact verbatim_rivals front
    · right
      have covered := front.length_le
      simp only [verbatim_spelling, List.length_append, List.length_cons]
      omega
  · exact verbatim_rivals front

theorem decimal_rivals {whole fraction text : List Char} (isWhole : IsDigits whole)
    (isFraction : IsDigits fraction) (starts : whole ++ '.' :: fraction <+: text) :
    verbatim .floatConstant (whole ++ '.' :: fraction) = number text ∨
      (whole ++ '.' :: fraction).length < (number text).spelling.length := by
  obtain ⟨behind, rfl⟩ := starts
  rw [List.append_assoc, List.cons_append]
  have point : Char.isDigit '.' = false := by decide
  have taken := takeWhile_append_cons isWhole.2 point (fraction ++ behind)
  have dropped := dropWhile_append_cons isWhole.2 point (fraction ++ behind)
  have further := prefix_takeWhile (List.prefix_append fraction behind) isFraction.2
  have present : ((fraction ++ behind).takeWhile Char.isDigit).isEmpty = false := by
    rw [List.isEmpty_eq_false_iff]
    intro none
    rw [none, List.prefix_nil] at further
    exact isFraction.1 further
  simp only [number, taken, dropped, present]
  exact verbatim_rivals ((List.prefix_append_right_inj whole).mpr
    (List.cons_prefix_cons.mpr ⟨rfl, further⟩))

theorem IsWord.part {text : List Char} (isWord : IsWord text) :
    ∀ character ∈ text, isWordPart character = true := by
  obtain ⟨head, tail, rfl, starts, parts⟩ := isWord
  rintro character (_ | ⟨_, member⟩)
  · simp [isWordPart, starts]
  · exact parts character member

theorem isWord_of_isKeyword {kind : Kind} {symbol : String} (fixed : kind.symbol? = some symbol)
    (reserved : kind.isKeyword = true) : IsWord symbol.toList := by
  cases kind <;> cases reserved <;> cases fixed <;>
    exact ⟨_, _, rfl, rfl, List.all_eq_true.mp rfl⟩

theorem word_rivals {spelling text : List Char} (isWord : IsWord spelling)
    (starts : spelling <+: text) :
    text.takeWhile isWordPart = spelling ∨ spelling.length < (word text).spelling.length := by
  have front := prefix_takeWhile starts isWord.part
  have covered : (word text).spelling = text.takeWhile isWordPart := by
    unfold word
    dsimp only
    split <;> rfl
  rw [covered]
  rcases Nat.eq_or_lt_of_le front.length_le with same | shorter
  · exact .inl (front.eq_of_length same).symm
  · exact .inr shorter

theorem word_eq_symbol {kind : Kind} {symbol : String} {text : List Char}
    (fixed : kind.symbol? = some symbol) (reserved : kind.isKeyword = true)
    (whole : text.takeWhile isWordPart = symbol.toList) :
    word text = ⟨kind, none, symbol.toList⟩ := by
  simp only [word, whole, String.ofList_toList, ofKeyword?_symbol fixed reserved]

theorem word_eq_name {text name : List Char}
    (free : ∀ kind : Kind, kind.symbol? ≠ some (String.ofList name))
    (whole : text.takeWhile isWordPart = name) : word text = verbatim .identifier name := by
  simp only [word, whole, ofKeyword?_eq_none free]

theorem first_eq_symbol {kind : Kind} {symbol : String} {head : Char} {more : List Char}
    (fixed : kind.symbol? = some symbol) (plain : kind.isKeyword = false)
    (spelled : symbol.toList = head :: more) (rest : List Char) :
    first head (more ++ rest) = ⟨kind, none, symbol.toList⟩ := by
  cases kind <;> cases plain <;> cases fixed <;> cases spelled <;> rfl

theorem first_eq_string {quote : Char} {body : List Char} (quotes : isQuote quote = true)
    (free : quote ∉ body) (rest : List Char) :
    first quote (body ++ quote :: rest) =
      ⟨.stringConstant, some (String.ofList body), quote :: body ++ [quote]⟩ := by
  have closing : (quote != quote) = false := bne_self_eq_false quote
  have taken := takeWhile_append_cons (bne_of_notMem free) closing rest
  have dropped := dropWhile_append_cons (bne_of_notMem free) closing rest
  simp only [first_eq_quoted quotes, quoted, taken, dropped]

theorem first_eq_unclosed {quote : Char} {tail : List Char} (quotes : isQuote quote = true)
    (free : quote ∉ tail) : first quote tail = verbatim .unknown (quote :: tail) := by
  have dropped : tail.dropWhile (· != quote) = [] :=
    List.dropWhile_eq_nil_iff.mpr (bne_of_notMem free)
  simp only [first_eq_quoted quotes, quoted, dropped]

theorem comparison_rivals (kind : Kind) (head : Char) (tail : List Char) :
    verbatim .unknown [head] = comparison kind head tail ∨
      1 < (comparison kind head tail).spelling.length := by
  unfold comparison
  split
  · exact .inr (by simp)
  · exact .inl rfl

theorem other_rivals {head : Char} (noDigit : head.isDigit = false)
    (noWord : isWordStart head = false)
    (plain : ∀ kind : Kind, kind.symbol? ≠ some (String.ofList [head])) (tail : List Char) :
    verbatim .unknown [head] = first head tail ∨ 1 < (first head tail).spelling.length := by
  by_cases quotes : isQuote head = true
  · by_cases closed : head ∈ tail
    · right
      obtain ⟨body, rest, rfl, free⟩ := List.eq_append_cons_of_mem closed
      rw [first_eq_string quotes free]
      simp
    · rw [first_eq_unclosed quotes closed]
      exact verbatim_rivals (List.prefix_append [head] tail)
  · rw [Bool.not_eq_true] at quotes
    rw [first_eq_sign noDigit noWord quotes, sign, ofPunctuation?_eq_none plain]
    dsimp only
    split
    · exact comparison_rivals .equal head tail
    · split
      · exact comparison_rivals .notEqual head tail
      · exact .inl rfl

/-- What is read is longer than every other candidate. -/
theorem Candidate.rivals {head : Char} {tail : List Char} {lexeme : Lexeme}
    (candidate : Candidate (head :: tail) lexeme) :
    lexeme = first head tail ∨ lexeme.spelling.length < (first head tail).spelling.length := by
  cases candidate with
  | unclosed quotes free text =>
    obtain ⟨rfl, rfl⟩ := List.cons.inj text
    exact .inl (first_eq_unclosed quotes free).symm
  | classified classified starts =>
    cases classified with
    | @symbol kind symbol fixed =>
      cases reserved : kind.isKeyword with
      | true =>
        have isWord := isWord_of_isKeyword fixed reserved
        rw [first_eq_word_of_start (isWord.head starts)]
        rcases word_rivals isWord starts with whole | shorter
        · exact .inl (word_eq_symbol fixed reserved whole).symm
        · exact .inr shorter
      | false =>
        obtain ⟨rest, split⟩ := starts
        obtain ⟨mark, more, spelled⟩ := List.exists_cons_of_ne_nil (symbol_ne_nil fixed)
        dsimp only at split
        rw [spelled] at split
        obtain ⟨rfl, rfl⟩ := List.cons.inj split
        exact .inl (first_eq_symbol fixed reserved spelled rest).symm
    | name isWord free =>
      rw [first_eq_word_of_start (isWord.head starts)]
      rcases word_rivals isWord starts with whole | shorter
      · exact .inl (word_eq_name free whole).symm
      · exact .inr shorter
    | integer isDigits =>
      rw [first_eq_number (isDigits.head starts)]
      exact integer_rivals isDigits starts
    | decimal isWhole isFraction =>
      have digits := (List.prefix_append _ _).trans starts
      rw [first_eq_number (isWhole.head digits)]
      exact decimal_rivals isWhole isFraction starts
    | @string quote body quotes free =>
      obtain ⟨rest, split⟩ := starts
      obtain ⟨rfl, covers⟩ := List.cons.inj split
      obtain rfl : tail = body ++ quote :: rest := by simpa using covers.symm
      exact .inl (first_eq_string quotes free rest).symm
    | other _ noDigit noWord plain =>
      obtain ⟨rfl, _⟩ := List.cons_prefix_cons.mp starts
      exact other_rivals noDigit noWord plain tail

theorem first_longest {head : Char} (nonblank : isBlank head = false) (tail : List Char) :
    Longest (head :: tail) (first head tail) :=
  ⟨first_candidate nonblank tail, fun _ candidate => candidate.rivals⟩

end Lexeme

end TemplateRecognizer
