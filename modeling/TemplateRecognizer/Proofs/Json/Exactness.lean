import TemplateRecognizer.Proofs.Json.RoundTrip

/-!
# Only written values are read

What is read of a text is what the text writes: each part of it that a reader takes away is a
spelling of what it gives for it, and the pieces put together are those of the value that comes
out.  With the other direction a text is read as a value just if it writes that value.
-/

set_option autoImplicit false

namespace TemplateRecognizer

namespace Json

/-! ## Strings -/

theorem exists_spellings_of_codes? {text : List Char} {codes : List Nat} {behind : List Char}
    (read : codes? text = some (codes, behind)) :
    ∃ spellings, List.Forall₂ CodeSpelled codes spellings ∧
      text = spellings.flatten ++ '\x22' :: behind := by
  fun_induction codes? text generalizing codes behind with
  | case2 rest =>
    cases read
    exact ⟨[], .nil, rfl⟩
  | case3 first second third fourth rest code furtherCodes furtherBehind readRest readCode
      inductionHypothesis =>
    cases read
    obtain ⟨spellings, spelled, rfl⟩ := inductionHypothesis readRest
    exact ⟨_, .cons (.numbered readCode) spelled, rfl⟩
  | case5 letter rest notCode character furtherCodes furtherBehind readRest readLetter
      inductionHypothesis =>
    cases read
    obtain ⟨spellings, spelled, rfl⟩ := inductionHypothesis readRest
    exact ⟨_, .cons (.letter readLetter) spelled, rfl⟩
  | case8 character rest notQuote notCode notLetter allowed furtherCodes furtherBehind readRest
      inductionHypothesis =>
    cases read
    obtain ⟨spellings, spelled, rfl⟩ := inductionHypothesis readRest
    rw [not_or, Nat.not_lt] at allowed
    exact ⟨_, .cons (.plain notQuote allowed.2 allowed.1) spelled, rfl⟩
  | _ => simp at read

theorem quoted_of_codeSpelled {codes : List Nat} {spellings : List (List Char)}
    (spelled : List.Forall₂ CodeSpelled codes spellings) :
    Quoted ((decode? codes).map String.ofList) ('\x22' :: spellings.flatten ++ ['\x22']) := by
  cases read : decode? codes with
  | none =>
    refine .unpaired (fun characters encodes => ?_) spelled
    cases read.symm.trans encodes.decode?
  | some characters => exact .text (encodes_of_decode? (lt_of_codeSpelled spelled) read) spelled

/-! ## Numbers -/

theorem takeSign_spec (text : List Char) :
    (takeSign text).1 ∈ [[], ['-']] ∧ text = (takeSign text).1 ++ (takeSign text).2 := by
  unfold takeSign
  split <;> simp

theorem decimal_of_takeWhole? {text whole behind : List Char}
    (read : takeWhole? text = some (whole, behind)) :
    Decimal whole ∧ text = whole ++ behind := by
  unfold takeWhole? at read
  split at read
  · cases read
    refine ⟨⟨by simp, by simp, ?_⟩, rfl⟩
    rintro tail ⟨⟩
    rfl
  · rename_i noZero
    dsimp only at read
    split at read
    · cases read
    · rename_i present
      cases read
      refine ⟨⟨by simpa using present, List.all_eq_true.mp List.all_takeWhile, ?_⟩,
        List.takeWhile_append_dropWhile.symm⟩
      intro tail same
      have cut := List.takeWhile_append_dropWhile (p := Char.isDigit) (l := text)
      rw [same] at cut
      exact absurd cut.symm (noZero _)

theorem takeFraction_spec (text : List Char) :
    Fraction (takeFraction text).1 ∧ text = (takeFraction text).1 ++ (takeFraction text).2 := by
  unfold takeFraction
  split
  · rename_i rest
    dsimp only
    split
    · exact ⟨.absent, rfl⟩
    · rename_i present
      refine ⟨.point (by simpa using present) (List.all_eq_true.mp List.all_takeWhile), ?_⟩
      rw [List.cons_append, List.takeWhile_append_dropWhile]
  · exact ⟨.absent, rfl⟩

theorem takeExponentSign_spec (text : List Char) :
    (takeExponentSign text).1 ∈ [[], ['+'], ['-']] ∧
      text = (takeExponentSign text).1 ++ (takeExponentSign text).2 := by
  unfold takeExponentSign
  split <;> simp

theorem takeExponent_spec (text : List Char) :
    Exponent (takeExponent text).1 ∧ text = (takeExponent text).1 ++ (takeExponent text).2 := by
  unfold takeExponent
  split
  · exact ⟨.absent, rfl⟩
  · rename_i letter rest
    obtain ⟨signed, cut⟩ := takeExponentSign_spec rest
    dsimp only
    split
    · rename_i powers
      refine ⟨.power (by simpa using powers.1) signed (by simpa using powers.2)
        (List.all_eq_true.mp List.all_takeWhile), ?_⟩
      rw [List.cons_append, List.cons_append, List.append_assoc, List.takeWhile_append_dropWhile,
        ← cut]
    · exact ⟨.absent, rfl⟩

theorem numeral_of_numeral? {text numeral behind : List Char}
    (read : numeral? text = some (numeral, behind)) :
    Numeral numeral ∧ text = numeral ++ behind := by
  unfold numeral? at read
  dsimp only at read
  split at read
  · cases read
  · rename_i whole afterWhole readWhole
    cases read
    obtain ⟨isSign, signed⟩ := takeSign_spec text
    obtain ⟨decimal, covered⟩ := decimal_of_takeWhole? readWhole
    obtain ⟨isFraction, pointed⟩ := takeFraction_spec afterWhole
    obtain ⟨isExponent, powered⟩ := takeExponent_spec (takeFraction afterWhole).2
    have parts := Numeral.parts isSign decimal isFraction isExponent
    refine ⟨by simpa only [List.append_assoc] using parts, ?_⟩
    simp only [List.append_assoc, ← powered, ← pointed, ← covered, ← signed]

/-! ## Pieces -/

theorem exists_spelling_of_piece? {text : List Char} {piece : Piece} {behind : List Char}
    (read : piece? text = some (piece, behind)) :
    ∃ spelling, piece.SpelledBy spelling ∧ text = spelling ++ behind := by
  have mark {piece : Piece} (noNumber : ∀ numeral, piece ≠ .number numeral)
      (noString : ∀ text, piece ≠ .string text) :
      ∃ spelling, piece.SpelledBy spelling ∧ piece.spelling ++ behind = spelling ++ behind :=
    ⟨piece.spelling, .mark noNumber noString, rfl⟩
  unfold piece? at read
  split at read
  case h_10 rest =>
    obtain ⟨⟨codes, behind'⟩, readCodes, same⟩ := Option.map_eq_some_iff.mp read
    cases same
    obtain ⟨spellings, spelled, rfl⟩ := exists_spellings_of_codes? readCodes
    exact ⟨_, .string (quoted_of_codeSpelled spelled), by simp⟩
  case h_11 =>
    obtain ⟨⟨numeral, behind'⟩, readNumeral, same⟩ := Option.map_eq_some_iff.mp read
    cases same
    obtain ⟨isNumeral, cut⟩ := numeral_of_numeral? readNumeral
    have letters : (String.ofList numeral).toList = numeral := String.toList_ofList
    have spelled := Piece.SpelledBy.number (letters.symm ▸ isNumeral)
    rw [letters] at spelled
    exact ⟨numeral, spelled, cut⟩
  all_goals
    cases read
    exact mark (by simp) (by simp)

theorem Spaced.of_piece? {text behind : List Char} {piece : Piece} {pieces : List Piece}
    (read : piece? text = some (piece, behind)) (spaced : Spaced pieces behind) :
    Spaced (piece :: pieces) text := by
  obtain ⟨spelling, spelled, rfl⟩ := exists_spelling_of_piece? read
  exact .piece spelled spaced

theorem spaced_of_dropWhile {pieces : List Piece} {text : List Char}
    (spaced : Spaced pieces (text.dropWhile isBlank)) : Spaced pieces text := by
  induction text with
  | nil => exact spaced
  | cons first text inductionHypothesis =>
    rw [List.dropWhile_cons] at spaced
    split at spaced
    · rename_i blank
      exact .blank blank (inductionHypothesis spaced)
    · exact spaced

/-- The pieces that a text is cut into are written by it. -/
theorem spaced_of_pieces? {text : List Char} {pieces : List Piece}
    (read : pieces? text = some pieces) : Spaced pieces text := by
  fun_induction pieces? text generalizing pieces with
  | case1 text trimmed =>
    cases read
    exact spaced_of_dropWhile (trimmed ▸ .done)
  | case2 text head tail trimmed unread => cases read
  | case3 text head tail trimmed piece behind readPiece inductionHypothesis =>
    obtain ⟨others, readBehind, rfl⟩ := Option.map_eq_some_iff.mp read
    refine spaced_of_dropWhile ?_
    rw [trimmed]
    exact .of_piece? readPiece (inductionHypothesis readBehind)

/-! ## Values -/

def itemsHeld (held : List Json) : List Piece :=
  held.reverse.flatMap fun item => item.pieces ++ [.comma]

def membersHeld (held : List (Option String × Json)) : List Piece :=
  held.reverse.flatMap fun member =>
    .string member.1 :: .colon :: (member.2.pieces ++ [.comma])

def Frame.held : Frame → List Piece
  | array items => .openArray :: itemsHeld items
  | member members name => .openObject :: (membersHeld members ++ [.string name, .colon])

def Expected.held : Expected → List Piece
  | value => []
  | itemOrClose => [.openArray]
  | memberOrClose => [.openObject]
  | member members => .openObject :: membersHeld members
  | colon members name => .openObject :: (membersHeld members ++ [.string name])
  | separator complete => complete.pieces

/-- All pieces that were read when `expected` comes next inside of `frames`. -/
def held (expected : Expected) (frames : List Frame) : List Piece :=
  frames.reverse.flatMap Frame.held ++ expected.held

theorem itemsHeld_cons (item : Json) (items : List Json) :
    itemsHeld (item :: items) = itemsHeld items ++ (item.pieces ++ [.comma]) := by
  simp [itemsHeld]

theorem membersHeld_cons (name : Option String) (value : Json)
    (members : List (Option String × Json)) :
    membersHeld ((name, value) :: members) =
      membersHeld members ++ .string name :: .colon :: (value.pieces ++ [.comma]) := by
  simp [membersHeld]

theorem held_cons (expected : Expected) (frame : Frame) (frames : List Frame) :
    held expected (frame :: frames) = held .value frames ++ (frame.held ++ expected.held) := by
  simp [held, Expected.held]

theorem pieces_array_concat (item : Json) (items : List Json) :
    (array (items.reverse ++ [item])).pieces =
      .openArray :: (itemsHeld items ++ (item.pieces ++ [.closeArray])) := by
  rw [itemsHeld]
  generalize items.reverse = front
  induction front with
  | nil => simp [pieces, furtherItems]
  | cons first front inductionHypothesis =>
    cases front with
    | nil => simp [pieces, furtherItems]
    | cons second front =>
      simp only [pieces, List.cons_append, List.cons.injEq, true_and] at inductionHypothesis
      simp only [pieces, furtherItems, List.cons_append, List.flatMap_cons, List.append_assoc,
        List.nil_append, inductionHypothesis]

theorem pieces_object_concat (name : Option String) (value : Json)
    (members : List (Option String × Json)) :
    (object (members.reverse ++ [(name, value)])).pieces =
      .openObject :: (membersHeld members ++
        .string name :: .colon :: (value.pieces ++ [.closeObject])) := by
  rw [membersHeld]
  generalize members.reverse = front
  induction front with
  | nil => simp [pieces, furtherMembers]
  | cons first front inductionHypothesis =>
    cases front with
    | nil => simp [pieces, furtherMembers]
    | cons second front =>
      simp only [pieces, List.cons_append, List.cons.injEq, true_and] at inductionHypothesis
      simp only [pieces, furtherMembers, List.cons_append, List.flatMap_cons, List.append_assoc,
        List.nil_append, inductionHypothesis]

/-- A piece that is accepted is added to those that were read. -/
theorem held_of_begins {piece : Piece} {frames inside : List Frame} {next : Expected}
    (begun : begins frames piece = some (next, inside)) :
    held next inside = held .value frames ++ [piece] := by
  cases piece with
  | null | bool value | number numeral | string text | openArray | openObject =>
    cases begun
    simp [held, Expected.held, pieces]
  | _ => cases begun

theorem held_of_continues {value : Json} {piece : Piece} {frames inside : List Frame}
    {next : Expected} (continued : continues value frames piece = some (next, inside)) :
    held next inside = held (.separator value) frames ++ [piece] := by
  unfold continues at continued
  split at continued
  · cases continued
    simp [held, Expected.held, Frame.held, itemsHeld_cons]
  · cases continued
    simp [held, Expected.held, Frame.held, pieces_array_concat]
  · cases continued
    simp [held, Expected.held, Frame.held, membersHeld_cons]
  · cases continued
    simp [held, Expected.held, Frame.held, pieces_object_concat]
  · cases continued

theorem held_of_accept {piece : Piece} {expected next : Expected} {frames inside : List Frame}
    (accepted : accept piece expected frames = some (next, inside)) :
    held next inside = held expected frames ++ [piece] := by
  cases expected with
  | value => exact held_of_begins accepted
  | itemOrClose =>
    simp only [accept] at accepted
    split at accepted
    · rename_i closes
      cases accepted
      simp [held, Expected.held, pieces, closes]
    · rw [held_of_begins accepted, held_cons]
      simp [held, Expected.held, Frame.held, itemsHeld]
  | memberOrClose =>
    simp only [accept] at accepted
    split at accepted
    · cases accepted
      simp [held, Expected.held, pieces]
    · cases accepted
      simp [held, Expected.held, membersHeld]
    · cases accepted
  | member members =>
    simp only [accept] at accepted
    split at accepted
    · cases accepted
      simp [held, Expected.held]
    · cases accepted
  | colon members name =>
    simp only [accept] at accepted
    split at accepted
    · rename_i isColon
      cases accepted
      simp [held, Expected.held, Frame.held, isColon]
    · cases accepted
  | separator value => exact held_of_continues accepted

/-- The pieces of the value that comes out are those that were put together. -/
theorem held_append_of_assemble {rest : List Piece} {expected : Expected} {frames : List Frame}
    {value : Json} (assembled : assemble rest expected frames = some value) :
    held expected frames ++ rest = value.pieces := by
  induction rest generalizing expected frames with
  | nil =>
    cases expected with
    | separator complete =>
      cases frames with
      | nil =>
        cases assembled
        simp [held, Expected.held]
      | cons frame frames => cases assembled
    | _ => cases assembled
  | cons piece rest inductionHypothesis =>
    rw [assemble] at assembled
    split at assembled
    · rename_i next inside accepted
      have behind := inductionHypothesis assembled
      rwa [held_of_accept accepted, List.append_assoc] at behind
    · cases assembled

/-! ## Texts -/

theorem read?_eq_some_iff {text : String} {value : Json} :
    read? text = some value ↔ value.Written text := by
  refine ⟨fun read => ?_, Written.read?⟩
  unfold read? at read
  split at read
  · rename_i pieces cut
    have same := held_append_of_assemble read
    have start : held .value [] = [] := rfl
    rw [start, List.nil_append] at same
    rw [Written, ← same]
    exact spaced_of_pieces? cut
  · cases read

end Json

end TemplateRecognizer
