import TemplateRecognizer.Json.Assembly
import TemplateRecognizer.Proofs.Json.Spelling

/-!
# Written values are read back

The pieces of a value put together give the value, whatever is still open around it, and a text
that writes the value is cut into these pieces, however it spells and spaces them.  The text that
a writer makes is one of those texts.
-/

set_option autoImplicit false

namespace TemplateRecognizer

namespace Json

/-! ## Pieces are put together -/

/-- The first item of an array stands where any value stands. -/
theorem assemble_itemOrClose (value : Json) (rest : List Piece) (frames : List Frame) :
    assemble (value.pieces ++ rest) .itemOrClose frames =
      assemble (value.pieces ++ rest) .value (.array [] :: frames) := by
  cases value with
  | array items => cases items <;> rfl
  | object members => cases members <;> rfl
  | _ => rfl

mutual

theorem assemble_pieces : ∀ (value : Json) (rest : List Piece) (frames : List Frame),
    assemble (value.pieces ++ rest) .value frames = assemble rest (.separator value) frames
  | .null, _, _ => rfl
  | .bool _, _, _ => rfl
  | .number _, _, _ => rfl
  | .string _, _, _ => rfl
  | .array [], _, _ => rfl
  | .array (item :: items), rest, frames => by
    have opened : assemble ((Json.array (item :: items)).pieces ++ rest) .value frames =
        assemble (item.pieces ++ (furtherItems items ++ rest)) .itemOrClose frames := by
      simp [pieces, assemble, accept, begins]
    rw [opened, assemble_itemOrClose, assemble_pieces item]
    exact assemble_furtherItems items item [] rest frames
  | .object [], _, _ => rfl
  | .object ((name, value) :: members), rest, frames => by
    have opened : assemble ((Json.object ((name, value) :: members)).pieces ++ rest) .value frames =
        assemble (value.pieces ++ (furtherMembers members ++ rest)) .value
          (.member [] name :: frames) := by
      simp [pieces, assemble, accept, begins]
    rw [opened, assemble_pieces value]
    exact assemble_furtherMembers members name value [] rest frames

theorem assemble_furtherItems : ∀ (items : List Json) (value : Json) (held : List Json)
    (rest : List Piece) (frames : List Frame),
    assemble (furtherItems items ++ rest) (.separator value) (.array held :: frames) =
      assemble rest (.separator (.array (held.reverse ++ value :: items))) frames
  | [], value, held, rest, frames => by
    simp [furtherItems, assemble, accept, continues]
  | item :: items, value, held, rest, frames => by
    have separated : assemble (furtherItems (item :: items) ++ rest) (.separator value)
        (.array held :: frames) = assemble (item.pieces ++ (furtherItems items ++ rest)) .value
          (.array (value :: held) :: frames) := by
      simp [furtherItems, assemble, accept, continues]
    rw [separated, assemble_pieces item, assemble_furtherItems items]
    simp

theorem assemble_furtherMembers : ∀ (members : List (Option String × Json))
    (name : Option String) (value : Json) (held : List (Option String × Json))
    (rest : List Piece) (frames : List Frame),
    assemble (furtherMembers members ++ rest) (.separator value) (.member held name :: frames) =
      assemble rest (.separator (.object (held.reverse ++ (name, value) :: members))) frames
  | [], name, value, held, rest, frames => by
    simp [furtherMembers, assemble, accept, continues]
  | (next, item) :: members, name, value, held, rest, frames => by
    have separated : assemble (furtherMembers ((next, item) :: members) ++ rest)
        (.separator value) (.member held name :: frames) =
          assemble (item.pieces ++ (furtherMembers members ++ rest)) .value
            (.member ((name, value) :: held) next :: frames) := by
      simp [furtherMembers, assemble, accept, continues]
    rw [separated, assemble_pieces item, assemble_furtherMembers members]
    simp

end

/-! ## Texts are cut into pieces -/

def NoNumberAhead (pieces : List Piece) : Prop :=
  ∀ numeral rest, pieces ≠ .number numeral :: rest

/-- Holds of pieces among which no number follows another, which could not be told apart. -/
def Apart : List Piece → Prop
  | [] => True
  | piece :: rest => ((∃ numeral, piece = .number numeral) → NoNumberAhead rest) ∧ Apart rest

theorem noNumberAhead_furtherItems (items : List Json) (rest : List Piece) :
    NoNumberAhead (furtherItems items ++ rest) := by
  cases items <;> simp [NoNumberAhead, furtherItems]

theorem noNumberAhead_furtherMembers (members : List (Option String × Json)) (rest : List Piece) :
    NoNumberAhead (furtherMembers members ++ rest) := by
  cases members <;> simp [NoNumberAhead, furtherMembers]

mutual

theorem apart_pieces : ∀ (value : Json) (rest : List Piece), NoNumberAhead rest → Apart rest →
    Apart (value.pieces ++ rest)
  | .null, _, _, apart => by simpa [pieces, Apart] using apart
  | .bool _, _, _, apart => by simpa [pieces, Apart] using apart
  | .number _, _, ahead, apart => by simpa [pieces, Apart] using ⟨ahead, apart⟩
  | .string _, _, _, apart => by simpa [pieces, Apart] using apart
  | .array [], _, _, apart => by simpa [pieces, Apart] using apart
  | .array (item :: items), rest, _, apart => by
    have others := apart_furtherItems items rest apart
    have first := apart_pieces item _ (noNumberAhead_furtherItems items rest) others
    simpa [pieces, Apart] using first
  | .object [], _, _, apart => by simpa [pieces, Apart] using apart
  | .object ((name, value) :: members), rest, _, apart => by
    have others := apart_furtherMembers members rest apart
    have first := apart_pieces value _ (noNumberAhead_furtherMembers members rest) others
    simpa [pieces, Apart] using first

theorem apart_furtherItems : ∀ (items : List Json) (rest : List Piece), Apart rest →
    Apart (furtherItems items ++ rest)
  | [], _, apart => by simpa [furtherItems, Apart] using apart
  | item :: items, rest, apart => by
    have others := apart_furtherItems items rest apart
    have next := apart_pieces item _ (noNumberAhead_furtherItems items rest) others
    simpa [furtherItems, Apart] using next

theorem apart_furtherMembers : ∀ (members : List (Option String × Json)) (rest : List Piece),
    Apart rest → Apart (furtherMembers members ++ rest)
  | [], _, apart => by simpa [furtherMembers, Apart] using apart
  | (name, value) :: members, rest, apart => by
    have others := apart_furtherMembers members rest apart
    have next := apart_pieces value _ (noNumberAhead_furtherMembers members rest) others
    simpa [furtherMembers, Apart] using next

end

theorem stops_of_isBlank {head : Char} (blank : isBlank head = true) (tail : List Char) :
    Stops (head :: tail) := by
  simp only [isBlank, Bool.or_eq_true, beq_iff_eq] at blank
  rcases blank with ((rfl | rfl) | rfl) | rfl <;> exact stops_cons (by decide) tail

theorem Spaced.stops {pieces : List Piece} {text : List Char} (spaced : Spaced pieces text)
    (ahead : NoNumberAhead pieces) : Stops text := by
  cases spaced with
  | done => exact stops_nil
  | blank blank _ => exact stops_of_isBlank blank _
  | piece spelled _ =>
    refine spelled.stops ?_ _
    rintro numeral rfl
    exact ahead numeral _ rfl

/-- A text is cut into the pieces that it writes, whatever blanks stand between them. -/
theorem Spaced.pieces? {pieces : List Piece} {text : List Char} (spaced : Spaced pieces text)
    (apart : Apart pieces) {blanks : List Char}
    (blank : ∀ character ∈ blanks, isBlank character = true) :
    Json.pieces? (blanks ++ text) = some pieces := by
  induction spaced generalizing blanks with
  | done =>
    have trimmed : (blanks ++ []).dropWhile isBlank = [] := by
      rw [List.dropWhile_append_of_pos blank]
      rfl
    rw [Json.pieces?]
    split
    · rfl
    · rename_i head tail found
      cases trimmed.symm.trans found
  | @blank character pieces text isBlank _ inductionHypothesis =>
    have longer : ∀ other ∈ blanks ++ [character], Json.isBlank other = true := by
      intro other member
      rcases List.mem_append.mp member with before | last
      · exact blank other before
      · rw [List.mem_singleton.mp last]
        exact isBlank
    have read := inductionHypothesis apart longer
    rwa [List.append_assoc] at read
  | piece spelled spaced inductionHypothesis =>
    have read := spelled.piece? fun number => spaced.stops (apart.1 number)
    have behind := inductionHypothesis apart.2 (List.forall_mem_nil _)
    rw [List.nil_append] at behind
    rw [pieces?_of_piece? blank read, behind]
    rfl

theorem Written.read? {value : Json} {text : String} (written : value.Written text) :
    Json.read? text = some value := by
  have apart : Apart value.pieces := by
    have alone := apart_pieces value [] (by simp [NoNumberAhead]) trivial
    rwa [List.append_nil] at alone
  have cut := Spaced.pieces? written apart (List.forall_mem_nil _)
  rw [List.nil_append] at cut
  have assembled := assemble_pieces value [] []
  rw [List.append_nil] at assembled
  rw [Json.read?, cut]
  exact assembled

/-! ## The writer's text -/

/-- Holds of a value whose numbers are written by numerals. -/
def Sound (value : Json) : Prop := ∀ piece ∈ value.pieces, piece.Sound

theorem Piece.SpelledBy.sound {piece : Piece} {spelling : List Char}
    (spelled : piece.SpelledBy spelling) : piece.Sound := by
  cases spelled with
  | mark noNumber _ => exact Piece.sound_of_mark noNumber
  | number isNumeral => exact .number isNumeral
  | string _ => exact Piece.sound_of_mark (by simp)

theorem Spaced.sound {pieces : List Piece} {text : List Char} (spaced : Spaced pieces text) :
    ∀ piece ∈ pieces, piece.Sound := by
  induction spaced with
  | done => simp
  | blank _ _ inductionHypothesis => exact inductionHypothesis
  | piece spelled _ inductionHypothesis =>
    exact List.forall_mem_cons.mpr ⟨spelled.sound, inductionHypothesis⟩

/-- What can be written at all can be written by a writer. -/
theorem Written.sound {value : Json} {text : String} (written : value.Written text) :
    value.Sound :=
  Spaced.sound written

theorem sound_furtherItems_iff {items : List Json} :
    (∀ piece ∈ furtherItems items, piece.Sound) ↔ ∀ item ∈ items, item.Sound := by
  induction items with
  | nil => simp [furtherItems, Piece.sound_of_mark]
  | cons item items inductionHypothesis =>
    simp only [furtherItems, List.cons_append, List.forall_mem_cons, List.forall_mem_append,
      inductionHypothesis, Sound]
    simp [Piece.sound_of_mark]

theorem sound_array_iff {items : List Json} :
    (array items).Sound ↔ ∀ item ∈ items, item.Sound := by
  cases items with
  | nil => simp [Sound, pieces, Piece.sound_of_mark]
  | cons item items =>
    simp only [Sound, pieces, List.cons_append, List.forall_mem_cons, List.forall_mem_append,
      sound_furtherItems_iff]
    simp [Piece.sound_of_mark]

theorem sound_furtherMembers_iff {members : List (Option String × Json)} :
    (∀ piece ∈ furtherMembers members, piece.Sound) ↔ ∀ entry ∈ members, entry.2.Sound := by
  induction members with
  | nil => simp [furtherMembers, Piece.sound_of_mark]
  | cons entry members inductionHypothesis =>
    simp only [furtherMembers, List.cons_append, List.forall_mem_cons, List.forall_mem_append,
      inductionHypothesis, Sound]
    simp [Piece.sound_of_mark]

theorem sound_object_iff {members : List (Option String × Json)} :
    (object members).Sound ↔ ∀ entry ∈ members, entry.2.Sound := by
  cases members with
  | nil => simp [Sound, pieces, Piece.sound_of_mark]
  | cons entry members =>
    simp only [Sound, pieces, List.cons_append, List.forall_mem_cons, List.forall_mem_append,
      sound_furtherMembers_iff]
    simp [Piece.sound_of_mark]

theorem spaced_spelling {pieces : List Piece} (sound : ∀ piece ∈ pieces, piece.Sound) :
    Spaced pieces (pieces.flatMap Piece.spelling) := by
  induction pieces with
  | nil => exact .done
  | cons piece pieces inductionHypothesis =>
    rw [List.forall_mem_cons] at sound
    exact .piece sound.1 (inductionHypothesis sound.2)

theorem written_write {value : Json} (sound : value.Sound) : value.Written value.write := by
  rw [Written, write, String.toList_ofList]
  exact spaced_spelling sound

theorem read?_write (value : Json) (sound : value.Sound) : read? value.write = some value :=
  (written_write sound).read?

end Json

end TemplateRecognizer
