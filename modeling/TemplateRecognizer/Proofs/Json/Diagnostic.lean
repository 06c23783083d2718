import TemplateRecognizer.Diagnostic
import TemplateRecognizer.Proofs.Json.Exactness
import TemplateRecognizer.Proofs.Json.Stored

/-!
# Stored diagnostics are faithful

A tool that reads a stored diagnostic by the grammar of JSON finds an object, and in it what the
error says: its members in their order, each with its value, and none for what the error does not
say.  Since a text writes only one value, errors that say something different are stored as
different texts.
-/

set_option autoImplicit false

namespace TemplateRecognizer

inductive Detail where
  | text (text : String)
  | count (count : Nat)
deriving DecidableEq, Repr

namespace Json

/-- `value.Tells detail` says that a value is a string of this text, or a number whose decimal
digits make up this count. -/
inductive Tells : Json → Detail → Prop where
  | text {text : String} : Tells (.string (some text)) (.text text)
  | count {numeral : String} :
      Decimal numeral.toList → Tells (.number numeral) (.count (digitsValue numeral.toList))

theorem Tells.unique {value : Json} {detail other : Detail} (tells : value.Tells detail)
    (another : value.Tells other) : detail = other := by
  cases tells <;> cases another <;> rfl

theorem tells_ofNat (count : Nat) : (ofNat count).Tells (.count count) := by
  have digits : (toString count).toList = Nat.toDigits 10 count := Nat.toList_repr
  have decimal := decimal_toDigits count
  rw [← digits] at decimal
  have tells := Tells.count decimal
  rwa [digits, digitsValue_toDigits] at tells

def MemberTells (member : Option String × Json) (detail : String × Detail) : Prop :=
  member.1 = some detail.1 ∧ member.2.Tells detail.2

theorem rightUnique_memberTells : Relator.RightUnique MemberTells := by
  rintro member ⟨name, detail⟩ ⟨otherName, other⟩ ⟨named, tells⟩ ⟨otherNamed, otherTells⟩
  cases named.symm.trans otherNamed
  exact congrArg (Prod.mk name) (tells.unique otherTells)

theorem written_write_iff {value : Json} (sound : value.Sound) (other : Json) :
    other.Written value.write ↔ other = value := by
  rw [← read?_eq_some_iff, read?_write value sound, Option.some.injEq]
  exact eq_comm

end Json

/-- What a stored diagnostic tells of an error, in order.  A position is told by two members, and
an error without a position or without a hint has no members for them. -/
def ParseError.details (error : ParseError) (file : String) : List (String × Detail) :=
  [("code", .text error.code), ("message", .text error.message), ("file", .text file)] ++
    (match error.position? with
      | some position => [("line", .count position.line), ("column", .count position.column)]
      | none => []) ++
    (match error.help? with
      | some help => [("help", .text help)]
      | none => [])

theorem ParseError.details_eq_iff {error other : ParseError} {file otherFile : String} :
    other.details otherFile = error.details file ↔
      other.code = error.code ∧ other.message = error.message ∧ otherFile = file ∧
        other.position? = error.position? ∧ other.help? = error.help? := by
  unfold details
  generalize error.position? = position, other.position? = otherPosition,
    error.help? = help, other.help? = otherHelp
  rcases position with _ | ⟨line, column⟩ <;>
    rcases otherPosition with _ | ⟨otherLine, otherColumn⟩ <;>
      cases help <;> cases otherHelp <;> simp [and_assoc]

namespace Diagnostic

theorem sound_toJson (diagnostic : Diagnostic) : diagnostic.toJson.Sound := by
  obtain ⟨code, message, file, line, column, help⟩ := diagnostic
  cases line <;> cases column <;> cases help <;> simp [toJson, member]

theorem exists_members (error : ParseError) (file : String) :
    ∃ members, (ofError error file).toJson = .object members ∧
      List.Forall₂ Json.MemberTells members (error.details file) := by
  refine ⟨_, rfl, ?_⟩
  unfold ofError ParseError.details
  cases error.position? <;> cases error.help? <;>
    simp [member, Json.MemberTells, Json.Tells.text, Json.tells_ofNat, Json.ofString]

theorem exists_written (error : ParseError) (file : String) :
    ∃ members, (∀ value : Json, value.Written (ofError error file).store ↔
        value = .object members) ∧
      List.Forall₂ Json.MemberTells members (error.details file) := by
  obtain ⟨members, stored, tells⟩ := exists_members error file
  refine ⟨members, fun value => ?_, tells⟩
  rw [← stored]
  exact Json.written_write_iff (sound_toJson _) value

end Diagnostic

/-- A stored diagnostic is faithful.  Whatever the error and the name of the file, the text writes
just one value, an object, and the members of this object tell the code, the message, the file,
the position and the hint in this order, each as it is and the last two only where the error has
them.  So two texts are the same only if all that they tell is. -/
theorem diagnostic_is_faithful (error : ParseError) (file : String) :
    let text := (Diagnostic.ofError error file).store
    (∃ members, (∀ value : Json, value.Written text ↔ value = .object members) ∧
      List.Forall₂ Json.MemberTells members (error.details file)) ∧
    ∀ (other : ParseError) (otherFile : String),
      (Diagnostic.ofError other otherFile).store = text ↔
        other.code = error.code ∧ other.message = error.message ∧ otherFile = file ∧
          other.position? = error.position? ∧ other.help? = error.help? := by
  intro text
  obtain ⟨members, written, tells⟩ := Diagnostic.exists_written error file
  refine ⟨⟨members, written, tells⟩, fun other otherFile => ?_⟩
  constructor
  · intro same
    obtain ⟨others, otherWritten, otherTells⟩ := Diagnostic.exists_written other otherFile
    have writes : (Json.object others).Written text := same ▸ (otherWritten _).mpr rfl
    cases (written _).mp writes
    exact ParseError.details_eq_iff.mp
      (List.right_unique_forall₂' Json.rightUnique_memberTells otherTells tells)
  · rintro ⟨code, message, rfl, position, help⟩
    have same : Diagnostic.ofError other otherFile = Diagnostic.ofError error otherFile := by
      simp only [Diagnostic.ofError, code, message, position, help]
    exact congrArg Diagnostic.store same

end TemplateRecognizer
