import TemplateRecognizer.Json.Codec
import TemplateRecognizer.Proofs.Json.Exactness
import TemplateRecognizer.Proofs.Json.Record

/-!
# All forms of a stored stream load alike

A token may be stored as an object or as an array, and so may its position, its kind in two ways,
and the absence of a text in two.  Which forms are chosen is free for each token.  One record that
is defective spoils the stream.
-/

set_option autoImplicit false

namespace TemplateRecognizer

def Position.Fits (position : Position) : Prop :=
  position.line < UInt64.size ∧ position.column < UInt64.size

instance (position : Position) : Decidable position.Fits :=
  inferInstanceAs (Decidable (_ ∧ _))

/-! ## The forms -/

inductive Kind.StoredAs (kind : Kind) : Json → Prop where
  | string : StoredAs kind (.ofString kind.name)
  | object : StoredAs kind (.object [(some kind.name, .null)])

def Position.StoredAs (position : Position) (value : Json) : Prop :=
  value.IsRecord ["line", "column"]
    [some (.ofNat position.line), some (.ofNat position.column)]

namespace Token

/-- What a token's text may be stored as, where an absent text may be left out. -/
inductive TextStoredAs : Option String → Option Json → Prop where
  | omitted : TextStoredAs none none
  | null : TextStoredAs none (some .null)
  | string (text : String) : TextStoredAs (some text) (some (.ofString text))

inductive StoredAs (token : Token) : Json → Prop where
  | record {value kind position : Json} {text : Option Json} :
      value.IsRecord ["kind", "text", "span"] [some kind, text, some position] →
        token.kind.StoredAs kind → TextStoredAs token.text text →
          token.position.StoredAs position → StoredAs token value

/-- Holds of what gives a token only in part: its record is defective, or that of its position
is. -/
inductive Broken : Json → Prop where
  | record {value : Json} :
      value.Defective ["kind", "text", "span"] ["kind", "span"] → Broken value
  | position {value position : Json} {kind text : Option Json} :
      value.IsRecord ["kind", "text", "span"] [kind, text, some position] →
        position.Defective ["line", "column"] ["line", "column"] → Broken value

end Token

/-! ## Loading -/

theorem Kind.StoredAs.ofJson? {kind : Kind} {value : Json} (stored : kind.StoredAs value) :
    ofJson? value = some kind := by
  cases stored with
  | string => exact ofName?_name kind
  | object => exact ofName?_name kind

theorem Position.StoredAs.ofJson? {position : Position} {value : Json}
    (stored : position.StoredAs value) (fits : position.Fits) :
    Position.ofJson? value = some position := by
  rw [Position.ofJson?, stored.fields?]
  simp [Json.word?_ofNat fits.1, Json.word?_ofNat fits.2]

theorem Position.ofJson?_of_defective {value : Json}
    (defective : value.Defective ["line", "column"] ["line", "column"]) :
    ofJson? value = none := by
  rw [ofJson?]
  split
  · rename_i line column read
    obtain ⟨_, _, missing⟩ := defective.exists_missing (List.Subset.refl _) read
    simp at missing
  · rfl

namespace Token

theorem StoredAs.ofJson? {token : Token} {value : Json} (stored : token.StoredAs value)
    (fits : token.position.Fits) : Token.ofJson? value = some token := by
  obtain ⟨kind, text, position⟩ := token
  cases stored with
  | record isRecord storedKind storedText storedPosition =>
    rw [Token.ofJson?, isRecord.fields?]
    simp only [storedKind.ofJson?, storedPosition.ofJson? fits, Option.bind_eq_bind,
      Option.bind_some]
    cases storedText <;> rfl

theorem Broken.ofJson? {value : Json} (broken : Broken value) : Token.ofJson? value = none := by
  rw [Token.ofJson?]
  split
  · rename_i kind text position read
    cases broken with
    | record defective =>
      obtain ⟨name, needed, missing⟩ := defective.exists_missing (by simp) read
      obtain rfl : name = "text" := by
        simp only [List.zip_cons_cons, List.zip_nil_left, List.mem_cons, Prod.mk.injEq,
          reduceCtorEq, and_false, false_or, List.not_mem_nil, or_false] at missing
        exact missing.1
      simp at needed
    | position isRecord defective =>
      cases read.symm.trans isRecord.fields?
      have unread := Position.ofJson?_of_defective defective
      cases text <;> simp [unread]
  · rfl

theorem listOfJson?_of_storedAs {tokens : List Token} {values : List Json}
    (fits : ∀ token ∈ tokens, token.position.Fits)
    (stored : List.Forall₂ StoredAs tokens values) : listOfJson? values = some tokens := by
  induction stored with
  | nil => rfl
  | cons first _ inductionHypothesis =>
    rw [List.forall_mem_cons] at fits
    rw [listOfJson?, first.ofJson? fits.1, inductionHypothesis fits.2]
    rfl

theorem listOfJson?_of_broken {values : List Json} {value : Json} (inside : value ∈ values)
    (broken : Broken value) : listOfJson? values = none := by
  induction values with
  | nil => cases inside
  | cons first values inductionHypothesis =>
    rw [listOfJson?]
    rcases List.mem_cons.mp inside with rfl | behind
    · rw [broken.ofJson?]
      rfl
    · rw [inductionHypothesis behind]
      cases Token.ofJson? first <;> rfl

end Token

theorem TokenStream.load?_of_written {values : List Json} {text : String}
    (written : (Json.array values).Written text) :
    load? text = (Token.listOfJson? values).map ofList := by
  rw [load?, Json.load?, written.read?]
  rfl

/-- All forms of a stored stream load alike.  However a text writes an array of records, it loads
the tokens whose records they are, in their order, and it loads nothing if one of the records is
defective. -/
theorem stored_forms_load_alike (values : List Json) (text : String)
    (written : (Json.array values).Written text) :
    (∀ tokens : List Token, (∀ token ∈ tokens, token.position.Fits) →
      List.Forall₂ Token.StoredAs tokens values →
        TokenStream.load? text = some (.ofList tokens)) ∧
    ((∃ value ∈ values, Token.Broken value) → TokenStream.load? text = none) := by
  rw [TokenStream.load?_of_written written]
  constructor
  · intro tokens fits stored
    rw [Token.listOfJson?_of_storedAs fits stored]
    rfl
  · rintro ⟨value, inside, broken⟩
    rw [Token.listOfJson?_of_broken inside broken]
    rfl

/-- A character may be written by two escapes, and each token in another form. -/
theorem stored_forms_load_alike_object_and_array :
    TokenStream.load?
        ("[ \x7b\x22span\x22:\x7b\x22column\x22:2,\x22kind\x22:[\x7b\x7d],\x22line\x22:1\x7d," ++
          "\x22te\\u0078t\x22 : \x22\\ud83d\\ude00\x22,\x22kind\x22:\x22Unknown\x22\x7d," ++
          "[\x7b\x22Comma\x22:null\x7d,null,[3,4]]\n]") =
      some (.ofList [⟨.unknown, some "😀", ⟨1, 2⟩⟩, ⟨.comma, none, ⟨3, 4⟩⟩]) ∧
    TokenStream.load?
        "[[\x22Comma\x22,null,[3,4]],\x7b\x22kind\x22:\x22Eof\x22,\x22span\x22:[3]\x7d]" =
      none := by
  have unknown : Token.StoredAs ⟨.unknown, some "😀", ⟨1, 2⟩⟩
      (.object [(some "span", .object [(some "column", .ofNat 2),
        (some "kind", .array [.object []]), (some "line", .ofNat 1)]),
        (some "text", .ofString "😀"), (some "kind", .ofString "Unknown")]) := by
    refine .record (.object ?_ (Json.fieldsOf?_eq_some_iff.mp rfl)) .string (.string _)
      (.object ?_ (Json.fieldsOf?_eq_some_iff.mp rfl))
    · simp [Json.Named]
    · simp [Json.Named]
  have comma : Token.StoredAs ⟨.comma, none, ⟨3, 4⟩⟩
      (.array [.object [(some "Comma", .null)], .null, .array [.ofNat 3, .ofNat 4]]) := by
    have position : Position.StoredAs ⟨3, 4⟩ (.array [.ofNat 3, .ofNat 4]) :=
      @Json.IsRecord.array ["line", "column"] [.ofNat 3, .ofNat 4] rfl
    exact .record (@Json.IsRecord.array _ [_, _, _] rfl) .object .null position
  have noColumn : Token.Broken (.object [(some "kind", .ofString "Eof"),
      (some "span", .array [.ofNat 3])]) := by
    refine .position (.object ?_ (Json.fieldsOf?_eq_some_iff.mp rfl))
      (.short (.tail _ (.head _)) (.head _))
    simp [Json.Named]
  constructor
  · refine (stored_forms_load_alike _ _ ?_).1 _ (by decide) (.cons unknown (.cons comma .nil))
    simp only [Json.Written, Json.pieces, Json.furtherItems, Json.furtherMembers,
      List.cons_append, List.nil_append, String.toList_append, String.reduceToList]
    repeat first | exact .done | refine .blank rfl ?_ | refine .of_piece? rfl ?_
  · let sound : Json := .array [.ofString "Comma", .null, .array [.ofNat 3, .ofNat 4]]
    refine (stored_forms_load_alike [sound, _] _ ?_).2 ⟨_, .tail _ (.head _), noColumn⟩
    simp only [sound, Json.Written, Json.pieces, Json.furtherItems, Json.furtherMembers,
      List.cons_append, List.nil_append, String.reduceToList]
    repeat first | exact .done | refine .blank rfl ?_ | refine .of_piece? rfl ?_

end TemplateRecognizer
