import TemplateRecognizer.Proofs.Json.Forms
import TemplateRecognizer.Proofs.Token.Sequence

/-!
# Stored token streams are loaded back

What is stored names its kinds, keeps its texts whether they are present or absent, and
writes its positions in 64 bits.  Within these bits every token is loaded back as it was.
-/

set_option autoImplicit false

namespace TemplateRecognizer

namespace Json

/-! ## What is stored can be read -/

@[simp] theorem sound_ofString (text : String) : (ofString text).Sound := by
  simp [Sound, ofString, pieces, Piece.sound_of_mark]

@[simp] theorem sound_bool (value : Bool) : (bool value).Sound := by
  simp [Sound, pieces, Piece.sound_of_mark]

@[simp] theorem sound_ofNat (value : Nat) : (ofNat value).Sound := by
  simpa [Sound, ofNat, pieces] using sound_toString value

@[simp] theorem sound_record_iff {members : List (String × Json)} :
    (record members).Sound ↔ ∀ entry ∈ members, entry.2.Sound := by
  rw [record, sound_object_iff, List.forall_mem_map]

end Json

theorem Kind.storedAs_toJson (kind : Kind) : kind.StoredAs kind.toJson := .string

theorem Position.storedAs_toJson (position : Position) : position.StoredAs position.toJson := by
  refine .object (by simp [Json.Named]) (Json.fieldsOf?_eq_some_iff.mp ?_)
  simp [Json.fieldsOf?, Json.field?]

namespace Token

theorem storedAs_toJson (token : Token) : token.StoredAs token.toJson := by
  obtain ⟨kind, text, position⟩ := token
  have kindStored := kind.storedAs_toJson
  have positionStored := position.storedAs_toJson
  cases text with
  | none =>
    refine .record (.object ?_ (Json.fieldsOf?_eq_some_iff.mp ?_)) kindStored .omitted
      positionStored
    · simp [Json.Named]
    · simp [Json.fieldsOf?, Json.field?]
  | some text =>
    refine .record (.object ?_ (Json.fieldsOf?_eq_some_iff.mp ?_)) kindStored (.string text)
      positionStored
    · simp [Json.Named]
    · simp [Json.fieldsOf?, Json.field?]

theorem sound_toJson (token : Token) : token.toJson.Sound := by
  obtain ⟨kind, text, position⟩ := token
  cases text <;> simp [toJson, Kind.toJson, Position.toJson]

end Token

/-- The stored text of a stream loads the tokens still to come. -/
theorem TokenStream.load?_store {stream : TokenStream}
    (fits : ∀ token ∈ stream.tokens, token.position.Fits) :
    load? stream.store = some (ofList stream.tokens) := by
  have sound : (Json.array (stream.tokens.map Token.toJson)).Sound := by
    refine Json.sound_array_iff.mpr ?_
    intro item member
    obtain ⟨token, _, rfl⟩ := List.mem_map.mp member
    exact token.sound_toJson
  have stored : List.Forall₂ Token.StoredAs stream.tokens (stream.tokens.map Token.toJson) := by
    rw [List.forall₂_map_right_iff, List.forall₂_same]
    exact fun token _ => token.storedAs_toJson
  rw [store, toJson, load?_of_written (Json.written_write sound),
    Token.listOfJson?_of_storedAs fits stored]
  rfl

/-- A stored stream is loaded back unchanged.  However many tokens were taken from a stream
whose positions have 64 bits, its stored text loads just the tokens that were not handed out,
in order, each with its text or without one as before, and is the text that stores them
again. -/
theorem stored_stream_reloads (tokens : List Token) (count : Nat)
    (fits : ∀ token ∈ tokens, token.position.Fits) :
    let stream := TokenSource.skip count (TokenStream.ofList tokens)
    ∃ reloaded, TokenStream.load? stream.store = some reloaded ∧
      reloaded = .ofList (tokens.drop count) ∧
      TokenSource.upcoming (min count tokens.length) (TokenStream.ofList tokens) ++
        reloaded.tokens = tokens ∧
      reloaded.store = stream.store := by
  intro stream
  have held : stream.tokens = tokens.drop count := TokenStream.tokens_skip count (.ofList tokens)
  have fit : ∀ token ∈ stream.tokens, token.position.Fits := by
    intro token member
    rw [held] at member
    exact fits token (List.mem_of_mem_drop member)
  have handedOut : TokenSource.upcoming (min count tokens.length) (TokenStream.ofList tokens) =
      tokens.take count := by
    have taken := TokenStream.upcoming_append (tokens.take count) (tokens.drop count) .start
    rwa [List.length_take, List.take_append_drop] at taken
  refine ⟨.ofList stream.tokens, TokenStream.load?_store fit, ?_, ?_, rfl⟩
  · rw [held]
  · rw [handedOut]
    change tokens.take count ++ stream.tokens = tokens
    rw [held, List.take_append_drop]

/-- Texts of any kind and the greatest positions are kept, an empty text as a text. -/
theorem stored_stream_reloads_odd_texts :
    ∃ tokens : List Token,
      tokens.map Token.text =
        [some "\x22\\\x00\n", none, some "", some "😀\x27/\x1f", none] ∧
      (∀ token ∈ tokens, token.position.Fits) ∧
      ∃ reloaded,
        TokenStream.load? (TokenSource.skip 1 (TokenStream.ofList tokens)).store = some reloaded ∧
        reloaded.tokens.map Token.text =
          [none, some "", some "😀\x27/\x1f", none] ∧
        reloaded.store = (TokenSource.skip 1 (TokenStream.ofList tokens)).store := by
  let tokens : List Token :=
    [⟨.stringConstant, some "\x22\\\x00\n", ⟨1, 1⟩⟩, ⟨.identifier, none, ⟨0, 7⟩⟩,
      ⟨.comma, some "", ⟨18446744073709551615, 0⟩⟩,
      ⟨.unknown, some "😀\x27/\x1f", ⟨3, 18446744073709551615⟩⟩, ⟨.eof, none, ⟨2, 2⟩⟩]
  have fits : ∀ token ∈ tokens, token.position.Fits := by decide
  obtain ⟨reloaded, loaded, same, _, again⟩ := stored_stream_reloads tokens 1 fits
  refine ⟨tokens, rfl, fits, reloaded, loaded, ?_, again⟩
  rw [same]
  rfl

end TemplateRecognizer
