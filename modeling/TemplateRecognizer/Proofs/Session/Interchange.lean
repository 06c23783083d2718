import TemplateRecognizer.Proofs.Json.Stored
import TemplateRecognizer.Proofs.Lexer.Stream
import TemplateRecognizer.Proofs.Recognizer.Locality
import TemplateRecognizer.Session

/-!
# Scanners over one text are interchangeable

A text can be read as it is asked for, read beforehand, or stored and loaded again.  The three
scanners hand out the same tokens, also behind the end of the text, and so no session that
only takes tokens can tell them apart.
-/

set_option autoImplicit false

namespace TemplateRecognizer

/-! ## The tokens of a text fit into storage -/

theorem Position.behind_fits {before : List Char} (short : before.length + 1 < UInt64.size) :
    (Position.behind before).Fits := by
  have lines : before.count '\n' ≤ before.length := List.count_le_length
  have columns := (List.takeWhile_sublist (l := before.reverse) (· != '\n')).length_le
  rw [List.length_reverse] at columns
  constructor
  · simp only [behind]
    omega
  · simp only [behind]
    omega

theorem tokenize_fits {text : String} (short : text.toList.length + 1 < UInt64.size) :
    ∀ token ∈ tokenize text, token.position.Fits := by
  obtain ⟨scanned, trailing, split, read, _, faithful⟩ := Lexer.tokens_scanned text.toList []
  have ending : tokenize text =
      scanned.map Scanned.token ++ [.endOfInput (.behind text.toList)] := read
  intro token member
  rw [ending, List.mem_append, List.mem_singleton] at member
  rcases member with scannedToken | rfl
  · obtain ⟨piece, present, rfl⟩ := List.mem_map.mp scannedToken
    obtain ⟨front, back, divided⟩ := List.append_of_mem present
    rw [(faithful front piece back divided).placed]
    refine Position.behind_fits ?_
    rw [divided] at split
    have length := congrArg List.length split
    simp only [List.flatMap_append, List.flatMap_cons, List.length_append, Scanned.source,
      List.nil_append] at length ⊢
    omega
  · exact Position.behind_fits short

/-! ## Sessions -/

def Request.Takes : Request → Prop
  | .next | .drain | .prime | .parse _ _ => True
  | _ => False

namespace Session

theorem answer_of_agree {session other : Session} (agree : Agree session.scanner other.scanner)
    {request : Request} (takes : request.Takes) :
    (session.answer request).1 = (other.answer request).1 ∧
      Agree (session.answer request).2.scanner (other.answer request).2.scanner := by
  cases request with
  | next => exact ⟨congrArg Reply.token agree.next_eq, agree.behind⟩
  | prime => exact ⟨congrArg Reply.token agree.next_eq, agree.behind⟩
  | drain =>
    obtain ⟨tokens, rest⟩ := agree.drain
    exact ⟨congrArg Reply.tokens tokens, rest⟩
  | parse options validator =>
    obtain ⟨report, rest⟩ := agree.recognizeFrom options validator
    exact ⟨congrArg Reply.report report, rest⟩
  | _ => cases takes

theorem answerAll_of_agree (requests : List Request) :
    ∀ {session other : Session}, Agree session.scanner other.scanner →
      (∀ request ∈ requests, request.Takes) →
        session.answerAll requests = other.answerAll requests := by
  induction requests with
  | nil =>
    intro session other _ _
    rfl
  | cons request requests inductionHypothesis =>
    intro session other agree take
    obtain ⟨same, left⟩ := answer_of_agree agree (take request List.mem_cons_self)
    have others := inductionHypothesis left fun later member =>
      take later (List.mem_cons_of_mem request member)
    rw [answerAll, answerAll, same, others]

end Session

/-! ## Scanners -/

namespace Scanner

theorem agree_lexer (lexer : Lexer) : Agree (Scanner.lexer lexer) lexer := by
  intro index
  induction index generalizing lexer with
  | zero => rfl
  | succ index inductionHypothesis => exact inductionHypothesis lexer.next.2

theorem agree_stream (stream : TokenStream) : Agree (Scanner.stream stream) stream := by
  intro index
  induction index generalizing stream with
  | zero => rfl
  | succ index inductionHypothesis => exact inductionHypothesis stream.next.2

/-- Holds of two scanners that hand out the same tokens, and that no session can tell apart
by what it takes from them. -/
def Interchangeable (first second : Scanner) : Prop :=
  (∀ index, TokenSource.token first index = TokenSource.token second index) ∧
    ∀ (requests : List Request), (∀ request ∈ requests, request.Takes) →
      ∀ (source other : String) (saved put : Option TokenStream),
        (Session.mk first source saved).answerAll requests =
          (Session.mk second other put).answerAll requests

theorem interchangeable_of_agree {first second : Scanner} (agree : Agree first second) :
    Interchangeable first second := by
  refine ⟨agree, ?_⟩
  intro requests take source other saved put
  exact Session.answerAll_of_agree requests agree take

end Scanner

/-- A lexer can be replaced by a stream of its tokens.  The stream can be stored and loaded
again if positions in the text have 64 bits, as they do in every text that a memory holds. -/
theorem scanners_interchangeable (text : String) :
    Scanner.Interchangeable (.lexer (.ofString text)) (.stream (.ofList (tokenize text))) ∧
      (∀ index, (tokenize text).length ≤ index + 1 →
        TokenSource.token (Scanner.lexer (.ofString text)) index =
          .endOfInput (.behind text.toList)) ∧
      (text.length + 1 < UInt64.size →
        ∃ reloaded,
          TokenStream.load? (TokenStream.ofList (tokenize text)).store = some reloaded ∧
            Scanner.Interchangeable (.lexer (.ofString text)) (.stream reloaded)) := by
  have agree : Agree (Scanner.lexer (.ofString text)) (Scanner.stream (.ofList (tokenize text))) :=
    (Scanner.agree_lexer _).trans ((agree_tokenize text).symm.trans (Scanner.agree_stream _).symm)
  refine ⟨Scanner.interchangeable_of_agree agree, ?_, ?_⟩
  · intro index beyond
    have ended := Lexer.token_behind_text text beyond
    rwa [← Scanner.agree_lexer _ index] at ended
  · intro short
    rw [← String.length_toList] at short
    have loaded : TokenStream.load? (TokenStream.ofList (tokenize text)).store =
        some (.ofList (tokenize text)) := TokenStream.load?_store (tokenize_fits short)
    exact ⟨_, loaded, Scanner.interchangeable_of_agree agree⟩

theorem scanners_interchangeable_two_lines :
    "<p>\n/".length + 1 < UInt64.size ∧
      ∃ reloaded,
        TokenStream.load? (TokenStream.ofList (tokenize "<p>\n/")).store = some reloaded ∧
          TokenSource.token (Scanner.stream reloaded) 3 = ⟨.slash, none, ⟨2, 1⟩⟩ ∧
          TokenSource.token (Scanner.stream reloaded) 9 = .endOfInput ⟨2, 2⟩ := by
  have short : "<p>\n/".length + 1 < UInt64.size := by decide
  obtain ⟨_, _, reloads⟩ := scanners_interchangeable "<p>\n/"
  obtain ⟨reloaded, loaded, alike, _⟩ := reloads short
  refine ⟨short, reloaded, loaded, ?_, ?_⟩
  · rw [← alike 3]
    rfl
  · rw [← alike 9]
    rfl

end TemplateRecognizer
