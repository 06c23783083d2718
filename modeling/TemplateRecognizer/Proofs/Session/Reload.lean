import TemplateRecognizer.Proofs.Json.Stored
import TemplateRecognizer.Proofs.Recognizer.Locality
import TemplateRecognizer.Session

/-!
# Reloading a live stream

A stored stream does not keep the position of the token handed out last, and so a stream that is
stored and loaded again is in another state.  Nothing is lost while tokens remain, since the next
one brings a new position.  A stream that was drained before answers its ends of input elsewhere,
and otherwise as it did.
-/

set_option autoImplicit false

namespace TemplateRecognizer

/-! ## Streams and scanners in one state but for a position that cannot show -/

/-- Holds of streams of the same tokens which have had their last token at one position, unless
tokens remain. -/
structure TokenStream.Alike (stream other : TokenStream) : Prop where
  tokens : stream.tokens = other.tokens
  last : stream.tokens = [] → stream.last = other.last

namespace TokenStream.Alike

variable {stream other : TokenStream}

theorem refl (stream : TokenStream) : stream.Alike stream := ⟨rfl, fun _ => rfl⟩

theorem remaining_eq (alike : stream.Alike other) : stream.remaining = other.remaining :=
  congrArg List.length alike.tokens

theorem store_eq (alike : stream.Alike other) : stream.store = other.store := by
  rw [store, store, toJson, toJson, alike.tokens]

theorem next_eq (alike : stream.Alike other) : stream.next = other.next := by
  obtain ⟨tokens, last⟩ := stream
  obtain ⟨others, otherLast⟩ := other
  obtain rfl : tokens = others := alike.tokens
  cases tokens with
  | nil =>
    obtain rfl : last = otherLast := alike.last rfl
    rfl
  | cons token rest => rfl

end TokenStream.Alike

inductive Scanner.Alike : Scanner → Scanner → Prop where
  | lexer {state : Lexer} : Alike (.lexer state) (.lexer state)
  | stream {state other : TokenStream} : state.Alike other → Alike (.stream state) (.stream other)

namespace Scanner.Alike

variable {scanner other : Scanner}

theorem refl (scanner : Scanner) : scanner.Alike scanner := by
  cases scanner with
  | lexer state => exact .lexer
  | stream state => exact .stream (.refl state)

theorem next_eq (alike : scanner.Alike other) :
    TokenSource.next scanner = TokenSource.next other := by
  cases alike with
  | lexer => rfl
  | stream alike =>
    change (Prod.fst _, Scanner.stream (Prod.snd _)) = (Prod.fst _, Scanner.stream (Prod.snd _))
    rw [alike.next_eq]

theorem skip (alike : scanner.Alike other) (count : Nat) :
    Alike (TokenSource.skip count scanner) (TokenSource.skip count other) := by
  cases count with
  | zero => exact alike
  | succ count =>
    rw [TokenSource.skip, TokenSource.skip, alike.next_eq]
    exact refl _

theorem agree (alike : scanner.Alike other) : Agree scanner other := by
  intro index
  cases index with
  | zero => exact congrArg Prod.fst alike.next_eq
  | succ index =>
    rw [TokenSource.token, TokenSource.token, TokenSource.skip, TokenSource.skip, alike.next_eq]

theorem recognizeFrom (alike : scanner.Alike other) (options : Options) (validator : Validator) :
    (recognizeFrom scanner options validator).toReport =
        (TemplateRecognizer.recognizeFrom other options validator).toReport ∧
      Alike (TemplateRecognizer.recognizeFrom scanner options validator).source
        (TemplateRecognizer.recognizeFrom other options validator).source := by
  obtain ⟨report, lookahead, reported⟩ := recognizeFrom_local scanner options validator
  rw [reported scanner fun _ _ => rfl, reported other fun index _ => alike.agree index]
  exact ⟨rfl, alike.skip report.pulled⟩

theorem drain (alike : scanner.Alike other) :
    (FiniteSource.drain scanner).1 = (FiniteSource.drain other).1 ∧
      Alike (FiniteSource.drain scanner).2 (FiniteSource.drain other).2 := by
  have tokens := alike.agree.drain.1
  rw [FiniteSource.drain_snd, FiniteSource.drain_snd, tokens]
  exact ⟨rfl, alike.skip _⟩

end Scanner.Alike

/-! ## Sessions -/

structure Session.Alike (session other : Session) : Prop where
  scanner : session.scanner.Alike other.scanner
  source : session.source = other.source
  saved : Option.Rel TokenStream.Alike session.saved other.saved

namespace Session

variable {session other : Session}

/-- Sessions that are alike answer alike, and still are so then, whatever is asked. -/
theorem Alike.answer (alike : session.Alike other) (request : Request) :
    (session.answer request).1 = (other.answer request).1 ∧
      (session.answer request).2.Alike (other.answer request).2 := by
  obtain ⟨scanner, source, saved⟩ := session
  obtain ⟨scanner', source', saved'⟩ := other
  obtain ⟨scanners, sources, saves⟩ := alike
  dsimp only at scanners sources saves
  subst sources
  cases request with
  | next | prime =>
    refine ⟨congrArg Reply.token (congrArg Prod.fst scanners.next_eq), ?_, rfl, saves⟩
    exact scanners.skip 1
  | drain =>
    obtain ⟨tokens, rest⟩ := scanners.drain
    exact ⟨congrArg Reply.tokens tokens, rest, rfl, saves⟩
  | parse options validator =>
    obtain ⟨report, rest⟩ := scanners.recognizeFrom options validator
    exact ⟨congrArg Reply.report report, rest, rfl, saves⟩
  | load supply =>
    simp only [Session.answer]
    split
    · exact ⟨rfl, .refl _, rfl, saves⟩
    · exact ⟨rfl, scanners, rfl, saves⟩
  | remaining =>
    cases scanners with
    | lexer => exact ⟨rfl, .lexer, rfl, saves⟩
    | stream streams =>
      exact ⟨congrArg Reply.count streams.remaining_eq, .stream streams, rfl, saves⟩
  | store =>
    cases scanners with
    | lexer => exact ⟨rfl, .lexer, rfl, saves⟩
    | stream streams => exact ⟨congrArg Reply.text streams.store_eq, .stream streams, rfl, saves⟩
  | reload =>
    cases scanners with
    | lexer => exact ⟨rfl, .lexer, rfl, saves⟩
    | stream streams =>
      simp only [Session.answer, streams.store_eq]
      split
      · exact ⟨rfl, .refl _, rfl, saves⟩
      · exact ⟨rfl, .stream streams, rfl, saves⟩
  | save =>
    cases scanners with
    | lexer => exact ⟨rfl, .lexer, rfl, saves⟩
    | stream streams =>
      exact ⟨congrArg Reply.count streams.remaining_eq, .stream streams, rfl, .some streams⟩
  | restore =>
    cases saves with
    | none => exact ⟨rfl, scanners, rfl, .none⟩
    | some streams =>
      exact ⟨congrArg Reply.count streams.remaining_eq, .stream streams, rfl, .some streams⟩

theorem Alike.answerAll (alike : session.Alike other) (requests : List Request) :
    session.answerAll requests = other.answerAll requests := by
  induction requests generalizing session other with
  | nil => rfl
  | cons request requests inductionHypothesis =>
    obtain ⟨reply, further⟩ := alike.answer request
    rw [Session.answerAll, Session.answerAll, reply, inductionHypothesis further]

end Session

/-! ## Streams that were drained -/

/-- Holds of the requests that leave no other stream in a session than the tokens still to come of
the one that it has. -/
def Request.Observes : Request → Prop
  | .load _ | .reload | .save | .restore => False
  | _ => True

/-- What is answered where no token remains and the last one had this position.  Only requests that
observe are meant. -/
def Request.answeredAtEnd (position : Position) : Request → Reply
  | .next | .prime => .token (.endOfInput position)
  | .drain => .tokens [.endOfInput position]
  | .parse _ _ => .report ⟨.error (.noRootProduction .eof position), 1, []⟩
  | .remaining => .count 0
  | .store => .text "[]"
  | _ => .refused

namespace Session

theorem answer_at_end (position : Position) (source : String) (saved : Option TokenStream)
    {request : Request} (observes : request.Observes) :
    (Session.mk (.stream ⟨[], position⟩) source saved).answer request =
      (request.answeredAtEnd position, ⟨.stream ⟨[], position⟩, source, saved⟩) := by
  cases request with
  | next | prime | remaining | store => rfl
  | drain =>
    have ended : (TokenSource.next (Scanner.stream ⟨[], position⟩)).1.kind = .eof := rfl
    rw [answer, FiniteSource.drain_of_ended ended]
    rfl
  | parse options validator =>
    have ended : (TokenSource.token (Scanner.stream ⟨[], position⟩) 0).kind = .eof := rfl
    rw [answer, recognizeFrom_of_noRoot options (by simp [ended]) (by simp [ended])]
    rfl
  | _ => cases observes

theorem answerAll_at_end (position : Position) (source : String) (saved : Option TokenStream)
    {requests : List Request} (observe : ∀ request ∈ requests, request.Observes) :
    (Session.mk (.stream ⟨[], position⟩) source saved).answerAll requests =
      requests.map (Request.answeredAtEnd position) := by
  induction requests with
  | nil => rfl
  | cons request requests inductionHypothesis =>
    rw [List.forall_mem_cons] at observe
    rw [answerAll, answer_at_end position source saved observe.1, List.map_cons,
      inductionHypothesis observe.2]

end Session

/-- Reloading a live stream shows at its end only.  While tokens remain, the stream that is stored
and loaded again answers whatever a session may ask as the other does.  If none remain, all that
differs is where an end of input is told to stand: behind the last token that was handed out, or
at the start of a text. -/
theorem reload_shows_at_end_only (tokens : List Token) (count : Nat)
    (fits : ∀ token ∈ tokens, token.position.Fits) :
    let stream := TokenSource.skip count (TokenStream.ofList tokens)
    ∃ reloaded, TokenStream.load? stream.store = some reloaded ∧
      (0 < stream.remaining →
        ∀ (requests : List Request) (source : String) (saved : Option TokenStream),
          (Session.mk (.stream stream) source saved).answerAll requests =
            (Session.mk (.stream reloaded) source saved).answerAll requests) ∧
      (stream.remaining = 0 →
        ∀ (requests : List Request), (∀ request ∈ requests, request.Observes) →
          ∀ (source : String) (saved : Option TokenStream),
            (Session.mk (.stream stream) source saved).answerAll requests =
                requests.map (Request.answeredAtEnd
                  ((tokens.getLast?.map Token.position).getD .start)) ∧
              (Session.mk (.stream reloaded) source saved).answerAll requests =
                requests.map (Request.answeredAtEnd .start)) := by
  intro stream
  have held : stream.tokens = tokens.drop count := TokenStream.tokens_skip count (.ofList tokens)
  have fit : ∀ token ∈ stream.tokens, token.position.Fits := by
    intro token member
    rw [held] at member
    exact fits token (List.mem_of_mem_drop member)
  refine ⟨.ofList stream.tokens, TokenStream.load?_store fit, ?_, ?_⟩
  · intro remain requests source saved
    have streams : stream.Alike (.ofList stream.tokens) := by
      refine ⟨rfl, ?_⟩
      intro drained
      rw [TokenStream.remaining, drained] at remain
      cases remain
    have alike : Session.Alike ⟨.stream stream, source, saved⟩
        ⟨.stream (.ofList stream.tokens), source, saved⟩ := by
      refine ⟨.stream streams, rfl, ?_⟩
      cases saved with
      | none => exact .none
      | some kept => exact .some (.refl kept)
    exact alike.answerAll requests
  · intro noneRemain requests observe source saved
    have drained : stream.tokens = [] := List.length_eq_zero_iff.mp noneRemain
    have last : stream.last = (tokens.getLast?.map Token.position).getD .start := by
      have beyond : tokens[count]? = none := by
        rw [List.getElem?_eq_none_iff, ← List.drop_eq_nil_iff, ← held, drained]
      have ahead : TokenSource.token (TokenStream.ofList tokens) count =
          .endOfInput stream.last := by
        change stream.next.1 = _
        rw [TokenStream.next, drained]
      rw [TokenStream.ofList, TokenStream.token_eq, beyond] at ahead
      exact (congrArg Token.position ahead).symm
    have same : stream = ⟨[], (tokens.getLast?.map Token.position).getD .start⟩ := by
      rw [← last, ← drained]
    rw [same]
    exact ⟨Session.answerAll_at_end _ source saved observe,
      Session.answerAll_at_end .start source saved observe⟩

/-- With one token left the last position comes back, and with none it is lost. -/
theorem reload_shows_at_end_only_second_token :
    let tokens : List Token :=
      [⟨.lessThan, none, ⟨1, 1⟩⟩, ⟨.identifier, some "p", ⟨2, 5⟩⟩]
    (∀ token ∈ tokens, token.position.Fits) ∧
      ∃ live drained,
        TokenStream.load? (TokenSource.skip 1 (TokenStream.ofList tokens)).store = some live ∧
        TokenStream.load? (TokenSource.skip 2 (TokenStream.ofList tokens)).store = some drained ∧
        (Session.mk (.stream live) "" none).answerAll [.remaining, .next, .next] =
          [.count 1, .token ⟨.identifier, some "p", ⟨2, 5⟩⟩, .token (.endOfInput ⟨2, 5⟩)] ∧
        (Session.mk (.stream drained) "" none).answerAll [.remaining, .next, .store] =
          [.count 0, .token (.endOfInput ⟨1, 1⟩), .text "[]"] := by
  intro tokens
  have fits : ∀ token ∈ tokens, token.position.Fits := by decide
  obtain ⟨live, loaded, same, _⟩ := reload_shows_at_end_only tokens 1 fits
  obtain ⟨drained, loaded', _, moved⟩ := reload_shows_at_end_only tokens 2 fits
  refine ⟨fits, live, drained, loaded, loaded', ?_, ?_⟩
  · rw [← same (by decide)]
    rfl
  · have observe : ∀ request ∈ [Request.remaining, .next, .store], request.Observes := by
      simp [Request.Observes]
    exact (moved rfl _ observe "" none).2

end TemplateRecognizer
