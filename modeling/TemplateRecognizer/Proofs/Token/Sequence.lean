import TemplateRecognizer.Token.Stream

/-!
# The sequence of tokens that a source hands out

A source is known to its users by the tokens it hands out, one after another and
without end.  This module numbers them, and says what the sequence of a token
stream is and when two sources hand out the same one.
-/

set_option autoImplicit false

namespace TemplateRecognizer

def between (tokens : Nat → Token) (first behind : Nat) : List Token :=
  (List.range' first (behind - first)).map tokens

@[simp] theorem between_self (tokens : Nat → Token) (first : Nat) :
    between tokens first first = [] := by
  simp [between]

theorem between_of_lt (tokens : Nat → Token) {first behind : Nat} (before : first < behind) :
    between tokens first behind = tokens first :: between tokens (first + 1) behind := by
  have count : behind - first = behind - (first + 1) + 1 := by omega
  rw [between, count, List.range'_succ, List.map_cons]
  rfl

theorem between_succ (tokens : Nat → Token) (index : Nat) :
    between tokens index (index + 1) = [tokens index] := by
  rw [between_of_lt tokens (Nat.lt_succ_self index), between_self]

theorem between_append (tokens : Nat → Token) {first middle behind : Nat}
    (front : first ≤ middle) (back : middle ≤ behind) :
    between tokens first middle ++ between tokens middle behind = between tokens first behind := by
  obtain ⟨before, rfl⟩ := Nat.exists_eq_add_of_le front
  have count : before + (behind - (first + before)) = behind - first := by omega
  rw [between, between, between, ← List.map_append, Nat.add_sub_cancel_left,
    List.range'_append_1, count]

theorem between_congr {tokens others : Nat → Token} {first behind : Nat}
    (same : ∀ index < behind, tokens index = others index) :
    between tokens first behind = between others first behind := by
  refine List.map_congr_left ?_
  intro index member
  rw [List.mem_range'_1] at member
  exact same index (by omega)

theorem token_mem_between {tokens : Nat → Token} {first index behind : Nat}
    (reached : first ≤ index) (before : index < behind) : tokens index ∈ between tokens first behind := by
  refine List.mem_map.mpr ⟨index, ?_, rfl⟩
  rw [List.mem_range'_1]
  omega

namespace TokenSource

variable {σ : Type} [TokenSource σ]

def token (source : σ) (index : Nat) : Token := (next (skip index source)).1

theorem skip_succ (count : Nat) (source : σ) :
    skip (count + 1) source = (next (skip count source)).2 := by
  rw [skip_add]
  rfl

theorem upcoming_succ (count : Nat) (source : σ) :
    upcoming (count + 1) source = upcoming count source ++ [token source count] := by
  rw [upcoming_add]
  rfl

theorem upcoming_eq_between (count : Nat) (source : σ) :
    upcoming count source = between (token source) 0 count := by
  induction count with
  | zero => rfl
  | succ count inductionHypothesis =>
    rw [upcoming_succ, inductionHypothesis, between, between, Nat.sub_zero, Nat.sub_zero,
      List.range'_1_concat, List.map_append, Nat.zero_add, List.map_singleton]

theorem getElem_upcoming (source : σ) {index count : Nat}
    (inside : index < (upcoming count source).length) :
    (upcoming count source)[index] = token source index := by
  simp [upcoming_eq_between, between]

theorem token_eq_of_upcoming_eq {τ : Type} [TokenSource τ] {source : σ} {other : τ} {count : Nat}
    (same : upcoming count source = upcoming count other) :
    ∀ index < count, token source index = token other index := by
  rw [upcoming_eq_between, upcoming_eq_between, between, between, List.map_inj_left] at same
  intro index within
  refine same index ?_
  rw [List.mem_range'_1]
  omega

end TokenSource

namespace FiniteSource

variable {σ : Type} [FiniteSource σ] {source : σ}

theorem drain_of_ended (ended : (TokenSource.next source).1.kind = .eof) :
    drain source = ([(TokenSource.next source).1], (TokenSource.next source).2) := by
  rw [drain]
  exact if_pos ended

theorem drain_of_visible (visible : (TokenSource.next source).1.kind ≠ .eof) :
    drain source =
      ((TokenSource.next source).1 :: (drain (TokenSource.next source).2).1,
        (drain (TokenSource.next source).2).2) := by
  rw [drain]
  exact if_neg visible

theorem drain_snd (source : σ) :
    (drain source).2 = TokenSource.skip (drain source).1.length source := by
  induction source using drain.induct with
  | case1 source token =>
    rename_i ended
    rw [drain_of_ended ended]
    rfl
  | case2 source token behind visible =>
    rename_i inductionHypothesis
    rw [drain_of_visible visible]
    exact inductionHypothesis

theorem exists_ended (source : σ) :
    ∃ count ≤ left source, (TokenSource.token source count).kind = .eof := by
  induction source using drain.induct with
  | case1 source token =>
    rename_i ended
    exact ⟨0, Nat.zero_le _, ended⟩
  | case2 source token behind visible =>
    rename_i inductionHypothesis
    obtain ⟨count, within, ended⟩ := inductionHypothesis
    have fewer : left behind < left source := left_next_lt source visible
    exact ⟨count + 1, by omega, ended⟩

end FiniteSource

namespace TokenStream

theorem upcoming_append (front back : List Token) (last : Position) :
    TokenSource.upcoming front.length (TokenStream.mk (front ++ back) last) = front := by
  induction front generalizing last with
  | nil => rfl
  | cons token front inductionHypothesis =>
    have rest := inductionHypothesis token.position
    exact congrArg (token :: ·) rest

theorem prefix_upcoming (front back : List Token) (last : Position) {count : Nat}
    (enough : front.length ≤ count) :
    front <+: TokenSource.upcoming count (TokenStream.mk (front ++ back) last) := by
  obtain ⟨further, rfl⟩ := Nat.exists_eq_add_of_le enough
  rw [TokenSource.upcoming_add, upcoming_append]
  exact List.prefix_append ..

theorem tokens_skip (count : Nat) (stream : TokenStream) :
    (TokenSource.skip count stream).tokens = stream.tokens.drop count := by
  induction count generalizing stream with
  | zero => rfl
  | succ count inductionHypothesis =>
    obtain ⟨tokens, last⟩ := stream
    cases tokens with
    | nil =>
      have rest := inductionHypothesis ⟨[], last⟩
      rw [List.drop_nil] at rest ⊢
      exact rest
    | cons token rest => exact inductionHypothesis ⟨rest, token.position⟩

theorem skip_append (front back : List Token) (last : Position) :
    (TokenSource.skip front.length (TokenStream.mk (front ++ back) last)).tokens = back := by
  rw [tokens_skip, List.drop_left]

theorem token_eq_getElem (stream : TokenStream) {index : Nat}
    (inside : index < stream.tokens.length) :
    TokenSource.token stream index = stream.tokens[index] := by
  have rest := tokens_skip index stream
  rw [List.drop_eq_getElem_cons inside] at rest
  change (next (TokenSource.skip index stream)).1 = stream.tokens[index]
  simp only [next, rest]

theorem kind_token_length (tokens : List Token) :
    (TokenSource.token (ofList tokens) tokens.length).kind = .eof := by
  have rest := skip_append tokens [] .start
  rw [List.append_nil] at rest
  change (next (TokenSource.skip tokens.length (ofList tokens))).1.kind = .eof
  simp only [next, ofList, rest]
  rfl

theorem kind_token (stream : TokenStream) (index : Nat) :
    (TokenSource.token stream index).kind = (stream.tokens.map Token.kind).getD index .eof := by
  induction index generalizing stream with
  | zero =>
    obtain ⟨tokens, last⟩ := stream
    cases tokens <;> rfl
  | succ index inductionHypothesis =>
    obtain ⟨tokens, last⟩ := stream
    cases tokens with
    | nil => exact inductionHypothesis ⟨[], last⟩
    | cons token rest => exact inductionHypothesis ⟨rest, token.position⟩

/-- Behind the tokens that it holds a stream answers ends of input where the last of them stands. -/
theorem token_eq (tokens : List Token) (last : Position) (index : Nat) :
    TokenSource.token (TokenStream.mk tokens last) index =
      tokens[index]?.getD (.endOfInput ((tokens.getLast?.map Token.position).getD last)) := by
  induction index generalizing tokens last with
  | zero => cases tokens <;> rfl
  | succ index inductionHypothesis =>
    cases tokens with
    | nil => exact inductionHypothesis [] last
    | cons token rest =>
      have further := inductionHypothesis rest token.position
      rw [List.getElem?_cons_succ, List.getLast?_cons, Option.map_some, Option.getD_some]
      rwa [Option.getD_map] at further

theorem token_append_left (front back : List Token) (last : Position) {index : Nat}
    (inside : index < front.length) :
    TokenSource.token (TokenStream.mk (front ++ back) last) index = front[index] := by
  have within : index < (front ++ back).length := by
    rw [List.length_append]
    omega
  rw [token_eq_getElem ⟨front ++ back, last⟩ within]
  exact List.getElem_append_left inside

theorem token_append_cons (front back : List Token) (token : Token) (last : Position) :
    TokenSource.token (TokenStream.mk (front ++ token :: back) last) front.length = token := by
  rw [token_eq_getElem _ (by simp)]
  simp

end TokenStream

/-! ## Sources that agree

Two sources that hand out the same sequence cannot be told apart by taking tokens from them,
however they are built.
-/

def Agree {σ τ : Type} [TokenSource σ] [TokenSource τ] (source : σ) (other : τ) : Prop :=
  ∀ index, TokenSource.token source index = TokenSource.token other index

namespace Agree

variable {σ τ υ : Type}

section

variable [TokenSource σ] [TokenSource τ] [TokenSource υ] {source : σ} {other : τ} {third : υ}

theorem symm (agree : Agree source other) : Agree other source := by
  intro index
  exact (agree index).symm

theorem trans (first : Agree source other) (second : Agree other third) :
    Agree source third := by
  intro index
  exact (first index).trans (second index)

theorem next_eq (agree : Agree source other) :
    (TokenSource.next source).1 = (TokenSource.next other).1 :=
  agree 0

theorem skip (agree : Agree source other) (count : Nat) :
    Agree (TokenSource.skip count source) (TokenSource.skip count other) := by
  intro index
  have later := agree (count + index)
  simpa only [TokenSource.token, TokenSource.skip_add] using later

theorem behind (agree : Agree source other) :
    Agree (TokenSource.next source).2 (TokenSource.next other).2 :=
  agree.skip 1

end

variable [FiniteSource σ] [FiniteSource τ]

theorem drain {source : σ} {other : τ} (agree : Agree source other) :
    (FiniteSource.drain source).1 = (FiniteSource.drain other).1 ∧
      Agree (FiniteSource.drain source).2 (FiniteSource.drain other).2 := by
  induction source using FiniteSource.drain.induct generalizing other with
  | case1 source token =>
    rename_i ended
    have endedToo : (TokenSource.next other).1.kind = .eof := agree.next_eq ▸ ended
    rw [FiniteSource.drain_of_ended ended, FiniteSource.drain_of_ended endedToo]
    exact ⟨by rw [agree.next_eq], agree.behind⟩
  | case2 source token behind visible =>
    rename_i inductionHypothesis
    have visibleToo : (TokenSource.next other).1.kind ≠ .eof := agree.next_eq ▸ visible
    obtain ⟨tokens, rest⟩ := inductionHypothesis agree.behind
    rw [FiniteSource.drain_of_visible visible, FiniteSource.drain_of_visible visibleToo]
    exact ⟨by rw [agree.next_eq, tokens], rest⟩

end Agree

end TemplateRecognizer
