import JackCompiler.Proofs.Grammar.Constants
import JackCompiler.Proofs.Token.LexerRequests
import Mathlib.Algebra.Group.Nat.Defs

/-!
# Tokens that need no check

Whoever gets a token from a lexer can take its text out of the source, and the value out of a
constant, without asking whether that is possible. A lexer that is asked for one token after the
other never comes to ask for one where the source has ended.

## Main definitions

* `Token.Usable` — a token whose text and value can be taken without a check
* `Lexer.inRange` — the cursor of a lexer is at a place of the source, and its counts are small

## Main results

* `Lexer.usable_of_next`, `Lexer.inRange_of_inOrder` — tokens and positions at any time
* `Lexer.exchange_of_next` — what comes of a run of requests for the next token
-/

namespace JackCompiler

/-- A token whose text can be taken out of a source, and whose value can be taken if it is a
constant. -/
structure Token.Usable (token : Token) (source : String) : Prop where
  /-- Both ends of the token are places of the source between two characters. -/
  fragment : token.span.fragment? source = some token.text
  inside : token.span.finish ≤ source.utf8ByteSize
  line : token.line ≤ source.utf8ByteSize + 1
  integer : token.kind = .integer → ∃ value ≤ maxInteger, token.integerValue? = some value
  string : token.kind = .string → ∃ contents : String, token.stringValue? = some contents ∧
    ∀ c ∈ contents.toList, isAscii c = true ∧ c ≠ '"'

/-- A place of a source is a place between two of its characters. -/
def isPlaceOf (source : String) (offset : Nat) : Bool :=
  (splitAtByte? offset source.toList).isSome

/-- Whether a lexer can go on at its cursor, and the position of that fits into 32 bits. -/
def Lexer.inRange (source : String) (lexer : Lexer) : Bool :=
  isPlaceOf source lexer.cursor.position.offset &&
    lexer.cursor.position.offset < 2 ^ 32 && lexer.cursor.position.line < 2 ^ 32

/-- A text has at least as many bytes as any of its parts, and as many as that has lines. -/
theorem byteLength_le_of_toList_eq {source : String} {front behind : List Char}
    (text : source.toList = front ++ behind) : byteLength front ≤ source.utf8ByteSize := by
  rw [← byteLength_toList, text, byteLength_append]
  exact Nat.le_add_right _ _

theorem count_le_byteLength (front : List Char) : front.count '\n' ≤ byteLength front :=
  Nat.le_trans List.count_le_length (length_le_byteLength front)

/-- A string holds no character outside ASCII, and no quote. -/
theorem Cursor.quotable_of_token {cursor behind : Cursor} {token : Token}
    (taken : cursor.token = (.ok token, behind)) (isString : token.kind = .string) :
    ∃ contents, token.text.toList = '"' :: contents ++ ['"'] ∧
      contents.all isQuotable = true := by
  unfold Cursor.token at taken
  split at taken
  · cases taken
  split at taken
  · -- A word is no string.
    cases taken
    simp only [tokenOf, TokenKind.ofWord] at isString
    split at isString <;> cases isString
  split at taken
  · dsimp only at taken
    split at taken <;> cases taken
    cases isString
  · dsimp only at taken
    split at taken
    · split at taken
      · cases taken
      · split at taken <;> cases taken
        exact ⟨_, Cursor.toList_text_tokenOf .., Cursor.all_run _ _⟩
    · cases taken
      cases isString

namespace Lexer

variable {lexer behind : Lexer} {file source : String} {token : Token}

theorem inRange_of_inOrder (short : source.utf8ByteSize < 2 ^ 31)
    (h : lexer.InOrder file source) : lexer.inRange source = true := by
  obtain ⟨front, stands⟩ := h.cursor
  have bytes := byteLength_le_of_toList_eq stands.text
  have lines := count_le_byteLength front
  have offset := stands.offset
  have line := stands.line
  simp only [inRange, isPlaceOf, stands.boundary, Option.isSome_some, Bool.true_and,
    Bool.and_eq_true, decide_eq_true_eq]
  omega

/-- Moving to the next token never asks for one at the end of the source. -/
theorem cause_of_next {fault : Located LexicalFault}
    (failed : lexer.next = (.error fault, behind)) : fault.cause ≠ .unexpectedEnd := by
  obtain ⟨gap, rest, reached, -, -, -, ⟨passed, -, left, -⟩ | ⟨stopped, -, -⟩⟩ :=
    lexer.hasMore_cases
  · cases rest with
    | nil => simp [next, passed] at failed
    | cons c rest =>
      -- There is a character left behind the gap, so that the fault is in what begins with it.
      simp only [next, passed, List.isEmpty_cons, Bool.not_false, advance] at failed
      obtain ⟨ended, -⟩ | ⟨_, _, -, made⟩ | ⟨cause, faulty, stops⟩ := reached.cursor.token_cases
      · simp [left] at ended
      · rcases taken : reached.cursor.token with ⟨_ | token, cursor⟩
        · simp [taken] at made
        · simp [taken] at failed
      · rcases taken : reached.cursor.token with ⟨cause' | token, cursor⟩
        · obtain rfl : cause' = cause := by simpa [taken] using stops
          obtain ⟨rfl, -⟩ : reached.fault reached.line cause' = fault ∧ _ := by
            simpa [taken] using failed
          generalize reached.cursor.rest = text at faulty
          cases faulty <;> simp [Lexer.fault]
        · simp [taken] at stops
  · obtain ⟨rfl, -⟩ : _ = fault ∧ _ := by simpa [next, stopped] using failed
    simp [Lexer.fault]

/-- Every token that a lexer takes can be used. -/
theorem usable_of_next (h : lexer.InOrder file source)
    (next : lexer.next = (.ok (some token), behind)) : token.Usable source := by
  obtain ⟨front, stands⟩ := h.cursor
  obtain ⟨gap, rest, reached, -, -, -, ⟨passed, -, left, moves⟩ | ⟨failed, -, -⟩⟩ :=
    lexer.hasMore_cases
  · cases rest with
    | nil => simp [Lexer.next, passed] at next
    | cons c rest =>
      simp only [Lexer.next, passed, List.isEmpty_cons, Bool.not_false, advance] at next
      rcases taken : reached.cursor.token with ⟨_ | taken', cursor⟩
      · simp [taken] at next
      obtain rfl : taken' = token := by
        simp only [taken, Prod.mk.injEq, Except.ok.injEq, Option.some.injEq] at next
        exact next.1
      have genuine := (stands.advances moves.cursor).genuine taken
      obtain ⟨before, after, text, index, line⟩ := genuine.place
      have bytes := byteLength_le_of_toList_eq text
      have lines := count_le_byteLength before
      rw [byteLength_append, byteLength_toList] at bytes
      refine ⟨genuine.fragment, ?_, by omega, fun integer => ?_, fun isString => ?_⟩
      · rw [Span.finish, Token.span, index]
        exact bytes
      · obtain ⟨value, isValue⟩ := Option.isSome_iff_exists.mp (genuine.integer.mpr integer)
        have inRange : decimalValue? taken'.text.toList = some value := by
          simpa [Token.integerValue?, integer] using isValue
        exact ⟨value, Grammar.le_of_decimalValue? inRange, isValue⟩
      · obtain ⟨contents, text, quotable⟩ := Cursor.quotable_of_token taken isString
        refine ⟨String.ofList contents, ?_, fun c mem => ?_⟩
        · simp [Token.stringValue?, isString, text, unquote]
        · have isQuotable := List.all_eq_true.mp quotable c (by simpa using mem)
          simpa [JackCompiler.isQuotable, and_comm] using isQuotable
  · simp [Lexer.next, failed] at next

/-- What comes of requests is what comes of each of them. -/
theorem exchange_of_mem {requests : List LexerRequest} {exchange : LexerExchange}
    (mem : exchange ∈ (lexer.serveAll requests).1) :
    exchange = exchange.before.exchange exchange.request ∧ exchange.request ∈ requests := by
  induction requests generalizing lexer with
  | nil => simp [serveAll] at mem
  | cons request requests ih =>
    obtain rfl | mem := List.mem_cons.mp mem
    · exact ⟨rfl, List.mem_cons_self ..⟩
    · exact (ih mem).imp_right (List.mem_cons_of_mem _)

/-- **A run of requests for the next token.** None of them asks for a token where there is none, the
tokens that they take can be used, and all positions are within their ranges. -/
theorem exchange_of_next (short : source.utf8ByteSize < 2 ^ 31) (count : Nat)
    {exchange : LexerExchange}
    (mem : exchange ∈ (serveAll (List.replicate count .next) (.ofSource file source)).1) :
    (∀ fault, exchange.answer = .error fault → fault.cause ≠ .unexpectedEnd) ∧
      (∀ token, exchange.token? = some token → token.Usable source) ∧
      exchange.behind.inRange source = true := by
  obtain ⟨served, request⟩ := exchange_of_mem mem
  obtain isNext := List.eq_of_mem_replicate request
  have lawful := ((InOrder.ofSource file source).serveAll _).2 exchange mem
  rw [isNext] at served
  refine ⟨fun fault failed => ?_, fun token took => ?_, inRange_of_inOrder short lawful.behind⟩
  · rw [served] at failed
    cases next : exchange.before.next with
    | mk result behind =>
      simp only [Lexer.exchange, serve, next] at failed
      cases result with
      | ok => cases failed
      | error cause =>
        cases failed
        exact cause_of_next next
  · rw [served] at took
    cases next : exchange.before.next with
    | mk result behind =>
      simp only [LexerExchange.token?, Lexer.exchange, serve, next] at took
      cases result with
      | error => cases took
      | ok taken =>
        cases took
        exact usable_of_next lawful.before next

end Lexer

end JackCompiler
