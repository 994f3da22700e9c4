import JackCompiler.Proofs.Token.LexerRequests

/-!
# Asking for more tokens

A lexer that is asked whether a token is left moves over a gap, and a gap is never followed by
another one. Asking once more therefore moves nothing, and the token that is taken next is the same
whether or not the lexer was asked before. Only a comment without an end is passed over together
with all that is behind it. What the lexer meets from then on is the end of the source.

## Main definitions

* `Lexer.AsksSafely` — what holds of a lexer that is asked whether a token is left

## Main results

* `Lexer.hasMore_of_hasMore`, `Lexer.next_of_hasMore` — asking changes no later answer
* `Lexer.answers_of_ended` — what a lexer answers at the end of its source
* `Lexer.asksSafely_serveAll` — asking is harmless, whatever a lexer was asked before
-/

namespace JackCompiler

namespace Lexer

variable {lexer behind : Lexer} {file source : String} {more : Bool}

/-! ### Asking again -/

/-- An answer is given from behind a gap. -/
theorem endsGap_of_hasMore (asked : lexer.hasMore = (.ok more, behind)) :
    EndsGap behind.cursor.rest := by
  obtain ⟨_, _, reached, -, -, -, ⟨passed, ends, left, -⟩ | ⟨failed, -⟩⟩ := lexer.hasMore_cases
  · obtain rfl : reached = behind := congrArg Prod.snd (passed.symm.trans asked)
    rwa [left]
  · simp [failed] at asked

/-- Behind a gap, asking only tells whether there is something. -/
theorem hasMore_of_endsGap (ends : EndsGap lexer.cursor.rest) :
    lexer.hasMore = (.ok !lexer.cursor.rest.isEmpty, lexer) := by
  rw [hasMore, Cursor.skipGap, Gap.skip_of_endsGap ends]

/-- **Asking again gives the same answer and changes nothing.** -/
theorem hasMore_of_hasMore (asked : lexer.hasMore = (.ok more, behind)) :
    behind.hasMore = (.ok more, behind) := by
  obtain ⟨-, -, answer⟩ := advances_hasMore asked
  rw [hasMore_of_endsGap (endsGap_of_hasMore asked), answer]

/-- **The next token is the same after asking.** -/
theorem next_of_hasMore (asked : lexer.hasMore = (.ok more, behind)) :
    behind.next = lexer.next := by
  rw [next, next, asked, hasMore_of_hasMore asked]

/-- Asking any number of times comes to asking once. -/
theorem serveAll_hasMore (asked : lexer.hasMore = (.ok more, behind)) (times : Nat) :
    (serveAll (.replicate times .hasMore) behind).2 = behind := by
  induction times with
  | zero => rfl
  | succ times ih =>
    have again : (behind.serve .hasMore).2 = behind := by
      rw [serve, hasMore_of_hasMore asked]
    rw [List.replicate_succ, serveAll, again]
    exact ih

/-- The current token stays what it was. -/
theorem current_hasMore (lexer : Lexer) : lexer.hasMore.2.current = lexer.current := by
  obtain ⟨_, _, reached, -, -, same, ⟨passed, -⟩ | ⟨failed, -⟩⟩ := lexer.hasMore_cases
  · rw [passed, same]
  · rw [failed, same]

/-- There is a token or a fault where the answer is that something is left, and nowhere else. -/
theorem tells_of_hasMore (asked : lexer.hasMore = (.ok more, behind)) : more = true ↔
    (∃ token, lexer.next.1 = .ok (some token)) ∨ ∃ fault, lexer.next.1 = .error fault := by
  cases more with
  | false => simp [next, asked]
  | true =>
    simp only [next, asked, true_iff]
    rcases behind.advance with ⟨fault | token, final⟩
    · exact .inr ⟨fault, rfl⟩
    · exact .inl ⟨token, rfl⟩

/-! ### The end of a source -/

/-- What a lexer answers at the end of its source, and that it stays there. -/
theorem serve_of_ended (ended : lexer.cursor.rest = []) (request : LexerRequest) :
    (lexer.serve request).2.cursor.rest = [] ∧
      (request = .hasMore → (lexer.serve request).1 = .ok (.more false)) ∧
      (request = .next → (lexer.serve request).1 = .ok (.token none)) := by
  have ends : EndsGap lexer.cursor.rest := by
    rw [ended]
    exact ⟨by simp, by simp [OpensComment]⟩
  have asked := hasMore_of_endsGap ends
  cases request with
  | hasMore => simp [serve, asked, ended, Except.map]
  | advance => simp [serve, advance, Cursor.token, ended]
  | next => simp [serve, next, asked, ended, Except.map]

/-- A lexer that has read its whole source never says that a token is left, and takes none. -/
theorem answers_of_ended (ended : lexer.cursor.rest = []) (requests : List LexerRequest) :
    ∀ exchange ∈ (serveAll requests lexer).1,
      (exchange.request = .hasMore → exchange.answer = .ok (.more false)) ∧
      (exchange.request = .next → exchange.answer = .ok (.token none)) := by
  induction requests generalizing lexer with
  | nil => simp [serveAll]
  | cons request requests ih =>
    obtain ⟨still, answers⟩ := serve_of_ended ended request
    exact List.forall_mem_cons.mpr ⟨answers, ih still⟩

/-- A comment without an end is read to the end of the source. -/
theorem ended_of_hasMore_error {fault : Located LexicalFault}
    (failed : lexer.hasMore.1 = .error fault) :
    fault.cause = .unterminatedComment ∧ lexer.hasMore.2.cursor.rest = [] := by
  obtain ⟨gap, rest, reached, text, -, -, ⟨passed, -⟩ | ⟨stopped, -, moves⟩⟩ := lexer.hasMore_cases
  · simp [passed] at failed
  · rw [stopped] at failed ⊢
    obtain rfl := Except.error.inj failed
    refine ⟨rfl, ?_⟩
    have whole := moves.cursor.rest
    rw [text] at whole
    simpa using whole

/-- A lexer that has read all characters stands behind all bytes. -/
theorem InOrder.offset_of_ended (h : lexer.InOrder file source) (ended : lexer.cursor.rest = []) :
    lexer.cursor.position.offset = source.utf8ByteSize := by
  obtain ⟨front, stands⟩ := h.cursor
  rw [stands.offset, ← byteLength_toList, stands.text, ended, List.append_nil]

/-! ### At any time -/

/-- What holds of a lexer that is asked whether a token of a source is left. -/
structure AsksSafely (lexer : Lexer) (source : String) : Prop where
  /-- The current token stays what it was. -/
  current : lexer.hasMore.2.current = lexer.current
  /-- Asking again gives the same answer and changes nothing. -/
  again : ∀ more, lexer.hasMore.1 = .ok more →
    lexer.hasMore.2.hasMore = (.ok more, lexer.hasMore.2)
  /-- The next token, and the lexer behind it, are the same however often the lexer was asked. -/
  next : ∀ more, lexer.hasMore.1 = .ok more → ∀ times,
    (serveAll (.replicate times .hasMore) lexer).2.next = lexer.next
  /-- The answer tells whether there is a token or a fault. -/
  tells : ∀ more, lexer.hasMore.1 = .ok more → (more = true ↔
    (∃ token, lexer.next.1 = .ok (some token)) ∨ ∃ fault, lexer.next.1 = .error fault)
  /-- A request that fails has met a comment without an end. All is read, and no later request finds
  anything, whatever else the lexer is asked in between. -/
  unclosed : ∀ fault, lexer.hasMore.1 = .error fault → fault.cause = .unterminatedComment ∧
    lexer.hasMore.2.cursor.rest = [] ∧
    lexer.hasMore.2.cursor.position.offset = source.utf8ByteSize ∧
    ∀ requests, ∀ exchange ∈ (serveAll requests lexer.hasMore.2).1,
      (exchange.request = .hasMore → exchange.answer = .ok (.more false)) ∧
      (exchange.request = .next → exchange.answer = .ok (.token none))

theorem InOrder.asksSafely (h : lexer.InOrder file source) : lexer.AsksSafely source where
  current := current_hasMore lexer
  again more answer := hasMore_of_hasMore (Prod.ext answer rfl)
  next more answer times := by
    have asked : lexer.hasMore = (.ok more, lexer.hasMore.2) := Prod.ext answer rfl
    cases times with
    | zero => rfl
    | succ times =>
      rw [List.replicate_succ, Lexer.serveAll]
      exact (congrArg Lexer.next (serveAll_hasMore asked times)).trans (next_of_hasMore asked)
  tells more answer := by
    have asked : lexer.hasMore = (.ok more, lexer.hasMore.2) := Prod.ext answer rfl
    exact tells_of_hasMore asked
  unclosed fault failed := by
    obtain ⟨cause, ended⟩ := ended_of_hasMore_error failed
    exact ⟨cause, ended, (h.serve .hasMore).behind.offset_of_ended ended, answers_of_ended ended⟩

/-- **Asking for more tokens is harmless**, whatever a lexer was asked before. -/
theorem asksSafely_serveAll (file source : String) (requests : List LexerRequest) :
    (serveAll requests (.ofSource file source)).2.AsksSafely source :=
  ((InOrder.ofSource file source).serveAll requests).1.asksSafely

end Lexer

end JackCompiler
