import JackCompiler.Proofs.Compilation.Counting
import JackCompiler.Proofs.Compilation.Encoding

/-!
# Nothing goes out of range

A machine takes pieces out of a source by their first and last byte, counts in 16 or 32 bits, and
checks for some things that should not happen. For sources of less than two gigabytes this changes
nothing. A compilation that watches its positions and counters never finds one of them out of range,
and the only faults that are left are those that a source can have.

## Main definitions

* `Session.inRange`, `machineLimits` — the ranges of a machine
* `Session.Safe` — what holds of the sessions of a compilation, whatever the source is

## Main results

* `Utf8.decode_encode_of_ascii` — a text of ASCII characters is decoded from its bytes
* `ofSource_of_compileText` — a source of any length only has faults of its own
* `compileText_safe` — lexer, code generator and output never meet what should not happen
-/

namespace JackCompiler

/-! ### Texts and their bytes -/

namespace Utf8

variable {text : List Char}

/-- A character of ASCII is one byte. -/
theorem utf8EncodeChar_of_isAscii {c : Char} (ascii : isAscii c = true) :
    String.utf8EncodeChar c = [UInt8.ofNat c.toNat] := by
  have small : c.toNat < 128 := UInt32.lt_iff_toNat_lt.mp (of_decide_eq_true ascii)
  exact if_pos (Nat.le_of_lt_succ small)

theorem encode_ofList (ascii : ∀ c ∈ text, isAscii c = true) :
    encode (String.ofList text) = text.map fun c => UInt8.ofNat c.toNat := by
  rw [encode, String.toUTF8_eq_toByteArray, String.toByteArray_ofList, List.utf8Encode,
    List.data_toByteArray]
  induction text with
  | nil => rfl
  | cons c text ih =>
    have one := utf8EncodeChar_of_isAscii (ascii c (List.mem_cons_self ..))
    have more := ih fun c mem => ascii c (List.mem_cons_of_mem _ mem)
    simpa [one] using more

/-- The bytes of ASCII characters are decoded one by one. -/
theorem decodeFrom_ascii (ascii : ∀ c ∈ text, isAscii c = true) (index : Nat)
    (before : List Char) :
    decodeFrom none index before (text.map fun c => UInt8.ofNat c.toNat) =
      .ok (before.reverse ++ text) := by
  induction text generalizing index before with
  | nil => simp [decodeFrom]
  | cons c text ih =>
    have small : c.toNat < 128 :=
      UInt32.lt_iff_toNat_lt.mp (of_decide_eq_true (ascii c (List.mem_cons_self ..)))
    have byte : (UInt8.ofNat c.toNat).toNat = c.toNat := by
      rw [UInt8.toNat_ofNat']
      omega
    have more := ih fun c mem => ascii c (List.mem_cons_of_mem _ mem)
    rw [List.map_cons, decodeFrom, byte, if_pos small, more]
    simp

/-- A text of ASCII characters is decoded from its bytes. -/
theorem decode_encode_of_ascii {text : String} (ascii : ∀ c ∈ text.toList, isAscii c = true) :
    decode (encode text) = .ok text := by
  conv_lhs => rw [← String.ofList_toList (s := text)]
  rw [encode_ofList ascii, decode, decodeFrom_ascii ascii]
  simp [Except.map]

end Utf8

/-! ### Ranges -/

/-- Whether a token can be taken out of a source, and its place fits into 32 bits. -/
def Token.inRange (source : String) (token : Token) : Bool :=
  token.span.fragment? source == some token.text && token.span.finish < 2 ^ 32 &&
    token.line < 2 ^ 32

/-- Whether all positions of a session are places of a source, and all positions and counters fit
into their bits. -/
def Session.inRange (source : String) (session : Session) : Bool :=
  session.tokens.lexer.inRange source && session.tokens.lookahead.all (·.inRange source) &&
    session.tokens.lastLine < 2 ^ 32 && session.nextLabel < 2 ^ 32 &&
    [VariableKind.static, .field, .argument, .«local»].all (session.visible.count · < 2 ^ 16)

/-- The limits of a machine that compiles a source. No step is repeated more often than there are
bytes. -/
def machineLimits (source : String) : Limits where
  inRange tally := tally.session.inRange source && tally.depth < 2 ^ 32
  rounds := source.utf8ByteSize + 3

/-- What holds of the sessions of a compilation, with a reserve of labels. No more labels are drawn
than tokens are taken. -/
structure Session.Safe (file source : String) (reserve : Nat) (session : Session) : Prop where
  consistent : session.tokens.Consistent
  lexer : session.tokens.lexer.InOrder file source
  lookahead : ∀ token ∈ session.tokens.lookahead, token.Usable source
  lastLine : session.tokens.lastLine ≤ source.utf8ByteSize + 1
  labels : session.nextLabel + session.tokens.tokensLeft + reserve ≤ source.utf8ByteSize + 2
  counts : ∀ kind, session.visible.count kind ≤ maxOperand
  unlimited : session.output.room = none
  canFlush : session.output.canFlush = true

theorem Token.Usable.inRange {token : Token} {source : String}
    (short : source.utf8ByteSize < 2 ^ 31) (h : token.Usable source) :
    token.inRange source = true := by
  have inside := h.inside
  have line := h.line
  simp only [Token.inRange, h.fragment, beq_self_eq_true, Bool.true_and, Bool.and_eq_true,
    decide_eq_true_eq]
  omega

/-- A declaration is refused where there is no index left for it. -/
theorem VariableTable.count_le_of_declare? {table table' : VariableTable} {name type : String}
    {kind : VariableKind} {v : Variable} (small : ∀ kind, table.count kind ≤ maxOperand)
    (declared : table.declare? name type kind = some (v, table')) (other : VariableKind) :
    table'.count other ≤ maxOperand := by
  have room : table.count kind < maxOperand :=
    VariableTable.declare?_isSome_iff.mp (Option.isSome_of_eq_some declared)
  rw [VariableTable.count_of_declare? declared]
  split
  · rename_i same
    exact same ▸ room
  · exact small other

theorem VariableTable.count_startSubroutine_le {table : VariableTable}
    (small : ∀ kind, table.count kind ≤ maxOperand) (kind : VariableKind) :
    table.startSubroutine.count kind ≤ maxOperand := by
  have before := small kind
  cases kind with
  | static | field => exact before
  | argument | «local» => exact Nat.zero_le _

namespace Session.Safe

variable {file source : String} {n : Nat} {s : Session} {token : Token}

/-- A session is within range if its lexer is in order and its look-ahead can be used. -/
theorem inRange_of (short : source.utf8ByteSize < 2 ^ 31)
    (lexer : s.tokens.lexer.InOrder file source)
    (lookahead : ∀ token ∈ s.tokens.lookahead, token.Usable source)
    (lastLine : s.tokens.lastLine ≤ source.utf8ByteSize + 1)
    (labels : s.nextLabel ≤ source.utf8ByteSize + 2)
    (counts : ∀ kind, s.visible.count kind ≤ maxOperand) : s.inRange source = true := by
  have ahead : s.tokens.lookahead.all (·.inRange source) = true := by
    cases isNext : s.tokens.lookahead with
    | none => rfl
    | some token => exact (lookahead token isNext).inRange short
  have small (kind : VariableKind) : s.visible.count kind < 2 ^ 16 :=
    Nat.lt_of_le_of_lt (counts kind) (by decide)
  simp only [Session.inRange, Lexer.inRange_of_inOrder short lexer, ahead, small, Bool.true_and,
    Bool.and_eq_true, decide_eq_true_eq, List.all_cons, List.all_nil, decide_true, Bool.and_true]
  omega

theorem inRange (short : source.utf8ByteSize < 2 ^ 31) (h : s.Safe file source n) :
    s.inRange source = true :=
  inRange_of short h.lexer h.lookahead h.lastLine
    (Nat.le_trans (Nat.le_trans (Nat.le_add_right _ _) (Nat.le_add_right _ _)) h.labels) h.counts

/-- What a lexer leaves that was asked for the next token. -/
theorem inOrder_next {lexer behind : Lexer} {result : Except (Located LexicalFault) (Option Token)}
    (h : lexer.InOrder file source) (next : lexer.next = (result, behind)) :
    behind.InOrder file source := by
  have served := h.serve_next.behind
  simpa only [Lexer.exchange, Lexer.serve, next] using served

theorem take {behind : TokenStream} (h : s.Safe file source n)
    (takes : s.tokens.Takes token behind) :
    Session.Safe file source (n + 1) { s with tokens := behind } := by
  obtain ⟨consistent, fewer⟩ := h.consistent.takes takes
  have labels := h.labels
  refine { h with
    consistent
    lexer := inOrder_next h.lexer takes.next
    lookahead := fun ahead isNext => ?_
    lastLine := ?_
    labels := ?_ }
  · obtain isNext : behind.lookahead = some ahead := isNext
    exact Lexer.usable_of_next h.lexer (isNext ▸ takes.next)
  · rw [takes.lastLine]
    exact (h.lookahead token takes.lookahead).line
  · -- There is one token less to be taken, which is as good as one label in reserve.
    dsimp only
    omega

/-- A label is drawn from the reserve. -/
theorem label (h : s.Safe file source (n + 1)) :
    Session.Safe file source n { s with nextLabel := s.nextLabel + 1 } := by
  have labels := h.labels
  refine { h with labels := ?_ }
  dsimp only
  omega

/-- A sink without a limit takes every instruction. -/
theorem write {instruction : Instruction} {output : Sink Instruction} (h : s.Safe file source n)
    (written : s.output.write Instruction.text instruction = (.ok (), output)) :
    Session.Safe file source n { s with output } := by
  rw [Sink.write_of_unlimited _ _ h.unlimited] at written
  cases written
  exact { h with unlimited := by simp [Sink.extend, h.unlimited], canFlush := h.canFlush }

/-- The token that is taken is the last in front of a lexical fault. -/
theorem stop {fault : Located LexicalFault} {lexer : Lexer} (short : source.utf8ByteSize < 2 ^ 31)
    (h : s.Safe file source n) (ahead : s.tokens.lookahead = some token)
    (failed : s.tokens.lexer.next = (.error fault, lexer)) :
    Session.inRange source
      { s with tokens := { lexer, lookahead := none, lastLine := token.line } } = true := by
  have labels := h.labels
  refine inRange_of short (inOrder_next h.lexer failed) (by simp)
    (h.lookahead token ahead).line ?_ h.counts
  dsimp only
  omega

end Session.Safe

/-- The number of open levels is small. -/
theorem inRange_machineLimits {source : String} {session : Session} {depth : Nat}
    (shallow : depth ≤ maxNesting) (inRange : session.inRange source = true) :
    (machineLimits source).inRange { session, depth } = true := by
  have few : depth < 2 ^ 32 := Nat.lt_of_le_of_lt shallow (by decide)
  simp only [machineLimits, inRange, few, decide_true, Bool.and_true]

/-- What holds of the sessions of a compilation is watched. -/
def safety (file : String) {source : String} (short : source.utf8ByteSize < 2 ^ 31) :
    Watch (machineLimits source) where
  holds := Session.Safe file source
  faults := Fault.OfSource
  ofSource h := h
  consistent h := h.consistent
  rounds h := by
    have labels := h.labels
    simp only [machineLimits]
    omega
  inRange h shallow := inRange_machineLimits shallow (h.inRange short)
  weaken h := { h with labels := Nat.le_of_succ_le h.labels }
  label h := h.label
  take h takes := h.take takes
  stop h ahead failed shallow := inRange_machineLimits shallow (h.stop short ahead failed)
  startSubroutine h := { h with counts := VariableTable.count_startSubroutine_le h.counts }
  declare h declared := { h with counts := VariableTable.count_le_of_declare? h.counts declared }
  report h := { h with }
  write h written := h.write written
  tear h torn := by
    rw [Sink.write_of_unlimited _ _ h.unlimited] at torn
    cases torn
  flush h := .inl h.canFlush

/-- The limits of a pass over a source where nothing is out of range. -/
def wideLimits (source : String) : Limits where
  inRange _ := true
  rounds := source.utf8ByteSize + 3

/-- Where nothing is out of range, the same holds of sources of any length. -/
def wideSafety (file source : String) : Watch (wideLimits source) where
  holds := Session.Safe file source
  faults := Fault.OfSource
  ofSource h := h
  consistent h := h.consistent
  rounds h := by
    have labels := h.labels
    simp only [wideLimits]
    omega
  inRange _ _ := rfl
  weaken h := { h with labels := Nat.le_of_succ_le h.labels }
  label h := h.label
  take h takes := h.take takes
  stop _ _ _ _ := rfl
  startSubroutine h := { h with counts := VariableTable.count_startSubroutine_le h.counts }
  declare h declared := { h with counts := VariableTable.count_le_of_declare? h.counts declared }
  report h := { h with }
  write h written := h.write written
  tear h torn := by
    rw [Sink.write_of_unlimited _ _ h.unlimited] at torn
    cases torn
  flush h := .inl h.canFlush

/-! ### Compilations -/

variable {file source : String}

/-- The first session of a compilation. -/
theorem Session.Safe.start {tokens : TokenStream} {sink : Sink Instruction}
    (unlimited : sink.room = none) (canFlush : sink.canFlush = true)
    (begins : TokenStream.ofLexer (.ofSource file source) = .ok tokens) :
    Session.Safe file source 1 { tokens, output := sink } := by
  have inOrder := Lexer.InOrder.ofSource file source
  have consistent := Lexer.consistent_ofSource file source
  have ahead := Lexer.next_of_ofLexer begins
  have fewer := (consistent.next ahead).2.1
  have all : (Lexer.ofSource file source).bytesLeft = source.utf8ByteSize := rfl
  refine {
    consistent := Lexer.consistent_ofLexer consistent begins
    lexer := inOrder_next inOrder ahead
    lookahead := fun token isNext => ?_
    lastLine := ?_
    labels := ?_
    counts := fun kind => by cases kind <;> exact Nat.zero_le _
    unlimited
    canFlush }
  · obtain isNext : tokens.lookahead = some token := isNext
    exact Lexer.usable_of_next inOrder (isNext ▸ ahead)
  · dsimp only
    rw [(Lexer.start_of_ofLexer begins).1]
    exact Nat.le_add_left _ _
  · dsimp only
    rw [TokenStream.tokensLeft]
    split <;> omega

/-- The bytes of the code of a source are decoded to the text that it compiles to. -/
theorem decode_bytes_compileClass {text : String}
    (compiles : (compileText file source).1 = .ok text) :
    Utf8.decode ((compileClass file source {}).output.bytes Instruction.text).data.toList =
      .ok text := by
  obtain ⟨done, written⟩ := compileText_eq_ok_iff.mp compiles
  obtain ⟨-, c, -, -, output⟩ := exists_tree_of_compiles done
  have whole : (compileClass file source {}).output.torn = [] := by rw [output]; rfl
  rw [Sink.bytes_of_whole whole, written]
  exact Utf8.decode_encode_of_ascii (encodes_of_compileText compiles).ascii

/-- A source of any length only has faults that a source can have. -/
theorem ofSource_of_compileText {fault : Fault}
    (failed : (compileText file source).1 = .error fault) : fault.OfSource := by
  have start (tokens : TokenStream)
      (begins : TokenStream.ofLexer (.ofSource file source) = .ok tokens) :
      (wideSafety file source).holds 1 { tokens, output := {} } := Session.Safe.start rfl rfl begins
  refine (compileCounted_agrees (Nat.lt_succ_self maxNesting) start).2 fault ?_
  rw [compileText] at failed
  cases result : (compileClass file source {}).result with
  | ok => simp [result, Except.map] at failed
  | error fault' =>
    simp only [result, Except.map, Except.error.injEq] at failed
    rw [failed]

/-- **Nothing goes out of range.** A lexer that is asked for one token after the other never asks
for one where there is none, and its tokens can be used without a check. A source compiles to a text
that is decoded from the bytes that were written, or it has a fault of its own. A compilation that
watches places, counters, lengths and open levels comes to the same and never finds one of them out
of range. -/
theorem compileText_safe (file : String) {source : String} (short : source.utf8ByteSize < 2 ^ 31) :
    (∀ count, ∀ exchange ∈
        (Lexer.serveAll (List.replicate count .next) (.ofSource file source)).1,
      (∀ fault, exchange.answer = .error fault → fault.cause ≠ .unexpectedEnd) ∧
        (∀ token, exchange.token? = some token → token.Usable source) ∧
        exchange.behind.inRange source = true) ∧
    (∀ text, (compileText file source).1 = .ok text →
      Utf8.decode ((compileClass file source {}).output.bytes Instruction.text).data.toList =
        .ok text) ∧
    (∀ fault, (compileText file source).1 = .error fault → fault.OfSource) ∧
    (compileCounted (machineLimits source) (maxNesting + 1) file source {}).Agrees
      (compileClass file source {}) := by
  have start (tokens : TokenStream)
      (begins : TokenStream.ofLexer (.ofSource file source) = .ok tokens) :
      (safety file short).holds 1 { tokens, output := {} } := Session.Safe.start rfl rfl begins
  obtain ⟨agrees, ofSource⟩ := compileCounted_agrees (Nat.lt_succ_self maxNesting) start
  refine ⟨fun count exchange mem => Lexer.exchange_of_next short count mem,
    fun text => decode_bytes_compileClass, fun fault failed => ofSource fault ?_, agrees⟩
  -- A text is only asked for once the class is compiled, so that its fault is that of the class.
  rw [compileText] at failed
  cases result : (compileClass file source {}).result with
  | ok => simp [result, Except.map] at failed
  | error fault' =>
    simp only [result, Except.map, Except.error.injEq] at failed
    rw [failed]

/-- A class behind a comment with characters of two and of three bytes. -/
def multibyte : String :=
  "/* \u00e9\u20ac */ class A \x7b function void f() \x7b " ++
    "while (true) \x7b\x7d return; \x7d \x7d"

theorem compileText_safe_multibyte :
    let counted :=
      compileCounted (machineLimits multibyte) (maxNesting + 1) "A.jack" multibyte {}
    multibyte.utf8ByteSize < 2 ^ 31 ∧ counted.result = .ok () ∧ counted.depth = 0 := by
  have short : multibyte.utf8ByteSize < 2 ^ 31 := by decide +kernel
  have done : (compileClass "A.jack" multibyte {}).result = .ok () := by decide +kernel
  obtain ⟨-, -, -, agrees⟩ := compileText_safe "A.jack" short
  refine ⟨short, ?_, agrees.closed done⟩
  rw [agrees.result, done]
  rfl

end JackCompiler
