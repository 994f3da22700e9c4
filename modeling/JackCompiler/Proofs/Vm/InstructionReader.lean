import JackCompiler.Proofs.Grammar.Code

/-!
# Reading code

The written form of an instruction is a line of words with single blanks between them, and the form
of code is one line after the other. Both can be read back, as long as the names in the code hold
neither blanks nor line ends.

## Main definitions

* `Instruction.words` — the words of the line of an instruction
* `readInstruction?`, `readCode?` — a line and a text read as instructions
* `isPlain`, `Instruction.Legible` — the characters of words, and instructions with plain names

## Main results

* `readInstruction?_text` — the written form of an instruction is read as it
* `readCode?_codeText` — the written form of code is read as it
* `codeText_injective` — different code has different forms
-/

namespace JackCompiler

open Grammar

/-! ### Words -/

/-- The words of the line of an instruction. -/
def Instruction.words : Instruction → List String
  | .push segment index => ["push", segment.text, toString index]
  | .pop segment index => ["pop", segment.text, toString index]
  | .operate operation => [operation.text]
  | .label name => ["label", name]
  | .goto target => ["goto", target]
  | .ifGoto target => ["if-goto", target]
  | .call name arguments => ["call", name, toString arguments]
  | .function name locals => ["function", name, toString locals]
  | .«return» => ["return"]

/-- The segment with a name. -/
def Segment.ofText? : String → Option Segment
  | "constant" => some .constant
  | "argument" => some .argument
  | "local" => some .«local»
  | "static" => some .static
  | "this" => some .this
  | "that" => some .that
  | "pointer" => some .pointer
  | "temp" => some .temp
  | _ => none

/-- The operation with a name. -/
def Operation.ofText? : String → Option Operation
  | "add" => some .add
  | "sub" => some .sub
  | "neg" => some .neg
  | "eq" => some .eq
  | "gt" => some .gt
  | "lt" => some .lt
  | "and" => some .and
  | "or" => some .or
  | "not" => some .not
  | _ => none

/-- The number that a word of decimal digits stands for. -/
def readNumber? (word : String) : Option Nat :=
  if word ≠ "" ∧ word.toList.all Char.isDigit then some (Nat.ofDigitChars 10 word.toList 0)
  else none

/-- The instruction that has given words. -/
def ofWords? : List String → Option Instruction
  | ["push", segment, index] => do return .push (← Segment.ofText? segment) (← readNumber? index)
  | ["pop", segment, index] => do return .pop (← Segment.ofText? segment) (← readNumber? index)
  | ["label", name] => some (.label name)
  | ["goto", target] => some (.goto target)
  | ["if-goto", target] => some (.ifGoto target)
  | ["call", name, arguments] => (readNumber? arguments).map (.call name)
  | ["function", name, locals] => (readNumber? locals).map (.function name)
  | ["return"] => some .«return»
  | [operation] => (Operation.ofText? operation).map .operate
  | _ => none

/-- Reads a line as an instruction. -/
def readInstruction? (line : List Char) : Option Instruction :=
  ofWords? ((line.splitOn ' ').map String.ofList)

/-- Reads a text as code. Each line of it ends with a line feed. -/
def readCode? (text : String) : Option (List Instruction) :=
  let lines := text.toList.splitOn '\n'
  if lines.getLast? = some [] then lines.dropLast.mapM readInstruction? else none

@[simp] theorem Segment.ofText?_text (segment : Segment) :
    Segment.ofText? segment.text = some segment := by
  cases segment <;> rfl

@[simp] theorem readNumber?_repr (n : Nat) : readNumber? n.repr = some n := by
  have nonempty : n.repr ≠ "" := by
    intro empty
    exact Nat.toDigits_ne_nil (Nat.toList_repr.symm.trans (congrArg String.toList empty))
  have isDigit : n.repr.toList.all Char.isDigit = true := by
    rw [Nat.toList_repr, List.all_eq_true]
    exact fun c mem => Nat.isDigit_of_mem_toDigits (by decide) (by decide) mem
  rw [readNumber?, if_pos ⟨nonempty, isDigit⟩, Nat.toList_repr, Nat.ofDigitChars_ten_toDigits]

/-- No two forms of instructions have the same words. -/
theorem ofWords?_words (instruction : Instruction) :
    ofWords? instruction.words = some instruction := by
  cases instruction with
  | operate operation => cases operation <;> rfl
  | «return» | label | goto | ifGoto => rfl
  | push | pop | call | function => simp [Instruction.words, ofWords?]

/-- The line of an instruction is made of its words. -/
theorem Instruction.toList_text (instruction : Instruction) :
    instruction.text.toList = [' '].intercalate (instruction.words.map String.toList) := by
  cases instruction <;> simp [text, words, List.intercalate]

/-! ### Plain characters -/

/-- An ASCII character that is no blank. -/
def isPlain (c : Char) : Bool :=
  isAscii c && !isBlank c

/-- The name in an instruction. -/
def Instruction.name? : Instruction → Option String
  | .label name | .goto name | .ifGoto name | .call name _ | .function name _ => some name
  | .push .. | .pop .. | .operate _ | .«return» => none

/-- The name in an instruction, if there is one, has plain characters only. -/
def Instruction.Legible (instruction : Instruction) : Prop :=
  ∀ name ∈ instruction.name?, ∀ c ∈ name.toList, isPlain c = true

theorem isAscii_of_isPlain {c : Char} (plain : isPlain c = true) : isAscii c = true :=
  (Bool.and_eq_true_iff.mp plain).1

theorem isPlain_of_isWordPart {c : Char} (part : isWordPart c = true) : isPlain c = true := by
  have notBlank : isBlank c = false := by
    cases blank : isBlank c with
    | false => rfl
    | true =>
      simp only [isBlank, Bool.or_eq_true, beq_iff_eq] at blank
      obtain ((rfl | rfl) | rfl) | rfl := blank <;> exact absurd part (by decide)
  have ascii : isAscii c = true := by
    simp only [isWordPart, isWordStart] at part
    delta Char.isAlpha Char.isUpper Char.isLower at part
    simp only [Char.isDigit, isAscii, Bool.or_eq_true, Bool.and_eq_true, decide_eq_true_eq,
      beq_iff_eq] at part ⊢
    obtain (letter | rfl) | digit := part
    · grind
    · decide
    · grind
  simp [isPlain, ascii, notBlank]

theorem isPlain_repr (n : Nat) : ∀ c ∈ n.repr.toList, isPlain c = true := by
  intro c mem
  rw [Nat.toList_repr] at mem
  have digit : c.isDigit = true := Nat.isDigit_of_mem_toDigits (by decide) (by decide) mem
  exact isPlain_of_isWordPart (by simp [isWordPart, digit])

theorem not_mem_of_isPlain {word : List Char} {c : Char} (plain : ∀ c ∈ word, isPlain c = true)
    (blank : isBlank c = true) : c ∉ word := by
  intro mem
  have := plain c mem
  simp [isPlain, blank] at this

section Legible

variable {instruction : Instruction} {code : List Instruction}

/-- A line with a plain name has plain words. -/
theorem Instruction.Legible.words (legible : instruction.Legible) :
    ∀ word ∈ instruction.words, ∀ c ∈ word.toList, isPlain c = true := by
  have segments (segment : Segment) : ∀ c ∈ segment.text.toList, isPlain c = true := by
    cases segment <;> exact List.all_eq_true.mp (by decide +kernel)
  cases instruction with
  | operate operation =>
    simp only [Instruction.words, List.forall_mem_singleton]
    cases operation <;> exact List.all_eq_true.mp (by decide +kernel)
  | «return» =>
    simp only [Instruction.words, List.forall_mem_singleton]
    exact List.all_eq_true.mp (by decide +kernel)
  | push segment index | pop segment index =>
    simp only [Instruction.words, List.forall_mem_cons]
    exact ⟨List.all_eq_true.mp (by decide +kernel), segments segment, isPlain_repr index, by simp⟩
  | label name | goto name | ifGoto name =>
    simp only [Instruction.words, List.forall_mem_cons]
    exact ⟨List.all_eq_true.mp (by decide +kernel), legible name rfl, by simp⟩
  | call name count | function name count =>
    simp only [Instruction.words, List.forall_mem_cons]
    exact ⟨List.all_eq_true.mp (by decide +kernel), legible name rfl, isPlain_repr count, by simp⟩

theorem mem_intercalate {separator c : Char} {words : List (List Char)}
    (mem : c ∈ [separator].intercalate words) : c = separator ∨ ∃ word ∈ words, c ∈ word := by
  induction words with
  | nil => simp [List.intercalate] at mem
  | cons word words ih =>
    cases words with
    | nil => exact .inr ⟨word, by simp, by simpa [List.intercalate] using mem⟩
    | cons next words =>
      rw [List.intercalate_cons_cons, List.mem_append, List.mem_append, List.mem_singleton] at mem
      obtain (inWord | isSeparator) | behind := mem
      · exact .inr ⟨word, by simp, inWord⟩
      · exact .inl isSeparator
      · exact (ih behind).imp_right fun ⟨word, isWord, inWord⟩ =>
          ⟨word, List.mem_cons_of_mem _ isWord, inWord⟩

/-- The characters of a line are plain but for the blanks between its words. -/
theorem Instruction.Legible.mem_text (legible : instruction.Legible) {c : Char}
    (mem : c ∈ instruction.text.toList) : c = ' ' ∨ isPlain c = true := by
  rw [Instruction.toList_text] at mem
  obtain rfl | ⟨word, isWord, inWord⟩ := mem_intercalate mem
  · exact .inl rfl
  · obtain ⟨word, isPart, rfl⟩ := List.mem_map.mp isWord
    exact .inr (legible.words word isPart c inWord)

/-- A line has no line end in it. -/
theorem Instruction.Legible.newline_not_mem (legible : instruction.Legible) :
    '\n' ∉ instruction.text.toList := by
  intro mem
  obtain blank | plain := legible.mem_text mem
  · exact absurd blank (by decide)
  · exact absurd plain (by decide)

theorem Instruction.Legible.isAscii (legible : instruction.Legible) :
    ∀ c ∈ instruction.text.toList, isAscii c = true := by
  intro c mem
  obtain rfl | plain := legible.mem_text mem
  · decide
  · exact isAscii_of_isPlain plain

/-! ### Reading what is written -/

/-- **The written form of an instruction is read as it.** -/
theorem readInstruction?_text (legible : instruction.Legible) :
    readInstruction? instruction.text.toList = some instruction := by
  have nonempty : instruction.words.map String.toList ≠ [] := by
    cases instruction <;> simp [Instruction.words]
  have noBlank : ∀ word ∈ instruction.words.map String.toList, ' ' ∉ word := by
    intro word mem
    obtain ⟨word, isPart, rfl⟩ := List.mem_map.mp mem
    exact not_mem_of_isPlain (legible.words word isPart) (by decide)
  rw [readInstruction?, Instruction.toList_text, List.splitOn_intercalate _ noBlank nonempty]
  simpa using ofWords?_words instruction

/-- A line end behind each line is a line end in front of each other line and of nothing. -/
theorem flatMap_ended (lines : List (List Char)) :
    lines.flatMap (· ++ ['\n']) = ['\n'].intercalate (lines ++ [[]]) := by
  induction lines with
  | nil => simp [List.intercalate]
  | cons line lines ih =>
    rw [List.flatMap_cons, ih]
    cases lines with
    | nil => simp [List.intercalate]
    | cons next lines => simp [List.intercalate_cons_cons]

theorem toList_codeText (code : List Instruction) : (codeText code).toList =
    ['\n'].intercalate (code.map (·.text.toList) ++ [[]]) := by
  rw [← flatMap_ended, codeText]
  induction code with
  | nil => rfl
  | cons instruction code ih => simp [ih]

/-- **The written form of code is read as it.** -/
theorem readCode?_codeText (legible : ∀ instruction ∈ code, instruction.Legible) :
    readCode? (codeText code) = some code := by
  have noBreak : ∀ line ∈ code.map (·.text.toList) ++ [[]], '\n' ∉ line := by
    intro line mem
    obtain isLine | isLast := List.mem_append.mp mem
    · obtain ⟨instruction, isPart, rfl⟩ := List.mem_map.mp isLine
      exact (legible instruction isPart).newline_not_mem
    · obtain rfl := List.mem_singleton.mp isLast
      exact List.not_mem_nil
  -- The last line is empty and is dropped, and the others are read one by one.
  have each : (code.map (·.text.toList)).mapM readInstruction? = some code := by
    clear noBreak
    induction code with
    | nil => rfl
    | cons instruction code ih =>
      rw [List.forall_mem_cons] at legible
      rw [List.map_cons, List.mapM_cons, readInstruction?_text legible.1, ih legible.2]
      rfl
  rw [readCode?, toList_codeText, List.splitOn_intercalate _ noBreak (by simp)]
  simpa using each

/-- Different code is written in different ways. -/
theorem codeText_injective {more : List Instruction}
    (legible : ∀ instruction ∈ code, instruction.Legible)
    (legible' : ∀ instruction ∈ more, instruction.Legible)
    (same : codeText code = codeText more) : code = more := by
  have read := readCode?_codeText legible
  rw [same, readCode?_codeText legible'] at read
  exact (Option.some.inj read).symm

/-- The written form of code holds ASCII characters only. -/
theorem isAscii_codeText (legible : ∀ instruction ∈ code, instruction.Legible) :
    ∀ c ∈ (codeText code).toList, isAscii c = true := by
  intro c mem
  rw [toList_codeText] at mem
  obtain rfl | ⟨line, isLine, inLine⟩ := mem_intercalate mem
  · decide
  · obtain isLine | isLine := List.mem_append.mp isLine
    · obtain ⟨instruction, isPart, rfl⟩ := List.mem_map.mp isLine
      exact (legible instruction isPart).isAscii c inLine
    · obtain rfl := List.mem_singleton.mp isLine
      cases inLine

end Legible

end JackCompiler
