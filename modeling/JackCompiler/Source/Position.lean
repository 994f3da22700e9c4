/-!
# Positions in a source text

A `Position` counts what has been read of a text, in bytes and in lines. A `Cursor` joins it to the
characters that are still to be read. A `Location` is what a diagnostic shows of a position.

## Main definitions

* `Position.after`, `Position.afterAll` — the position behind one or more characters
* `Cursor.ofText`, `Cursor.run` — the start of a text, and the longest run of a class of characters
* `Location.text` — a location as a diagnostic shows it
-/

namespace JackCompiler

/-- The number of bytes of a piece of text. -/
def byteLength : List Char → Nat
  | [] => 0
  | c :: piece => c.utf8Size + byteLength piece

/-- A place in a text: the bytes before it, and its line, where only a line feed begins a new
line. -/
structure Position where
  offset : Nat := 0
  line : Nat := 1
deriving DecidableEq, Repr, Inhabited

namespace Position

/-- The position behind one more character. -/
def after (p : Position) (c : Char) : Position where
  offset := p.offset + c.utf8Size
  line := if c = '\n' then p.line + 1 else p.line

/-- The position behind a piece of text. -/
def afterAll (p : Position) (piece : List Char) : Position :=
  piece.foldl after p

@[simp] theorem afterAll_nil (p : Position) : p.afterAll [] = p := rfl

@[simp] theorem afterAll_cons (p : Position) (c : Char) (piece : List Char) :
    p.afterAll (c :: piece) = (p.after c).afterAll piece := rfl

theorem afterAll_append (p : Position) (piece more : List Char) :
    p.afterAll (piece ++ more) = (p.afterAll piece).afterAll more :=
  List.foldl_append

/-- A position counts the bytes of what it is behind. -/
theorem offset_afterAll (p : Position) (piece : List Char) :
    (p.afterAll piece).offset = p.offset + byteLength piece := by
  induction piece generalizing p with
  | nil => rfl
  | cons c piece ih => simp [ih, after, byteLength, Nat.add_assoc]

/-- A position counts the line feeds of what it is behind. -/
theorem line_afterAll (p : Position) (piece : List Char) :
    (p.afterAll piece).line = p.line + piece.count '\n' := by
  induction piece generalizing p with
  | nil => rfl
  | cons c piece ih =>
    by_cases h : c = '\n'
    · simp only [afterAll_cons, ih, after, h, if_true, List.count_cons_self]
      omega
    · simp [ih, after, h]

end Position

/-- The characters that are still to be read, and the position of the first of them. -/
structure Cursor where
  rest : List Char
  position : Position := {}
deriving DecidableEq, Repr, Inhabited

namespace Cursor

/-- The cursor at the start of a text. -/
def ofText (text : String) : Cursor where
  rest := text.toList

/-- The longest run of characters of a class, and the cursor behind it. -/
def run (cursor : Cursor) (p : Char → Bool) : List Char × Cursor :=
  let piece := cursor.rest.takeWhile p
  (piece, { rest := cursor.rest.dropWhile p, position := cursor.position.afterAll piece })

/-- A run and what is behind it are what the cursor had before it. -/
theorem run_append (cursor : Cursor) (p : Char → Bool) :
    (cursor.run p).1 ++ (cursor.run p).2.rest = cursor.rest :=
  List.takeWhile_append_dropWhile

/-- A run holds characters of its class only. -/
theorem all_run (cursor : Cursor) (p : Char → Bool) : (cursor.run p).1.all p :=
  List.all_takeWhile

end Cursor

/-- The file and line that a diagnostic names. -/
structure Location where
  file : String
  line : Nat
deriving DecidableEq, Repr, Inhabited

/-- A location is shown as the file, a colon and the line. -/
def Location.text (location : Location) : String :=
  location.file ++ ":" ++ toString location.line

end JackCompiler
