import JackCompiler.Source.Character
import JackCompiler.Source.Position

/-!
# Gaps between tokens

A gap is a mix of blanks, block comments and line comments. A block comment runs from its opening
to the first closing behind it, a line comment up to and including the end of its line. A slash
that opens neither ends the gap.

## Main definitions

* `Gap` — where a scan inside a gap stands
* `Cursor.skipGap` — the cursor behind a gap
-/

namespace JackCompiler

/-- Where a scan inside a gap stands. -/
inductive Gap where
  /-- Outside comments. -/
  | blank
  /-- Inside a line comment. -/
  | lineComment
  /-- Inside a block comment that was opened on the given line. -/
  | blockComment (opened : Nat)
deriving DecidableEq, Repr, Inhabited

/-- Reads on to the end of a gap. If a block comment has no end, the whole text is read, and the
line of the comment's opening is given. -/
def Gap.skip : Gap → List Char → Position → Cursor × Option Nat
  | .blank, '/' :: '/' :: rest, p => skip .lineComment rest ((p.after '/').after '/')
  | .blank, '/' :: '*' :: rest, p => skip (.blockComment p.line) rest ((p.after '/').after '*')
  | .blank, c :: rest, p =>
    if isBlank c then skip .blank rest (p.after c) else ({ rest := c :: rest, position := p }, none)
  | .lineComment, c :: rest, p =>
    skip (if endsLineComment c then .blank else .lineComment) rest (p.after c)
  | .blockComment _, '*' :: '/' :: rest, p => skip .blank rest ((p.after '*').after '/')
  | .blockComment opened, c :: rest, p => skip (.blockComment opened) rest (p.after c)
  | .blockComment opened, [], p => ({ rest := [], position := p }, some opened)
  | _, [], p => ({ rest := [], position := p }, none)

/-- The cursor behind the gap that starts at a cursor, and the line of a block comment that has no
end. -/
def Cursor.skipGap (cursor : Cursor) : Cursor × Option Nat :=
  Gap.skip .blank cursor.rest cursor.position

end JackCompiler
