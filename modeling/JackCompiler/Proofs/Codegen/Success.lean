import JackCompiler.Proofs.Codegen.Run

/-!
# Steps that succeed

Whether a step succeeds depends on what is visible and on the terminals that are left, and not on
the place of a token or the code that has been written.

## Main definitions

* `Outlook`, `Session.Awaits` — what is visible and what is left
* `Codegen.Succeeds` — a step answers and leaves an outlook behind, wherever it finds another
-/

namespace JackCompiler

open Grammar (Terminal)

/-- What decides whether a step succeeds. -/
structure Outlook where
  visible : VariableTable
  /-- The terminals that are left, up to the end of the source. -/
  rest : List Terminal

/-- A session with an unlimited sink has a given outlook. -/
structure Session.Awaits (s : Session) (o : Outlook) : Prop where
  consistent : s.tokens.Consistent
  reads : ∃ behind, s.tokens.Reads o.rest behind ∧ behind.next? = none
  unlimited : s.output.room = none
  visible : s.visible = o.visible

namespace Session.Awaits

variable {s : Session} {o : Outlook} {visible : VariableTable} {terminal : Terminal}
  {rest : List Terminal}

theorem next?_eq (h : s.Awaits o) : s.tokens.next? = o.rest.head? := by
  obtain ⟨behind, reads, atEnd⟩ := h.reads
  rw [reads.next?_middle, atEnd, Option.or_none]

theorem symbol?_eq_some (h : s.Awaits o) {c : Char} :
    s.tokens.symbol? = some c ↔ o.rest.head? = some (.symbol c) := by
  rw [TokenStream.symbol?_eq_some, h.next?_eq]

theorem keyword?_eq_some (h : s.Awaits o) {word : Keyword} :
    s.tokens.keyword? = some word ↔ o.rest.head? = some (.keyword word) := by
  rw [TokenStream.keyword?_eq_some, h.next?_eq]

theorem length_le (h : s.Awaits o) : o.rest.length ≤ s.tokens.tokensLeft := by
  obtain ⟨behind, reads, -⟩ := h.reads
  -- Every terminal that is left takes at least one byte of the source.
  have := reads.tokensLeft_le h.consistent
  omega

/-- A terminal that is left shows in the look-ahead. -/
theorem lookahead_ne_none (h : s.Awaits o) (nonempty : o.rest ≠ []) :
    s.tokens.lookahead ≠ none := by
  intro none
  have next := h.next?_eq
  rw [TokenStream.next?_eq_none.mpr none] at next
  exact nonempty (List.head?_eq_none_iff.mp next.symm)

/-- The first of the terminals that are left can be taken. -/
theorem take (h : s.Awaits ⟨visible, terminal :: rest⟩) : ∃ tokens,
    s.tokens.Reads [terminal] tokens ∧ Awaits { s with tokens } ⟨visible, rest⟩ := by
  obtain ⟨behind, reads, atEnd⟩ := h.reads
  obtain ⟨tokens, first, later⟩ := TokenStream.reads_append.mp
    (show s.tokens.Reads ([terminal] ++ rest) behind from reads)
  exact ⟨tokens, first, h.consistent.reads first, ⟨behind, later, atEnd⟩, h.unlimited, h.visible⟩

end Session.Awaits

/-- Wherever a step finds the first outlook, it gives an answer and leaves the second. -/
def Codegen.Succeeds {α : Type} (step : Codegen α) (o : Outlook) (a : α) (o' : Outlook) : Prop :=
  ∀ s : Session, s.Awaits o → ∃ s', Runs step s a s' ∧ s'.Awaits o'

end JackCompiler
