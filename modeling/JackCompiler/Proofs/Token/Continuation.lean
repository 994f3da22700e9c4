import JackCompiler.Proofs.Token.Replacement
import JackCompiler.Proofs.Token.Upcoming

/-!
# Other continuations of a source

A source can be cut behind any of its tokens and go on with any terminals that can be written. The
tokens in front of the cut are read as before, and stand where they have been.

## Main results

* `exists_continuation` — a source with given first tokens and given terminals behind them
-/

namespace JackCompiler

open Grammar

/-- In front of other characters, a text begins as before. -/
theorem Resembles.of_same_start {before behind : List Char} (within : before <+: behind)
    (nonempty : before ≠ []) (more : List Char) : Resembles behind (before ++ more) := by
  obtain ⟨rest, rfl⟩ := within
  cases before with
  | nil => exact absurd rfl nonempty
  | cons c before => exact fun _ mem => .inl mem

/-- A text can be cut behind any of its tokens and go on behind a blank. -/
theorem Scans.cut {file : String} {front text : List Char} {tokens : List Token}
    {fault : Option (Located LexicalFault)} (scans : Scans file front text tokens fault) :
    ∀ {taken : List Token} {token : Token} {rest : List Token}, tokens = taken ++ token :: rest →
      ∃ before, before ≠ [] ∧ before <+: text ∧
        ∀ more : List Terminal, (∀ t ∈ more, t.Spellable) → ∃ tokens',
          Scans file front (before ++ ' ' :: spelled more) (taken ++ token :: tokens') none ∧
            tokens'.map Token.terminal = more := by
  induction scans with
  | done | fault =>
    intro taken token rest all
    simp at all
  | @token front gap piece behind kind first tokens fault isGap lexeme covers _ ih =>
    intro taken token rest all
    have isGap' := isGap.in_front_of (by simp [lexeme.ne_nil])
    cases taken with
    | nil =>
      obtain ⟨rfl, rfl⟩ := List.cons.inj all
      refine ⟨gap ++ piece, by simp [lexeme.ne_nil], by simp, fun more spellable => ?_⟩
      have blank (behind : List Char) : IsGap [' '] behind := .blank (by decide) .nil
      obtain ⟨tokens', scans, terminals⟩ :=
        scans_spelled file spellable (front ++ gap ++ piece) blank
      obtain ⟨t, isToken, rfl, rfl⟩ := lexeme.exists_terminal
      refine ⟨tokens', ?_, terminals⟩
      exact .token (isGap' _) (isToken.lexeme (spelled more)) covers scans
    | cons other taken =>
      obtain ⟨rfl, rfl⟩ := List.cons.inj all
      obtain ⟨before, nonempty, within, goesOn⟩ := ih rfl
      refine ⟨gap ++ piece ++ before, by simp [lexeme.ne_nil], ?_, fun more spellable => ?_⟩
      · exact (List.prefix_append_right_inj _).mpr within
      · obtain ⟨tokens', scans, terminals⟩ := goesOn more spellable
        refine ⟨tokens', ?_, terminals⟩
        rw [List.append_assoc]
        exact .token (isGap' _) (lexeme.resembles (.of_same_start within nonempty _)) covers scans

/-- **A source goes on in any other way behind any of its tokens.** -/
theorem exists_continuation {file source : String} {taken rest : List Token} {token : Token}
    (all : sourceTokens file source = taken ++ token :: rest) {more : List Terminal}
    (spellable : ∀ t ∈ more, t.Spellable) : ∃ source' tokens',
      sourceTokens file source' = taken ++ token :: tokens' ∧
        tokens'.map Token.terminal = more ∧ sourceFault file source' = none := by
  obtain ⟨before, -, -, goesOn⟩ := (Lexer.scans_toEnd file source).cut all
  obtain ⟨tokens', scans, terminals⟩ := goesOn more spellable
  rw [← String.toList_ofList (l := before ++ ' ' :: spelled more)] at scans
  obtain ⟨read, noFault⟩ := Lexer.toEnd_of_scans scans
  exact ⟨_, tokens', read, terminals, noFault⟩

end JackCompiler
