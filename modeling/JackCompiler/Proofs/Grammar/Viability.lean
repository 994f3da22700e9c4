import JackCompiler.Proofs.Grammar.Respelling
import JackCompiler.Proofs.Token.Spelling

/-!
# Beginnings of classes

Some terminals are viable if a class begins with them. The names and constants of a tree may be
anything, also what no source can contain. That makes no difference: if the terminals can be written
down, then they can be continued to a class that can be written down.

## Main definitions

* `Viable` — a class begins with the given terminals

## Main results

* `Viable.exists_spellable` — viable terminals are the beginning of a class that has a source
-/

namespace JackCompiler.Grammar

/-- Some class begins with the given terminals. -/
def Viable (terminals : List Terminal) : Prop :=
  ∃ c : ClassDeclaration, terminals <+: c.terminals

section Spelling

variable {α : Type} (terminal : α → Terminal) (other a : α)

/-- What a terminal is made from, if it can be written down, and something else otherwise. -/
def spellableOr : α :=
  if (terminal a).Spellable then a else other

theorem spellable_spellableOr {terminal : α → Terminal} {other : α}
    (spellable : (terminal other).Spellable) :
    (terminal (spellableOr terminal other a)).Spellable ∧
      ((terminal a).Spellable → terminal (spellableOr terminal other a) = terminal a) := by
  rw [spellableOr]
  by_cases isSpellable : (terminal a).Spellable
  · rw [if_pos isSpellable]
    exact ⟨isSpellable, fun _ => rfl⟩
  · rw [if_neg isSpellable]
    exact ⟨spellable, fun isSpellable' => absurd isSpellable' isSpellable⟩

end Spelling

/-- What cannot be written down is replaced. -/
def Spelling.spellable : Spelling where
  ofVariable := spellableOr .identifier "x"
  ofOwner := spellableOr .identifier "x"
  ofRoutine := spellableOr .identifier "x"
  ofType := spellableOr .identifier "x"
  ofDigits := spellableOr .integer "0"
  ofContents := spellableOr .string []

/-- What cannot be written down is replaced by something that can, and everything else is kept. -/
theorem Spelling.Respells.of_spellable {t u : Terminal} (h : Spelling.spellable.Respells t u) :
    u.Spellable ∧ (t.Spellable → u = t) := by
  cases h with
  | keyword word => exact ⟨trivial, fun _ => rfl⟩
  | @mark c isMark =>
    have all : (marks.all fun c => (Terminal.symbol c).Spellable) = true := by decide
    exact ⟨of_decide_eq_true (List.all_eq_true.mp all c isMark), fun _ => rfl⟩
  | ofVariable name | ofOwner name | ofRoutine name | ofType name =>
    exact spellable_spellableOr name (by decide)
  | ofDigits digits => exact spellable_spellableOr digits (by decide)
  | ofContents contents => exact spellable_spellableOr contents (by decide)

/-- A list that is respelled begins with what is kept of it. -/
theorem prefix_of_forall₂ {R : Terminal → Terminal → Prop} {ts more us : List Terminal}
    (related : List.Forall₂ R (ts ++ more) us) (kept : ∀ t ∈ ts, ∀ u, R t u → u = t) :
    ts <+: us := by
  induction ts generalizing us with
  | nil => exact List.nil_prefix
  | cons t ts ih =>
    rw [List.forall_mem_cons] at kept
    cases related with
    | cons first others =>
      obtain rfl := kept.1 _ first
      exact List.cons_prefix_cons.mpr ⟨rfl, ih others kept.2⟩

/-- **Viable terminals that can be written down are the beginning of a class that can.** -/
theorem Viable.exists_spellable {terminals : List Terminal} (viable : Viable terminals)
    (spellable : ∀ t ∈ terminals, t.Spellable) : ∃ c : ClassDeclaration,
      (∀ t ∈ c.terminals, t.Spellable) ∧ terminals <+: c.terminals := by
  obtain ⟨c, more, all⟩ := viable
  have respelled : List.Forall₂ (fun t u => u.Spellable ∧ (t.Spellable → u = t)) c.terminals
      (c.respell .spellable fun _ => .spellable).terminals :=
    c.terminals_respell _ (fun respells => respells.of_spellable)
      fun _ _ _ _ respells => respells.of_spellable
  refine ⟨c.respell .spellable fun _ => .spellable, fun u mem => ?_, ?_⟩
  · obtain ⟨i, inside, rfl⟩ := List.getElem_of_mem mem
    exact ((List.forall₂_iff_get.mp respelled).2 i (respelled.length_eq ▸ inside) inside).1
  · rw [← all] at respelled
    exact prefix_of_forall₂ respelled fun t mem u related => related.2 (spellable t mem)

end JackCompiler.Grammar
