import JackCompiler.Proofs.Machine.StatementCode

/-!
# Code of subroutines, when it runs

The header of a subroutine clears its local variables, and the prologue behind it settles which
object is the current one. Then the code of the statements takes over.

## Main definitions

* `SubroutineKind.settle` — what the prologue does to the store
* `ClassDeclaration.entered` — what a subroutine makes of the store before its first statement

## Main results

* `ClassDeclaration.arrives_entered` — the lines in front of the statements
* `ClassDeclaration.completes_body` — the statements of a subroutine, in the code of its class
-/

namespace JackCompiler

open Grammar Machine

/-- The store with another current object. A constructor allocates it, and a method has it as its
first argument. -/
def SubroutineKind.settle (routines : Routines) (fields : Nat) (store : Store) :
    SubroutineKind → Store
  | .constructor =>
    let (object, memory) := routines "Memory.alloc" [BitVec.ofNat 16 fields] store.memory
    { frame := { store.frame with this := object }, memory }
  | .method => { store with frame.this := store.frame.arguments 0 }
  | .function => store

/-- The store in front of the first statement of a subroutine. Its local variables are zero. -/
def Grammar.ClassDeclaration.entered (c : ClassDeclaration) (d : SubroutineDeclaration)
    (routines : Routines) (store : Store) : Store :=
  d.kind.settle routines c.fields
    { store with
      frame.locals := fun i => if i < d.localVariables.length then 0 else store.frame.locals i }

variable {program code : List Instruction} {routines : Routines} {s : State} {line : Nat}
  {stack : List Word} {store after : Store} {outcome : Outcome} {x : Word}

namespace Machine

/-- A value on top of the stack becomes the current object. -/
theorem State.At.setThis (here : s.At line (x :: stack) store)
    (stands : CodeAt program line (.pop .pointer 0 :: code)) :
    Arrives program routines s (line + 1) stack { store with frame.this := x } := by
  obtain ⟨atLine, atStack, atFrame, atMemory⟩ := here
  rw [← atLine] at stands ⊢
  refine ⟨{ s.next stack with frame.this := x },
    reaches_of_execute stands.head (by simp [execute, atStack, State.write?, State.next]), rfl,
    rfl, ?_, atMemory⟩
  rw [← atFrame]
  rfl

/-- The header of a subroutine clears the local variables that it counts. -/
theorem State.At.header {name : String} {locals : Nat} (here : s.At line stack store)
    (stands : CodeAt program line (.function name locals :: code)) :
    Arrives program routines s (line + 1) stack
      { store with frame.locals := fun i => if i < locals then 0 else store.frame.locals i } := by
  obtain ⟨atLine, atStack, atFrame, atMemory⟩ := here
  rw [← atLine] at stands ⊢
  rw [← atFrame]
  exact ⟨_, reaches_of_execute stands.head rfl, rfl, atStack, rfl, atMemory⟩

/-- The prologue settles the current object. -/
theorem State.At.prologue {kind : SubroutineKind} {fields : Nat} (here : s.At line stack store)
    (stands : CodeAt program line (prologueCode kind fields)) :
    Arrives program routines s (line + (prologueCode kind fields).length) stack
      (kind.settle routines fields store) := by
  cases kind with
  | function => exact ⟨s, .refl, here⟩
  | method =>
    have whole : CodeAt program line ([.push .argument 0] ++ [.pop .pointer 0]) := stands
    have front := whole.left
    rw [← here.line] at front
    obtain ⟨s₁, pushed, same⟩ := Pushes.push routines front rfl
    rw [here.frame] at pushed
    exact (here.pushes pushed (same.trans here.memory)).trans
      fun s' there => there.setThis whole.right
  | constructor =>
    have whole : CodeAt program line ([.push .constant fields] ++ [.allocate] ++
      [.pop .pointer 0]) := stands
    have front := whole.left
    rw [← here.line] at front
    obtain ⟨s₁, pushed, same⟩ := Pushes.push routines front.left rfl
    obtain ⟨s₂, allocated, answered⟩ := pushed.call rfl front
    rw [same, here.memory] at allocated answered
    exact (here.pushes allocated answered).trans fun s' there => there.setThis whole.right

end Machine

namespace Grammar

variable {c : ClassDeclaration} {earlier later : List SubroutineDeclaration}
  {d : SubroutineDeclaration}

theorem Statement.listLabels_append (body more : List Statement) :
    Statement.listLabels (body ++ more) =
      Statement.listLabels body + Statement.listLabels more := by
  induction body with
  | nil => simp [Statement.listLabels]
  | cons statement body ih => simp [Statement.listLabels, ih, Nat.add_assoc]

/-- The numbers of labels go on behind the statements of the subroutines in front. -/
theorem ClassDeclaration.codeFrom_append (c : ClassDeclaration)
    (subroutines more : List SubroutineDeclaration) (number : Nat) :
    c.codeFrom number (subroutines ++ more) = c.codeFrom number subroutines ++
      c.codeFrom (number + Statement.listLabels (subroutines.flatMap (·.body))) more := by
  induction subroutines generalizing number with
  | nil => rfl
  | cons d subroutines ih =>
    simp [codeFrom, ih, Statement.listLabels_append, Nat.add_assoc]

/-- The line of the header of a subroutine that stands behind some others. -/
def ClassDeclaration.headerLine (c : ClassDeclaration) (earlier : List SubroutineDeclaration) :
    Nat :=
  (c.codeFrom 0 earlier).length

/-- The line of the first statement of a subroutine that stands behind some others. -/
def ClassDeclaration.bodyLine (c : ClassDeclaration) (earlier : List SubroutineDeclaration)
    (d : SubroutineDeclaration) : Nat :=
  c.headerLine earlier + 1 + (prologueCode d.kind c.fields).length

/-- A subroutine stands behind those in front of it and in front of those behind it. -/
theorem ClassDeclaration.codeAt_subroutineCode (found : c.subroutines = earlier ++ d :: later) :
    ∃ number, CodeAt c.code (c.headerLine earlier) (c.subroutineCode number d) ∧
      c.headerLine (earlier ++ [d]) =
        c.headerLine earlier + (c.subroutineCode number d).length := by
  let number := 0 + Statement.listLabels (earlier.flatMap (·.body))
  -- The code of a class falls apart at any of its subroutines.
  have whole : c.code = c.codeFrom 0 earlier ++ c.subroutineCode number d ++
      c.codeFrom (number + Statement.listLabels d.body) later := by
    rw [code, found, codeFrom_append, codeFrom, List.append_assoc]
  refine ⟨number, ⟨c.codeFrom 0 earlier, _, whole, rfl⟩, ?_⟩
  rw [headerLine, codeFrom_append, codeFrom, codeFrom, List.append_nil, List.length_append]
  rfl

/-- The lines in front of the statements of a subroutine. -/
theorem ClassDeclaration.arrives_entered (found : c.subroutines = earlier ++ d :: later)
    (here : s.At (c.headerLine earlier) stack store) :
    Arrives c.code routines s (c.bodyLine earlier d) stack (c.entered d routines store) := by
  obtain ⟨number, stands, -⟩ := codeAt_subroutineCode found
  exact (here.header stands.left).trans fun s' there => there.prologue stands.left.tail

/-- The statements of a subroutine do what an execution of them does. -/
theorem ClassDeclaration.completes_body (found : c.subroutines = earlier ++ d :: later)
    (legal : Statement.BlockLegal (c.environment d) d.body)
    (executes : Statement.ExecutesAll routines (c.environment d) d.body store outcome after)
    (here : s.At (c.bodyLine earlier d) stack store) :
    Completes c.code routines s (c.headerLine (earlier ++ [d])) stack outcome after := by
  obtain ⟨number, stands, last⟩ := codeAt_subroutineCode found
  have statements : CodeAt c.code (c.bodyLine earlier d)
      (Statement.listCode (c.environment d) number d.body) := by
    rw [bodyLine, Nat.add_assoc, Nat.add_comm 1]
    exact stands.right
  -- Behind the statements of a subroutine stands the header of the next one.
  have ends : c.headerLine (earlier ++ [d]) = c.bodyLine earlier d +
      (Statement.listCode (c.environment d) number d.body).length := by
    rw [last, bodyLine, subroutineCode, List.length_append, List.length_cons]
    omega
  rw [ends]
  exact executes.completes c.nodup_labelNames_code legal statements here

end Grammar

end JackCompiler
