import JackCompiler.Proofs.Codegen.Advance
import Mathlib.Data.List.Forall2

/-!
# Two runs in lockstep

Two runs of a step make the same decisions as long as their streams show the same look-ahead. They
then answer the same, and if they fail, then for the same cause. They may part where a token is
taken, where an instruction is written and where the code is handed on. From there on nothing is
known but that a run that has not failed only moves on.

What the sessions of the two runs have in common, and what holds after they have parted, is a
parameter. It has to obey a few laws about the steps at which runs may part. What happens when the
code is handed on is asked for only where that is done.

## Main definitions

* `Fault.Alike`, `Event.Alike` — the same up to places
* `Pairing`, `Pairing.Sessions`, `Pairing.Outcome` — what two runs have in common
* `Lockstep` — a pairing that obeys the laws
* `Lockstep.Keeps` — two steps keep their runs in lockstep
* `Lockstep.KeepsTaking` — and each of them takes a token if it answers in a certain way

## Main results

* `Lockstep.Keeps.bind`, `Lockstep.Keeps.iterate` and their companions — composed and repeated steps
-/

namespace JackCompiler

/-- Two faults that differ at most in their places. -/
inductive Fault.Alike (places : Location → Location → Prop) : Fault → Fault → Prop where
  | same (fault : Fault) : Fault.Alike places fault fault
  | syntactic {place place' : Location} (related : places place place') (cause : SyntacticFault) :
    Fault.Alike places (.syntactic { location := place, cause })
      (.syntactic { location := place', cause })

/-- Two events that differ at most in their places. -/
inductive Event.Alike (places : Location → Location → Prop) : Event → Event → Prop where
  | same (event : Event) : Event.Alike places event event
  | sourceBegun {place place' : Location} (related : places place place') :
    Event.Alike places (.sourceBegun place.file) (.sourceBegun place'.file)
  | valueMissing {place place' : Location} (related : places place place')
    (subroutine type : String) : Event.Alike places (.valueMissing place subroutine type)
      (.valueMissing place' subroutine type)

/-- What two streams say that show the same look-ahead, when something else was expected. -/
theorem TokenStream.mismatch_alike {places : Location → Location → Prop} {a b : TokenStream}
    (same : a.upcoming = b.upcoming) (related : places a.location b.location) (expected : String) :
    (a.mismatch expected).Alike places (b.mismatch expected) := by
  have wording (stream : TokenStream) : stream.mismatch expected = .syntactic {
      location := stream.location
      cause := .mismatch expected <| match stream.upcoming with
        | some (_, text) => "'" ++ text ++ "'"
        | none => "end of file" } := by
    cases h : stream.lookahead <;> simp [mismatch, upcoming, h, Token.wording]
  rw [wording, wording, same]
  exact .syntactic related _

namespace Codegen

/-- What two runs have in common, and what holds of two sessions after the runs have parted. A run
that has failed is given with its fault. -/
structure Pairing where
  streams : TokenStream → TokenStream → Prop
  sinks : Sink Instruction → Sink Instruction → Prop
  places : Location → Location → Prop
  parted : Option Fault → Session → Option Fault → Session → Prop

namespace Pairing

/-- The code and the events of two runs correspond. -/
structure Reports (P : Pairing) (s t : Session) : Prop where
  outputs : P.sinks s.output t.output
  events : List.Forall₂ (Event.Alike P.places) s.events.toList t.events.toList

/-- The sessions of two runs correspond. -/
structure Sessions (P : Pairing) (s t : Session) : Prop extends P.Reports s t where
  streams : P.streams s.tokens t.tokens
  left : s.tokens.Consistent
  right : t.tokens.Consistent
  visible : s.visible = t.visible
  nextLabel : s.nextLabel = t.nextLabel

end Pairing

/-- The fault that a run has ended with, if it has failed. -/
def faultOf {α : Type} : Except Fault α → Option Fault
  | .ok _ => none
  | .error fault => some fault

/-- What two runs of a step come to: the same answer in sessions that correspond, or faults that
differ at most in their places, or they have parted. -/
inductive Pairing.Outcome {α : Type} (P : Pairing) :
    Except Fault α × Session → Except Fault α × Session → Prop where
  | answer {a : α} {s t : Session} (sessions : P.Sessions s t) :
    Pairing.Outcome P (.ok a, s) (.ok a, t)
  | failure {fault fault' : Fault} {s t : Session} (alike : fault.Alike P.places fault')
    (reports : P.Reports s t) : Pairing.Outcome P (.error fault, s) (.error fault', t)
  | parted {x y : Except Fault α} {s t : Session} (parted : P.parted (faultOf x) s (faultOf y) t) :
    Pairing.Outcome P (x, s) (y, t)

theorem Pairing.Outcome.of_parted {α : Type} {P : Pairing} {run run' : Except Fault α × Session}
    (parted : P.parted (faultOf run.1) run.2 (faultOf run'.1) run'.2) : P.Outcome run run' :=
  .parted parted

section Skip

variable {P : Pairing} {s t : Session}

/-- Both runs take the look-ahead. -/
theorem Pairing.Sessions.skip_taken (sessions : P.Sessions s t) {token token' : Token}
    {behind behind' : TokenStream} (takes : s.tokens.Takes token behind)
    (takes' : t.tokens.Takes token' behind') (streams : P.streams behind behind') :
    P.Outcome (skip.run.run s) (skip.run.run t) := by
  rw [run_skip, run_skip, TokenReader.run_next.mpr takes, TokenReader.run_next.mpr takes']
  exact .answer { sessions with
    streams
    left := (sessions.left.takes takes).1
    right := (sessions.right.takes takes').1 }

/-- There is no look-ahead that the runs could take. -/
theorem Pairing.Sessions.skip_ended (sessions : P.Sessions s t)
    (ended : s.tokens.lookahead = none) (ended' : t.tokens.lookahead = none)
    (related : P.places s.tokens.location t.tokens.location) :
    P.Outcome (skip.run.run s) (skip.run.run t) := by
  rw [run_skip, run_skip, TokenReader.run_next_eq, TokenReader.run_next_eq, ended, ended']
  refine .failure (TokenStream.mismatch_alike ?_ related _) sessions.toReports
  rw [TokenStream.upcoming, TokenStream.upcoming, ended, ended']

end Skip

/-- A run that has failed stands still, and any other run moves on. -/
inductive Onward : Option Fault → Session → Option Fault → Session → Prop where
  | still (fault : Option Fault) (s : Session) : Onward fault s fault s
  | moves {s t : Session} (fault : Option Fault) (precedes : s.Precedes t) : Onward none s fault t

/-- A pairing that obeys the laws: streams that correspond show the same look-ahead, the steps that
take a token or write an instruction are kept, and runs that have parted never meet again. -/
structure Lockstep extends Pairing where
  upcoming : ∀ {a b : TokenStream}, streams a b → a.upcoming = b.upcoming
  location : ∀ {a b : TokenStream}, streams a b → places a.location b.location
  refl : ∀ place, places place place
  skip : ∀ {s t : Session}, toPairing.Sessions s t →
    toPairing.Outcome (skip.run.run s) (skip.run.run t)
  emit : ∀ {s t : Session} (instruction : Instruction), toPairing.Sessions s t →
    toPairing.Outcome ((emit instruction).run.run s) ((emit instruction).run.run t)
  onward : ∀ {f f' g g' : Option Fault} {s s' t t' : Session}, parted f s g t →
    Onward f s f' s' → Onward g t g' t' → parted f' s' g' t'

variable {α β γ : Type} {s t : Session} {L : Lockstep}

/-- A run goes on behind a step, if that one has not failed. -/
theorem onward_bind {f : α → Codegen β} (moves : ∀ a, Advances (f a))
    (outcome : Except Fault α × Session) :
    Onward (faultOf outcome.1) outcome.2
      (faultOf (match outcome with
        | (.ok a, middle) => (f a).run.run middle
        | (.error fault, middle) => (.error fault, middle)).1)
      (match outcome with
        | (.ok a, middle) => (f a).run.run middle
        | (.error fault, middle) => (.error fault, middle)).2 := by
  rcases outcome with ⟨fault | a, middle⟩
  · exact .still _ _
  · exact .moves _ ((moves a).precedes middle)

/-- Two runs of composed steps, made of two runs of the first and of what follows from where these
have come. -/
theorem Pairing.Outcome.bind {x y : Codegen α} {f g : α → Codegen β}
    (first : L.Outcome (x.run.run s) (y.run.run t))
    (left : ∀ a, Advances (f a)) (right : ∀ a, Advances (g a))
    (rest : ∀ a s' t', Runs x s a s' → Runs y t a t' → L.Sessions s' t' →
      L.Outcome ((f a).run.run s') ((g a).run.run t')) :
    L.Outcome ((x >>= f).run.run s) ((y >>= g).run.run t) := by
  rw [run_bind, run_bind]
  generalize hx : x.run.run s = outcome at first
  generalize hy : y.run.run t = outcome' at first
  cases first with
  | answer sessions => exact rest _ _ _ hx hy sessions
  | failure alike reports => exact .failure alike reports
  | parted parted =>
    exact .parted (L.onward parted (onward_bind left (_, _)) (onward_bind right (_, _)))

namespace Lockstep

/-- Two steps keep their runs in lockstep. -/
structure Keeps (L : Lockstep) (x y : Codegen α) : Prop where
  left : Advances x
  right : Advances y
  together : ∀ {s t : Session}, L.Sessions s t → L.Outcome (x.run.run s) (y.run.run t)

namespace Keeps

/-! ### Composed steps -/

theorem bind {x y : Codegen α} {f g : α → Codegen β} (first : L.Keeps x y)
    (rest : ∀ a, L.Keeps (f a) (g a)) : L.Keeps (x >>= f) (y >>= g) where
  left := .bind first.left fun a => (rest a).left
  right := .bind first.right fun a => (rest a).right
  together sessions := (first.together sessions).bind (fun a => (rest a).left)
    (fun a => (rest a).right) fun a _ _ _ _ sessions => (rest a).together sessions

theorem pure (a : α) : L.Keeps (Pure.pure a) (Pure.pure a) where
  left := .pure a
  right := .pure a
  together sessions := .answer sessions

/-- What the tokens show of themselves may differ in a way that the rest of the step does not care
about. -/
theorem look {view : TokenStream → γ} {f g : γ → Codegen β} (same : γ → γ → Prop)
    (refl : ∀ c, same c c) (views : ∀ {a b}, L.streams a b → same (view a) (view b))
    (rest : ∀ c d, same c d → L.Keeps (f c) (g d)) :
    L.Keeps (Codegen.look view >>= f) (Codegen.look view >>= g) where
  left := .bind (.look view) fun c => (rest c c (refl c)).left
  right := .bind (.look view) fun c => (rest c c (refl c)).right
  together sessions := (rest _ _ (views sessions.streams)).together sessions

/-- What the tokens show of the look-ahead without its place. -/
theorem view {view : TokenStream → γ} {f g : γ → Codegen β}
    (views : ∀ {a b}, a.upcoming = b.upcoming → view a = view b)
    (rest : ∀ c, L.Keeps (f c) (g c)) :
    L.Keeps (Codegen.look view >>= f) (Codegen.look view >>= g) :=
  .look Eq (fun _ => rfl) (fun streams => views (L.upcoming streams)) fun c _ same => same ▸ rest c

theorem location {f g : Location → Codegen β}
    (rest : ∀ place place', L.places place place' → L.Keeps (f place) (g place')) :
    L.Keeps (Codegen.location >>= f) (Codegen.location >>= g) :=
  .look L.places L.refl L.location rest

theorem forM {items : List γ} {f g : γ → Codegen Unit} (rest : ∀ c, L.Keeps (f c) (g c)) :
    L.Keeps (items.forM f) (items.forM g) := by
  induction items with
  | nil => exact .pure _
  | cons c items ih => exact .bind (rest c) fun _ => ih

/-! ### Failing -/

theorem throw {fault fault' : Fault} (alike : fault.Alike L.places fault') :
    L.Keeps (MonadExcept.throw fault : Codegen α) (MonadExcept.throw fault') where
  left := .throw fault
  right := .throw fault'
  together sessions := .failure alike sessions.toReports

theorem failAt {place place' : Location} (related : L.places place place')
    (cause : SyntacticFault) :
    L.Keeps (Codegen.failAt place cause : Codegen α) (Codegen.failAt place' cause) :=
  .throw (.syntactic related cause)

theorem failExpecting (expected : String) :
    L.Keeps (Codegen.failExpecting expected : Codegen α) (Codegen.failExpecting expected) := by
  refine .look (fun fault fault' => fault.Alike L.places fault') .same (fun streams => ?_)
    fun _ _ => .throw
  exact TokenStream.mismatch_alike (L.upcoming streams) (L.location streams) expected

/-! ### Steps that use the session -/

theorem skip : L.Keeps Codegen.skip Codegen.skip :=
  ⟨.skip, .skip, L.skip⟩

theorem emit (instruction : Instruction) :
    L.Keeps (Codegen.emit instruction) (Codegen.emit instruction) :=
  ⟨.emit _, .emit _, L.emit instruction⟩

/-- Handing on the code is no law of a pairing, because most steps never do it. -/
theorem flush (kept : ∀ {s t : Session}, L.Sessions s t →
    L.Outcome (Codegen.flush.run.run s) (Codegen.flush.run.run t)) :
    L.Keeps Codegen.flush Codegen.flush :=
  ⟨.flush, .flush, kept⟩

theorem report {event event' : Event} (alike : event.Alike L.places event') :
    L.Keeps (Codegen.report event) (Codegen.report event') where
  left := .report event
  right := .report event'
  together sessions := .answer { sessions with
    events := by simpa using List.rel_append sessions.events (.cons alike .nil) }

theorem freshLabel : L.Keeps Codegen.freshLabel Codegen.freshLabel where
  left := .freshLabel
  right := .freshLabel
  together {s t} sessions := by
    change L.Outcome (.ok s.nextLabel, { s with nextLabel := s.nextLabel + 1 })
      (.ok t.nextLabel, { t with nextLabel := t.nextLabel + 1 })
    rw [sessions.nextLabel]
    exact .answer { sessions with nextLabel := rfl }

theorem startSubroutine : L.Keeps Codegen.startSubroutine Codegen.startSubroutine where
  left := .startSubroutine
  right := .startSubroutine
  together sessions := .answer { sessions with
    visible := congrArg VariableTable.startSubroutine sessions.visible }

theorem lookup? (name : String) : L.Keeps (Codegen.lookup? name) (Codegen.lookup? name) where
  left := .lookup? name
  right := .lookup? name
  together {s t} sessions := by
    change L.Outcome (.ok (s.visible.lookup? name), s) (.ok (t.visible.lookup? name), t)
    rw [sessions.visible]
    exact .answer sessions

theorem declarations (kind : VariableKind) :
    L.Keeps (Codegen.declarations kind) (Codegen.declarations kind) where
  left := .declarations kind
  right := .declarations kind
  together {s t} sessions := by
    change L.Outcome (.ok (s.visible.count kind), s) (.ok (t.visible.count kind), t)
    rw [sessions.visible]
    exact .answer sessions

theorem declare (name type : String) (kind : VariableKind) {place place' : Location}
    (related : L.places place place') :
    L.Keeps (Codegen.declare name type kind place) (Codegen.declare name type kind place') where
  left := .declare name type kind place
  right := .declare name type kind place'
  together {s t} sessions := by
    rw [run_declare, run_declare, sessions.visible]
    split
    · exact .answer { sessions with
        visible := rfl
        events := by simpa using List.rel_append sessions.events (.cons (.same _) .nil) }
    · exact .failure (.syntactic related _) sessions.toReports

theorem resolve (name : String) {place place' : Location} (related : L.places place place') :
    L.Keeps (Codegen.resolve name place) (Codegen.resolve name place') := by
  refine .bind (.lookup? name) fun found => ?_
  cases found with
  | some v => exact .pure v
  | none => exact .failAt related _

/-! ### Steps that take tokens -/

theorem skipExpected (kind : TokenKind) : L.Keeps (discard (read (TokenReader.expect kind)))
    (discard (read (TokenReader.expect kind))) := by
  rw [discard_expect_eq]
  refine .view (fun same => by rw [TokenStream.kind?_congr same]) fun expected => ?_
  split
  · exact .skip
  · exact .failExpecting _

theorem skipSymbol (c : Char) : L.Keeps (Codegen.skipSymbol c) (Codegen.skipSymbol c) :=
  .skipExpected (.symbol c)

theorem skipKeyword (word : Keyword) :
    L.Keeps (Codegen.skipKeyword word) (Codegen.skipKeyword word) :=
  .skipExpected (.keyword word)

theorem accept (kind : TokenKind) :
    L.Keeps (read (TokenReader.accept kind)) (read (TokenReader.accept kind)) := by
  rw [accept_eq]
  refine .view (fun same => by rw [TokenStream.kind?_congr same]) fun expected => ?_
  split
  · exact .bind .skip fun _ => .pure true
  · exact .pure false

theorem acceptSymbol (c : Char) : L.Keeps (Codegen.acceptSymbol c) (Codegen.acceptSymbol c) :=
  .accept (.symbol c)

theorem acceptKeyword (word : Keyword) :
    L.Keeps (Codegen.acceptKeyword word) (Codegen.acceptKeyword word) :=
  .accept (.keyword word)

theorem takeName : L.Keeps Codegen.takeName Codegen.takeName := by
  rw [takeName_eq]
  refine .view (fun same => by rw [same]) fun name => ?_
  refine .view (fun same => by rw [TokenStream.kind?_congr same]) fun expected => ?_
  split
  · exact .bind .skip fun _ => .pure _
  · exact .failExpecting _

end Keeps

/-- Two steps keep their runs in lockstep, and each takes a token if it answers in a certain way. -/
structure KeepsTaking (L : Lockstep) (going : α → Prop) (x y : Codegen α) : Prop
    extends L.Keeps x y where
  takes : TakesIf going x
  takes' : TakesIf going y

namespace KeepsTaking

variable {going : α → Prop} {goingOn : β → Prop} {x y : Codegen α} {f g : α → Codegen β}

/-! ### Steps that take tokens if they go on -/

theorem pure {a : α} (idle : ¬ going a) : L.KeepsTaking going (Pure.pure a) (Pure.pure a) :=
  ⟨.pure a, .pure idle, .pure idle⟩

theorem skip : L.KeepsTaking (fun _ => True) Codegen.skip Codegen.skip :=
  ⟨.skip, .skip, .skip⟩

theorem bind (first : L.KeepsTaking going x y) (rest : ∀ a, L.Keeps (f a) (g a))
    (idle : ∀ a, ¬ going a → L.KeepsTaking goingOn (f a) (g a)) :
    L.KeepsTaking goingOn (x >>= f) (y >>= g) where
  toKeeps := .bind first.toKeeps rest
  takes := first.takes.bind first.left (fun a => (rest a).left) fun a h => (idle a h).takes
  takes' := first.takes'.bind first.right (fun a => (rest a).right) fun a h => (idle a h).takes'

/-- A step whose first part takes a token in any case. -/
theorem first (first : L.KeepsTaking (fun _ => True) x y) (rest : ∀ a, L.Keeps (f a) (g a)) :
    L.KeepsTaking goingOn (x >>= f) (y >>= g) :=
  first.bind rest fun _ idle => absurd trivial idle

/-- A step that takes a token behind its first part. -/
theorem second (first : L.Keeps x y) (rest : ∀ a, L.KeepsTaking goingOn (f a) (g a)) :
    L.KeepsTaking goingOn (x >>= f) (y >>= g) where
  toKeeps := .bind first fun a => (rest a).toKeeps
  takes := .second first.left (fun a => (rest a).left) fun a => (rest a).takes
  takes' := .second first.right (fun a => (rest a).right) fun a => (rest a).takes'

theorem view {view : TokenStream → γ} {f g : γ → Codegen β}
    (views : ∀ {a b}, a.upcoming = b.upcoming → view a = view b)
    (rest : ∀ c, L.KeepsTaking goingOn (f c) (g c)) :
    L.KeepsTaking goingOn (Codegen.look view >>= f) (Codegen.look view >>= g) where
  toKeeps := .view views fun c => (rest c).toKeeps
  takes := .second (.look _) (fun c => (rest c).left) fun c => (rest c).takes
  takes' := .second (.look _) (fun c => (rest c).right) fun c => (rest c).takes'

theorem skipKeyword (word : Keyword) :
    L.KeepsTaking (fun _ => True) (Codegen.skipKeyword word) (Codegen.skipKeyword word) :=
  ⟨.skipKeyword word, .skipExpected _, .skipExpected _⟩

theorem acceptSymbol (c : Char) :
    L.KeepsTaking (· = true) (Codegen.acceptSymbol c) (Codegen.acceptSymbol c) :=
  ⟨.acceptSymbol c, .accept _, .accept _⟩

/-! ### Repeated steps -/

/-- The runs of a repeated step end after as many rounds. Each round but the last takes a token, so
that neither run is cut off by the bound on its rounds. -/
theorem iterateAtMost {step step' : α → Codegen (Option α)}
    (round : ∀ a, L.KeepsTaking (·.isSome) (step a) (step' a)) {bound bound' : Nat}
    (within : s.tokens.tokensLeft < bound) (within' : t.tokens.tokensLeft < bound')
    (sessions : L.Sessions s t) (a : α) :
    L.Outcome ((Codegen.iterateAtMost step bound a).run.run s)
      ((Codegen.iterateAtMost step' bound' a).run.run t) := by
  induction bound generalizing bound' s t a with
  | zero => omega
  | succ bound ih =>
    obtain ⟨bound', rfl⟩ : ∃ n, bound' = n + 1 := ⟨bound' - 1, by omega⟩
    refine ((round a).together sessions).bind (fun next => ?_) (fun next => ?_) ?_
    · cases next with
      | none => exact .pure a
      | some b => exact .iterateAtMost (fun a => (round a).left) bound b
    · cases next with
      | none => exact .pure a
      | some b => exact .iterateAtMost (fun a => (round a).right) bound' b
    · intro next s' t' run run' sessions'
      cases next with
      | none => exact .answer sessions'
      | some b =>
        obtain ⟨terminal, terminals, reads⟩ := (round a).takes _ _ _ run rfl
        obtain ⟨terminal', terminals', reads'⟩ := (round a).takes' _ _ _ run' rfl
        have fewer := reads.tokensLeft_le sessions.left
        have fewer' := reads'.tokensLeft_le sessions.right
        rw [List.length_cons] at fewer fewer'
        exact ih (by omega) (by omega) sessions' b

theorem iterate {step step' : α → Codegen (Option α)}
    (round : ∀ a, L.KeepsTaking (·.isSome) (step a) (step' a)) (a : α) :
    L.Keeps (Codegen.iterate step a) (Codegen.iterate step' a) where
  left := .iterate (fun a => (round a).left) a
  right := .iterate (fun a => (round a).right) a
  together sessions := iterateAtMost round (Nat.lt_succ_self _) (Nat.lt_succ_self _) sessions a

theorem repeatWhile {step step' : Codegen Bool} (round : L.KeepsTaking (· = true) step step') :
    L.Keeps (Codegen.repeatWhile step) (Codegen.repeatWhile step') := by
  refine iterate (fun _ => round.bind (fun going => ?_) fun going idle => ?_) ()
  · split <;> exact .pure _
  · rw [if_neg idle]
    exact .pure (by simp)

end KeepsTaking

end Lockstep

end Codegen

end JackCompiler
