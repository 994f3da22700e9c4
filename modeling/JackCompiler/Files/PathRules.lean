import JackCompiler.Fault

/-!
# Rules for paths

A file system may refuse a path for its text alone, whatever stands where it would lead: it can
bound the lengths of paths and of the names in them, in bytes, and it can refuse the character NUL.

## Main definitions

* `PathRules` — what a file system demands of paths
* `PathRules.machine` — the demands of the machine
* `PathRules.checkPath`, `PathRules.checkName` — whether they are met, or which one is not
-/

namespace JackCompiler

/-- What a file system demands of paths. By default it demands nothing. -/
structure PathRules where
  /-- The most bytes that a path can have. -/
  pathBytes? : Option Nat := none
  /-- The most bytes that a name in a path can have. -/
  nameBytes? : Option Nat := none
  /-- Whether a path can hold the character NUL. -/
  allowsNul : Bool := true
deriving DecidableEq, Repr, Inhabited

namespace PathRules

/-- The demands of the machine, which ends a path by the character NUL. -/
def machine : PathRules where
  pathBytes? := some 4095
  nameBytes? := some 255
  allowsNul := false

/-- Whether a text has more bytes than a bound allows. -/
def exceeds (bound : Option Nat) (text : String) : Bool :=
  bound.any (· < text.utf8ByteSize)

/-- Whether a path as a whole meets the demands. -/
def checkPath (rules : PathRules) (path : String) : Except StorageFault Unit :=
  if !rules.allowsNul && path.toList.contains '\x00' then .error .nulInPath
  else if exceeds rules.pathBytes? path then .error .nameTooLong
  else .ok ()

/-- Whether a name in a path meets the demands. -/
def checkName (rules : PathRules) (name : String) : Except StorageFault Unit :=
  if exceeds rules.nameBytes? name then .error .nameTooLong else .ok ()

/-- Without demands every path is fine. -/
theorem checkPath_default (path : String) : ({} : PathRules).checkPath path = .ok () := rfl

/-- Without demands every name is fine. -/
theorem checkName_default (name : String) : ({} : PathRules).checkName name = .ok () := rfl

end PathRules

end JackCompiler
