import RegexTrace.Node.Leaf
import RegexTrace.Text.Quoted

/-!
# Options of a search
-/

namespace RegexTrace

/-- How groups that look around are matched. -/
inductive LookaroundMode
  /-- Like any other group, moving over what they match. -/
  | consume
  /-- As assertions that hold a position. -/
  | assert
  deriving DecidableEq, Repr

/-- The options of a search, checked. -/
structure Options where
  /-- A lazy repetition is tried with few rounds first; otherwise every repetition is tried with
  many rounds first. -/
  honorLazy : Bool := false
  lookaround : LookaroundMode := .consume
  dotAll : Bool := true
  /-- The greatest number of node entries, if there is one; it is positive. -/
  maxSteps : Option Nat := none
  ignoreCase : Bool := false
  multiline : Bool := false
  deriving DecidableEq, Repr

/-- Options as they are asked for, not yet checked. -/
structure OptionsRequest where
  honorLazy : Bool := false
  /-- The name of the lookaround mode; it may be missing altogether. -/
  lookaround : Option Text := some "consume"
  dotAll : Bool := true
  maxSteps : Option Int := none
  ignoreCase : Bool := false
  multiline : Bool := false
  deriving DecidableEq, Repr

/-- Why options are refused. -/
inductive OptionsFault
  | unknownLookaround (name : Option Text)
  | notPositive
  deriving DecidableEq, Repr

namespace LookaroundMode

/-- The name of a mode. -/
def name : LookaroundMode → Text
  | .consume => "consume"
  | .assert => "assert"

/-- The mode with a given name. -/
def ofName? (t : Text) : Option LookaroundMode :=
  if t = name .consume then some .consume
  else if t = name .assert then some .assert
  else none

end LookaroundMode

namespace OptionsFault

/-- The wording of refused options. -/
def message : OptionsFault → Text
  | .unknownLookaround name =>
    "lookaround must be one of ('consume', 'assert'), got " ++
      Node.writeOptional Text.Quoted.encode name
  | .notPositive => "max_steps must be positive"

end OptionsFault

namespace Options

/-- Options are checked: the mode must be known, and then the budget must be positive. -/
def ofRequest (r : OptionsRequest) : Except OptionsFault Options := do
  let lookaround ←
    match r.lookaround.bind LookaroundMode.ofName? with
    | some mode => .ok mode
    | none => .error (.unknownLookaround r.lookaround)
  let maxSteps ←
    match r.maxSteps with
    | none => .ok none
    | some limit => if limit < 1 then .error .notPositive else .ok (some limit.toNat)
  return ⟨r.honorLazy, lookaround, r.dotAll, maxSteps, r.ignoreCase, r.multiline⟩

/-- Pattern flags replace the case and line options; the flag `s` can only turn the dot on. -/
def withFlags (o : Options) (flags : Text) : Options :=
  { o with
    ignoreCase := flags.contains 'i'.toNat
    multiline := flags.contains 'm'.toNat
    dotAll := o.dotAll || flags.contains 's'.toNat }

/-- The circumstances under which leaves are tested. -/
def rules (o : Options) : Leaf.Rules := ⟨o.dotAll, o.ignoreCase⟩

end Options

end RegexTrace
