import RegexTrace.Text.Quoted

/-!
# Mistakes in command lines
-/

namespace RegexTrace.CommandLine

/-- What is wrong with a value. -/
inductive Complaint
  | unknownChoice (value : Text) (choices : List Text)
  | noNumber (value : Text)
  deriving DecidableEq, Repr

/-- What is wrong with a command line. -/
inductive Mistake
  | ambiguous (argument : Text) (candidates : List Text)
  | valueExpected (argument : Text)
  | valueIgnored (argument value : Text)
  | badValue (argument : Text) (complaint : Complaint)
  | missing (arguments : List Text)
  | unrecognized (arguments : List Text)
  deriving DecidableEq, Repr

/-- Why a command line is not obeyed. -/
inductive Refusal
  | mistake (program : Text) (mistake : Mistake)
  /-- Help was asked for. -/
  | help (program : Text)
  deriving DecidableEq, Repr

namespace Complaint

/-- The wording of a complaint. -/
def message : Complaint → Text
  | .unknownChoice value choices =>
    "invalid choice: " ++ Text.Quoted.encode value ++ " (choose from " ++
      Text.join (Text.ofString ", ") (choices.map Text.Quoted.encode) ++ ")"
  | .noNumber value => "invalid int value: " ++ Text.Quoted.encode value

end Complaint

namespace Mistake

/-- The wording of a mistake. -/
def message : Mistake → Text
  | .ambiguous argument candidates =>
    "ambiguous option: " ++ argument ++ " could match " ++
      Text.join (Text.ofString ", ") candidates
  | .valueExpected argument => "argument " ++ argument ++ ": expected one argument"
  | .valueIgnored argument value =>
    "argument " ++ argument ++ ": ignored explicit argument " ++ Text.Quoted.encode value
  | .badValue argument complaint =>
    Text.ofString "argument " ++ argument ++ Text.ofString ": " ++ complaint.message
  | .missing arguments =>
    "the following arguments are required: " ++ Text.join (Text.ofString ", ") arguments
  | .unrecognized arguments =>
    "unrecognized arguments: " ++ Text.join (Text.ofString " ") arguments

end Mistake

end RegexTrace.CommandLine
