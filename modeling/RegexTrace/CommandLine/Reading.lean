import RegexTrace.CommandLine.Token

/-!
# Reading a command line

Arguments by position are taken as early as possible, in runs between options. Arguments that
nothing takes are left over.

## Implementation notes

Every argument is first told apart, option or not, and only then are options and positions served
from left to right; so an ambiguous option is found before any other mistake.
-/

namespace RegexTrace.CommandLine

namespace PositionRule

variable {α : Type}

/-- The arguments that a position takes at the head of a command line, and what remains; separators
around an argument are taken with it. -/
def take? (rule : PositionRule α) (arguments : List (Text × Token α)) :
    Option (List Text × List (Text × Token α)) :=
  let lead := arguments.takeWhile fun a => a.2.isSeparator
  match rule, arguments.dropWhile fun a => a.2.isSeparator with
  | .remainder _ _, (first, .plain) :: rest =>
    some (lead.map Prod.fst ++ first :: rest.map Prod.fst, [])
  | .required _ _, (first, .plain) :: rest | .optional _ _, (first, .plain) :: rest =>
    let trail := rest.takeWhile fun a => a.2.isSeparator
    some (lead.map Prod.fst ++ first :: trail.map Prod.fst,
      rest.dropWhile fun a => a.2.isSeparator)
  | .optional _ _, rest => some (lead.map Prod.fst, rest)
  | _, _ => none

/-- What the arguments of a position do. One separator among them does not count. -/
def apply (rule : PositionRule α) (arguments : List Text) (state : α) : Except Refusal α :=
  match rule with
  | .remainder _ set => set arguments state
  | .required _ set | .optional _ set =>
    match arguments.erase separator with
    | [] => .ok state
    | argument :: _ => .ok (set argument state)

end PositionRule

/-- The positions that are still empty, the arguments that are still to be served, and the value so
far. -/
structure Progress (α : Type) where
  positions : List (PositionRule α)
  arguments : List (Text × Token α)
  state : α
  /-- The arguments that nothing takes. -/
  leftOver : List Text := []

/-- As many positions as possible take their arguments. -/
def servePositions {α : Type} (arguments : List (Text × Token α)) (state : α)
    (leftOver : List Text) : List (PositionRule α) → Except Refusal (Progress α)
  | [] => .ok ⟨[], arguments, state, leftOver⟩
  | rule :: rules =>
    match rule.take? arguments with
    | none => .ok ⟨rule :: rules, arguments, state, leftOver⟩
    | some (taken, rest) => do
      let state ← rule.apply taken state
      servePositions rest state leftOver rules

/-- What one argument with options in it asks for: options in order, with their values, an option at
its end that may take the next argument, and what is no option. -/
structure Cluster (α : Type) where
  uses : List (OptionRule α × Text) := []
  last : Option (OptionRule α) := none
  unknown : Option Text := none

namespace Grammar

variable {α : Type}

/-- The options of an argument from one with an attached text on. Behind an option of one letter
that takes no value, further letters are options too. -/
def clusterFrom (g : Grammar α) (rule : OptionRule α) (spelling : Text) (assigned : Bool) :
    Text → Except Mistake (Cluster α)
  | [] =>
    if rule.takesValue then .ok { uses := [(rule, [])] } else .error (.valueIgnored rule.name [])
  | c :: rest =>
    if rule.takesValue then .ok { uses := [(rule, c :: rest)] }
    else if Text.startsWith separator spelling || assigned || c == Ascii.hyphen then
      .error (.valueIgnored rule.name (c :: rest))
    else
      match g.spelled? [Ascii.hyphen, c] with
      | none => .ok { uses := [(rule, [])], unknown := some (Ascii.hyphen :: c :: rest) }
      | some next =>
        match rest with
        | [] => .ok { uses := [(rule, [])], last := some next }
        | Ascii.equals :: value =>
          (g.clusterFrom next [Ascii.hyphen, c] true value).map fun cluster =>
            { cluster with uses := (rule, []) :: cluster.uses }
        | d :: value =>
          (g.clusterFrom next [Ascii.hyphen, c] false (d :: value)).map fun cluster =>
            { cluster with uses := (rule, []) :: cluster.uses }

/-- The options of an argument. -/
def cluster (g : Grammar α) (use : OptionUse α) : Except Mistake (Cluster α) :=
  match use.attached with
  | none => .ok { last := some use.rule }
  | some attached => g.clusterFrom use.rule use.spelling attached.assigned attached.value

/-- The uses of a cluster, with the argument that its last option takes, and the arguments
behind. -/
def complete (cluster : Cluster α) (rest : List (Text × Token α)) :
    Except Mistake (List (OptionRule α × Text) × List (Text × Token α)) :=
  match cluster.last with
  | none => .ok (cluster.uses, rest)
  | some rule =>
    if rule.takesValue then
      match rest with
      | (value, .plain) :: rest => .ok (cluster.uses ++ [(rule, value)], rest)
      | _ => .error (.valueExpected rule.name)
    else .ok (cluster.uses ++ [(rule, [])], rest)

/-- A mistake of the program's user. -/
def blame (g : Grammar α) : Except Mistake β → Except Refusal β
  | .ok x => .ok x
  | .error mistake => .error (.mistake g.program mistake)

/-- The option at the head of the command line is served; there has to be one. -/
def serveOption (g : Grammar α) (p : Progress α) : Except Refusal (Progress α) :=
  match p.arguments with
  | (_, .option (some use)) :: rest => do
    let cluster ← g.blame (g.cluster use)
    let (uses, rest) ← g.blame (complete cluster rest)
    let state ← uses.foldlM (fun state (rule, value) => rule.apply g.program value state) p.state
    return { p with arguments := rest, state, leftOver := p.leftOver ++ cluster.unknown.toList }
  | (argument, _) :: rest =>
    .ok { p with arguments := rest, leftOver := p.leftOver ++ [argument] }
  | [] => .ok p

/-- Positions and options are served in turns until no option is left. The number bounds the turns,
each of which takes an argument. -/
def serve (g : Grammar α) : Nat → Progress α → Except Refusal (Progress α)
  | 0, p => .ok p
  | turns + 1, p =>
    if !p.arguments.any fun a => a.2.isOption then do
      let p ← servePositions p.arguments p.state p.leftOver p.positions
      return { p with arguments := [], leftOver := p.leftOver ++ p.arguments.map Prod.fst }
    else
      match p.arguments with
      | (_, .option _) :: _ => do g.serve turns (← g.serveOption p)
      | _ => do
        let q ← servePositions p.arguments p.state p.leftOver p.positions
        if q.arguments.length < p.arguments.length then g.serve turns q
        else
          let skipped := q.arguments.takeWhile fun a => !a.2.isOption
          let atOption := { q with
            arguments := q.arguments.dropWhile fun a => !a.2.isOption
            leftOver := q.leftOver ++ skipped.map Prod.fst }
          g.serve turns (← g.serveOption atOption)

/-- What a command line says, folded into a value, and the arguments that are left over. -/
def read (g : Grammar α) (state : α) (arguments : List Text) : Except Refusal (α × List Text) := do
  let tokens ← g.blame (g.classifyAll arguments)
  let p ← g.serve (arguments.length + 1) { positions := g.positions, arguments := tokens, state }
  match (p.positions.filter PositionRule.isRequired).map PositionRule.name with
  | [] => return (p.state, p.leftOver)
  | names => .error (.mistake g.program (.missing names))

end Grammar

end RegexTrace.CommandLine
