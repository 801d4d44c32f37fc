import RegexTrace.Host.Item

/-!
# Branches of the host

Before branches are tried one by one, what all of them begin with is moved in front, and branches
that are single characters or sets become one set.
-/

namespace RegexTrace.Host

/-- Items that are compared by what they say. Items with parts of their own count as different from
each other. -/
def Item.sameLeaf : Item → Item → Bool
  | .literal n c, .literal n' c' => n == n' && c == c'
  | .any, .any => true
  | .set n items, .set n' items' => n == n' && items == items'
  | .place p, .place p' => p == p'
  | .reference g _, .reference g' _ => g == g'
  | _, _ => false

/-- A branch that begins with a given leaf. -/
def beginsWith (leaf : Item) : List Item → Bool
  | [] => false
  | item :: _ => leaf.sameLeaf item

/-- The leaves that all branches begin with, and what is left of the branches. The first branch is
given apart. -/
def factor : List Item → List (List Item) → List Item × List (List Item)
  | [], others => ([], [] :: others)
  | leaf :: rest, others =>
    if leaf.sameLeaf leaf && others.all (beginsWith leaf) then
      let (common, branches) := factor rest (others.map List.tail)
      (leaf :: common, branches)
    else ([], (leaf :: rest) :: others)

/-- The items of a set that a branch could be replaced by. -/
def setItems? : List Item → Option (List SetItem)
  | [.literal false c] => some [.literal c]
  | [.set false items] => some items
  | _ => none

/-- A choice between branches, as one set where every branch is one character. -/
def chooseFrom (branches : List (List Item)) : Item :=
  match branches.mapM setItems? with
  | some sets => .set false sets.flatten.eraseDups
  | none => .branch branches

/-- The items for one or several branches. -/
def itemsOfBranches : List (List Item) → List Item
  | [] => []
  | [body] => body
  | first :: others =>
    let (common, branches) := factor first others
    common ++ [chooseFrom branches]

/-- A plain group without flags, whose body can take its place. -/
def Item.plainBody? : Item → Option (List Item)
  | .group none on off body => if on.any || off.any then none else some body
  | _ => none

/-- The items of a complete branch: plain groups give way to their bodies. -/
def completeBranch (items : List Item) : List Item :=
  items.flatMap fun item => item.plainBody?.getD [item]

end RegexTrace.Host
