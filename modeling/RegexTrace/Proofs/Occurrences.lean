import RegexTrace.Node.Address
import RegexTrace.Proofs.Grammar

/-!
# The occurrences of a tree

The places of a tree in pre-order, each with the node that stands there. They are the places that an
address leads to, and in the tree of a pattern a part of a pattern stands at each of them.
-/

namespace RegexTrace.Node

mutual

/-- The occurrences in a tree that itself stands at an address, in pre-order. -/
def occurrences (address : Address) : Node → List Occurrence
  | .alternative body => ⟨address, .alternative body⟩ :: occurrencesAll address .element 0 body
  | .disjunction branches =>
    ⟨address, .disjunction branches⟩ :: occurrencesAll address .branch 0 branches
  | .group behaviour body name number =>
    ⟨address, .group behaviour body name number⟩ :: occurrencesAll address .element 0 body
  | .quantifier min max greedy body shorthand =>
    ⟨address, .quantifier min max greedy body shorthand⟩ ::
      occurrences (address ++ [.repeated]) body
  | node => [⟨address, node⟩]

/-- The occurrences in children, numbered from `index` on. -/
def occurrencesAll (address : Address) (move : Nat → Move) (index : Nat) :
    List Node → List Occurrence
  | [] => []
  | node :: rest =>
    occurrences (address ++ [move index]) node ++ occurrencesAll address move (index + 1) rest

end

/-- What occurs in children occurs in one of them, at the address of that child. -/
theorem mem_occurrencesAll_iff {address : Address} {move : Nat → Move} {index : Nat}
    {nodes : List Node} {o : Occurrence} :
    o ∈ occurrencesAll address move index nodes ↔
      ∃ i child, nodes[i]? = some child ∧
        o ∈ occurrences (address ++ [move (index + i)]) child := by
  induction nodes generalizing index with
  | nil => simp [occurrencesAll]
  | cons node rest ih =>
      rw [occurrencesAll, List.mem_append, ih]
      constructor
      · rintro (h | ⟨i, child, hchild, h⟩)
        · exact ⟨0, node, rfl, h⟩
        · refine ⟨i + 1, child, hchild, ?_⟩
          rwa [Nat.add_right_comm] at h
      · rintro ⟨_ | i, child, hchild, h⟩
        · obtain rfl : node = child := Option.some.inj hchild
          exact Or.inl h
        · refine Or.inr ⟨i, child, hchild, ?_⟩
          rwa [Nat.add_right_comm]

theorem self_mem_occurrences (address : Address) (node : Node) :
    ⟨address, node⟩ ∈ occurrences address node := by
  cases node <;> simp [occurrences]

/-- What occurs in a tree is the tree itself or occurs in a child of it. -/
theorem mem_occurrences_iff_child {address : Address} {node : Node} {o : Occurrence} :
    o ∈ occurrences address node ↔
      o = ⟨address, node⟩ ∨
        ∃ move child, node.child? move = some child ∧
          o ∈ occurrences (address ++ [move]) child := by
  constructor
  · intro h
    cases node with
    | alternative body =>
        refine (List.mem_cons.mp (by rwa [occurrences] at h)).imp_right fun h => ?_
        obtain ⟨i, child, hchild, h⟩ := mem_occurrencesAll_iff.mp h
        exact ⟨.element i, child, hchild, by rwa [Nat.zero_add] at h⟩
    | group behaviour body name number =>
        refine (List.mem_cons.mp (by rwa [occurrences] at h)).imp_right fun h => ?_
        obtain ⟨i, child, hchild, h⟩ := mem_occurrencesAll_iff.mp h
        exact ⟨.element i, child, hchild, by rwa [Nat.zero_add] at h⟩
    | disjunction branches =>
        refine (List.mem_cons.mp (by rwa [occurrences] at h)).imp_right fun h => ?_
        obtain ⟨i, child, hchild, h⟩ := mem_occurrencesAll_iff.mp h
        exact ⟨.branch i, child, hchild, by rwa [Nat.zero_add] at h⟩
    | quantifier min max greedy body shorthand =>
        rw [occurrences] at h
        exact (List.mem_cons.mp h).imp_right fun h => ⟨.repeated, body, rfl, h⟩
    | _ => exact Or.inl (List.mem_singleton.mp h)
  · rintro (rfl | ⟨move, child, hchild, h⟩)
    · exact self_mem_occurrences address node
    · have listed {body : List Node} {move : Nat → Move} {i : Nat} (hi : body[i]? = some child)
          (h : o ∈ occurrences (address ++ [move i]) child) :
          o ∈ occurrencesAll address move 0 body :=
        mem_occurrencesAll_iff.mpr ⟨i, child, hi, by rwa [Nat.zero_add]⟩
      unfold child? at hchild
      split at hchild
      · rw [occurrences]
        exact List.mem_cons_of_mem _ (listed hchild h)
      · rw [occurrences]
        exact List.mem_cons_of_mem _ (listed hchild h)
      · rw [occurrences]
        exact List.mem_cons_of_mem _ (Option.some.inj hchild ▸ h)
      · rw [occurrences]
        exact List.mem_cons_of_mem _ (listed hchild h)
      · cases hchild

/-- A child is smaller than its node. -/
theorem sizeOf_lt_of_child? {node child : Node} {move : Move} (h : node.child? move = some child) :
    sizeOf child < sizeOf node := by
  unfold child? at h
  split at h
  · have := List.sizeOf_lt_of_mem (List.mem_of_getElem? h)
    simp only [alternative.sizeOf_spec]
    omega
  · have := List.sizeOf_lt_of_mem (List.mem_of_getElem? h)
    simp only [group.sizeOf_spec]
    omega
  · obtain rfl := Option.some.inj h
    simp only [quantifier.sizeOf_spec]
    omega
  · have := List.sizeOf_lt_of_mem (List.mem_of_getElem? h)
    simp only [disjunction.sizeOf_spec]
    omega
  · cases h

theorem exists_moves_of_mem_occurrences {address : Address} {node : Node} {o : Occurrence}
    (h : o ∈ occurrences address node) :
    ∃ moves, o.address = address ++ moves ∧ node.at? moves = some o.node := by
  rcases mem_occurrences_iff_child.mp h with rfl | ⟨move, child, hchild, hbelow⟩
  · exact ⟨[], (List.append_nil address).symm, rfl⟩
  · have := sizeOf_lt_of_child? hchild
    obtain ⟨moves, haddress, hnode⟩ := exists_moves_of_mem_occurrences hbelow
    refine ⟨move :: moves, ?_, ?_⟩
    · rw [haddress, List.append_assoc, List.singleton_append]
    · rw [at?, hchild, Option.bind_some, hnode]
termination_by sizeOf node

/-- The occurrences in a tree are the places that moves from it lead to. -/
theorem mem_occurrences_iff {address : Address} {node : Node} {o : Occurrence} :
    o ∈ occurrences address node ↔
      ∃ moves, o.address = address ++ moves ∧ node.at? moves = some o.node := by
  refine ⟨exists_moves_of_mem_occurrences, ?_⟩
  rintro ⟨moves, haddress, hnode⟩
  induction moves generalizing address node with
  | nil =>
      obtain rfl : node = o.node := Option.some.inj hnode
      rw [List.append_nil] at haddress
      exact haddress ▸ self_mem_occurrences o.address o.node
  | cons move rest ih =>
      rw [at?] at hnode
      obtain ⟨child, hchild, hrest⟩ := Option.bind_eq_some_iff.mp hnode
      refine mem_occurrences_iff_child.mpr (Or.inr ⟨move, child, hchild, ?_⟩)
      apply ih
      · rw [haddress, List.append_assoc, List.singleton_append]
      · exact hrest

theorem mem_occurrences_root_iff {root : Node} {o : Occurrence} :
    o ∈ occurrences [] root ↔ root.at? o.address = some o.node := by
  rw [mem_occurrences_iff]
  constructor
  · rintro ⟨moves, haddress, hnode⟩
    rwa [haddress]
  · exact fun h => ⟨o.address, rfl, h⟩

theorem exists_address_of_mem_occurrencesAll {address : Address} {move : Nat → Move} {index : Nat}
    {nodes : List Node} {o : Occurrence} (h : o ∈ occurrencesAll address move index nodes) :
    ∃ i moves, o.address = address ++ move (index + i) :: moves := by
  obtain ⟨i, child, -, hchild⟩ := mem_occurrencesAll_iff.mp h
  obtain ⟨moves, haddress, -⟩ := mem_occurrences_iff.mp hchild
  refine ⟨i, moves, ?_⟩
  rw [haddress, List.append_assoc, List.singleton_append]

mutual

/-- No two occurrences in a tree have the same address. -/
theorem pairwise_occurrences (address : Address) (node : Node) :
    (node.occurrences address).Pairwise fun o o' => o.address ≠ o'.address := by
  have below {move : Nat → Move} {nodes : List Node} :
      ∀ o ∈ occurrencesAll address move 0 nodes, address ≠ o.address := by
    intro o ho
    obtain ⟨i, moves, haddress⟩ := exists_address_of_mem_occurrencesAll ho
    rw [haddress]
    exact fun h => List.cons_ne_nil _ _ (List.self_eq_append_right.mp h)
  cases node with
  | alternative body | group _ body _ _ =>
      rw [occurrences]
      refine List.pairwise_cons.mpr ⟨below, ?_⟩
      exact pairwise_occurrencesAll address (fun _ _ h => Move.element.inj h) 0 body
  | disjunction branches =>
      rw [occurrences]
      refine List.pairwise_cons.mpr ⟨below, ?_⟩
      exact pairwise_occurrencesAll address (fun _ _ h => Move.branch.inj h) 0 branches
  | quantifier min max greedy body shorthand =>
      rw [occurrences]
      refine List.pairwise_cons.mpr ⟨fun o ho => ?_, pairwise_occurrences _ body⟩
      obtain ⟨moves, haddress, -⟩ := mem_occurrences_iff.mp ho
      rw [haddress, List.append_assoc]
      exact fun h => List.cons_ne_nil _ _ (List.self_eq_append_right.mp h)
  | _ => exact List.pairwise_singleton _ _
termination_by sizeOf node

theorem pairwise_occurrencesAll (address : Address) {move : Nat → Move}
    (distinct : ∀ i j, move i = move j → i = j) (index : Nat) (nodes : List Node) :
    (occurrencesAll address move index nodes).Pairwise fun o o' => o.address ≠ o'.address := by
  cases nodes with
  | nil =>
      rw [occurrencesAll]
      exact List.Pairwise.nil
  | cons node rest =>
      rw [occurrencesAll]
      refine List.pairwise_append.mpr ⟨pairwise_occurrences _ node,
        pairwise_occurrencesAll address distinct (index + 1) rest, ?_⟩
      intro o ho o' ho' heq
      obtain ⟨moves, haddress, -⟩ := mem_occurrences_iff.mp ho
      obtain ⟨i, moves', haddress'⟩ := exists_address_of_mem_occurrencesAll ho'
      rw [haddress, haddress', List.append_assoc, List.append_cancel_left_eq] at heq
      have := distinct _ _ (List.cons.inj heq).1
      omega
termination_by sizeOf nodes

end

/-- A node in the tree of a pattern: a term, or a sequence or choice of terms. -/
def IsPart (node : Node) : Prop := node.IsTerm ∨ node.IsPattern

/-- A child of a part of a pattern is one, too. -/
theorem IsPart.child? {node child : Node} (h : node.IsPart) {move : Move}
    (hchild : node.child? move = some child) : child.IsPart := by
  have element {body : List Node} {i : Nat} (terms : ∀ term ∈ body, IsTerm term)
      (hi : body[i]? = some child) : child.IsPart :=
    Or.inl (terms child (List.mem_of_getElem? hi))
  rcases h with h | h
  · cases h with
    | run _ terms =>
        cases move with
        | element i => exact element terms hchild
        | _ => cases hchild
    | choice _ several terms =>
        cases move with
        | element i =>
            obtain rfl := List.mem_singleton.mp (List.mem_of_getElem? hchild)
            exact Or.inr (.choice several terms)
        | _ => cases hchild
    | quantifier _ _ term _ _ =>
        cases move with
        | repeated => exact Option.some.inj hchild ▸ Or.inl term
        | _ => cases hchild
    | _ => cases move <;> cases hchild
  · cases h with
    | run terms =>
        cases move with
        | element i => exact element terms hchild
        | _ => cases hchild
    | choice _ terms =>
        cases move with
        | branch i =>
            obtain ⟨branch, hbranch, rfl⟩ := List.mem_map.mp (List.mem_of_getElem? hchild)
            exact Or.inr (.run (terms branch hbranch))
        | _ => cases hchild

theorem IsPart.at? {node inner : Node} (h : node.IsPart) {moves : Address}
    (hat : node.at? moves = some inner) : inner.IsPart := by
  induction moves generalizing node with
  | nil => exact Option.some.inj hat ▸ h
  | cons move rest ih =>
      rw [Node.at?] at hat
      obtain ⟨child, hchild, hrest⟩ := Option.bind_eq_some_iff.mp hat
      exact ih (h.child? hchild) hrest

theorem IsPart.of_mem_occurrences {address : Address} {node : Node} {o : Occurrence}
    (h : node.IsPart) (ho : o ∈ occurrences address node) : o.node.IsPart := by
  obtain ⟨moves, -, hnode⟩ := mem_occurrences_iff.mp ho
  exact h.at? hnode

theorem IsPart.branches_ne_nil {branches : List Node} (h : (disjunction branches).IsPart) :
    branches ≠ [] := by
  rcases h with h | h
  · cases h
  · cases h with
    | choice several terms =>
        rintro heq
        rw [List.map_eq_nil_iff.mp heq] at several
        exact absurd several (by decide)

end RegexTrace.Node
