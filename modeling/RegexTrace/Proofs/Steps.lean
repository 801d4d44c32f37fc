import Mathlib.Logic.Relation
import RegexTrace.Proofs.Spelling

/-!
# The steps of a reading

Whatever a step reads becomes part of the tree, so what holds of all nodes of the tree holds of all
that is read on the way. And no code point of a pattern is taken by two steps.
-/

namespace RegexTrace.Pattern

namespace Level

/-- The nodes of a level. -/
def nodes (level : Level) : List Node := level.allBranches.flatMap Node.subnodesAll

variable {level : Level} {node : Node}

theorem mem_nodes : node ∈ level.nodes ↔
    ∃ branch ∈ level.allBranches, node ∈ Node.subnodesAll branch := by
  rw [nodes, List.mem_flatMap]

/-- The nodes of a term that is added are added. -/
theorem mem_nodes_push {term : Node} :
    node ∈ (level.push term).nodes ↔ node ∈ level.nodes ∨ node ∈ term.subnodes := by
  rw [mem_nodes, mem_nodes, allBranches_push, allBranches_eq]
  simp only [List.mem_append, List.mem_singleton, Node.mem_subnodesAll]
  constructor
  · rintro ⟨branch, hbranch | rfl, tree, htree, hnode⟩
    · exact Or.inl ⟨branch, Or.inl hbranch, tree, htree, hnode⟩
    · rcases List.mem_append.mp htree with htree | htree
      · exact Or.inl ⟨_, Or.inr rfl, tree, htree, hnode⟩
      · exact Or.inr (List.mem_singleton.mp htree ▸ hnode)
  · rintro (⟨branch, hbranch | rfl, tree, htree, hnode⟩ | hnode)
    · exact ⟨branch, Or.inl hbranch, tree, htree, hnode⟩
    · exact ⟨_, Or.inr rfl, tree, List.mem_append_left _ htree, hnode⟩
    · exact ⟨_, Or.inr rfl, term, List.mem_append_right _ List.mem_cons_self, hnode⟩

theorem nodes_split : level.split.nodes = level.nodes := by
  simp [nodes, allBranches_split, Node.subnodesAll]

theorem nodes_start : nodes {} = [] := by
  simp [nodes, allBranches, Node.subnodesAll]

/-- The nodes of a level are nodes of its tree. -/
theorem mem_root_of_mem_nodes (h : node ∈ level.nodes) : node ∈ level.root.subnodes := by
  obtain ⟨branch, hbranch, hnode⟩ := mem_nodes.mp h
  rcases level.root_cases with ⟨body, hbranches, hroot, -⟩ | ⟨-, hroot, -⟩
  · rw [hbranches] at hbranch
    rw [hroot, Node.subnodes, ← List.mem_singleton.mp hbranch]
    exact List.mem_cons_of_mem _ hnode
  · obtain ⟨tree, htree, hnode⟩ := Node.mem_subnodesAll.mp hnode
    rw [hroot, Node.subnodes]
    exact List.mem_cons_of_mem _ (Node.mem_subnodesAll_branches hnode htree hbranch)

theorem mem_body_of_mem_nodes (h : node ∈ level.nodes) :
    node ∈ Node.subnodesAll level.body := by
  obtain ⟨branch, hbranch, hnode⟩ := mem_nodes.mp h
  rcases level.root_cases with ⟨body, hbranches, -, hbody⟩ | ⟨-, hroot, hbody⟩
  · rw [hbranches] at hbranch
    rw [hbody, ← List.mem_singleton.mp hbranch]
    exact hnode
  · rw [hbody, ← hroot]
    exact Node.mem_subnodesAll.mpr ⟨_, List.mem_cons_self, mem_root_of_mem_nodes h⟩

end Level

/-- An atom is a node of its term, with all its nodes. -/
theorem mem_subnodes_of_readTerm {atom term node : Node} {start next taken : Nat} {t : Text}
    (h : readTerm atom start next t = .ok (term, taken)) (hnode : node ∈ atom.subnodes) :
    node ∈ term.subnodes := by
  unfold readTerm at h
  split at h
  · cases h
  · cases h
  · cases h
    exact hnode
  · split at h
    · cases h
    · cases h
      rw [Repetition.apply, Node.subnodes]
      exact List.mem_cons_of_mem _ hnode

namespace Progress

/-- The nodes that were read, at all levels. -/
def nodes (p : Progress) : List Node :=
  p.level.nodes ++ p.openings.flatMap fun opening => opening.outer.nodes

variable {p q : Progress} {pos taken : Nat} {c : CodePoint} {rest : Text}

/-- Nodes that were read stay. -/
theorem nodes_subset_of_step (h : p.step pos c rest = .ok (q, taken)) : p.nodes ⊆ q.nodes := by
  intro node hnode
  rcases step_cases h with ⟨-, rfl, -⟩ | ⟨-, opening, openings, term, hopenings, hterm, rfl⟩ |
    ⟨-, behaviour, name, -, rfl⟩ | ⟨-, atom, width, term, markWidth, -, -, rfl, -⟩
  · rw [nodes, Level.nodes_split]
    exact hnode
  · rw [nodes, hopenings, List.flatMap_cons] at hnode
    rw [nodes, List.mem_append, Level.mem_nodes_push]
    rcases List.mem_append.mp hnode with hnode | hnode
    · have hclosed : node ∈ (opening.close p.level).subnodes := by
        rw [Opening.close, Node.subnodes]
        exact List.mem_cons_of_mem _ (Level.mem_body_of_mem_nodes hnode)
      exact Or.inl (Or.inr (mem_subnodes_of_readTerm hterm hclosed))
    · rcases List.mem_append.mp hnode with hnode | hnode
      · exact Or.inl (Or.inl hnode)
      · exact Or.inr hnode
  · simpa [nodes, openGroup, Level.nodes_start] using hnode
  · rw [nodes, List.mem_append, Level.mem_nodes_push]
    rcases List.mem_append.mp hnode with hnode | hnode
    · exact Or.inl (Or.inl hnode)
    · exact Or.inr hnode

/-- Nodes that were read are nodes of the tree of the pattern. -/
theorem nodes_subset_of_run {t : Text} {parsed : Parsed}
    (h : Progress.run 0 pos p t = .ok parsed) : p.nodes ⊆ parsed.root.subnodes := by
  induction pos, p, t, h using Progress.run_induction with
  | done pos p h =>
      obtain ⟨level, openings, count⟩ := p
      rw [Progress.run, finish] at h
      cases openings with
      | cons opening openings => cases h
      | nil =>
          cases h
          intro node hnode
          rw [nodes, List.flatMap_nil, List.append_nil] at hnode
          exact Level.mem_root_of_mem_nodes hnode
  | step pos p c rest q taken h hrun hstep ih =>
      exact List.Subset.trans (nodes_subset_of_step hstep) ih

end Progress

section Steps

variable {pattern : Text}

/-- A step leads from one state of the reading, with its position and the text that is left, to the
next. -/
def Next : Progress × Nat × Text → Progress × Nat × Text → Prop := fun state next =>
  ∃ c rest taken, state.2.2 = c :: rest ∧ state.1.step state.2.1 c rest = .ok (next.1, taken) ∧
    next.2 = (state.2.1 + 1 + taken, rest.drop taken)

/-- A state has one next state. -/
theorem next_rightUnique : Relator.RightUnique Next := by
  rintro ⟨p, pos, t⟩ ⟨q, rest⟩ ⟨q', rest'⟩ ⟨c, more, taken, rfl, hstep, rfl⟩
    ⟨c', more', taken', hsplit, hstep', rfl⟩
  obtain ⟨rfl, rfl⟩ := List.cons.inj hsplit
  rw [hstep'] at hstep
  cases hstep
  rfl

/-- The reading of a pattern is a chain of steps. -/
theorem reflTransGen_of_reaches {p : Progress} {pos : Nat} {t : Text}
    (h : Reaches pattern p pos t) : Relation.ReflTransGen Next ({}, 0, pattern) (p, pos, t) := by
  induction h with
  | start => exact .refl
  | step before step ih => exact ih.tail ⟨_, _, _, rfl, step, rfl⟩

theorem pos_le_of_reflTransGen {state next : Progress × Nat × Text}
    (h : Relation.ReflTransGen Next state next) : state.2.1 ≤ next.2.1 := by
  induction h with
  | refl => exact Nat.le_refl _
  | tail _ hstep ih =>
      obtain ⟨c, rest, taken, -, -, heq⟩ := hstep
      rw [heq]
      exact Nat.le_trans ih (by simp only; omega)

/-- The reading of a pattern takes the code point at an index in the step that begins with `c`, as
the one that is `k` code points after it. -/
def StepAt (pattern : Text) (i : Nat) (c : CodePoint) (rest : Text) (k : Nat) : Prop :=
  ∃ p q pos taken, Reaches pattern p pos (c :: rest) ∧ p.step pos c rest = .ok (q, taken) ∧
    k ≤ taken ∧ i = pos + k

/-- The code point at an index is taken by one step only. -/
theorem StepAt.unique {i k k' : Nat} {c c' : CodePoint} {rest rest' : Text}
    (h : StepAt pattern i c rest k) (h' : StepAt pattern i c' rest' k') :
    c = c' ∧ rest = rest' ∧ k = k' := by
  obtain ⟨p, q, pos, taken, hreaches, hstep, hk, rfl⟩ := h
  obtain ⟨p', q', pos', taken', hreaches', hstep', hk', heq⟩ := h'
  -- a chain from one state to the other is empty, or else it goes on after all that is taken
  have hchain : ∀ {p p' q : Progress} {pos pos' taken : Nat} {c c' : CodePoint} {rest rest' : Text},
      p.step pos c rest = .ok (q, taken) →
      Relation.ReflTransGen Next (p, pos, c :: rest) (p', pos', c' :: rest') →
      (pos = pos' ∧ c = c' ∧ rest = rest') ∨ pos + taken < pos' := by
    intro p p' q pos pos' taken c c' rest rest' hstep hpath
    rcases hpath.cases_head with heq | ⟨next, hnext, hpath⟩
    · cases heq
      exact Or.inl ⟨rfl, rfl, rfl⟩
    · obtain ⟨d, more, n, hsplit, hstep', hpos⟩ := hnext
      obtain ⟨rfl, rfl⟩ := List.cons.inj hsplit
      have hle := pos_le_of_reflTransGen hpath
      rw [hstep] at hstep'
      obtain ⟨-, rfl⟩ := Prod.mk.inj (Except.ok.inj hstep')
      rw [hpos] at hle
      exact Or.inr (by simp only at hle; omega)
  rcases Relation.ReflTransGen.total_of_right_unique next_rightUnique
    (reflTransGen_of_reaches hreaches) (reflTransGen_of_reaches hreaches') with hpath | hpath
  · rcases hchain hstep hpath with ⟨rfl, rfl, rfl⟩ | hlt
    · exact ⟨rfl, rfl, by omega⟩
    · omega
  · rcases hchain hstep' hpath with ⟨rfl, rfl, rfl⟩ | hlt
    · exact ⟨rfl, rfl, by omega⟩
    · omega

end Steps

end RegexTrace.Pattern
