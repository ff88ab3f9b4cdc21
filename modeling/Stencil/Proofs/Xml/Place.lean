import Mathlib.Data.List.Basic
import Stencil.Xml.Basic

/-!
# Places in a tree

A node of a tree is found by its place: the positions among their siblings of the nodes on the way
to it.  Listing the nodes with their places from the top, and each before what is inside of it, gives
document order, in which places are ordered like the words of a dictionary.
-/

namespace Stencil.Xml.Node

/-- The positions of the nodes on the way to a node, the innermost first. -/
abbrev Place := List Nat

/-- The node of a tree at a place. -/
def at? (root : Node) : Place → Option Node
  | [] => some root
  | position :: above => (at? root above).bind fun node => node.children[position]?

/-- A place comes before another in document order. -/
def Before (first second : Place) : Prop :=
  first.reverse < second.reverse

mutual

/-- A node and all nodes inside of it in document order, with their places. -/
def placed (place : Place) : Node → List (Place × Node)
  | element name attributes children =>
    (place, element name attributes children) :: placedAll place 0 children
  | text content => [(place, text content)]
  | aside => [(place, aside)]

/-- Siblings from a position on and all nodes inside of them in document order, with their places. -/
def placedAll (parent : Place) (position : Nat) : List Node → List (Place × Node)
  | [] => []
  | node :: rest => placed (position :: parent) node ++ placedAll parent (position + 1) rest

end

variable {root node inside : Node} {place : Place}

/-! ### Ways to a node -/

theorem at?_append (root : Node) (inner outer : Place) :
    root.at? (inner ++ outer) = (root.at? outer).bind (·.at? inner) := by
  induction inner with
  | nil => cases outer_eq : root.at? outer <;> simp [at?, outer_eq]
  | cons position inner ih => simp only [List.cons_append, at?, ih, Option.bind_assoc]

/-- The way to a node inside of another begins with one of its children. -/
theorem at?_append_singleton (root : Node) (inner : Place) (position : Nat) :
    root.at? (inner ++ [position]) = root.children[position]?.bind (·.at? inner) :=
  at?_append root inner [position]

/-- The first of the later children of a node is found under its position. -/
theorem at?_child {parent : Place} {position : Nat} {child : Node} {others : List Node}
    (found : root.at? parent = some node) (rest : node.children.drop position = child :: others) :
    root.at? (position :: parent) = some child ∧ node.children.drop (position + 1) = others := by
  constructor
  · rw [at?, found, Option.bind_some, ← List.head?_drop, rest, List.head?_cons]
  · rw [← List.tail_drop, rest, List.tail_cons]

/-- What is found on a way from a node is the node itself or is found on a way from a child. -/
theorem exists_at?_iff {found : Place} :
    (∃ inner, found = inner ++ place ∧ node.at? inner = some inside) ↔
      (found = place ∧ inside = node) ∨
        ∃ index child inner, node.children[index]? = some child ∧
          found = inner ++ index :: place ∧ child.at? inner = some inside := by
  constructor
  · rintro ⟨inner, rfl, at_inner⟩
    rcases List.eq_nil_or_concat inner with rfl | ⟨above, index, rfl⟩
    · exact .inl ⟨rfl, (Option.some.inj at_inner).symm⟩
    · rw [List.concat_eq_append] at at_inner ⊢
      rw [at?_append_singleton, Option.bind_eq_some_iff] at at_inner
      obtain ⟨child, child_eq, at_above⟩ := at_inner
      exact .inr ⟨index, child, above, child_eq, by simp, at_above⟩
  · rintro (⟨rfl, rfl⟩ | ⟨index, child, inner, child_eq, rfl, at_inner⟩)
    · exact ⟨[], rfl, rfl⟩
    · refine ⟨inner ++ [index], by simp, ?_⟩
      rw [at?_append_singleton, child_eq]
      exact at_inner

mutual

/-- Exactly the nodes that are found inside of a node are listed, under their places. -/
theorem mem_placed_iff (place : Place) (node : Node) (found : Place) (inside : Node) :
    (found, inside) ∈ placed place node ↔
      ∃ inner, found = inner ++ place ∧ node.at? inner = some inside := by
  cases node with
  | text content => simp [exists_at?_iff, placed, children]
  | aside => simp [exists_at?_iff, placed, children]
  | element name attributes nodes =>
      rw [placed, List.mem_cons, Prod.mk.injEq, mem_placedAll_iff place 0 nodes found inside,
        exists_at?_iff]
      simp only [Nat.zero_add, children]

theorem mem_placedAll_iff (parent : Place) (position : Nat) (nodes : List Node) (found : Place)
    (inside : Node) :
    (found, inside) ∈ placedAll parent position nodes ↔
      ∃ index node inner, nodes[index]? = some node ∧
        found = inner ++ (position + index) :: parent ∧ node.at? inner = some inside := by
  cases nodes with
  | nil => simp [placedAll]
  | cons node rest =>
      rw [placedAll, List.mem_append, mem_placed_iff (position :: parent) node found inside,
        mem_placedAll_iff parent (position + 1) rest found inside]
      constructor
      · rintro (⟨inner, rfl, at_inner⟩ | ⟨index, child, inner, child_eq, rfl, at_inner⟩)
        · exact ⟨0, node, inner, rfl, rfl, at_inner⟩
        · refine ⟨index + 1, child, inner, child_eq, ?_, at_inner⟩
          rw [Nat.add_assoc, Nat.add_comm 1]
      · rintro ⟨index, child, inner, child_eq, rfl, at_inner⟩
        cases index with
        | zero =>
            obtain rfl := Option.some.inj child_eq
            exact .inl ⟨inner, rfl, at_inner⟩
        | succ index =>
            refine .inr ⟨index, child, inner, child_eq, ?_, at_inner⟩
            rw [Nat.add_assoc, Nat.add_comm 1]

end

/-! ### Document order -/

theorem not_before_self (place : Place) : ¬Before place place :=
  List.lt_irrefl _

theorem Before.trans {first second third : Place} (before : Before first second)
    (after : Before second third) : Before first third :=
  List.lt_trans before after

/-- A node comes before what is inside of it. -/
theorem before_inside (place inner : Place) (position : Nat) :
    Before place (inner ++ position :: place) := by
  rw [Before, List.reverse_append, List.reverse_cons, List.append_assoc]
  nth_rewrite 1 [← List.append_nil place.reverse]
  exact List.append_left_lt (List.nil_lt_cons _ _)

/-- A node and what is inside of it come before its later siblings. -/
theorem before_sibling {position later : Nat} (less : position < later)
    (parent inner inner' : Place) :
    Before (inner ++ position :: parent) (inner' ++ later :: parent) := by
  rw [Before, List.reverse_append, List.reverse_append, List.reverse_cons, List.reverse_cons,
    List.append_assoc, List.append_assoc]
  exact List.append_left_lt (List.cons_lt_cons_iff.mpr (.inl less))

mutual

theorem pairwise_placed (place : Place) (node : Node) :
    (placed place node).Pairwise fun first second => Before first.1 second.1 := by
  cases node with
  | text content => exact List.pairwise_singleton _ _
  | aside => exact List.pairwise_singleton _ _
  | element name attributes nodes =>
      rw [placed, List.pairwise_cons]
      refine ⟨?_, pairwise_placedAll place 0 nodes⟩
      rintro ⟨found, inside⟩ foundMem
      obtain ⟨index, _, inner, _, rfl, _⟩ :=
        (mem_placedAll_iff place 0 nodes found inside).mp foundMem
      exact before_inside place inner _

theorem pairwise_placedAll (parent : Place) (position : Nat) (nodes : List Node) :
    (placedAll parent position nodes).Pairwise fun first second => Before first.1 second.1 := by
  cases nodes with
  | nil => exact .nil
  | cons node rest =>
      rw [placedAll, List.pairwise_append]
      refine ⟨pairwise_placed _ node, pairwise_placedAll parent (position + 1) rest, ?_⟩
      rintro ⟨found, inside⟩ foundMem ⟨found', inside'⟩ foundMem'
      obtain ⟨inner, rfl, _⟩ := (mem_placed_iff _ node found inside).mp foundMem
      obtain ⟨index, _, inner', _, rfl, _⟩ :=
        (mem_placedAll_iff parent _ rest found' inside').mp foundMem'
      exact before_sibling (by omega) parent inner inner'

end

/-- Places in document order are listed once. -/
theorem nodup_of_pairwise_before {places : List Place} (ordered : places.Pairwise Before) :
    places.Nodup := by
  refine ordered.imp ?_
  rintro place _ before rfl
  exact not_before_self place before

/-- There is one way to list places in document order. -/
theorem eq_of_pairwise_before {places others : List Place} (ordered : places.Pairwise Before)
    (ordered' : others.Pairwise Before) (same : ∀ place, place ∈ places ↔ place ∈ others) :
    places = others := by
  refine List.Perm.eq_of_pairwise (fun place other _ _ before after => ?_) ordered ordered'
    ((List.perm_ext_iff_of_nodup (nodup_of_pairwise_before ordered)
      (nodup_of_pairwise_before ordered')).mpr same)
  exact absurd (before.trans after) (not_before_self place)

end Stencil.Xml.Node
