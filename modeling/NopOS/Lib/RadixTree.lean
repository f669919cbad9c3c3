import Mathlib.Tactic

/-!
# Radix trees stored in tables

A radix tree is laid out in tables of slots.  A slot is absent, holds a leaf,
or names a child table; what its content means may depend on the depth at
which its table is met.  `lookup` follows a key from the root, and `tableAt`
follows a path of slots without looking at leaves.

The store is arbitrary: nothing prevents two slots from naming one table.
`IsTree` says that this does not happen.  Under it a store may be changed at
one slot and every key which does not pass through that slot keeps its
result.  The two slot changes an implementation makes, replacing a slot which
names no table and linking a fresh table, preserve `IsTree`.
-/

namespace NopOS.Lib.RadixTree

/-- The content of one slot. -/
inductive Node (Table Label Leaf : Type*) where
  | absent
  | leaf (value : Leaf)
  | child (table : Table) (label : Label)

/-- What a slot of a table holds when the table is met at a given depth. -/
abbrev Store (Table Index Label Leaf : Type*) :=
  Nat → Table → Index → Node Table Label Leaf

/--
A successful lookup: the labels of the child slots passed from the root, the
leaf, and the part of the key below the leaf.
-/
@[ext]
structure Found (Index Label Leaf : Type*) where
  labels : List Label
  value : Leaf
  rest : List Index

/-- Put further labels above a lookup result. -/
def Found.below {Index Label Leaf : Type*}
    (above : List Label) (found : Found Index Label Leaf) :
    Found Index Label Leaf :=
  { found with labels := above ++ found.labels }

variable {Table Index Label Leaf : Type*}

/-- Follow a key from a table met at `depth`. -/
def lookupFrom (store : Store Table Index Label Leaf) :
    Nat → Table → List Index → Option (Found Index Label Leaf)
  | _, _, [] => none
  | depth, table, index :: rest =>
    match store depth table index with
    | .absent => none
    | .leaf value => some ⟨[], value, rest⟩
    | .child next label =>
        (lookupFrom store (depth + 1) next rest).map (Found.below [label])

/-- The table reached along a path of child slots. -/
def tableFrom (store : Store Table Index Label Leaf) :
    Nat → Table → List Index → Option Table
  | _, table, [] => some table
  | depth, table, index :: rest =>
    match store depth table index with
    | .child next _ => tableFrom store (depth + 1) next rest
    | _ => none

/-- The labels of the child slots along a path. -/
def labelsFrom (store : Store Table Index Label Leaf) :
    Nat → Table → List Index → List Label
  | _, _, [] => []
  | depth, table, index :: rest =>
    match store depth table index with
    | .child next label => label :: labelsFrom store (depth + 1) next rest
    | _ => []

/-- Lookup from the root table. -/
abbrev lookup (store : Store Table Index Label Leaf) (root : Table)
    (key : List Index) : Option (Found Index Label Leaf) :=
  lookupFrom store 0 root key

/-- Table reached from the root table. -/
abbrev tableAt (store : Store Table Index Label Leaf) (root : Table)
    (path : List Index) : Option Table :=
  tableFrom store 0 root path

/-! ## Composition along paths -/

theorem tableFrom_append
    (store : Store Table Index Label Leaf) (depth : Nat) (table : Table)
    (path rest : List Index) :
    tableFrom store depth table (path ++ rest) =
      (tableFrom store depth table path).bind fun reached =>
        tableFrom store (depth + path.length) reached rest := by
  induction path generalizing depth table with
  | nil => simp [tableFrom]
  | cons index path induction =>
      simp only [List.cons_append, tableFrom]
      cases store depth table index with
      | absent => rfl
      | leaf value => rfl
      | child next label =>
          simp only [induction, List.length_cons]
          congr 1
          funext reached
          congr 1
          omega

/-- A path extended by one slot reaches the table that slot names. -/
theorem tableAt_snoc_iff
    (store : Store Table Index Label Leaf) (root : Table)
    (path : List Index) (index : Index) (next : Table) :
    tableAt store root (path ++ [index]) = some next ↔
      ∃ table label,
        tableAt store root path = some table ∧
          store path.length table index = .child next label := by
  rw [tableAt, tableFrom_append, Option.bind_eq_some_iff]
  constructor
  · rintro ⟨table, reached, step⟩
    refine ⟨table, ?_⟩
    simp only [tableFrom, Nat.zero_add] at step
    cases slot : store path.length table index with
    | absent => simp [slot] at step
    | leaf value => simp [slot] at step
    | child child label =>
        simp only [slot, Option.some.injEq] at step
        subst child
        exact ⟨label, reached, rfl⟩
  · rintro ⟨table, label, reached, slot⟩
    exact ⟨table, reached, by simp [tableFrom, slot]⟩

/-- A lookup goes on where a path has led. -/
theorem lookupFrom_append
    (store : Store Table Index Label Leaf) (depth : Nat)
    (table reached : Table) (path rest : List Index)
    (follows : tableFrom store depth table path = some reached) :
    lookupFrom store depth table (path ++ rest) =
      (lookupFrom store (depth + path.length) reached rest).map
        (Found.below (labelsFrom store depth table path)) := by
  induction path generalizing depth table with
  | nil =>
      simp only [tableFrom, Option.some.injEq] at follows
      subst table
      simp only [List.nil_append, List.length_nil, Nat.add_zero, labelsFrom]
      cases lookupFrom store depth reached rest <;> rfl
  | cons index path induction =>
      simp only [tableFrom] at follows
      simp only [List.cons_append, lookupFrom, labelsFrom]
      cases slot : store depth table index with
      | absent => simp [slot] at follows
      | leaf value => simp [slot] at follows
      | child next label =>
          simp only [slot] at follows ⊢
          rw [induction (depth + 1) next follows, List.length_cons,
            show depth + 1 + path.length = depth + (path.length + 1) by omega]
          cases lookupFrom store (depth + (path.length + 1)) reached rest <;>
            simp [Found.below]

/-- Every label along a followed path satisfies what all child slots satisfy. -/
theorem forall_labelsFrom
    (store : Store Table Index Label Leaf) (root : Table)
    (property : Label → Prop)
    (childLabels :
      ∀ {path table index next label},
        tableAt store root path = some table →
          store path.length table index = .child next label →
            property label)
    (path : List Index) :
    ∀ label ∈ labelsFrom store 0 root path, property label := by
  suffices general :
      ∀ (rest met : List Index) (table : Table),
        tableAt store root met = some table →
          ∀ label ∈ labelsFrom store met.length table rest,
            property label by
    exact general path [] root rfl
  intro rest
  induction rest with
  | nil => simp [labelsFrom]
  | cons index rest induction =>
      intro met table reached label member
      simp only [labelsFrom] at member
      cases slot : store met.length table index with
      | absent => simp [slot] at member
      | leaf value => simp [slot] at member
      | child next childLabel =>
          simp only [slot, List.mem_cons] at member
          rcases member with rfl | member
          · exact childLabels reached slot
          · have reachedNext :
                tableAt store root (met ++ [index]) = some next :=
              (tableAt_snoc_iff store root met index next).2
                ⟨table, childLabel, reached, slot⟩
            exact induction (met ++ [index]) next reachedNext label
              (by simpa using member)

/-! ## Stores which agree along a key -/

section Agreement

variable {store changed : Store Table Index Label Leaf} {root : Table}

/-- What is found along a key, a leaf or a table, depends on the slots which
the key passes. -/
theorem along_congr
    {key : List Index}
    (agree :
      ∀ {met rest : List Index} {table : Table} {index : Index},
        key = met ++ index :: rest →
          tableAt store root met = some table →
            changed met.length table index = store met.length table index) :
    lookup changed root key = lookup store root key ∧
      tableAt changed root key = tableAt store root key := by
  suffices general :
      ∀ (rest met : List Index) (table : Table),
        key = met ++ rest → tableAt store root met = some table →
          lookupFrom changed met.length table rest =
              lookupFrom store met.length table rest ∧
            tableFrom changed met.length table rest =
              tableFrom store met.length table rest by
    exact general key [] root rfl rfl
  intro rest
  induction rest with
  | nil => simp [lookupFrom, tableFrom]
  | cons index rest induction =>
      intro met table split reached
      simp only [lookupFrom, tableFrom, agree split reached]
      cases slot : store met.length table index with
      | absent => exact ⟨rfl, rfl⟩
      | leaf value => exact ⟨rfl, rfl⟩
      | child next label =>
          have reachedNext :
              tableAt store root (met ++ [index]) = some next :=
            (tableAt_snoc_iff store root met index next).2
              ⟨table, label, reached, slot⟩
          have below :=
            induction (met ++ [index]) next (by simpa using split)
              reachedNext
          simp only [List.length_append, List.length_singleton] at below
          simp only [below, and_self]

/-- A lookup depends on the slots which it passes. -/
theorem lookup_congr
    {key : List Index}
    (agree :
      ∀ {met rest : List Index} {table : Table} {index : Index},
        key = met ++ index :: rest →
          tableAt store root met = some table →
            changed met.length table index = store met.length table index) :
    lookup changed root key = lookup store root key :=
  (along_congr agree).1

/-- The table reached along a path depends on the slots of the path. -/
theorem tableAt_congr
    {path : List Index}
    (agree :
      ∀ {met rest : List Index} {table : Table} {index : Index},
        path = met ++ index :: rest →
          tableAt store root met = some table →
            changed met.length table index = store met.length table index) :
    tableAt changed root path = tableAt store root path :=
  (along_congr agree).2

end Agreement

/-! ## Trees and changes at one slot -/

/-- No table is reached along two different paths. -/
def IsTree (store : Store Table Index Label Leaf) (root : Table) : Prop :=
  ∀ {first second : List Index} {table : Table},
    tableAt store root first = some table →
      tableAt store root second = some table → first = second

/--
`changed` differs from `store`, among the slots of the tables met from the
root, at most in slot `index` of the table at `path`.
-/
structure ChangesSlot
    (store changed : Store Table Index Label Leaf) (root : Table)
    (path : List Index) (table : Table) (index : Index) : Prop where
  reached : tableAt store root path = some table
  agree :
    ∀ {met : List Index} {metTable : Table} {metIndex : Index},
      tableAt store root met = some metTable →
        (metTable ≠ table ∨ metIndex ≠ index) →
          changed met.length metTable metIndex =
            store met.length metTable metIndex

namespace ChangesSlot

variable
    {store changed : Store Table Index Label Leaf} {root : Table}
    {path : List Index} {table : Table} {index : Index}

/-- Off the changed slot the two stores agree along every path. -/
theorem slot_eq_of_not_through
    (change : ChangesSlot store changed root path table index)
    (tree : IsTree store root)
    {met rest : List Index} {metTable : Table} {metIndex : Index}
    (reached : tableAt store root met = some metTable)
    (notThrough : ¬ (path ++ [index]) <+: (met ++ metIndex :: rest)) :
    changed met.length metTable metIndex =
      store met.length metTable metIndex := by
  apply change.agree reached
  by_contra same
  simp only [not_or, not_not] at same
  obtain ⟨rfl, rfl⟩ := same
  have samePath : met = path := tree reached change.reached
  subst met
  exact notThrough ⟨rest, by simp⟩

/-- A key which does not pass through the changed slot keeps its result. -/
theorem lookup_of_not_through
    (change : ChangesSlot store changed root path table index)
    (tree : IsTree store root)
    {key : List Index} (notThrough : ¬ (path ++ [index]) <+: key) :
    lookup changed root key = lookup store root key := by
  apply lookup_congr
  rintro met rest metTable metIndex rfl reached
  exact change.slot_eq_of_not_through tree reached notThrough

/-- A path which does not pass through the changed slot keeps its table. -/
theorem tableAt_of_not_through
    (change : ChangesSlot store changed root path table index)
    (tree : IsTree store root)
    {other : List Index} (notThrough : ¬ (path ++ [index]) <+: other) :
    tableAt changed root other = tableAt store root other := by
  apply tableAt_congr
  rintro met rest metTable metIndex rfl reached
  exact change.slot_eq_of_not_through tree reached notThrough

theorem not_extends_self (path : List Index) (index : Index) :
    ¬ (path ++ [index]) <+: path := by
  intro extends_
  have lengths := extends_.length_le
  simp at lengths

/-- The table which holds the changed slot is still reached. -/
theorem reached_changed
    (change : ChangesSlot store changed root path table index)
    (tree : IsTree store root) :
    tableAt changed root path = some table := by
  rw [change.tableAt_of_not_through tree (not_extends_self path index)]
  exact change.reached

end ChangesSlot

/-! ## Replacing a slot which names no table -/

/-- The slot names no table, neither before nor after the change. -/
structure ReplacesLeaf
    (store changed : Store Table Index Label Leaf) (root : Table)
    (path : List Index) (table : Table) (index : Index) : Prop
    extends ChangesSlot store changed root path table index where
  noChild : ∀ next label, store path.length table index ≠ .child next label
  noChildAfter :
    ∀ next label, changed path.length table index ≠ .child next label

namespace ReplacesLeaf

variable
    {store changed : Store Table Index Label Leaf} {root : Table}
    {path : List Index} {table : Table} {index : Index}

private theorem tableAt_through_eq_none
    (other : Store Table Index Label Leaf)
    (reached : tableAt other root path = some table)
    (noChild : ∀ next label, other path.length table index ≠ .child next label)
    {key : List Index} (through : (path ++ [index]) <+: key) :
    tableAt other root key = none := by
  obtain ⟨rest, rfl⟩ := through
  have stops : tableAt other root (path ++ [index]) = none := by
    rw [← Option.not_isSome_iff_eq_none, Option.isSome_iff_exists]
    rintro ⟨next, follows⟩
    obtain ⟨slotTable, label, slotReached, slot⟩ :=
      (tableAt_snoc_iff other root path index next).1 follows
    have sameTable : slotTable = table :=
      Option.some.inj (slotReached.symm.trans reached)
    subst slotTable
    exact noChild next label slot
  rw [tableAt, tableFrom_append]
  simp only [tableAt] at stops
  simp [stops]

/-- No table is gained or lost. -/
theorem tableAt_eq
    (change : ReplacesLeaf store changed root path table index)
    (tree : IsTree store root) (other : List Index) :
    tableAt changed root other = tableAt store root other := by
  by_cases through : (path ++ [index]) <+: other
  · rw [tableAt_through_eq_none store change.reached change.noChild through,
      tableAt_through_eq_none changed
        (change.toChangesSlot.reached_changed tree)
        change.noChildAfter through]
  · exact change.toChangesSlot.tableAt_of_not_through tree through

/-- A leaf that is replaced leaves the tree a tree. -/
theorem isTree
    (change : ReplacesLeaf store changed root path table index)
    (tree : IsTree store root) :
    IsTree changed root := by
  intro first second reachedTable firstReaches secondReaches
  rw [change.tableAt_eq tree] at firstReaches secondReaches
  exact tree firstReaches secondReaches

end ReplacesLeaf

/-! ## Linking a fresh table -/

/-- A slot which named no table now names a fresh table without children. -/
structure LinksTable
    (store changed : Store Table Index Label Leaf) (root : Table)
    (path : List Index) (table : Table) (index : Index)
    (fresh : Table) (label : Label) : Prop
    extends ChangesSlot store changed root path table index where
  noChild : ∀ next label, store path.length table index ≠ .child next label
  linked : changed path.length table index = .child fresh label
  unmet : ∀ other, tableAt store root other ≠ some fresh
  childless :
    ∀ freshIndex next label,
      changed (path.length + 1) fresh freshIndex ≠ .child next label

namespace LinksTable

variable
    {store changed : Store Table Index Label Leaf} {root : Table}
    {path : List Index} {table : Table} {index : Index}
    {fresh : Table} {label : Label}

theorem tableAt_fresh
    (change : LinksTable store changed root path table index fresh label)
    (tree : IsTree store root) :
    tableAt changed root (path ++ [index]) = some fresh :=
  (tableAt_snoc_iff changed root path index fresh).2
    ⟨table, label, change.toChangesSlot.reached_changed tree, change.linked⟩

/-- The tables met afterwards are those met before and the fresh one. -/
theorem tableAt_iff
    (change : LinksTable store changed root path table index fresh label)
    (tree : IsTree store root) (other : List Index) (met : Table) :
    tableAt changed root other = some met ↔
      tableAt store root other = some met ∨
        (other = path ++ [index] ∧ met = fresh) := by
  by_cases through : (path ++ [index]) <+: other
  · have lostBefore : tableAt store root other = none :=
      ReplacesLeaf.tableAt_through_eq_none store change.reached
        change.noChild through
    obtain ⟨rest, rfl⟩ := through
    rw [lostBefore]
    have freshReached := change.tableAt_fresh tree
    cases rest with
    | nil =>
        simp only [List.append_nil, freshReached, Option.some.injEq,
          reduceCtorEq, true_and, false_or]
        exact eq_comm
    | cons next rest =>
        have stops :
            tableAt changed root ((path ++ [index]) ++ next :: rest) = none :=
          ReplacesLeaf.tableAt_through_eq_none changed freshReached
            (show
              ∀ child childLabel,
                changed (path ++ [index]).length fresh next ≠
                  .child child childLabel by
              simpa using change.childless next)
            ⟨rest, by simp⟩
        rw [stops]
        simp
  · rw [change.toChangesSlot.tableAt_of_not_through tree through]
    constructor
    · exact Or.inl
    · rintro (before | ⟨rfl, -⟩)
      · exact before
      · exact (through (List.prefix_refl _)).elim

/-- A fresh table leaves the tree a tree. -/
theorem isTree
    (change : LinksTable store changed root path table index fresh label)
    (tree : IsTree store root) :
    IsTree changed root := by
  intro first second met firstReaches secondReaches
  rw [change.tableAt_iff tree] at firstReaches secondReaches
  rcases firstReaches with firstBefore | ⟨rfl, rfl⟩ <;>
    rcases secondReaches with secondBefore | ⟨rfl, sameFresh⟩
  · exact tree firstBefore secondBefore
  · subst met
    exact (change.unmet first firstBefore).elim
  · exact (change.unmet second secondBefore).elim
  · rfl

/-- A key through the linked slot continues in the fresh table. -/
theorem lookup_through
    (change : LinksTable store changed root path table index fresh label)
    (tree : IsTree store root) (rest : List Index) :
    lookup changed root (path ++ index :: rest) =
      (lookupFrom changed (path.length + 1) fresh rest).map
        (Found.below (labelsFrom changed 0 root (path ++ [index]))) := by
  have follows := change.tableAt_fresh tree
  have continues :=
    lookupFrom_append changed 0 root fresh (path ++ [index]) rest follows
  simpa using continues

/--
Linking an empty table under an absent slot changes no lookup: the slot gave
nothing before and the fresh table gives nothing afterwards.
-/
theorem lookup_eq
    (change : LinksTable store changed root path table index fresh label)
    (tree : IsTree store root)
    (absent : store path.length table index = .absent)
    (empty :
      ∀ freshIndex, changed (path.length + 1) fresh freshIndex = .absent)
    (key : List Index) :
    lookup changed root key = lookup store root key := by
  by_cases through : (path ++ [index]) <+: key
  · obtain ⟨rest, rfl⟩ := through
    have before : lookup store root (path ++ [index] ++ rest) = none := by
      have continues :=
        lookupFrom_append store 0 root table path (index :: rest)
          change.reached
      simpa [lookupFrom, absent] using continues
    have after := change.lookup_through tree rest
    rw [before, List.append_assoc, List.singleton_append, after]
    cases rest with
    | nil => rfl
    | cons next rest => simp [lookupFrom, empty]
  · exact change.toChangesSlot.lookup_of_not_through tree through

end LinksTable

end NopOS.Lib.RadixTree
