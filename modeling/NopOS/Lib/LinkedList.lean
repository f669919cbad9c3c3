import Mathlib.Tactic

/-!
# Lists linked through a memory

A list of nodes is linked from a head if the head is the first node, every
node leads to the one behind it, and the last one to a stop.
-/

namespace NopOS.Lib.LinkedList

variable {Node : Type*}

/-- The nodes met from a head up to the stop. -/
def Linked (next : Node → Node) (stop : Node) : Node → List Node → Prop
  | head, [] => head = stop
  | head, node :: rest =>
      head = node ∧ node ≠ stop ∧ Linked next stop (next node) rest

variable {next : Node → Node} {stop head : Node} {nodes : List Node}

/-- Only the links of the nodes matter. -/
theorem Linked.congr
    {other : Node → Node} (linked : Linked next stop head nodes)
    (same : ∀ node ∈ nodes, other node = next node) :
    Linked other stop head nodes := by
  induction nodes generalizing head with
  | nil => exact linked
  | cons node rest induction =>
      rcases linked with ⟨isHead, notStop, later⟩
      refine ⟨isHead, notStop, ?_⟩
      rw [same node List.mem_cons_self]
      exact induction later
        (fun later member => same later (List.mem_cons_of_mem node member))

end NopOS.Lib.LinkedList
