import Mathlib

/-!
# Dominators of the MIR Graph

Before the SSA form is built, `MIRGraph::ComputeDFSOrders` numbers the blocks
reachable from the entry by a depth-first search, giving each its post-order
index in `dfs_id`, and `MIRGraph::ComputeDominators` computes the immediate
dominators by the iteration of Cooper, Harvey and Kennedy over those indices,
then the dominator sets and the dominance frontiers.

The immediate dominators live in `i_dom_list_`, indexed by post-order index,
and `ComputeblockIDom` reads the entry of every predecessor of a block. A
predecessor the search never reached has no post-order index: its `dfs_id`
is the zero the arena allocated it with (`dfsId_of_not_mem`), so it is read as
the block of post-order index 0, usually the exit block. Once that block has
an immediate dominator, the unreachable predecessor joins the intersection,
and a block whose only live predecessor is deep in the graph gets an
immediate dominator too high up. Dead code after a return that falls through
into live code is enough (`deadFallThrough`).

## Main definitions

* `OnEveryPath`: A block on every path from one block to another.
* `BasicBlock`, `MIRGraph`: The blocks and edges the computation reads.
* `recordDFSOrders`, `computeDFSOrders`: The depth-first orders.
* `computeblockIDom`, `findCommonParent`: One round of the immediate
  dominator iteration, and the intersection of two dominator paths.
* `computeDominators`: Immediate dominators, dominators and frontiers.

## Theorems

* `onEveryPath_of_cut`: A block through which every edge into a set passes
  is on every path into the set.
* `dfsId_of_not_mem`: A block the search does not reach keeps `dfs_id` 0.
* `computeDominators_misses_dominator`: On `deadFallThrough` a block on
  every path to another is missing from its dominators.
-/

namespace ArtRuntime

namespace Compiler

/-! ### Paths -/

section Paths

variable {α : Type} (edge : α → α → Prop)

/-- `d` lies on every path from `a` to `b`: with `a` the entry, `d` dominates
    `b`. -/
def OnEveryPath (a b d : α) : Prop :=
  ∀ p : List α, p.IsChain edge → p.head? = some a → p.getLast? = some b → d ∈ p

/-- A cut: if a set holds `b` but not `a`, and every edge into the set from
    outside it leaves from `d`, then every path from `a` to `b` passes `d`. -/
theorem onEveryPath_of_cut (S : Set α) {a b d : α} (hb : b ∈ S) (ha : a ∉ S)
    (hcut : ∀ x y, edge x y → y ∈ S → x ∈ S ∨ x = d) : OnEveryPath edge a b d := by
  -- a path that ends at b and avoids d stays in S, back to its first block
  have key : ∀ (p : List α) (x : α), (x :: p).IsChain edge → (x :: p).getLast? = some b →
      d ∉ x :: p → x ∈ S := by
    intro p
    induction p with
    | nil =>
      intro x _ hlast _
      simp only [List.getLast?_singleton, Option.some.injEq] at hlast
      exact hlast ▸ hb
    | cons y p ih =>
      intro x hchain hlast hd
      have hxy : edge x y := (List.isChain_cons_cons.1 hchain).1
      have hy : y ∈ S := ih y (List.isChain_cons_cons.1 hchain).2
        (by rwa [List.getLast?_cons_cons] at hlast) (fun h => hd (List.mem_cons_of_mem x h))
      rcases hcut x y hxy hy with hx | rfl
      · exact hx
      · exact absurd List.mem_cons_self hd
  intro p hchain hhead hlast
  by_contra hd
  cases p with
  | nil => simp at hhead
  | cons x p =>
    simp only [List.head?_cons, Option.some.injEq] at hhead
    exact ha (hhead ▸ key p x hchain hlast hd)

end Paths

/-! ### The graph -/

/-- BBType (compiler_enums.h). -/
inductive BBType
  | kEntryBlock
  | kDalvikByteCode
  | kExitBlock
  | kExceptionHandling
  | kDead
  deriving DecidableEq, Repr

/-- The fields of a BasicBlock that the depth-first orders and the dominator
    computation read: its links by block id, and the successor list of a
    switch or a try block (empty when it is kNotUsed). -/
structure BasicBlock where
  hidden : Bool
  blockType : BBType
  fallThrough : Option Nat
  taken : Option Nat
  successorBlocks : List Nat
  predecessors : List Nat
  deriving DecidableEq, Repr

/-- A MIRGraph's block list, indexed by block id, and its entry block. -/
structure MIRGraph where
  blockList : List BasicBlock
  entryBlock : Nat

namespace MIRGraph

/-- GetBasicBlock. -/
def getBasicBlock (g : MIRGraph) (id : Nat) : Option BasicBlock :=
  g.blockList[id]?

/-- The successors of a block: fall-through, taken, then the successor list. -/
def successors (g : MIRGraph) (id : Nat) : List Nat :=
  match g.getBasicBlock id with
  | some bb => bb.fallThrough.toList ++ bb.taken.toList ++ bb.successorBlocks
  | none => []

/-- An edge of the control-flow graph. -/
def Edge (g : MIRGraph) (a b : Nat) : Prop :=
  b ∈ g.successors a

instance (g : MIRGraph) : DecidableRel g.Edge :=
  fun a b => inferInstanceAs (Decidable (b ∈ g.successors a))

/-- An id past the block list names no block, and has no successors. -/
theorem successors_eq_nil_of_le {g : MIRGraph} {id : Nat} (h : g.blockList.length ≤ id) :
    g.successors id = [] := by
  simp [successors, getBasicBlock, List.getElem?_eq_none h]

end MIRGraph

/-! ### The depth-first orders -/

/-- What ComputeDFSOrders writes: the visited flags, dfs_order_,
    dfs_post_order_ and each block's dfs_id. A block's dfs_id is zero until
    written: the arena hands out zeroed memory. -/
structure DfsState where
  visited : List Nat
  dfsOrder : List Nat
  dfsPostOrder : List Nat
  dfsId : Nat → Nat

/-- NeedsVisit: a block not yet visited and not hidden. -/
def needsVisit (g : MIRGraph) (st : DfsState) : Option Nat → Option Nat
  | none => none
  | some id =>
    match g.getBasicBlock id with
    | some bb => if id ∈ st.visited ∨ bb.hidden = true then none else some id
    | none => none

/-- NextUnvisitedSuccessor: the fall-through, the taken block, then the
    successor list. -/
def nextUnvisitedSuccessor (g : MIRGraph) (st : DfsState) (id : Nat) : Option Nat :=
  match g.getBasicBlock id with
  | some bb =>
    (needsVisit g st bb.fallThrough).or ((needsVisit g st bb.taken).or
      (bb.successorBlocks.findSome? fun s => needsVisit g st (some s)))
  | none => none

/-- MarkPreOrder. -/
def markPreOrder (st : DfsState) (id : Nat) : DfsState :=
  { st with visited := id :: st.visited, dfsOrder := st.dfsOrder ++ [id] }

/-- The loop of RecordDFSOrders over its stack `succ`, top first: descend to
    the next unvisited successor, or give the block its post-order index and
    pop it. The loop runs at most `fuel` rounds; `none` when that is not
    enough. -/
def recordDFSOrders (g : MIRGraph) : Nat → DfsState → List Nat → Option DfsState
  | _, st, [] => some st
  | 0, _, _ :: _ => none
  | fuel + 1, st, curr :: rest =>
    match nextUnvisitedSuccessor g st curr with
    | some next => recordDFSOrders g fuel (markPreOrder st next) (next :: curr :: rest)
    | none =>
      recordDFSOrders g fuel
        { st with dfsId := Function.update st.dfsId curr st.dfsPostOrder.length
                  dfsPostOrder := st.dfsPostOrder ++ [curr] } rest

/-- ComputeDFSOrders on a fresh graph: nothing visited, every dfs_id zero. -/
def computeDFSOrders (g : MIRGraph) (fuel : Nat) : Option DfsState :=
  recordDFSOrders g fuel (markPreOrder ⟨[], [], [], fun _ => 0⟩ g.entryBlock) [g.entryBlock]

/-- RecordDFSOrders writes the dfs_id of the blocks it puts in post-order
    only. -/
theorem recordDFSOrders_dfsId {g : MIRGraph} {fuel : Nat} {st st' : DfsState}
    {stack : List Nat} (h : recordDFSOrders g fuel st stack = some st') (b : Nat)
    (hb : b ∉ st'.dfsPostOrder) : st'.dfsId b = st.dfsId b ∧ b ∉ st.dfsPostOrder := by
  induction fuel, st, stack using recordDFSOrders.induct g generalizing st' with
  | case1 fuel st =>
    simp only [recordDFSOrders, Option.some.injEq] at h
    subst h
    exact ⟨rfl, hb⟩
  | case2 st curr rest => simp [recordDFSOrders] at h
  | case3 fuel st curr rest next hnext ih =>
    rw [recordDFSOrders, hnext] at h
    exact ih h hb
  | case4 fuel st curr rest hnext ih =>
    rw [recordDFSOrders, hnext] at h
    obtain ⟨hid, hmem⟩ := ih h hb
    -- the popped block is in post-order from here on, so it is not b
    have hne : b ≠ curr := fun hbc => hmem (by simp [hbc])
    refine ⟨?_, fun h' => hmem (List.mem_append_left _ h')⟩
    rw [hid]
    exact Function.update_of_ne hne _ _

/-- A block that ComputeDFSOrders does not reach keeps dfs_id 0. -/
theorem dfsId_of_not_mem {g : MIRGraph} {fuel : Nat} {st : DfsState}
    (h : computeDFSOrders g fuel = some st) (b : Nat) (hb : b ∉ st.dfsPostOrder) :
    st.dfsId b = 0 :=
  (recordDFSOrders_dfsId h b hb).1

/-! ### The immediate dominators -/

/-- NOTVISITED. -/
def NOTVISITED : Int := -1

/-- The entry `i` of i_dom_list_; `none` for an index out of it. -/
def iDomAt (iDomList : List Int) (i : Int) : Option Int :=
  if 0 ≤ i then iDomList[i.toNat]? else none

/-- The inner loop of FindCommonParent, `while (block1 < block2) block1 =
    i_dom_list_[block1];`, for at most `fuel` rounds. -/
def climb (iDomList : List Int) : Nat → Int → Int → Option Int
  | fuel, block1, block2 =>
    if block1 < block2 then
      match fuel with
      | 0 => none
      | fuel + 1 => (iDomAt iDomList block1).bind fun block1 => climb iDomList fuel block1 block2
    else some block1

/-- FindCommonParent: climb from the lower post-order index until the two
    meet, for at most `fuel` rounds. -/
def findCommonParent (iDomList : List Int) : Nat → Int → Int → Option Int
  | fuel, block1, block2 =>
    if block1 = block2 then some block1
    else
      match fuel with
      | 0 => none
      | fuel + 1 => do
        let block1 ← climb iDomList fuel block1 block2
        let block2 ← climb iDomList fuel block2 block1
        findCommonParent iDomList fuel block1 block2

/-- The first predecessor whose i_dom_list_ entry is processed, and the
    predecessors after it. -/
def firstProcessed (iDomList : List Int) (dfsId : Nat → Nat) : List Nat → Option (Nat × List Nat)
  | [] => none
  | pred :: rest =>
    if iDomList.getD (dfsId pred) NOTVISITED ≠ NOTVISITED then some (pred, rest)
    else firstProcessed iDomList dfsId rest

/-- ComputeblockIDom: intersect the dominator paths of the processed
    predecessors, each read at its dfs_id, and record the result. `none` when
    no predecessor is processed (the CHECK fails). -/
def computeblockIDom (g : MIRGraph) (dfsId : Nat → Nat) (fuel : Nat) (iDomList : List Int)
    (bb : Nat) : Option (List Int × Bool) :=
  if bb = g.entryBlock then some (iDomList, false)
  else do
    let block ← g.getBasicBlock bb
    let (first, rest) ← firstProcessed iDomList dfsId block.predecessors
    let idom ← rest.foldlM (fun idom pred =>
      if iDomList.getD (dfsId pred) NOTVISITED = NOTVISITED then some idom
      else findCommonParent iDomList fuel (dfsId pred) idom) (dfsId first : Int)
    if iDomList.getD (dfsId bb) NOTVISITED ≠ idom then
      some (iDomList.set (dfsId bb) idom, true)
    else some (iDomList, false)

/-- One pass of the iterative ReversePostOrderDfsIterator: ComputeblockIDom
    on each block, and whether one of them changed. -/
def iDomPass (g : MIRGraph) (dfsId : Nat → Nat) (fuel : Nat) :
    List Nat → List Int → Bool → Option (List Int × Bool)
  | [], iDomList, changed => some (iDomList, changed)
  | bb :: rest, iDomList, changed => do
    let (iDomList, change) ← computeblockIDom g dfsId fuel iDomList bb
    iDomPass g dfsId fuel rest iDomList (changed || change)

/-- Passes until one changes nothing, at most `fuel` of them. -/
def iDomIterate (g : MIRGraph) (dfsId : Nat → Nat) (fuel : Nat) (rpo : List Nat) :
    Nat → List Int → Option (List Int)
  | 0, _ => none
  | passes + 1, iDomList => do
    let (iDomList, changed) ← iDomPass g dfsId fuel rpo iDomList false
    if changed then iDomIterate g dfsId fuel rpo passes iDomList else some iDomList

/-! ### Dominators and frontiers -/

/-- What ComputeDominators leaves in the blocks: i_dom, i_dominated,
    dominators and dom_frontier, with the bit vectors as sets of block ids. -/
structure Dominance where
  iDom : Nat → Option Nat
  iDominated : Nat → Finset Nat
  dominators : Nat → Finset Nat
  domFrontier : Nat → Finset Nat

/-- SetDominators: the i_dom of a block is the block at the post-order index
    i_dom_list_ holds for it. -/
def setDominators (g : MIRGraph) (st : DfsState) (iDomList : List Int) (d : Dominance)
    (bb : Nat) : Option Dominance :=
  if bb = g.entryBlock then some d
  else do
    let idomDfsIdx ← iDomAt iDomList (st.dfsId bb)
    let iDomIdx ← if 0 ≤ idomDfsIdx then st.dfsPostOrder[idomDfsIdx.toNat]? else none
    some { d with
      iDom := Function.update d.iDom bb (some iDomIdx)
      iDominated := Function.update d.iDominated iDomIdx (insert bb (d.iDominated iDomIdx)) }

/-- ComputeBlockDominators: the dominators of the immediate dominator, and
    the block itself. -/
def computeBlockDominators (g : MIRGraph) (d : Dominance) (bb : Nat) : Option Dominance :=
  if bb = g.entryBlock then
    some { d with dominators := Function.update d.dominators bb {bb} }
  else do
    let i ← d.iDom bb
    some { d with dominators := Function.update d.dominators bb (insert bb (d.dominators i)) }

/-- The set bits of a block bit vector, in increasing block id, as its
    iterator visits them: the vector has one bit per block. -/
def setBits (g : MIRGraph) (s : Finset Nat) : List Nat :=
  (List.range g.blockList.length).filter (· ∈ s)

/-- The blocks of `ids`, in order, that need a visit, the first of them and
    the ones after it. -/
def nextToVisit (g : MIRGraph) (visited : List Nat) : List Nat → Option (Nat × List Nat)
  | [] => none
  | id :: rest =>
    match needsVisit g ⟨visited, [], [], fun _ => 0⟩ (some id) with
    | some _ => some (id, rest)
    | none => nextToVisit g visited rest

/-- The loop of ComputeDomPostOrderTraversal: a depth-first walk of the
    dominator tree, each stack entry a block and what is left of its
    i_dominated iterator, in increasing block id. -/
def domPostOrderLoop (g : MIRGraph) (d : Dominance) :
    Nat → List Nat → List (Nat × List Nat) → List Nat → Option (List Nat)
  | _, _, [], out => some out
  | 0, _, _ :: _, _ => none
  | fuel + 1, visited, (curr, ids) :: stack, out =>
    match nextToVisit g visited ids with
    | some (next, ids) =>
      domPostOrderLoop g d fuel (next :: visited)
        ((next, setBits g (d.iDominated next)) :: (curr, ids) :: stack) out
    | none => domPostOrderLoop g d fuel visited stack (out ++ [curr])

/-- ComputeDomPostOrderTraversal from the entry block. -/
def computeDomPostOrderTraversal (g : MIRGraph) (d : Dominance) (fuel : Nat) :
    Option (List Nat) :=
  domPostOrderLoop g d fuel [g.entryBlock]
    [(g.entryBlock, setBits g (d.iDominated g.entryBlock))] []

/-- CheckForDominanceFrontier: `succBb` joins the frontier of `domBb` unless
    `domBb` is its immediate dominator, when it is a visible code block. -/
def checkForDominanceFrontier (g : MIRGraph) (d : Dominance) (domBb succBb : Nat) : Dominance :=
  match g.getBasicBlock succBb with
  | some s =>
    if d.iDom succBb ≠ some domBb ∧ s.blockType = .kDalvikByteCode ∧ s.hidden = false then
      let frontier := insert succBb (d.domFrontier domBb)
      { d with domFrontier := Function.update d.domFrontier domBb frontier }
    else d
  | none => d

/-- ComputeDominanceFrontier: DF_local from the successors, taken first, and
    DF_up from the frontiers of the immediately dominated blocks. -/
def computeDominanceFrontier (g : MIRGraph) (d : Dominance) (bb : Nat) : Dominance :=
  let succs := match g.getBasicBlock bb with
    | some b => b.taken.toList ++ b.fallThrough.toList ++ b.successorBlocks
    | none => []
  let d := succs.foldl (fun d s => checkForDominanceFrontier g d bb s) d
  (setBits g (d.iDominated bb)).foldl (fun d dominated =>
    (setBits g (d.domFrontier dominated)).foldl
      (fun d up => checkForDominanceFrontier g d bb up) d) d

/-- ComputeDominators after ComputeDFSOrders: i_dom_list_ from NOTVISITED
    with the entry its own, the iteration in reverse post-order, then
    SetDominators in pre-order, ComputeBlockDominators in reverse post-order
    and the frontiers in the post-order of the dominator tree. Every loop
    runs at most `fuel` rounds. -/
def computeDominators (g : MIRGraph) (st : DfsState) (fuel : Nat) : Option Dominance := do
  let entryDfs := st.dfsId g.entryBlock
  let iDomList0 := (List.replicate st.dfsOrder.length NOTVISITED).set entryDfs (entryDfs : Int)
  let rpo := st.dfsPostOrder.reverse
  let iDomList ← iDomIterate g st.dfsId fuel rpo fuel iDomList0
  let d0 : Dominance :=
    { iDom := fun _ => none
      iDominated := fun _ => ∅
      dominators := fun b =>
        if b = g.entryBlock then {g.entryBlock}
        else if b ∈ st.dfsOrder then Finset.range g.blockList.length else ∅
      domFrontier := fun _ => ∅ }
  let d ← st.dfsOrder.foldlM (setDominators g st iDomList) d0
  let d ← rpo.foldlM (computeBlockDominators g) d
  let domPostOrder ← computeDomPostOrderTraversal g d fuel
  some (domPostOrder.foldl (computeDominanceFrontier g) d)

/-- The depth-first orders, then the dominators, as SSATransformation runs
    them. -/
def ssaDominators (g : MIRGraph) (fuel : Nat) : Option Dominance := do
  let st ← computeDFSOrders g fuel
  computeDominators g st fuel

/-! ### Dead code that falls through into live code -/

/-- The graph of
    `if-eqz v0, +3; return-void; if-eqz v1, +4; return-void; const/4 v2, 0;
    return-void`: the entry 0, the exit 1, and the code blocks 2 to 7 at
    offsets 0, 3, 2, 7, 5 and 6. Block 7, the dead `const/4`, falls through
    into block 5, whose only live predecessor is block 3. -/
def deadFallThrough : MIRGraph where
  entryBlock := 0
  blockList :=
    [⟨false, .kEntryBlock, some 2, none, [], []⟩,
     ⟨false, .kExitBlock, none, none, [], [4, 6, 5]⟩,
     ⟨false, .kDalvikByteCode, some 4, some 3, [], [0]⟩,
     ⟨false, .kDalvikByteCode, some 6, some 5, [], [2]⟩,
     ⟨false, .kDalvikByteCode, some 1, none, [], [2]⟩,
     ⟨false, .kDalvikByteCode, some 1, none, [], [3, 7]⟩,
     ⟨false, .kDalvikByteCode, some 1, none, [], [3]⟩,
     ⟨false, .kDalvikByteCode, some 5, none, [], []⟩]

/-- Only block 3 enters the blocks 5 and 7 from outside them. -/
theorem deadFallThrough_cut (x y : Nat) (hxy : deadFallThrough.Edge x y)
    (hy : y ∈ ({5, 7} : Set Nat)) : x ∈ ({5, 7} : Set Nat) ∨ x = 3 := by
  have hx : x < 8 := by
    by_contra hx
    rw [MIRGraph.Edge, MIRGraph.successors_eq_nil_of_le (by simp [deadFallThrough]; omega)] at hxy
    simp at hxy
  have hedges : ∀ x < 8, ∀ y ∈ deadFallThrough.successors x,
      (y = 5 ∨ y = 7) → (x = 5 ∨ x = 7) ∨ x = 3 := by decide
  simpa using hedges x hx y hxy (by simpa using hy)

/-- Block 3 is on every path from the entry to the reachable block 5, yet
    after ComputeDominators block 5 has block 2 as immediate dominator, 3 is
    not among its dominators, and 5 is in the dominance frontier of 3: the
    dead block 7 is read as the exit block. -/
theorem computeDominators_misses_dominator :
    Relation.ReflTransGen deadFallThrough.Edge deadFallThrough.entryBlock 5 ∧
      OnEveryPath deadFallThrough.Edge deadFallThrough.entryBlock 5 3 ∧
      ∃ d, ssaDominators deadFallThrough 32 = some d ∧
        d.iDom 5 = some 2 ∧ 3 ∉ d.dominators 5 ∧ 5 ∈ d.domFrontier 3 := by
  refine ⟨?_, onEveryPath_of_cut _ {5, 7} (by simp) (by simp [deadFallThrough])
    deadFallThrough_cut, ?_⟩
  · -- the path 0, 2, 3, 5
    have h02 : deadFallThrough.Edge 0 2 := by decide
    have h23 : deadFallThrough.Edge 2 3 := by decide
    have h35 : deadFallThrough.Edge 3 5 := by decide
    exact .tail (.tail (.single h02) h23) h35
  · have hrun : (ssaDominators deadFallThrough 32).map (fun d =>
        (d.iDom 5, decide (3 ∈ d.dominators 5), decide (5 ∈ d.domFrontier 3))) =
        some (some 2, false, true) := by decide +kernel
    obtain ⟨d, hd, hval⟩ := Option.map_eq_some_iff.1 hrun
    simp only [Prod.mk.injEq, decide_eq_false_iff_not, decide_eq_true_eq] at hval
    exact ⟨d, hd, hval⟩

end Compiler

end ArtRuntime
