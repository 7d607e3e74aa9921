import LanguageServer.Hierarchy.Tree
import Mathlib.Data.List.Induction
import Mathlib.Data.List.Nodup

/-! How a tree of calls grows. Nodes come level by level, every item that is new waits once to be
expanded, and no node is expanded that has children already. -/
namespace LanguageServer

/-- What a node adds to the calls of its parent. -/
def CallNode.call (n : CallNode) : Call := ⟨n.item, n.sites⟩

namespace CallTree

/-- The calls that the children of a node show. -/
def shown (t : CallTree) (index : Nat) : List Call :=
  (t.children index).filterMap fun i => t.nodes[i]?.map CallNode.call

/-- The nodes that some hold of, found by their places. -/
theorem filterMap_range {α β : Type} (p : α → Bool) (f : α → β) (xs : List α) :
    ((List.range xs.length).filter fun i => xs[i]?.any p).filterMap (fun i => xs[i]?.map f) =
      (xs.filter p).map f := by
  induction xs using List.reverseRecOn with
  | nil => rfl
  | append_singleton xs x ih =>
    have hold : ∀ i ∈ List.range xs.length, (xs ++ [x])[i]? = xs[i]? := fun i hi =>
      List.getElem?_append_left (List.mem_range.mp hi)
    rw [List.length_append, List.length_singleton, List.range_succ, List.filter_append,
      List.filterMap_append, List.filter_append, List.map_append]
    congr 1
    · rw [← ih, List.filter_congr fun i hi => by rw [hold i hi]]
      exact List.filterMap_congr fun i hi => by rw [hold i (List.mem_filter.mp hi).1]
    · by_cases h : p x <;> simp [h]

theorem shown_eq (t : CallTree) (index : Nat) :
    t.shown index = (t.nodes.filter fun n => n.parent = some index).map CallNode.call :=
  filterMap_range ..

end CallTree

namespace CallGrowth

variable {root : HierarchyItem} {limit depth index : Nat} {node : CallNode} {nodes : List CallNode}
  {known : List HierarchyItem.Key} {frontier : List Nat}

/-- The tree of a root alone. -/
def seed (root : HierarchyItem) : CallGrowth :=
  ⟨⟨[⟨root, none, 0, [], false⟩], false⟩, [root.key], [0], []⟩

def nodeOf (g : CallGrowth) (parent depth : Nat) (c : Call) : CallNode :=
  ⟨c.item, some parent, depth, c.sites, g.known.contains c.item.key⟩

def push (parent depth : Nat) (c : Call) (g : CallGrowth) : CallGrowth :=
  { g with
    tree := { g.tree with nodes := g.tree.nodes ++ [g.nodeOf parent depth c] }
    known := if g.known.contains c.item.key then g.known else c.item.key :: g.known
    frontier := if g.known.contains c.item.key then g.frontier
      else g.frontier ++ [g.tree.nodes.length] }

theorem addCalls_nil (parent : Nat) (g : CallGrowth) : addCalls limit parent depth [] g = g := rfl

theorem addCalls_cons (parent : Nat) (c : Call) (rest : List Call) (g : CallGrowth) :
    addCalls limit parent depth (c :: rest) g =
      if limit ≤ g.tree.nodes.length then { g with tree := { g.tree with truncated := true } }
      else addCalls limit parent depth rest (g.push parent depth c) := rfl

/-- The shape of a growing tree: every node but the root is one level below a node before it that is
not repeated, levels follow each other, and the items known are those of the nodes that are not
repeated, each once. -/
structure IsShape (root : HierarchyItem) (limit depth : Nat) (nodes : List CallNode)
    (known : List HierarchyItem.Key) : Prop where
  root : nodes[0]? = some ⟨root, none, 0, [], false⟩
  few : nodes.length ≤ limit
  shallow : ∀ n ∈ nodes, n.depth ≤ depth
  parents : ∀ i n, nodes[i]? = some n → 0 < i → ∃ p m, n.parent = some p ∧ p < i ∧
    nodes[p]? = some m ∧ n.depth = m.depth + 1 ∧ m.repeated = false
  known : ∀ key, key ∈ known ↔ ∃ n ∈ nodes, n.repeated = false ∧ n.item.key = key
  distinct : ((nodes.filter fun n => !n.repeated).map fun n => n.item.key).Nodup
  twins : ∀ n ∈ nodes, n.repeated → ∃ m ∈ nodes, m.repeated = false ∧ m.item.key = n.item.key ∧
    m.depth ≤ n.depth
  sorted : nodes.Pairwise fun n m => n.depth ≤ m.depth

/-- The nodes that wait, in their order: none is repeated or has children, and there is nothing below
the level of the children that they may get. -/
structure IsQueue (nodes : List CallNode) (frontier : List Nat) : Prop where
  waiting : ∀ i ∈ frontier, ∃ n, nodes[i]? = some n ∧ n.repeated = false
  order : frontier.Pairwise fun i j => i < j
  band : ∀ i ∈ frontier, ∀ n, nodes[i]? = some n → ∀ m ∈ nodes, m.depth ≤ n.depth + 1
  childless : ∀ i ∈ frontier, ∀ n ∈ nodes, n.parent ≠ some i

/-- What holds besides while a node is expanded: it comes before those that wait, and there is
nothing below the level of its children. -/
structure IsExpanding (depth index : Nat) (node : CallNode) (nodes : List CallNode)
    (frontier : List Nat) : Prop where
  here : nodes[index]? = some node
  new : node.repeated = false
  above : node.depth < depth
  ahead : ∀ i ∈ frontier, index < i
  level : ∀ m ∈ nodes, m.depth ≤ node.depth + 1

/-- Nodes that come later are as deep. -/
theorem IsShape.depth_le (h : IsShape root limit depth nodes known) {i j : Nat} {n m : CallNode}
    (hn : nodes[i]? = some n) (hm : nodes[j]? = some m) (hij : i < j) : n.depth ≤ m.depth := by
  obtain ⟨hi, rfl⟩ := List.getElem?_eq_some_iff.mp hn
  obtain ⟨hj, rfl⟩ := List.getElem?_eq_some_iff.mp hm
  exact List.pairwise_iff_getElem.mp h.sorted i j hi hj hij

/-- A parent comes before its children. -/
theorem IsShape.parent_lt (h : IsShape root limit depth nodes known) {i p : Nat} {n : CallNode}
    (hn : nodes[i]? = some n) (hp : n.parent = some p) : p < i := by
  rcases Nat.eq_zero_or_pos i with rfl | hi
  · obtain rfl := Option.some.inj (h.root.symm.trans hn)
    cases hp
  · obtain ⟨q, m, hq, hlt, -⟩ := h.parents i n hn hi
    exact Option.some.inj (hp.symm.trans hq) ▸ hlt

/-- A node with a parent is one level below it, and the parent is not repeated. -/
theorem IsShape.of_parent (h : IsShape root limit depth nodes known) {p : Nat} {n m : CallNode}
    (hn : n ∈ nodes) (hm : nodes[p]? = some m) (hp : n.parent = some p) :
    n.depth = m.depth + 1 ∧ m.repeated = false := by
  obtain ⟨i, hi⟩ := List.mem_iff_getElem?.mp hn
  have hlt : p < i := h.parent_lt hi hp
  obtain ⟨q, m', hq, -, hm', hdepth, hnew⟩ := h.parents i n hi (by omega)
  obtain rfl : p = q := Option.some.inj (hp.symm.trans hq)
  obtain rfl : m = m' := Option.some.inj (hm.symm.trans hm')
  exact ⟨hdepth, hnew⟩

theorem isShape_seed (hlimit : 1 ≤ limit) :
    IsShape root limit depth (seed root).tree.nodes (seed root).known where
  root := rfl
  few := hlimit
  shallow := by simp [seed]
  parents i n hn hi := by
    have hlt : i < 1 := (List.getElem?_eq_some_iff.mp hn).1
    omega
  known key := by
    simp only [seed, List.mem_singleton, exists_eq_left, true_and]
    exact eq_comm
  distinct := by simp [seed]
  twins := by simp [seed]
  sorted := by simp [seed]

theorem isQueue_seed : IsQueue (seed root).tree.nodes (seed root).frontier where
  waiting := by simp [seed]
  order := by simp [seed]
  band := by simp [seed]
  childless := by simp [seed]

theorem IsQueue.tail (h : IsQueue nodes (index :: frontier)) : IsQueue nodes frontier where
  waiting i hi := h.waiting i (List.mem_cons_of_mem index hi)
  order := (List.pairwise_cons.mp h.order).2
  band i hi := h.band i (List.mem_cons_of_mem index hi)
  childless i hi := h.childless i (List.mem_cons_of_mem index hi)

theorem IsQueue.expand (h : IsQueue nodes (index :: frontier)) (hnode : nodes[index]? = some node)
    (habove : node.depth < depth) : IsExpanding depth index node nodes frontier where
  here := hnode
  new := by
    obtain ⟨n, hn, hnew⟩ := h.waiting index List.mem_cons_self
    rwa [Option.some.inj (hnode.symm.trans hn)]
  above := habove
  ahead := (List.pairwise_cons.mp h.order).1
  level := h.band index List.mem_cons_self node hnode

theorem getElem?_concat {α : Type} {xs : List α} {x y : α} {i : Nat} :
    (xs ++ [x])[i]? = some y ↔ xs[i]? = some y ∨ i = xs.length ∧ x = y := by
  rcases Nat.lt_trichotomy i xs.length with h | rfl | h
  · rw [List.getElem?_append_left h]
    exact ⟨.inl, fun hy => hy.resolve_right fun hy => by omega⟩
  · simp
  · rw [List.getElem?_eq_none (by simp; omega), List.getElem?_eq_none (by omega)]
    simp
    omega

section Concat

variable {x : CallNode}

/-- A node added below one that is not repeated, at the end of its level, keeps the shape. -/
theorem IsShape.concat (h : IsShape root limit depth nodes known) (hroom : nodes.length < limit)
    (hnode : nodes[index]? = some node) (hnew : node.repeated = false) (hparent : x.parent = some index)
    (hdepth : x.depth = node.depth + 1) (hdeep : x.depth ≤ depth) (hlevel : ∀ m ∈ nodes, m.depth ≤ x.depth)
    (hrepeated : x.repeated = known.contains x.item.key) :
    IsShape root limit depth (nodes ++ [x])
      (if known.contains x.item.key then known else x.item.key :: known) where
  root := getElem?_concat.mpr (.inl h.root)
  few := by rw [List.length_append, List.length_singleton]; omega
  shallow n hn := by
    rcases List.mem_append.mp hn with hn | hn
    · exact h.shallow n hn
    · exact List.mem_singleton.mp hn ▸ hdeep
  parents i n hn hi := by
    rcases getElem?_concat.mp hn with hn | ⟨rfl, rfl⟩
    · obtain ⟨p, m, hp, hlt, hm, hdm, hmnew⟩ := h.parents i n hn hi
      exact ⟨p, m, hp, hlt, getElem?_concat.mpr (.inl hm), hdm, hmnew⟩
    · exact ⟨index, node, hparent, (List.getElem?_eq_some_iff.mp hnode).1,
        getElem?_concat.mpr (.inl hnode), hdepth, hnew⟩
  known key := by
    simp only [List.mem_append, List.mem_singleton, or_and_right, exists_or, exists_eq_left, ← h.known,
      hrepeated]
    cases hmem : known.contains x.item.key with
    | true => simp
    | false => simp [or_comm, eq_comm]
  distinct := by
    rw [List.filter_append, List.map_append]
    cases hx : x.repeated with
    | true => simpa [hx] using h.distinct
    | false =>
      -- what is not repeated has a key that no other such node has
      have hnot : x.item.key ∉ known := by simpa [hrepeated] using hx
      rw [h.known] at hnot
      simp only [List.filter_cons, hx, Bool.not_false, if_true, List.filter_nil, List.map_cons, List.map_nil]
      refine List.Nodup.append h.distinct (List.nodup_singleton _) ?_
      simpa [List.disjoint_singleton] using hnot
  twins n hn hrep := by
    rcases List.mem_append.mp hn with hn | hn
    · obtain ⟨m, hm, hmnew, hkey, hle⟩ := h.twins n hn hrep
      exact ⟨m, List.mem_append_left _ hm, hmnew, hkey, hle⟩
    · obtain rfl := List.mem_singleton.mp hn
      have hmem : n.item.key ∈ known := by simpa [hrepeated] using hrep
      obtain ⟨m, hm, hmnew, hkey⟩ := (h.known _).mp hmem
      exact ⟨m, List.mem_append_left _ hm, hmnew, hkey, hlevel m hm⟩
  sorted := List.pairwise_append.mpr ⟨h.sorted, List.pairwise_singleton .., fun m hm n hn =>
    List.mem_singleton.mp hn ▸ hlevel m hm⟩

/-- A node added below one that does not wait, at most one level below those that do. -/
theorem IsQueue.concat (h : IsQueue nodes frontier) (hparent : ∀ i ∈ frontier, x.parent ≠ some i)
    (hlevel : ∀ i ∈ frontier, ∀ n, nodes[i]? = some n → x.depth ≤ n.depth + 1) :
    IsQueue (nodes ++ [x]) frontier where
  waiting i hi := by
    obtain ⟨n, hn, hnew⟩ := h.waiting i hi
    exact ⟨n, getElem?_concat.mpr (.inl hn), hnew⟩
  order := h.order
  band i hi n hn m hm := by
    obtain ⟨n', hn', -⟩ := h.waiting i hi
    obtain rfl : n' = n := Option.some.inj ((getElem?_concat.mpr (.inl hn')).symm.trans hn)
    rcases List.mem_append.mp hm with hm | hm
    · exact h.band i hi n' hn' m hm
    · exact List.mem_singleton.mp hm ▸ hlevel i hi n' hn'
  childless i hi n hn := by
    rcases List.mem_append.mp hn with hn | hn
    · exact h.childless i hi n hn
    · exact List.mem_singleton.mp hn ▸ hparent i hi

/-- A node that is not repeated, has no children and has nothing below the next level may wait behind
the others. -/
theorem IsQueue.wait (h : IsQueue nodes frontier) (hlast : ∀ i ∈ frontier, i < index)
    (hnode : nodes[index]? = some node) (hnew : node.repeated = false)
    (hlevel : ∀ m ∈ nodes, m.depth ≤ node.depth + 1) (hchildless : ∀ n ∈ nodes, n.parent ≠ some index) :
    IsQueue nodes (frontier ++ [index]) where
  waiting i hi := by
    rcases List.mem_append.mp hi with hi | hi
    · exact h.waiting i hi
    · exact ⟨node, List.mem_singleton.mp hi ▸ hnode, hnew⟩
  order := List.pairwise_append.mpr ⟨h.order, List.pairwise_singleton .., fun i hi j hj =>
    List.mem_singleton.mp hj ▸ hlast i hi⟩
  band i hi n hn := by
    rcases List.mem_append.mp hi with hi | hi
    · exact h.band i hi n hn
    · obtain rfl := List.mem_singleton.mp hi
      exact Option.some.inj (hnode.symm.trans hn) ▸ hlevel
  childless i hi := by
    rcases List.mem_append.mp hi with hi | hi
    · exact h.childless i hi
    · exact List.mem_singleton.mp hi ▸ hchildless

end Concat

/-- What holds of a growing tree between expansions. -/
structure Grows (root : HierarchyItem) (limit depth : Nat) (g : CallGrowth) : Prop where
  shape : IsShape root limit depth g.tree.nodes g.known
  queue : IsQueue g.tree.nodes g.frontier

/-- What holds of a growing tree while a node is expanded. -/
structure Expands (root : HierarchyItem) (limit depth index : Nat) (node : CallNode)
    (g : CallGrowth) : Prop extends Grows root limit depth g where
  now : IsExpanding depth index node g.tree.nodes g.frontier

variable {g : CallGrowth}

theorem grows_seed (hlimit : 1 ≤ limit) : Grows root limit depth (seed root) :=
  ⟨isShape_seed hlimit, isQueue_seed⟩

/-- Another call is shown below the node. -/
theorem Expands.push (h : Expands root limit depth index node g) (hroom : g.tree.nodes.length < limit)
    (c : Call) : Expands root limit depth index node (g.push index (node.depth + 1) c) := by
  have hindex : index < g.tree.nodes.length := (List.getElem?_eq_some_iff.mp h.now.here).1
  have hlast : ∀ i ∈ g.frontier, i < g.tree.nodes.length := fun i hi => by
    obtain ⟨n, hn, -⟩ := h.queue.waiting i hi
    exact (List.getElem?_eq_some_iff.mp hn).1
  have hshape : IsShape root limit depth (g.push index (node.depth + 1) c).tree.nodes
      (g.push index (node.depth + 1) c).known :=
    h.shape.concat hroom h.now.here h.now.new rfl rfl h.now.above h.now.level rfl
  -- the nodes that wait come after the one that is expanded, so the new node is no child of theirs
  have hqueue : IsQueue (g.push index (node.depth + 1) c).tree.nodes g.frontier := by
    refine h.queue.concat (fun i hi hparent => ?_) fun i hi n hn => ?_
    · have hlt : index < i := h.now.ahead i hi
      have heq : index = i := Option.some.inj hparent
      omega
    · exact Nat.succ_le_succ (h.shape.depth_le h.now.here hn (h.now.ahead i hi))
  have hlevel : ∀ m ∈ (g.push index (node.depth + 1) c).tree.nodes, m.depth ≤ node.depth + 1 := by
    intro m hm
    rcases List.mem_append.mp hm with hm | hm
    · exact h.now.level m hm
    · exact Nat.le_of_eq (congrArg CallNode.depth (List.mem_singleton.mp hm))
  have hhere : (g.push index (node.depth + 1) c).tree.nodes[index]? = some node :=
    getElem?_concat.mpr (.inl h.now.here)
  cases hrep : g.known.contains c.item.key with
  | true =>
    have hfrontier : (g.push index (node.depth + 1) c).frontier = g.frontier := if_pos hrep
    exact ⟨⟨hshape, hfrontier ▸ hqueue⟩,
      hhere, h.now.new, h.now.above, hfrontier ▸ h.now.ahead, hlevel⟩
  | false =>
    have hfrontier : (g.push index (node.depth + 1) c).frontier = g.frontier ++ [g.tree.nodes.length] :=
      if_neg (by rw [hrep]; decide)
    have hnew : (g.push index (node.depth + 1) c).tree.nodes[g.tree.nodes.length]? =
        some (g.nodeOf index (node.depth + 1) c) := getElem?_concat.mpr (.inr ⟨rfl, rfl⟩)
    refine ⟨⟨hshape, hfrontier ▸ hqueue.wait hlast hnew hrep
      (fun m hm => Nat.le_succ_of_le (hlevel m hm)) ?_⟩, hhere, h.now.new, h.now.above, ?_, hlevel⟩
    · intro n hn hparent
      obtain ⟨i, hi⟩ := List.mem_iff_getElem?.mp hn
      have hlt : g.tree.nodes.length < i := hshape.parent_lt hi hparent
      have hle : i < (g.tree.nodes ++ [g.nodeOf index (node.depth + 1) c]).length :=
        (List.getElem?_eq_some_iff.mp hi).1
      rw [List.length_append, List.length_singleton] at hle
      omega
    · intro i hi
      rw [hfrontier] at hi
      rcases List.mem_append.mp hi with hi | hi
      · exact h.now.ahead i hi
      · exact List.mem_singleton.mp hi ▸ hindex

/-- What was found below the node is shown there, as far as there is room. -/
theorem Expands.addCalls (h : Expands root limit depth index node g) (calls : List Call) :
    Expands root limit depth index node (addCalls limit index (node.depth + 1) calls g) := by
  induction calls generalizing g with
  | nil => exact h
  | cons c rest ih =>
    rw [addCalls_cons]
    split
    · exact ⟨⟨h.shape, h.queue⟩, h.now⟩
    · exact ih (h.push (by omega) c)

/-- What the nodes that were added show, where all that was found had room. -/
theorem exists_added (parent : Nat) {calls : List Call}
    (hroom : (addCalls limit parent depth calls g).tree.truncated = false) :
    ∃ added, (addCalls limit parent depth calls g).tree.nodes = g.tree.nodes ++ added ∧
      added.map CallNode.call = calls ∧ (∀ n ∈ added, n.parent = some parent ∧ n.depth = depth) ∧
      g.frontier ⊆ (addCalls limit parent depth calls g).frontier ∧
      ∀ i n, g.tree.nodes.length ≤ i → (g.tree.nodes ++ added)[i]? = some n → n.repeated = false →
        i ∈ (addCalls limit parent depth calls g).frontier := by
  induction calls generalizing g with
  | nil =>
    refine ⟨[], by simp [addCalls_nil], rfl, by simp, by simp [addCalls_nil], ?_⟩
    intro i n hi hn
    rw [List.append_nil, List.getElem?_eq_none hi] at hn
    cases hn
  | cons c rest ih =>
    rw [addCalls_cons] at hroom ⊢
    split at hroom
    · cases hroom
    · rename_i hlt
      rw [if_neg hlt]
      obtain ⟨added, hnodes, hcalls, hall, hfrontier, hwait⟩ := ih hroom
      have happend : (g.push parent depth c).tree.nodes ++ added =
          g.tree.nodes ++ (g.nodeOf parent depth c :: added) := by simp [push]
      rw [happend] at hnodes hwait
      have hold : g.frontier ⊆ (g.push parent depth c).frontier := by
        unfold push
        dsimp only
        split
        · exact List.Subset.refl _
        · exact List.subset_append_left ..
      refine ⟨g.nodeOf parent depth c :: added, hnodes, ?_, ?_, List.Subset.trans hold hfrontier, ?_⟩
      · rw [List.map_cons, hcalls]
        rfl
      · rintro n (_ | hn)
        · exact ⟨rfl, rfl⟩
        · exact hall n ‹_›
      · intro i n hi hn hnew
        -- the first of the new nodes is the one that was just pushed
        rcases Nat.eq_or_lt_of_le hi with rfl | hi
        · obtain rfl : g.nodeOf parent depth c = n := by simpa using hn
          refine hfrontier ?_
          have hrep : g.known.contains c.item.key = false := hnew
          simp only [push, hrep]
          simp
        · exact hwait i n (by simpa [push] using Nat.succ_le_of_lt hi) hn hnew

/-- How many rounds a tree has before it at most. -/
def pending (limit : Nat) (g : CallGrowth) : Nat := g.frontier.length + (limit - g.tree.nodes.length)

theorem pending_addCalls (parent : Nat) (calls : List Call) :
    pending limit (addCalls limit parent depth calls g) ≤ pending limit g := by
  induction calls generalizing g with
  | nil => exact Nat.le_refl _
  | cons c rest ih =>
    rw [addCalls_cons]
    split
    · exact Nat.le_refl _
    · refine Nat.le_trans (ih (g := g.push parent depth c)) ?_
      have hnodes : (g.push parent depth c).tree.nodes.length = g.tree.nodes.length + 1 := by
        simp [push]
      have hfrontier : (g.push parent depth c).frontier.length ≤ g.frontier.length + 1 := by
        unfold push
        dsimp only
        split <;> simp
      unfold pending
      omega

variable {expand : HierarchyItem → Calls} {rest : List Nat}

/-- The first node that waits is expanded, unless it stands on the last level. -/
def round (expand : HierarchyItem → Calls) (limit depth index : Nat) (rest : List Nat)
    (node : CallNode) (g : CallGrowth) : CallGrowth :=
  if depth ≤ node.depth then { g with frontier := rest }
  else addCalls limit index (node.depth + 1) (expand node.item).found
    { g with frontier := rest, asked := (expand node.item).asked ++ g.asked }

theorem grow_nil (steps : Nat) (hfrontier : g.frontier = []) :
    grow expand limit depth steps g = g := by
  cases steps with
  | zero => rfl
  | succ steps => rw [grow, hfrontier]

theorem grow_cons (steps : Nat) (hfrontier : g.frontier = index :: rest)
    (hnode : g.tree.nodes[index]? = some node) (hopen : g.tree.truncated = false) :
    grow expand limit depth (steps + 1) g =
      if (round expand limit depth index rest node g).tree.truncated then
        round expand limit depth index rest node g
      else grow expand limit depth steps (round expand limit depth index rest node g) := by
  rw [grow, hfrontier]
  simp only [hnode]
  unfold round
  by_cases hdeep : depth ≤ node.depth
  · simp only [if_pos hdeep, hopen]
    rfl
  · simp only [if_neg hdeep]

/-- A round keeps what holds of the tree. -/
theorem Grows.round (h : Grows root limit depth g) (hfrontier : g.frontier = index :: rest)
    (hnode : g.tree.nodes[index]? = some node) :
    Grows root limit depth (round expand limit depth index rest node g) := by
  have hqueue : IsQueue g.tree.nodes (index :: rest) := hfrontier ▸ h.queue
  unfold CallGrowth.round
  split
  · exact ⟨h.shape, hqueue.tail⟩
  · have hexpands : Expands root limit depth index node
        { g with frontier := rest, asked := (expand node.item).asked ++ g.asked } :=
      ⟨⟨h.shape, hqueue.tail⟩, hqueue.expand hnode (by omega)⟩
    exact (hexpands.addCalls _).toGrows

theorem pending_round (hfrontier : g.frontier = index :: rest) :
    pending limit (round expand limit depth index rest node g) < pending limit g := by
  have hless : rest.length + 1 = g.frontier.length := by rw [hfrontier, List.length_cons]
  unfold round
  split
  · unfold pending
    dsimp only
    omega
  · refine Nat.lt_of_le_of_lt (pending_addCalls ..) ?_
    unfold pending
    dsimp only
    omega

/-- A tree that grows no more: nothing waits, or there is no room. -/
def IsGrown (g : CallGrowth) : Prop := g.frontier = [] ∨ g.tree.truncated = true

/-- What every round keeps holds of the tree after any number of rounds. -/
theorem Grows.grow {motive : CallGrowth → Prop}
    (hround : ∀ g index rest node, Grows root limit depth g → g.tree.truncated = false → motive g →
      g.frontier = index :: rest → g.tree.nodes[index]? = some node →
      motive (CallGrowth.round expand limit depth index rest node g))
    (h : Grows root limit depth g) (hopen : g.tree.truncated = false) (hg : motive g) (steps : Nat) :
    Grows root limit depth (grow expand limit depth steps g) ∧
      motive (CallGrowth.grow expand limit depth steps g) := by
  induction steps generalizing g with
  | zero => exact ⟨h, hg⟩
  | succ steps ih =>
    cases hfrontier : g.frontier with
    | nil =>
      rw [grow_nil _ hfrontier]
      exact ⟨h, hg⟩
    | cons index rest =>
      obtain ⟨node, hnode, -⟩ := h.queue.waiting index (hfrontier ▸ List.mem_cons_self)
      rw [grow_cons steps hfrontier hnode hopen]
      have hnext := hround g index rest node h hopen hg hfrontier hnode
      split
      · exact ⟨h.round hfrontier hnode, hnext⟩
      · exact ih (h.round hfrontier hnode) (Bool.eq_false_iff.mpr ‹_›) hnext

/-- Enough rounds leave nothing to be done, and more change nothing. -/
theorem Grows.isGrown (h : Grows root limit depth g) (expand : HierarchyItem → Calls)
    (hopen : g.tree.truncated = false) {enough : Nat}
    (henough : pending limit g ≤ enough) :
    IsGrown (CallGrowth.grow expand limit depth enough g) ∧ ∀ steps, enough ≤ steps →
      CallGrowth.grow expand limit depth steps g = CallGrowth.grow expand limit depth enough g := by
  induction enough generalizing g with
  | zero =>
    have hfrontier : g.frontier = [] := by
      refine List.eq_nil_of_length_eq_zero ?_
      unfold pending at henough
      omega
    exact ⟨.inl hfrontier, fun steps _ => grow_nil steps hfrontier⟩
  | succ enough ih =>
    cases hfrontier : g.frontier with
    | nil =>
      refine ⟨?_, fun steps _ => ?_⟩
      · rw [grow_nil _ hfrontier]
        exact .inl hfrontier
      · rw [grow_nil _ hfrontier, grow_nil _ hfrontier]
    | cons index rest =>
      obtain ⟨node, hnode, -⟩ := h.queue.waiting index (hfrontier ▸ List.mem_cons_self)
      -- every round leaves less to do, so that `enough` bounds the rounds
      have hless : pending limit (CallGrowth.round expand limit depth index rest node g) <
          pending limit g := pending_round hfrontier
      rw [grow_cons enough hfrontier hnode hopen]
      cases hfull : (CallGrowth.round expand limit depth index rest node g).tree.truncated with
      | true =>
        refine ⟨.inr hfull, fun steps hsteps => ?_⟩
        obtain ⟨steps, rfl⟩ := Nat.exists_eq_add_of_lt hsteps
        rw [grow_cons _ hfrontier hnode hopen, hfull]
        rfl
      | false =>
        obtain ⟨hgrown, hmore⟩ := ih (h.round hfrontier hnode) hfull (by omega)
        refine ⟨by simpa using hgrown, fun steps hsteps => ?_⟩
        obtain ⟨steps, rfl⟩ := Nat.exists_eq_add_of_lt hsteps
        rw [grow_cons _ hfrontier hnode hopen, hfull]
        exact hmore _ (by omega)

end CallGrowth
end LanguageServer
