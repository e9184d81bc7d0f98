import Mathlib

/-! # Breadth-first search with room for some of the children

A search takes the oldest node it has not expanded, and adds some of the node's
children that it has not seen, in order. Every node has one parent at most. Whatever
room there was at each node, the nodes seen are distinct, reachable and in
breadth-first order, and a child that was left out once is left out for good. -/

namespace Breadth

/-- A graph in which a node has one parent at most, and what a search can ask of it: the
children of a node that it has not seen, in order. -/
structure Source (α : Type*) where
  Child : α → α → Prop
  Before : α → α → Prop
  fresh : List α → α → List α
  mem_fresh : ∀ {seen p c}, c ∈ fresh seen p ↔ Child p c ∧ c ∉ seen
  sorted : ∀ seen p, (fresh seen p).Pairwise Before
  irrefl : ∀ a, ¬ Before a a
  parent_unique : ∀ {p q c}, Child p c → Child q c → p = q

variable {α : Type*} (G : Source α)

/-- Reachable from the root. -/
def Reach (root x : α) : Prop := Relation.ReflTransGen G.Child root x

/-- Reached from the root in `n` steps. -/
def Steps (root : α) : Nat → α → Prop
  | 0, x => x = root
  | n + 1, x => ∃ p, Steps root n p ∧ G.Child p x

/-- The fewest steps from the root. -/
def Distance (root : α) (n : Nat) (x : α) : Prop :=
  Steps G root n x ∧ ∀ m, Steps G root m x → n ≤ m

/-- In breadth-first order: parents in the order of their children, siblings by the order
of the graph. The first node is the root, whatever its parent. -/
def Ordered [DecidableEq α] (ids : List α) : Prop :=
  ids.tail.Pairwise fun a b => ∀ p q, G.Child p a → G.Child q b → p ∈ ids → q ∈ ids →
    ids.idxOf p < ids.idxOf q ∨ p = q ∧ G.Before a b

/-- The nodes seen, with their depths: the expanded ones, then the others. -/
structure Search [DecidableEq α] (root : α) (expanded queue : List (α × Nat)) : Prop where
  nodup : ((expanded ++ queue).map Prod.fst).Nodup
  first : ∃ rest, expanded ++ queue = (root, 0) :: rest
  parent : ∀ x d, (x, d) ∈ expanded ++ queue → x = root ∧ d = 0 ∨
    ∃ p e, (p, e) ∈ expanded ∧ G.Child p x ∧ d = e + 1
  nonroot : ∀ x ∈ ((expanded ++ queue).map Prod.fst).tail, ∃ p ∈ expanded.map Prod.fst,
    G.Child p x
  depths : (expanded ++ queue).Pairwise fun x y => x.2 ≤ y.2
  level : ∀ x ∈ queue, ∀ y ∈ expanded ++ queue, y.2 ≤ x.2 + 1
  ordered : Ordered G ((expanded ++ queue).map Prod.fst)

/-- A child of an expanded node that was not seen. -/
def LeftOut (expanded queue : List (α × Nat)) (c : α) : Prop :=
  ∃ p ∈ expanded.map Prod.fst, G.Child p c ∧ c ∉ (expanded ++ queue).map Prod.fst

variable {G} [DecidableEq α] {root : α} {expanded queue : List (α × Nat)} {p : α} {d : Nat}
  {added : List α}

theorem Search.start (root : α) : Search G root [] [(root, 0)] := by
  constructor
  · simp
  · exact ⟨[], rfl⟩
  · intro x d hx
    left
    simpa using hx
  · simp
  · simp
  · simp
  · simp [Ordered]

/-- The node that is expanded next comes right after the expanded ones. -/
theorem Search.idxOf_next (h : Search G root expanded ((p, d) :: queue)) :
    ((expanded ++ (p, d) :: queue).map Prod.fst).idxOf p = expanded.length := by
  have hnodup := h.nodup
  rw [List.map_append, List.map_cons] at hnodup ⊢
  have hnot : p ∉ expanded.map Prod.fst := by
    intro hmem
    exact (List.nodup_append.1 hnodup).2.2 p hmem p List.mem_cons_self rfl
  rw [List.idxOf_append_of_notMem hnot, List.idxOf_cons_self, List.length_map, Nat.add_zero]

theorem Search.idxOf_expanded {x : α} (hx : x ∈ expanded.map Prod.fst) :
    ((expanded ++ queue).map Prod.fst).idxOf x < expanded.length := by
  rw [List.map_append, List.idxOf_append_of_mem hx]
  have hlt := List.idxOf_lt_length_of_mem hx
  rwa [List.length_map] at hlt

/-- The children of the next node come behind what was seen. -/
theorem Ordered.append {ids : List α} (h : Ordered G ids) (hids : ids ≠ []) (hp : p ∈ ids)
    (hadded : ∀ c ∈ added, G.Child p c) (hsorted : added.Pairwise G.Before)
    (hold : ∀ a ∈ ids.tail, ∃ q ∈ ids, G.Child q a ∧ ids.idxOf q < ids.idxOf p) :
    Ordered G (ids ++ added) := by
  unfold Ordered at h ⊢
  rw [List.tail_append_of_ne_nil hids, List.pairwise_append]
  -- a parent of what was seen was seen before, and expanded before
  have hseen : ∀ a ∈ ids.tail, ∀ q, G.Child q a → q ∈ ids ∧ ids.idxOf q < ids.idxOf p := by
    intro a ha q hq
    obtain ⟨q', hq', hchild, hlt⟩ := hold a ha
    rw [G.parent_unique hq hchild]
    exact ⟨hq', hlt⟩
  refine ⟨?_, ?_, ?_⟩
  · refine h.imp_of_mem ?_
    intro a b ha hb hab q r hq hr _ _
    obtain ⟨hqi, -⟩ := hseen a ha q hq
    obtain ⟨hri, -⟩ := hseen b hb r hr
    rw [List.idxOf_append_of_mem hqi, List.idxOf_append_of_mem hri]
    exact hab q r hq hr hqi hri
  · refine hsorted.imp_of_mem ?_
    intro a b ha hb hab q r hq hr _ _
    right
    rw [G.parent_unique hq (hadded a ha), G.parent_unique hr (hadded b hb)]
    exact ⟨rfl, hab⟩
  · intro a ha b hb q r hq hr _ _
    left
    obtain ⟨hqi, hlt⟩ := hseen a ha q hq
    rw [G.parent_unique hr (hadded b hb), List.idxOf_append_of_mem hqi,
      List.idxOf_append_of_mem hp]
    exact hlt

/-- Some unseen children of the next node are added, in order. -/
theorem Search.step (h : Search G root expanded ((p, d) :: queue))
    (hadded : added.Sublist (G.fresh ((expanded ++ (p, d) :: queue).map Prod.fst) p)) :
    Search G root (expanded ++ [(p, d)]) (queue ++ added.map fun c => (c, d + 1)) := by
  have hnew : ∀ c ∈ added, G.Child p c ∧ c ∉ (expanded ++ (p, d) :: queue).map Prod.fst :=
    fun c hc => G.mem_fresh.1 (hadded.subset hc)
  have hsorted := (G.sorted ((expanded ++ (p, d) :: queue).map Prod.fst) p).sublist hadded
  have hdistinct : added.Nodup := by
    refine hsorted.imp ?_
    rintro a b hab rfl
    exact G.irrefl a hab
  have hlist : (expanded ++ [(p, d)]) ++ (queue ++ added.map fun c => (c, d + 1)) =
      (expanded ++ (p, d) :: queue) ++ added.map fun c => (c, d + 1) := by
    simp
  have hids : ((expanded ++ [(p, d)]) ++ (queue ++ added.map fun c => (c, d + 1))).map Prod.fst =
      (expanded ++ (p, d) :: queue).map Prod.fst ++ added := by
    rw [hlist, List.map_append, List.map_map]
    simp [Function.comp_def]
  have hp : p ∈ (expanded ++ (p, d) :: queue).map Prod.fst := by simp
  obtain ⟨rest, hrest⟩ := h.first
  have hne : (expanded ++ (p, d) :: queue).map Prod.fst ≠ [] := by simp
  constructor
  · rw [hids, List.nodup_append]
    refine ⟨h.nodup, hdistinct, ?_⟩
    rintro a ha b hb rfl
    exact (hnew a hb).2 ha
  · rw [hlist, hrest]
    exact ⟨_, rfl⟩
  · intro x e hx
    rw [hlist, List.mem_append] at hx
    rcases hx with hx | hx
    · rcases h.parent x e hx with hroot | ⟨q, f, hq, hchild, he⟩
      · exact .inl hroot
      · exact .inr ⟨q, f, List.mem_append_left _ hq, hchild, he⟩
    · obtain ⟨c, hc, heq⟩ := List.mem_map.1 hx
      cases heq
      exact .inr ⟨p, d, by simp, (hnew x hc).1, rfl⟩
  · intro x hx
    rw [hids, List.tail_append_of_ne_nil hne, List.mem_append] at hx
    rw [List.map_append]
    rcases hx with hx | hx
    · obtain ⟨q, hq, hchild⟩ := h.nonroot x hx
      exact ⟨q, List.mem_append_left _ hq, hchild⟩
    · exact ⟨p, by simp, (hnew x hx).1⟩
  · rw [hlist, List.pairwise_append]
    refine ⟨h.depths, ?_, ?_⟩
    · rw [List.pairwise_map]
      exact List.pairwise_of_forall fun _ _ => Nat.le_refl _
    · intro x hx y hy
      obtain ⟨c, -, rfl⟩ := List.mem_map.1 hy
      exact h.level (p, d) List.mem_cons_self x hx
  · intro x hx y hy
    rw [hlist, List.mem_append] at hy
    -- whatever is in the queue is at least as deep as the node just expanded
    have hdeep : d ≤ x.2 := by
      rcases List.mem_append.1 hx with hx | hx
      · have hdepths := (List.pairwise_append.1 h.depths).2.1
        exact (List.pairwise_cons.1 hdepths).1 x hx
      · obtain ⟨c, -, rfl⟩ := List.mem_map.1 hx
        exact Nat.le_succ d
    rcases hy with hy | hy
    · have hle := h.level (p, d) List.mem_cons_self y hy
      dsimp only at hle
      omega
    · obtain ⟨c, -, rfl⟩ := List.mem_map.1 hy
      dsimp only
      omega
  · rw [hids]
    refine h.ordered.append hne hp (fun c hc => (hnew c hc).1) hsorted ?_
    intro a ha
    obtain ⟨q, hq, hchild⟩ := h.nonroot a ha
    refine ⟨q, ?_, hchild, ?_⟩
    · rw [List.map_append]
      exact List.mem_append_left _ hq
    · rw [h.idxOf_next]
      exact Search.idxOf_expanded hq

/-- What the step leaves out: what was left out, and the unseen children not added. -/
theorem Search.leftOut_step (h : Search G root expanded ((p, d) :: queue))
    (hadded : added.Sublist (G.fresh ((expanded ++ (p, d) :: queue).map Prod.fst) p)) {c : α} :
    LeftOut G (expanded ++ [(p, d)]) (queue ++ added.map fun c => (c, d + 1)) c ↔
      LeftOut G expanded ((p, d) :: queue) c ∨
        c ∈ G.fresh ((expanded ++ (p, d) :: queue).map Prod.fst) p ∧ c ∉ added := by
  have hids : ((expanded ++ [(p, d)]) ++ (queue ++ added.map fun c => (c, d + 1))).map Prod.fst =
      (expanded ++ (p, d) :: queue).map Prod.fst ++ added := by
    simp [Function.comp_def]
  have hnodup := h.nodup
  rw [List.map_append, List.map_cons, List.nodup_append] at hnodup
  unfold LeftOut
  rw [hids]
  constructor
  · rintro ⟨q, hq, hchild, hc⟩
    rw [List.mem_append, not_or] at hc
    rw [List.map_append, List.mem_append] at hq
    rcases hq with hq | hq
    · exact .inl ⟨q, hq, hchild, hc.1⟩
    · have hqp : q = p := by simpa using hq
      subst hqp
      exact .inr ⟨G.mem_fresh.2 ⟨hchild, hc.1⟩, hc.2⟩
  · rintro (⟨q, hq, hchild, hc⟩ | ⟨hfresh, hc⟩)
    · refine ⟨q, ?_, hchild, ?_⟩
      · rw [List.map_append]
        exact List.mem_append_left _ hq
      · rw [List.mem_append, not_or]
        refine ⟨hc, ?_⟩
        -- its one parent is not the node just expanded
        intro hmem
        have hchild' := (G.mem_fresh.1 (hadded.subset hmem)).1
        have hqp := G.parent_unique hchild hchild'
        exact hnodup.2.2 q hq p List.mem_cons_self hqp
    · obtain ⟨hchild, hunseen⟩ := G.mem_fresh.1 hfresh
      refine ⟨p, by simp, hchild, ?_⟩
      rw [List.mem_append, not_or]
      exact ⟨hunseen, hc⟩

omit [DecidableEq α] in
theorem Steps.reach {n : Nat} {x : α} (h : Steps G root n x) : Reach G root x := by
  induction n generalizing x with
  | zero =>
    cases h
    exact .refl
  | succ n ih =>
    obtain ⟨p, hp, hchild⟩ := h
    exact (ih hp).tail hchild

/-- The depth of a node is a number of steps to it. -/
theorem Search.steps (h : Search G root expanded queue) {x : α} (hx : (x, d) ∈ expanded ++ queue) :
    Steps G root d x := by
  induction d generalizing x with
  | zero =>
    rcases h.parent x 0 hx with ⟨rfl, -⟩ | ⟨p, e, -, -, hde⟩
    · rfl
    · omega
  | succ d ih =>
    rcases h.parent x (d + 1) hx with ⟨-, hd⟩ | ⟨p, e, hp, hchild, hde⟩
    · omega
    · cases hde
      exact ⟨p, ih (List.mem_append_left _ hp), hchild⟩

/-- The depth a node was seen with is the only one. -/
theorem Search.depth_unique (h : Search G root expanded queue) {x : α} {d e : Nat}
    (hd : (x, d) ∈ expanded ++ queue) (he : (x, e) ∈ expanded ++ queue) : d = e := by
  have heq := List.inj_on_of_nodup_map h.nodup hd he rfl
  exact congrArg Prod.snd heq

/-- No path to a node is shorter than its depth. -/
theorem Search.depth_le (h : Search G root expanded queue) {x : α} {n : Nat}
    (hx : (x, d) ∈ expanded ++ queue) (hn : Steps G root n x) : d ≤ n := by
  induction n generalizing x d with
  | zero =>
    have hxroot : x = root := hn
    obtain ⟨rest, hrest⟩ := h.first
    have hroot : (root, 0) ∈ expanded ++ queue := by
      rw [hrest]
      exact List.mem_cons_self
    rw [hxroot] at hx
    exact Nat.le_of_eq (h.depth_unique hx hroot)
  | succ n ih =>
    obtain ⟨p, hp, hchild⟩ := hn
    rcases h.parent x d hx with ⟨-, hd⟩ | ⟨q, e, hq, hchild', hd⟩
    · omega
    · -- the path comes through the one parent there is
      rw [G.parent_unique hchild' hchild] at hq
      have hle := ih (List.mem_append_left _ hq) hp
      omega

theorem Search.distance (h : Search G root expanded queue) {x : α}
    (hx : (x, d) ∈ expanded ++ queue) : Distance G root d x :=
  ⟨h.steps hx, fun _ => h.depth_le hx⟩

omit [DecidableEq α] in
theorem Distance.unique {x : α} {m n : Nat} (hm : Distance G root m x)
    (hn : Distance G root n x) : m = n :=
  Nat.le_antisymm (hm.2 n hn.1) (hn.2 m hm.1)

/-- Where no child was left out, a finished search has seen whatever is reachable. -/
theorem Search.complete (h : Search G root expanded []) (hall : ∀ c, ¬ LeftOut G expanded [] c)
    {x : α} (hx : Reach G root x) : x ∈ expanded.map Prod.fst := by
  induction hx with
  | refl =>
    obtain ⟨rest, hrest⟩ := h.first
    rw [List.append_nil] at hrest
    rw [hrest]
    exact List.mem_cons_self
  | tail _ hchild ih =>
    by_contra hnot
    refine hall _ ⟨_, ih, hchild, ?_⟩
    rwa [List.append_nil]

end Breadth
