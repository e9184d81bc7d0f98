import Potocolom.Lineage.Graph

/-! # The walk is a breadth-first search

Every row of the query is a search of the graph with as much room as the slots leave,
and the children it counts as left out are left out for good. -/

namespace Potocolom.Lineage

open Breadth (Search Reach Ordered Distance LeftOut)

variable {lib : Library} {user root : Nat} {walk after : Walk}

/-! ## One round -/

/-- What holds of each row: it is a search within the bounds, and what it says of the
children left out is right. -/
structure Walk.Sound (lib : Library) (user root : Nat) (walk : Walk) : Prop where
  search : Search (graph lib user) root walk.result walk.pending
  eligible : ∀ job ∈ (walk.result ++ walk.pending).map Prod.fst, Eligible lib user job
  nodes : (walk.result ++ walk.pending).length ≤ maxNodes
  depth : ∀ job ∈ walk.result ++ walk.pending, job.2 ≤ maxDepth
  truncated : walk.truncated = true ↔ ∃ c, LeftOut (graph lib user) walk.result walk.pending c
  hidden : ∃ left : List Nat, left.Nodup ∧ left.length = walk.hiddenCountLowerBound ∧
    ∀ c ∈ left, LeftOut (graph lib user) walk.result walk.pending c

theorem anchor_sound (h : anchor lib user root = some walk) : walk.Sound lib user root := by
  unfold anchor at h
  split at h
  case isFalse => cases h
  case isTrue heligible =>
    cases h
    constructor
    · exact Search.start root
    · intro job hjob
      have hroot : job = root := by simpa using hjob
      rw [hroot]
      exact heligible
    · simp [maxNodes]
    · simp [maxDepth]
    · simp [LeftOut]
    · exact ⟨[], List.nodup_nil, rfl, by simp⟩

theorem getElem_notMem_take {found : List Nat} (hfound : found.Nodup) {capacity : Nat}
    (hlt : capacity < found.length) : found[capacity] ∉ found.take capacity := by
  intro htake
  obtain ⟨i, hi, heq⟩ := List.mem_take_iff_getElem.1 htake
  have hindex := (List.Nodup.getElem_inj_iff hfound).1 heq
  omega

/-- A round adds one child to those left out when there is one too many. -/
theorem hidden_step {found : List Nat} {capacity count : Nat} {old new : Nat → Prop}
    (hfound : found.Nodup) (hdisjoint : ∀ c ∈ found, ¬ old c)
    (hnew : ∀ c, new c ↔ old c ∨ c ∈ found ∧ c ∉ found.take capacity)
    (hold : ∃ left : List Nat, left.Nodup ∧ left.length = count ∧ ∀ c ∈ left, old c) :
    ∃ left : List Nat, left.Nodup ∧
      left.length = count + (if capacity < found.length then 1 else 0) ∧
      ∀ c ∈ left, new c := by
  obtain ⟨left, hnodup, hlength, hleft⟩ := hold
  split
  case isTrue hlt =>
    -- the first child there is no room for
    have hmem : found[capacity] ∈ found := List.getElem_mem hlt
    have hnot := getElem_notMem_take hfound hlt
    refine ⟨found[capacity] :: left, ?_, ?_, ?_⟩
    · rw [List.nodup_cons]
      exact ⟨fun h => hdisjoint _ hmem (hleft _ h), hnodup⟩
    · rw [List.length_cons, hlength]
    · intro c hc
      rcases List.mem_cons.1 hc with rfl | hc
      · exact (hnew _).2 (.inr ⟨hmem, hnot⟩)
      · exact (hnew c).2 (.inl (hleft c hc))
  case isFalse =>
    exact ⟨left, hnodup, hlength, fun c hc => (hnew c).2 (.inl (hleft c hc))⟩

theorem truncated_step {found : List Nat} {capacity : Nat} {truncated : Bool}
    {old new : Nat → Prop} (hfound : found.Nodup)
    (hnew : ∀ c, new c ↔ old c ∨ c ∈ found ∧ c ∉ found.take capacity)
    (hold : truncated = true ↔ ∃ c, old c) :
    (truncated || decide (capacity < found.length)) = true ↔ ∃ c, new c := by
  simp only [hnew, Bool.or_eq_true, hold, decide_eq_true_eq, exists_or]
  refine or_congr_right ?_
  constructor
  · intro hlt
    exact ⟨found[capacity], List.getElem_mem hlt, getElem_notMem_take hfound hlt⟩
  · rintro ⟨c, hc, hnot⟩
    by_contra hle
    rw [List.take_of_length_le (Nat.le_of_not_lt hle)] at hnot
    exact hnot hc

theorem next_sound (hsound : walk.Sound lib user root) (h : walk.next lib user = some after) :
    after.Sound lib user root := by
  obtain ⟨job, depth, rest, hpending, hafter, hresult, htruncated, hhidden⟩ :=
    Walk.next_cases h
  have hsearch := hsound.search
  have hnodes := hsound.nodes
  have hdepth := hsound.depth
  have hcut := hsound.truncated
  have hleft := hsound.hidden
  have heligible := hsound.eligible
  rw [hpending] at hsearch hnodes hdepth hcut hleft heligible hafter htruncated hhidden
  set seen := (walk.result ++ (job, depth) :: rest).map Prod.fst with hseen
  set found := (fresh lib user seen job).map Job.id with hfound
  have hsub : (found.take (walk.capacity depth)).Sublist ((graph lib user).fresh seen job) :=
    List.take_sublist _ _
  have hstep := hsearch.step hsub
  have hout := fun c => hsearch.leftOut_step hsub (c := c)
  have hnodup : found.Nodup := by
    refine (sorted_fresh seen job).imp ?_
    rintro a b hab rfl
    exact Before.irrefl a hab
  have hlist : (walk.result ++ [(job, depth)]) ++
      (rest ++ (found.take (walk.capacity depth)).map fun child => (child, depth + 1)) =
      (walk.result ++ (job, depth) :: rest) ++
        (found.take (walk.capacity depth)).map fun child => (child, depth + 1) := by
    simp
  constructor
  · rw [hafter, hresult]
    exact hstep
  · rw [hafter, hresult, hlist]
    intro x hx
    rw [List.map_append, List.mem_append] at hx
    rcases hx with hx | hx
    · exact heligible x hx
    · rw [List.map_map] at hx
      have hx : x ∈ found := by
        obtain ⟨c, hc, rfl⟩ := List.mem_map.1 hx
        exact List.mem_of_mem_take hc
      exact (mem_fresh.1 hx).1.eligible
  · rw [hafter, hresult, hlist]
    have hcapacity : walk.capacity depth ≤
        maxNodes - walk.result.length - walk.pending.length := by
      unfold Walk.capacity
      split
      · exact Nat.le_refl _
      · exact Nat.zero_le _
    rw [hpending] at hcapacity
    simp only [List.length_append, List.length_map, List.length_take, List.length_cons]
      at hcapacity hnodes ⊢
    omega
  · rw [hafter, hresult, hlist]
    intro x hx
    rcases List.mem_append.1 hx with hx | hx
    · exact hdepth x hx
    · -- at the greatest depth there are no slots
      obtain ⟨c, hc, rfl⟩ := List.mem_map.1 hx
      have hlt : depth < maxDepth := by
        by_contra hge
        have hzero : walk.capacity depth = 0 := if_neg hge
        rw [hzero] at hc
        cases hc
      exact hlt
  · rw [hafter, hresult, htruncated]
    exact truncated_step hnodup hout hcut
  · rw [hafter, hresult, hhidden]
    refine hidden_step hnodup ?_ hout hleft
    -- a child of the node just expanded is not one of an older node
    rintro c hc ⟨q, hq, hchild, -⟩
    have hqjob : q = job := hchild.parent_unique (mem_fresh.1 hc).1
    have hdistinct := hsearch.nodup
    rw [List.map_append, List.map_cons] at hdistinct
    exact (List.nodup_append.1 hdistinct).2.2 q hq job List.mem_cons_self hqjob

/-! ## All rounds -/

theorem next_eq_none : walk.next lib user = none ↔ walk.pending = [] := by
  unfold Walk.next
  split
  case h_1 hpending => simp [hpending]
  case h_2 hpending => simp [hpending]

/-- The query ends in one row with no job pending, a search like every row before. -/
theorem rows_end (hsound : walk.Sound lib user root) :
    ∃ front last, walk.rows lib user = front ++ [last] ∧ (∀ row ∈ front, row.pending ≠ []) ∧
      last.pending = [] ∧ last.Sound lib user root := by
  induction walk using Walk.rows.induct lib user with
  | case1 walk hnone =>
    refine ⟨[], walk, ?_, by simp, next_eq_none.1 hnone, hsound⟩
    rw [Walk.rows, hnone]
    rfl
  | case2 walk after hnext ih =>
    obtain ⟨front, last, hrows, hfront, hpending, hlast⟩ := ih (next_sound hsound hnext)
    refine ⟨walk :: front, last, ?_, ?_, hpending, hlast⟩
    · rw [Walk.rows, hnext]
      simp only
      rw [hrows, List.cons_append]
    · intro row hrow
      rcases List.mem_cons.1 hrow with rfl | hrow
      · intro hempty
        rw [next_eq_none.2 hempty] at hnext
        cases hnext
      · exact hfront row hrow

theorem finalState_rows {front : List Walk} {last : Walk}
    (hfront : ∀ row ∈ front, row.pending ≠ []) (hlast : last.pending = []) :
    finalState (front ++ [last]) = some last := by
  have hnone : front.filter (fun row => row.pending = []) = [] := by
    rw [List.filter_eq_nil_iff]
    intro row hrow
    simpa using hfront row hrow
  unfold finalState
  rw [List.filter_append, hnone]
  simp [hlast]

/-! ## The answer -/

theorem exists_node {job : Nat} (h : Eligible lib user job) :
    ∃ n, node lib user job = some n ∧ n.jobId = job := by
  obtain ⟨⟨row, hrow, hid, huser⟩, hmaster⟩ := h
  have hfound : (lib.jobs.find? fun row => row.id = job ∧ row.userId = user).isSome := by
    rw [List.find?_isSome]
    exact ⟨row, hrow, by simp [hid, huser]⟩
  obtain ⟨found, hfind⟩ := Option.isSome_iff_exists.1 hfound
  have hjob : found.id = job := by
    have hprop := List.find?_some hfind
    rw [decide_eq_true_eq] at hprop
    exact hprop.1
  have hhead : ∃ master, (byId (outputs lib user found.id)).head? = some master := by
    cases hsorted : byId (outputs lib user found.id) with
    | nil =>
      rw [hjob, byId, ← List.length_eq_zero_iff, List.length_insertionSort,
        List.length_eq_zero_iff] at hsorted
      exact absurd hsorted hmaster
    | cons master rest => exact ⟨master, rfl⟩
  obtain ⟨master, hhead⟩ := hhead
  unfold node
  rw [hfind]
  simp only [Option.bind_eq_bind, Option.bind_some, hhead, Option.pure_def]
  exact ⟨_, rfl, hjob⟩

theorem map_jobId_nodes {ids : List Nat} (h : ∀ job ∈ ids, Eligible lib user job) :
    (ids.filterMap (node lib user)).map Node.jobId = ids := by
  induction ids with
  | nil => rfl
  | cons job ids ih =>
    obtain ⟨n, hnode, hjob⟩ := exists_node (h job List.mem_cons_self)
    rw [List.filterMap_cons_some hnode, List.map_cons, hjob,
      ih fun x hx => h x (List.mem_cons_of_mem _ hx)]

/-- The answer is what a sound last row says. -/
theorem generationSubtree_cases (lib : Library) (user root : Nat) :
    (generationSubtree lib user root = none ∧ ¬ Eligible lib user root) ∨
    ∃ (answer : Answer) (last : Walk),
      generationSubtree lib user root = some answer ∧ last.pending = [] ∧
      last.Sound lib user root ∧ answer.nodes.map Node.jobId = last.result.map Prod.fst ∧
      answer.truncated = last.truncated ∧
      answer.remainingCountLowerBound = last.hiddenCountLowerBound := by
  by_cases heligible : Eligible lib user root
  · right
    have hanchor : anchor lib user root = some ⟨[(root, 0)], [], false, 0⟩ := if_pos heligible
    obtain ⟨front, last, hrows, hfront, hpending, hlast⟩ := rows_end (anchor_sound hanchor)
    have hids : ∀ job ∈ last.result.map Prod.fst, Eligible lib user job := by
      intro job hjob
      refine hlast.eligible job ?_
      rw [List.map_append]
      exact List.mem_append_left _ hjob
    have hnodes := map_jobId_nodes hids
    have hne : (last.result.map Prod.fst).filterMap (node lib user) ≠ [] := by
      intro hempty
      obtain ⟨rest, hfirst⟩ := hlast.search.first
      rw [hpending, List.append_nil] at hfirst
      rw [hempty, hfirst] at hnodes
      cases hnodes
    refine ⟨⟨_, last.truncated, last.hiddenCountLowerBound⟩, last, ?_, hpending, hlast, hnodes,
      rfl, rfl⟩
    unfold generationSubtree
    simp only [hanchor, hrows, finalState_rows hfront hpending, Option.bind_eq_bind,
      Option.bind_some, if_neg hne, Option.pure_def]
  · left
    have hanchor : anchor lib user root = none := if_neg heligible
    unfold generationSubtree
    rw [hanchor]
    exact ⟨rfl, heligible⟩

/-- What the answer for a root says of the graph: its jobs are distinct, reachable and in
breadth-first order, within both bounds; it is cut short exactly when a child of one of
its jobs is missing, and counts no more jobs as hidden than are. -/
structure Answer.Correct (lib : Library) (user root : Nat) (answer : Answer) : Prop where
  first : (answer.nodes.map Node.jobId).head? = some root
  distinct : (answer.nodes.map Node.jobId).Nodup
  eligible : ∀ x ∈ answer.nodes.map Node.jobId, Eligible lib user x
  reach : ∀ x ∈ answer.nodes.map Node.jobId, Reach (graph lib user) root x
  ordered : Ordered (graph lib user) (answer.nodes.map Node.jobId)
  levels : (answer.nodes.map Node.jobId).Pairwise fun a b => ∀ m n,
    Distance (graph lib user) root m a → Distance (graph lib user) root n b → m ≤ n
  size : answer.nodes.length ≤ maxNodes
  depth : ∀ x ∈ answer.nodes.map Node.jobId, ∃ n ≤ maxDepth, Distance (graph lib user) root n x
  truncated : answer.truncated = true ↔ ∃ p ∈ answer.nodes.map Node.jobId,
    ∃ c, IsChild lib user p c ∧ c ∉ answer.nodes.map Node.jobId
  complete : answer.truncated = false → ∀ x, Reach (graph lib user) root x →
    x ∈ answer.nodes.map Node.jobId
  hidden : ∃ left : List Nat, left.Nodup ∧ answer.remainingCountLowerBound ≤ left.length ∧
    ∀ c ∈ left, Reach (graph lib user) root c ∧ c ∉ answer.nodes.map Node.jobId

/-- The subtree of a generation is a bounded breadth-first search from it. -/
theorem subtree_search (lib : Library) (user root : Nat) :
    match generationSubtree lib user root with
    | none => ¬ Eligible lib user root
    | some answer => answer.Correct lib user root := by
  rcases generationSubtree_cases lib user root with
    ⟨hnone, heligible⟩ | ⟨answer, last, hanswer, hpending, hlast, hids, hcut, hhidden⟩
  · rw [hnone]
    exact heligible
  · rw [hanswer]
    have hsearch := hlast.search
    have hseen := hlast.eligible
    have hnodes := hlast.nodes
    have hbound := hlast.depth
    have htruncated := hlast.truncated
    obtain ⟨left, hnodup, hlength, hleft⟩ := hlast.hidden
    rw [hpending] at hsearch hseen hnodes hbound htruncated hleft
    -- the last row has expanded all it has seen
    have hout : ∀ c, LeftOut (graph lib user) last.result [] c ↔
        ∃ p ∈ last.result.map Prod.fst, IsChild lib user p c ∧
          c ∉ last.result.map Prod.fst := by
      intro c
      unfold LeftOut
      rw [List.append_nil]
      rfl
    have hdistance : ∀ x d, (x, d) ∈ last.result → Distance (graph lib user) root d x := by
      intro x d hx
      exact hsearch.distance (by rwa [List.append_nil])
    rw [List.append_nil] at hseen hnodes hbound
    constructor
    · obtain ⟨rest, hfirst⟩ := hsearch.first
      rw [List.append_nil] at hfirst
      rw [hids, hfirst]
      rfl
    · rw [hids]
      simpa using hsearch.nodup
    · rw [hids]
      exact hseen
    · rw [hids]
      intro x hx
      obtain ⟨⟨x, d⟩, hmem, rfl⟩ := List.mem_map.1 hx
      exact (hdistance x d hmem).1.reach
    · rw [hids]
      simpa using hsearch.ordered
    · rw [hids, List.pairwise_map]
      have hdepths := hsearch.depths
      rw [List.append_nil] at hdepths
      refine hdepths.imp_of_mem ?_
      rintro ⟨a, d⟩ ⟨b, e⟩ ha hb hle m n hm hn
      rw [hm.unique (hdistance a d ha), hn.unique (hdistance b e hb)]
      exact hle
    · have hlen := congrArg List.length hids
      rw [List.length_map, List.length_map] at hlen
      rwa [hlen]
    · rw [hids]
      intro x hx
      obtain ⟨⟨x, d⟩, hmem, rfl⟩ := List.mem_map.1 hx
      exact ⟨d, hbound _ hmem, hdistance x d hmem⟩
    · rw [hids, hcut, htruncated]
      simp only [hout]
      constructor
      · rintro ⟨c, p, hp, hchild, hc⟩
        exact ⟨p, hp, c, hchild, hc⟩
      · rintro ⟨p, hp, c, hchild, hc⟩
        exact ⟨c, p, hp, hchild, hc⟩
    · rw [hids, hcut]
      intro hfull x hx
      refine hsearch.complete ?_ hx
      intro c hc
      have htrue := htruncated.2 ⟨c, hc⟩
      rw [hfull] at htrue
      cases htrue
    · rw [hids, hhidden]
      refine ⟨left, hnodup, Nat.le_of_eq hlength.symm, ?_⟩
      intro c hc
      obtain ⟨p, hp, hchild, hnot⟩ := (hout c).1 (hleft c hc)
      obtain ⟨⟨p, d⟩, hmem, rfl⟩ := List.mem_map.1 hp
      exact ⟨(hdistance p d hmem).1.reach.tail hchild, hnot⟩

end Potocolom.Lineage
