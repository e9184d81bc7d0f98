import Potocolom.Forest.Scheduled

/-! # A request waits only while four loads are under way

Whenever a call is over, either nothing waits in the queue or there is no free place. -/

namespace Potocolom.Forest

open LineageForest

variable {f g : LineageForest} {rootId : String}

/-- Between two calls nothing waits as long as there is a free place. -/
def Drained (f : LineageForest) : Prop :=
  f.active = true → f.queue.items = [] ∨ maxConcurrentLoads ≤ f.inFlight

theorem Drained.of_same (h : Drained f) (hqueue : f.queue.items = [] → g.queue.items = [])
    (hinFlight : g.inFlight = f.inFlight) (hactive : g.active = f.active) : Drained g := by
  intro hg
  rw [hactive] at hg
  rw [hinFlight]
  exact (h hg).imp_left hqueue

theorem Drained.set (h : Drained f) {tree : LineageTree} : Drained (f.set rootId tree) :=
  h.of_same (by rw [set_queue]; exact id) set_inFlight set_active

theorem drainBy_drained {free : Nat} (hfree : maxConcurrentLoads ≤ f.inFlight + free) :
    Drained (f.drainBy free) := by
  induction free generalizing f with
  | zero => exact fun _ => .inr hfree
  | succ free ih =>
    unfold drainBy
    split
    · split
      · next hhead => exact fun _ => .inl (List.head?_eq_none_iff.1 hhead)
      · next rootId next _ =>
        apply ih
        have hinFlight : (f.begin rootId next).inFlight = f.inFlight + 1 := set_inFlight
        omega
    · next hactive => exact fun h => absurd h hactive

theorem drain_drained : Drained f.drain := drainBy_drained (by omega)

theorem Drained.enqueue (h : Drained f) {request : LoadRequest} :
    Drained (f.enqueue request) := by
  unfold LineageForest.enqueue
  split
  · next queued hqueued =>
    split
    · -- a queue that has the root is not empty
      apply h.of_same
      · intro hempty
        have hmem := Ordered.get_eq_some.1 hqueued
        rw [hempty] at hmem
        exact absurd hmem List.not_mem_nil
      · rfl
      · rfl
    · exact h
  · exact drain_drained

theorem Drained.schedule (h : Drained f) {request : LoadRequest} :
    Drained (f.schedule request) := by
  unfold LineageForest.schedule
  split
  · exact h
  · split
    · split
      · split
        · exact h.set
        · exact h
      · split
        · exact h
        · exact h.enqueue
    · exact h.enqueue

theorem Drained.force (h : Drained f) {root : Generation} : Drained (f.force root) := by
  unfold LineageForest.force
  apply Drained.schedule
  split
  · exact h
  · exact h

theorem Drained.ensureVisible (h : Drained f) {root : Generation}
    {fallback : List LineageNode} : Drained (f.ensureVisible root fallback) := by
  unfold LineageForest.ensureVisible
  dsimp only
  split
  · split
    · exact h.set
    · exact h
  · split
    · exact h.schedule
    · split
      · exact h.schedule
      · exact h

theorem Drained.invalidate (h : Drained f) : Drained (f.invalidate rootId) := by
  apply h.of_same
  · intro hempty
    show f.queue.items.filter _ = []
    rw [hempty]
    rfl
  · rfl
  · rfl

theorem Drained.derive (h : Drained f) {roots : List Generation} {sourceAssetId : String} :
    Drained (f.derive roots sourceAssetId).1 := by
  unfold LineageForest.derive
  split
  · exact h
  · dsimp only
    split
    · exact h.force
    · split
      · dsimp only
        split
        · apply Drained.set
          exact h
        · exact h
      · exact h.invalidate

theorem Drained.finish (h : Drained f) {starredOnly : Bool} {isStarred : String → Bool}
    {roots : List Generation} {generation : Generation} :
    Drained (finish starredOnly isStarred (f, roots) generation).1 := by
  unfold LineageForest.finish
  dsimp only
  split
  · exact h
  · split
    · split
      · exact h
      · exact h
    · apply Drained.derive
      exact h

theorem Drained.reconcileFinished (h : Drained f) {roots history : List Generation}
    {starredOnly : Bool} {isStarred : String → Bool} :
    Drained (f.reconcileFinished roots history starredOnly isStarred).1 := by
  unfold LineageForest.reconcileFinished
  induction history generalizing f roots with
  | nil => exact h
  | cons generation history ih =>
    rw [List.foldl_cons]
    exact ih h.finish

theorem Drained.reconcileHistory (h : Drained f) {roots history : List Generation} :
    Drained (f.reconcileHistory roots history) := by
  unfold LineageForest.reconcileHistory
  induction roots generalizing f with
  | nil => exact h
  | cons root roots ih =>
    rw [List.foldl_cons]
    apply ih
    unfold refresh
    split
    · exact h
    · split
      · exact h
      · dsimp only
        split
        · exact h.force
        · exact h

theorem Drained.replaceGeneration (h : Drained f) {roots : List Generation} {assetId : String}
    {generation : Generation} : Drained (f.replaceGeneration roots assetId generation).1 := by
  unfold LineageForest.replaceGeneration
  dsimp only
  generalize f.trees.items = items
  induction items generalizing f with
  | nil => exact h
  | cons item items ih =>
    rw [List.foldl_cons]
    apply ih
    unfold LineageForest.replace
    split
    · exact h
    · split
      · apply Drained.set
        exact h
      · exact h

theorem Drained.settle (h : Drained f) {layoutLineageTree : Arrange} {load : Load}
    {answer : Answer} : Drained (f.settle layoutLineageTree load answer) := by
  have hover : Drained (f.loadOver load) := h
  have hfail : Drained ((f.loadOver load).fail load) := by
    unfold LineageForest.fail
    dsimp only
    split
    · exact hover.set.schedule
    · exact hover.set
  unfold LineageForest.settle
  dsimp only
  split
  · exact hover
  · split
    · split
      · unfold succeed
        dsimp only
        have hset : ∀ tree, Drained (((f.loadOver load).log
            (.arrived load.rootId load.number)).set load.rootId tree) := by
          intro tree
          apply Drained.set
          exact hover
        split
        · apply Drained.schedule
          exact hset _
        · exact hset _
      · exact hfail
    · exact hfail

theorem step_drained {layoutLineageTree : Arrange} {l : Label} (h : Drained f)
    (hstep : step layoutLineageTree f l = some g) : Drained g := by
  cases l with
  | ensureVisible root fallback =>
    cases hstep
    exact h.ensureVisible
  | force root =>
    cases hstep
    exact h.force
  | reconcileFinished roots history starredOnly isStarred =>
    cases hstep
    exact h.reconcileFinished
  | reconcileHistory roots history =>
    cases hstep
    exact h.reconcileHistory
  | replaceGeneration roots assetId generation =>
    cases hstep
    exact h.replaceGeneration
  | stop =>
    cases hstep
    exact fun hactive => by cases hactive
  | ends load answer =>
    simp only [step] at hstep
    split at hstep
    · cases hstep
      exact h.settle
    · cases hstep
  | releases load =>
    simp only [step] at hstep
    split at hstep
    · cases hstep
      exact drain_drained
    · cases hstep

theorem reach_drained {layoutLineageTree : Arrange}
    (h : (machine layoutLineageTree).Reach Machine.anyStep f) : Drained f := by
  apply h.invariant
  · intro s hs _
    rw [hs.queue]
    exact .inl rfl
  · intro s l t hs _ hstep
    exact step_drained hs hstep

end Potocolom.Forest
