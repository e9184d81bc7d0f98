import Potocolom.Forest.Quiet

/-! # A forced request is not forgotten

Each change that begins, ends or drops a tree keeps the account of the forced requests, and
so does every run. -/

namespace Potocolom.Forest

open LineageForest

variable {f g : LineageForest} {i j : Nat} {rootId : String}

/-! ## Changes of one tree -/

/-- What holds of the roots a change leaves alone. -/
structure Elsewhere (f g : LineageForest) (rootId : String) : Prop where
  trees : ∀ other ≠ rootId, g.trees.get other = f.trees.get other
  queue : ∀ other ≠ rootId, g.queue.get other = f.queue.get other
  loads : ∀ load, load.rootId ≠ rootId → load.ended = false → (load ∈ g.loads ↔ load ∈ f.loads)
  trace : f.trace <+: g.trace
  forces : ∀ i other, other ≠ rootId → At g i (.forced other) → At f i (.forced other)
  fetches : ∀ i other, other ≠ rootId → At g i (.fetch other) → At f i (.fetch other)

theorem Elsewhere.loading (h : Elsewhere f g rootId) {other : String} (hne : other ≠ rootId) :
    g.Loading other ↔ f.Loading other := by
  unfold Loading
  rw [h.trees other hne]

theorem Elsewhere.account (h : Elsewhere f g rootId) {other : String} (hne : other ≠ rootId)
    (haccount : Dropped f i other ∨ Asked f other ∨ Served f i other ∧ Fresh f i other) :
    Dropped g i other ∨ Asked g other ∨ Served g i other ∧ Fresh g i other := by
  rcases haccount with hdropped | hasked | ⟨hserved, hfresh⟩
  · exact .inl (hdropped.mono h.trace)
  · right
    left
    unfold Asked Queued
    rw [h.trees other hne, h.queue other hne]
    exact hasked
  · right
    right
    refine ⟨hserved.mono h.trace, ?_, ?_⟩
    · intro load hload hended hroot
      exact hfresh.loads load ((h.loads load (hroot ▸ hne) hended).1 hload) hended hroot
    · intro tree hget
      rw [h.trees other hne] at hget
      exact hfresh.shown tree hget

theorem Elsewhere.present (h : Elsewhere f g rootId) {other : String} (hne : other ≠ rootId)
    (hpresent : (∃ tree, f.trees.get other = some tree) ∨ Dropped f i other) :
    (∃ tree, g.trees.get other = some tree) ∨ Dropped g i other := by
  rcases hpresent with ⟨tree, hget⟩ | hdropped
  · exact .inl ⟨tree, (h.trees other hne).trans hget⟩
  · exact .inr (hdropped.mono h.trace)

theorem Elsewhere.origins (h : Elsewhere f g rootId) (hf : Scheduled f) {other : String}
    (hne : other ≠ rootId) {tree : LineageTree} {layout : LineageTreeLayout} {number : Nat}
    (hget : g.trees.get other = some tree) (hlayout : tree.layout = some layout)
    (horigin : layout.origin = some number) : At g number (.fetch other) := by
  rw [h.trees other hne] at hget
  exact (hf.origins other tree layout number hget hlayout horigin).mono h.trace

theorem Scheduled.fallback (h : Scheduled f) (hactive : f.active = true) {tree : LineageTree}
    (habsent : f.trees.get rootId = none) (hloaded : tree.status = .loaded)
    (hnone : ∀ layout, tree.layout = some layout → layout.origin = none) :
    Scheduled (f.set rootId tree) := by
  rw [set_of_active hactive]
  have helse : Elsewhere f (f.set rootId tree) rootId := by
    rw [set_of_active hactive]
    exact ⟨fun other hne => Ordered.get_put_of_ne hne, fun _ _ => rfl, fun _ _ _ => Iff.rfl,
      List.prefix_rfl, fun _ _ _ => id, fun _ _ _ => id⟩
  rw [set_of_active hactive] at helse
  have hnot : ¬ (f.set rootId tree).Loading rootId := by
    rintro ⟨tree', hget, hloading⟩
    rw [set_trees hactive, Ordered.get_put_self] at hget
    cases hget
    rw [hloaded] at hloading
    cases hloading
  rw [set_of_active hactive] at hnot
  constructor
  · exact h.places
  · exact h.bound
  · exact h.numbers
  · exact h.fetch
  · exact h.captured
  · exact h.alone
  · intro _ load hload hended
    have hloading := h.loading hactive load hload hended
    have hne : load.rootId ≠ rootId := by
      intro heq
      rw [heq] at hloading
      exact not_loading_of_absent habsent hloading
    exact (helse.loading hne).2 hloading
  · intro _ other hloading
    by_cases heq : other = rootId
    · exact absurd (heq ▸ hloading) hnot
    · exact h.loaded hactive other ((helse.loading heq).1 hloading)
  · intro other queued hqueued
    obtain ⟨hroot, hother⟩ := h.waiting other queued hqueued
    refine ⟨hroot, ?_⟩
    by_cases heq : other = rootId
    · rw [heq]
      exact hnot
    · exact fun hloading => hother ((helse.loading heq).1 hloading)
  · intro _ i other hfetch
    by_cases heq : other = rootId
    · rw [heq]
      exact .inl ⟨tree, Ordered.get_put_self⟩
    · exact helse.present heq (h.present hactive i other hfetch)
  · intro other tree' layout number hget hlayout horigin
    by_cases heq : other = rootId
    · have hget' : (f.trees.put rootId tree).get other = some tree' := hget
      rw [heq, Ordered.get_put_self] at hget'
      cases hget'
      rw [hnone layout hlayout] at horigin
      cases horigin
    · exact helse.origins h heq hget hlayout horigin
  · intro _ i other hforced
    have haccount := h.account hactive i other hforced
    by_cases heq : other = rootId
    · subst heq
      rcases haccount with hdropped | hasked | ⟨⟨j, hlt, hfetch⟩, -⟩
      · exact .inl hdropped
      · rcases hasked with hqueued | ⟨tree', hget, -⟩
        · exact .inr (.inl (.inl hqueued))
        · rw [habsent] at hget
          cases hget
      · -- an absent root whose fetch began was invalidated after it
        rcases h.present hactive j other hfetch with ⟨tree', hget⟩ | hdropped
        · rw [habsent] at hget
          cases hget
        · exact .inl (hdropped.earlier (by omega))
    · exact helse.account heq haccount

theorem Scheduled.begin (h : Scheduled f) (hactive : f.active = true) {next : LoadRequest}
    (hhead : f.queue.items.head? = some (rootId, next)) (hplace : f.inFlight < maxConcurrentLoads) :
    Scheduled (f.begin rootId next) := by
  have hqueued : f.queue.get rootId = some next :=
    Ordered.get_eq_some.2 (List.mem_of_mem_head? hhead)
  obtain ⟨hroot, hnot⟩ := h.waiting rootId next hqueued
  subst hroot
  have halone : next.root.id ∉ awaited f := by
    intro hmem
    obtain ⟨load, hload, hended, heq⟩ := mem_awaited.1 hmem
    exact hnot (heq ▸ h.loading hactive load hload hended)
  have helse : Elsewhere f (f.begin next.root.id next) next.root.id := by
    rw [begin_eq hactive]
    refine ⟨fun other hne => Ordered.get_put_of_ne hne,
      fun other hne => Ordered.get_erase_of_ne hne, ?_, List.prefix_append _ _, ?_, ?_⟩
    · intro load hne _
      constructor
      · intro hload
        rcases List.mem_append.1 hload with hload | hload
        · exact hload
        · rw [List.mem_singleton] at hload
          exact absurd (hload ▸ rfl) hne
      · exact fun hload => List.mem_append_left _ hload
    · intro i other _ hforced
      rcases at_log.1 hforced with hforced | ⟨-, heq⟩
      · exact hforced
      · cases heq
    · intro i other hne hfetch
      rcases at_log.1 hfetch with hfetch | ⟨-, heq⟩
      · exact hfetch
      · cases heq
        exact absurd rfl hne
  have hnew : (f.begin next.root.id next).trees.get next.root.id = some (f.loadingTree next) := by
    rw [begin_eq hactive]
    exact Ordered.get_put_self
  have hloads : (f.begin next.root.id next).loads = f.loads ++ [f.beginning next] := by
    rw [begin_eq hactive]
  have hawaited : awaited (f.begin next.root.id next) = awaited f ++ [next.root.id] := by
    unfold awaited
    rw [hloads, List.filter_append, List.map_append]
    rfl
  have hfetched : At (f.begin next.root.id next) f.trace.length (.fetch next.root.id) := by
    rw [begin_eq hactive]
    exact at_log.2 (.inr ⟨rfl, rfl⟩)
  constructor
  · rw [hloads, List.length_append, ← h.places, begin_eq hactive]
    rfl
  · rw [hloads, List.length_append, ← h.places]
    exact hplace
  · rw [hloads, List.map_append, List.nodup_append]
    refine ⟨h.numbers, List.nodup_singleton _, ?_⟩
    intro number hnumber number' hnumber'
    obtain ⟨load, hload, rfl⟩ := List.mem_map.1 hnumber
    rw [List.map_singleton, List.mem_singleton] at hnumber'
    subst hnumber'
    exact Nat.ne_of_lt (h.fetch load hload).lt
  · intro load hload
    rw [hloads] at hload
    rcases List.mem_append.1 hload with hload | hload
    · exact (h.fetch load hload).mono helse.trace
    · rw [List.mem_singleton] at hload
      subst hload
      exact hfetched
  · intro load hload tree layout number hexisting hlayout horigin
    rw [hloads] at hload
    rcases List.mem_append.1 hload with hload | hload
    · exact (h.captured load hload tree layout number hexisting hlayout horigin).mono helse.trace
    · rw [List.mem_singleton] at hload
      subst hload
      exact (h.origins _ tree layout number hexisting hlayout horigin).mono helse.trace
  · rw [hawaited, List.nodup_append]
    refine ⟨h.alone, List.nodup_singleton _, ?_⟩
    rintro other hother other' hother' rfl
    exact halone (List.mem_singleton.1 hother' ▸ hother)
  · intro _ load hload hended
    rw [hloads] at hload
    rcases List.mem_append.1 hload with hload | hload
    · have hloading := h.loading hactive load hload hended
      have hne : load.rootId ≠ next.root.id := fun heq => hnot (heq ▸ hloading)
      exact (helse.loading hne).2 hloading
    · rw [List.mem_singleton] at hload
      subst hload
      exact ⟨f.loadingTree next, hnew, rfl⟩
  · intro _ other hloading
    rw [hawaited, List.mem_append, List.mem_singleton]
    by_cases heq : other = next.root.id
    · exact .inr heq
    · exact .inl (h.loaded hactive other ((helse.loading heq).1 hloading))
  · intro other queued hqueued'
    have hne : other ≠ next.root.id := by
      rintro rfl
      rw [begin_eq hactive] at hqueued'
      simp at hqueued'
    rw [helse.queue other hne] at hqueued'
    obtain ⟨hroot, hother⟩ := h.waiting other queued hqueued'
    exact ⟨hroot, fun hloading => hother ((helse.loading hne).1 hloading)⟩
  · intro _ i other hfetch
    by_cases heq : other = next.root.id
    · rw [heq]
      exact .inl ⟨_, hnew⟩
    · exact helse.present heq (h.present hactive i other (helse.fetches i other heq hfetch))
  · intro other tree layout number hget hlayout horigin
    by_cases heq : other = next.root.id
    · subst heq
      rw [hnew] at hget
      cases hget
      -- a loading tree keeps the layout it had
      obtain ⟨existing, hexisting, hlayout'⟩ := Option.bind_eq_some_iff.1 hlayout
      exact (h.origins _ existing layout number hexisting hlayout' horigin).mono helse.trace
    · exact helse.origins h heq hget hlayout horigin
  · intro _ i other hforced
    by_cases heq : other = next.root.id
    · subst heq
      have hlt : i < f.trace.length := by
        rw [begin_eq hactive] at hforced
        rcases at_log.1 hforced with hforced | ⟨-, heq⟩
        · exact hforced.lt
        · cases heq
      refine .inr (.inr ⟨⟨f.trace.length, hlt, hfetched⟩, ?_, ?_⟩)
      · intro load hload hended hroot
        rw [hloads] at hload
        rcases List.mem_append.1 hload with hload | hload
        · exact absurd (hroot ▸ h.loading hactive load hload hended) hnot
        · rw [List.mem_singleton] at hload
          subst hload
          exact hlt
      · intro tree hget hloaded
        rw [hnew] at hget
        cases hget
        cases hloaded
    · exact helse.account heq (h.account hactive i other (helse.forces i other heq hforced))

theorem Scheduled.invalidate (h : Scheduled f) (hnot : ¬ f.Loading rootId) :
    Scheduled (f.invalidate rootId) := by
  have helse : Elsewhere f (f.invalidate rootId) rootId := by
    refine ⟨fun other hne => Ordered.get_erase_of_ne hne,
      fun other hne => Ordered.get_erase_of_ne hne, fun _ _ _ => Iff.rfl, log_extends, ?_, ?_⟩
    · intro i other _ hforced
      rcases at_log.1 hforced with hforced | ⟨-, heq⟩
      · exact hforced
      · cases heq
    · intro i other _ hfetch
      rcases at_log.1 hfetch with hfetch | ⟨-, heq⟩
      · exact hfetch
      · cases heq
  have hgone : (f.invalidate rootId).trees.get rootId = none := Ordered.get_erase_self
  have hdropped : ∀ i event, event ≠ .invalidated rootId → At (f.invalidate rootId) i event →
      Dropped (f.invalidate rootId) i rootId := by
    intro i event hne hat
    rcases at_log.1 hat with hat | ⟨-, heq⟩
    · exact ⟨f.trace.length, hat.lt, at_log.2 (.inr ⟨rfl, rfl⟩)⟩
    · exact absurd heq hne
  constructor
  · exact h.places
  · exact h.bound
  · exact h.numbers
  · exact fun load hload => (h.fetch load hload).mono log_extends
  · intro load hload tree layout number hexisting hlayout horigin
    exact (h.captured load hload tree layout number hexisting hlayout horigin).mono log_extends
  · exact h.alone
  · intro hactive load hload hended
    have hloading := h.loading hactive load hload hended
    have hne : load.rootId ≠ rootId := fun heq => hnot (heq ▸ hloading)
    exact (helse.loading hne).2 hloading
  · intro hactive other hloading
    have hne : other ≠ rootId := fun heq => not_loading_of_absent hgone (heq ▸ hloading)
    exact h.loaded hactive other ((helse.loading hne).1 hloading)
  · intro other queued hqueued
    have hne : other ≠ rootId := by
      rintro rfl
      have hnone : (f.invalidate other).queue.get other = none := Ordered.get_erase_self
      rw [hnone] at hqueued
      cases hqueued
    rw [helse.queue other hne] at hqueued
    obtain ⟨hroot, hother⟩ := h.waiting other queued hqueued
    exact ⟨hroot, fun hloading => hother ((helse.loading hne).1 hloading)⟩
  · intro hactive i other hfetch
    by_cases heq : other = rootId
    · rw [heq] at hfetch ⊢
      exact .inr (hdropped i _ (fun h => by cases h) hfetch)
    · exact helse.present heq (h.present hactive i other (helse.fetches i other heq hfetch))
  · intro other tree layout number hget hlayout horigin
    have hne : other ≠ rootId := by
      rintro rfl
      rw [hgone] at hget
      cases hget
    exact helse.origins h hne hget hlayout horigin
  · intro hactive i other hforced
    by_cases heq : other = rootId
    · rw [heq] at hforced ⊢
      exact .inl (hdropped i _ (fun h => by cases h) hforced)
    · exact helse.account heq (h.account hactive i other (helse.forces i other heq hforced))

/-! ## The end of a load -/

theorem mem_over {load other : Load} (hended : other.ended = false) :
    other ∈ (f.loadOver load).loads ↔ other ∈ f.loads ∧ other ≠ load := by
  have hloads : (f.loadOver load).loads =
      f.loads.map fun l => if l = load then { l with ended := true } else l := rfl
  rw [hloads, List.mem_map]
  constructor
  · rintro ⟨l, hl, heq⟩
    split at heq
    · subst heq
      cases hended
    · next hne =>
      subst heq
      exact ⟨hl, hne⟩
  · rintro ⟨hother, hne⟩
    exact ⟨other, hother, if_neg hne⟩

/-- A load that is over is one of the loads, apart from that. -/
theorem of_mem_over {load other : Load} (h : other ∈ (f.loadOver load).loads) :
    ∃ l ∈ f.loads, other.number = l.number ∧ other.rootId = l.rootId ∧
      other.existing = l.existing := by
  obtain ⟨l, hl, heq⟩ := List.mem_map.1 h
  split at heq
  · subst heq
    exact ⟨l, hl, rfl, rfl, rfl⟩
  · subst heq
    exact ⟨l, hl, rfl, rfl, rfl⟩

theorem over_numbers {load : Load} :
    (f.loadOver load).loads.map Load.number = f.loads.map Load.number := by
  unfold loadOver
  rw [List.map_map]
  apply List.map_congr_left
  intro l _
  show (if l = load then { l with ended := true } else l).number = l.number
  split <;> rfl

theorem over_awaited {load : Load} : (awaited (f.loadOver load)).Sublist (awaited f) := by
  unfold awaited loadOver
  apply List.Sublist.map
  dsimp only
  induction f.loads with
  | nil => exact .slnil
  | cons l loads ih =>
    rw [List.map_cons]
    by_cases heq : l = load
    · rw [if_pos heq, List.filter_cons_of_neg (by simp)]
      exact ih.trans ((List.sublist_cons_self _ _).filter _)
    · rw [if_neg heq]
      cases hended : l.ended with
      | true =>
        rw [List.filter_cons_of_neg (by simp [hended]), List.filter_cons_of_neg (by simp [hended])]
        exact ih
      | false =>
        rw [List.filter_cons_of_pos (by simp [hended]), List.filter_cons_of_pos (by simp [hended])]
        exact ih.cons_cons l

/-- A load ends while the forest is active: its tree is written, and what was asked for
meanwhile is put into the queue. -/
structure Settles (f g : LineageForest) (load : Load) (tree : LineageTree) : Prop where
  mem : load ∈ f.loads
  ended : load.ended = false
  loads : g.loads = (f.loadOver load).loads
  inFlight : g.inFlight = f.inFlight
  active : g.active = f.active
  trees : g.trees = f.trees.put load.rootId tree
  queue : f.rerun load.rootId = false ∧ g.queue = f.queue ∨
    f.rerun load.rootId = true ∧ Demanded f.queue load.rootId g.queue
  status : tree.status ≠ .loading
  trace : f.trace <+: g.trace
  forces : ∀ i other, At g i (.forced other) → At f i (.forced other)
  fetches : ∀ i other, At g i (.fetch other) → At f i (.fetch other)
  origin : ∀ layout number, tree.layout = some layout → layout.origin = some number →
    At f number (.fetch load.rootId)
  shown : tree.status = .loaded →
    ∃ layout, tree.layout = some layout ∧ layout.origin = some load.number

theorem Settles.elsewhere {load : Load} {tree : LineageTree} (h : Settles f g load tree) :
    Elsewhere f g load.rootId := by
  constructor
  · intro other hne
    rw [h.trees]
    exact Ordered.get_put_of_ne hne
  · intro other hne
    rcases h.queue with ⟨-, heq⟩ | ⟨-, hdemanded⟩
    · rw [heq]
    · exact hdemanded.other hne
  · intro l hne hended
    rw [h.loads, mem_over hended]
    constructor
    · exact And.left
    · exact fun hl => ⟨hl, fun heq => hne (heq ▸ rfl)⟩
  · exact h.trace
  · exact fun i other _ => h.forces i other
  · exact fun i other _ => h.fetches i other

theorem Scheduled.settle (h : Scheduled f) (hactive : f.active = true) {load : Load}
    {tree : LineageTree} (hsettles : Settles f g load tree) : Scheduled g := by
  have helse := hsettles.elsewhere
  have hnew : g.trees.get load.rootId = some tree := by
    rw [hsettles.trees]
    exact Ordered.get_put_self
  have hnot : ¬ g.Loading load.rootId := not_loading hnew hsettles.status
  have hloading := h.loading hactive load hsettles.mem hsettles.ended
  have hawaiting : ∀ l ∈ g.loads, l.ended = false → l ∈ f.loads ∧ l.rootId ≠ load.rootId := by
    intro l hl hended
    rw [hsettles.loads, mem_over hended] at hl
    exact ⟨hl.1, fun heq => hl.2 (h.unique hl.1 hsettles.mem hended hsettles.ended heq)⟩
  constructor
  · rw [hsettles.inFlight, hsettles.loads, h.places]
    exact (List.length_map _).symm
  · rw [hsettles.loads]
    exact Nat.le_trans (Nat.le_of_eq (List.length_map _)) h.bound
  · rw [hsettles.loads, over_numbers]
    exact h.numbers
  · intro l hl
    rw [hsettles.loads] at hl
    obtain ⟨l', hl', hnumber, hroot, -⟩ := of_mem_over hl
    rw [hnumber, hroot]
    exact (h.fetch l' hl').mono hsettles.trace
  · intro l hl tree' layout number hexisting hlayout horigin
    rw [hsettles.loads] at hl
    obtain ⟨l', hl', -, hroot, hsame⟩ := of_mem_over hl
    rw [hsame] at hexisting
    rw [hroot]
    exact (h.captured l' hl' tree' layout number hexisting hlayout horigin).mono hsettles.trace
  · have hawaited : awaited g = awaited (f.loadOver load) := by
      unfold awaited
      rw [hsettles.loads]
    rw [hawaited]
    exact h.alone.sublist over_awaited
  · intro _ l hl hended
    obtain ⟨hmem, hne⟩ := hawaiting l hl hended
    exact (helse.loading hne).2 (h.loading hactive l hmem hended)
  · intro _ other hother
    have hne : other ≠ load.rootId := fun heq => hnot (heq ▸ hother)
    obtain ⟨l, hl, hended, hroot⟩ :=
      mem_awaited.1 (h.loaded hactive other ((helse.loading hne).1 hother))
    refine mem_awaited.2 ⟨l, ?_, hended, hroot⟩
    exact (helse.loads l (hroot ▸ hne) hended).2 hl
  · intro other queued hqueued
    by_cases heq : other = load.rootId
    · rw [heq] at hqueued ⊢
      refine ⟨?_, hnot⟩
      rcases hsettles.queue with ⟨-, hqueue⟩ | ⟨-, hdemanded⟩
      · rw [hqueue] at hqueued
        exact (h.waiting _ queued hqueued).1
      · exact hdemanded.root h hqueued
    · rw [helse.queue other heq] at hqueued
      obtain ⟨hroot, hother⟩ := h.waiting other queued hqueued
      exact ⟨hroot, fun hl => hother ((helse.loading heq).1 hl)⟩
  · intro _ i other hfetch
    by_cases heq : other = load.rootId
    · rw [heq]
      exact .inl ⟨tree, hnew⟩
    · exact helse.present heq (h.present hactive i other (hsettles.fetches i other hfetch))
  · intro other tree' layout number hget hlayout horigin
    by_cases heq : other = load.rootId
    · subst heq
      rw [hnew] at hget
      cases hget
      exact (hsettles.origin layout number hlayout horigin).mono hsettles.trace
    · exact helse.origins h heq hget hlayout horigin
  · intro _ i other hforced
    have haccount := h.account hactive i other (hsettles.forces i other hforced)
    by_cases heq : other = load.rootId
    · subst heq
      rcases hsettles.queue with ⟨hclean, -⟩ | ⟨-, hdemanded⟩
      · rcases haccount with hdropped | hasked | ⟨hserved, hfresh⟩
        · exact .inl (hdropped.mono hsettles.trace)
        · -- a loading tree without a mark is not asked for
          rcases hasked with ⟨queued, hqueued, -⟩ | ⟨tree', hget, -, hdirty⟩
          · exact absurd hloading (h.waiting _ queued hqueued).2
          · unfold rerun at hclean
            rw [hget, Option.any_some, hdirty] at hclean
            cases hclean
        · refine .inr (.inr ⟨hserved.mono hsettles.trace, ?_, ?_⟩)
          · intro l hl hended hroot
            exact absurd hroot (hawaiting l hl hended).2
          · intro tree' hget hloaded
            rw [hnew] at hget
            cases hget
            obtain ⟨layout, hlayout, horigin⟩ := hsettles.shown hloaded
            exact ⟨layout, load.number, hlayout, horigin,
              hfresh.loads load hsettles.mem hsettles.ended rfl⟩
      · exact .inr (.inl (.inl hdemanded.queued))
    · exact helse.account heq haccount

/-! ## Every run -/

theorem Scheduled.stop (h : Scheduled f) : Scheduled f.stop := by
  constructor
  · exact h.places
  · exact h.bound
  · exact h.numbers
  · exact fun load hload => (h.fetch load hload).mono log_extends
  · intro load hload tree layout number hexisting hlayout horigin
    exact (h.captured load hload tree layout number hexisting hlayout horigin).mono log_extends
  · exact h.alone
  · intro hactive
    cases hactive
  · intro hactive
    cases hactive
  · intro rootId queued hqueued
    cases hqueued
  · intro hactive
    cases hactive
  · intro rootId tree layout number hget hlayout horigin
    exact (h.origins rootId tree layout number hget hlayout horigin).mono log_extends
  · intro hactive
    cases hactive

theorem Scheduled.drop (h : Scheduled f) (hstopped : f.active = false) (load : Load) :
    Scheduled (f.loadOver load) := by
  have hnot : (f.loadOver load).active ≠ true := by
    rw [over_active, hstopped]
    exact Bool.false_ne_true
  constructor
  · rw [show (f.loadOver load).inFlight = f.inFlight from rfl, h.places]
    exact (List.length_map _).symm
  · exact Nat.le_trans (Nat.le_of_eq (List.length_map _)) h.bound
  · rw [over_numbers]
    exact h.numbers
  · intro l hl
    obtain ⟨l', hl', hnumber, hroot, -⟩ := of_mem_over hl
    rw [hnumber, hroot]
    exact h.fetch l' hl'
  · intro l hl tree' layout number hexisting hlayout horigin
    obtain ⟨l', hl', -, hroot, hsame⟩ := of_mem_over hl
    rw [hsame] at hexisting
    rw [hroot]
    exact h.captured l' hl' tree' layout number hexisting hlayout horigin
  · exact h.alone.sublist over_awaited
  · exact fun hactive => absurd hactive hnot
  · exact fun hactive => absurd hactive hnot
  · exact h.waiting
  · exact fun hactive => absurd hactive hnot
  · exact h.origins
  · exact fun hactive => absurd hactive hnot

theorem Scheduled.release (h : Scheduled f) {load : Load} (hload : load ∈ f.loads)
    (hended : load.ended = true) :
    Scheduled { f with loads := f.loads.erase load, inFlight := f.inFlight - 1 } := by
  have hlength : (f.loads.erase load).length = f.loads.length - 1 :=
    List.length_erase_of_mem hload
  have hawaited :
      awaited { f with loads := f.loads.erase load, inFlight := f.inFlight - 1 } = awaited f := by
    show ((f.loads.erase load).filter _).map _ = (f.loads.filter _).map _
    rw [← List.erase_filter, List.erase_of_not_mem]
    simp [hended]
  have hmem : ∀ l ∈ f.loads.erase load, l ∈ f.loads := fun l hl => List.mem_of_mem_erase hl
  constructor
  · show f.inFlight - 1 = (f.loads.erase load).length
    rw [hlength, h.places]
  · show (f.loads.erase load).length ≤ maxConcurrentLoads
    have hbound := h.bound
    omega
  · exact h.numbers.sublist ((List.erase_sublist).map _)
  · exact fun l hl => h.fetch l (hmem l hl)
  · exact fun l hl => h.captured l (hmem l hl)
  · rw [hawaited]
    exact h.alone
  · exact fun hactive l hl => h.loading hactive l (hmem l hl)
  · intro hactive rootId hloading
    rw [hawaited]
    exact h.loaded hactive rootId hloading
  · exact h.waiting
  · exact h.present
  · exact h.origins
  · intro hactive i rootId hforced
    rcases h.account hactive i rootId hforced with hdropped | hasked | ⟨hserved, hfresh⟩
    · exact .inl hdropped
    · exact .inr (.inl hasked)
    · exact .inr (.inr ⟨hserved, fun l hl => hfresh.loads l (hmem l hl), hfresh.shown⟩)

variable {scope : Scope}

theorem arrive_settles (h : Scheduled f) (hactive : f.active = true) {load : Load}
    (hload : load ∈ f.loads) (hended : load.ended = false) {tree : LineageTree}
    {layout : LineageTreeLayout} {queue : Ordered String LoadRequest}
    (hloaded : tree.status = .loaded) (hlayout : tree.layout = some layout)
    (horigin : layout.origin = some load.number)
    (hqueue : f.rerun load.rootId = false ∧ queue = f.queue ∨
      f.rerun load.rootId = true ∧ Demanded f.queue load.rootId queue) :
    Settles f { ((f.loadOver load).log (.arrived load.rootId load.number)).set load.rootId tree with
      queue := queue } load tree := by
  have hlog : ((f.loadOver load).log (.arrived load.rootId load.number)).active = true := hactive
  rw [set_of_active hlog]
  refine ⟨hload, hended, rfl, rfl, rfl, rfl, hqueue, ?_, log_extends, ?_, ?_, ?_, ?_⟩
  · rw [hloaded]
    intro h
    cases h
  · intro i other hforced
    rcases at_log.1 hforced with hforced | ⟨-, heq⟩
    · exact hforced
    · cases heq
  · intro i other hfetch
    rcases at_log.1 hfetch with hfetch | ⟨-, heq⟩
    · exact hfetch
    · cases heq
  · intro layout' number hlayout' hnumber
    rw [hlayout] at hlayout'
    cases hlayout'
    rw [horigin] at hnumber
    cases hnumber
    exact h.fetch load hload
  · exact fun _ => ⟨layout, hlayout, horigin⟩

theorem miss_settles (h : Scheduled f) (hactive : f.active = true) {load : Load}
    (hload : load ∈ f.loads) (hended : load.ended = false) {tree : LineageTree}
    {queue : Ordered String LoadRequest} (herror : tree.status = .error)
    (hlayout : tree.layout = load.existing.bind (·.layout))
    (hqueue : f.rerun load.rootId = false ∧ queue = f.queue ∨
      f.rerun load.rootId = true ∧ Demanded f.queue load.rootId queue) :
    Settles f { (f.loadOver load).set load.rootId tree with queue := queue } load tree := by
  have hover : (f.loadOver load).active = true := hactive
  rw [set_of_active hover]
  refine ⟨hload, hended, rfl, rfl, rfl, rfl, hqueue, ?_, List.prefix_rfl, fun _ _ => id,
    fun _ _ => id, ?_, ?_⟩
  · rw [herror]
    intro h
    cases h
  · intro layout number hsome horigin
    rw [hlayout] at hsome
    obtain ⟨existing, hexisting, hshown⟩ := Option.bind_eq_some_iff.1 hsome
    exact h.captured load hload existing layout number hexisting hshown horigin
  · intro hloaded
    rw [herror] at hloaded
    cases hloaded

/-- Every change keeps the invariant. -/
theorem Scheduled.change (h : Scheduled f) (hchange : Change scope f g) : Scheduled g := by
  cases hchange with
  | caches cache known => exact h.quiet (caches_quiet h cache known)
  | fallback rootId tree hactive habsent hloaded hnone =>
    exact h.fallback hactive habsent hloaded hnone
  | mark noted rootId tree hactive hget hloading =>
    exact h.quiet (mark_quiet h hactive hget hloading noted)
  | again rootId tree hactive hget hloading hdirty =>
    exact h.quiet (again_quiet h hget hloading hdirty)
  | demand noted rootId queue hactive hnot hdemanded =>
    exact h.quiet (demand_quiet h hnot hdemanded noted)
  | wait rootId request hactive hnot hroot habsent =>
    exact h.quiet (wait_quiet h hnot hroot habsent)
  | begins rootId next hactive hhead hplace => exact h.begin hactive hhead hplace
  | invalidate rootId hnot => exact h.invalidate hnot
  | replace rootId assetId generation tree layout hactive hget hlayout =>
    exact h.quiet (replace_quiet h hactive hget hlayout)
  | late rootId assetId generation _ _ => exact h.quiet (late_quiet h rootId assetId generation)
  | stop => exact h.stop
  | drop load _ _ hstopped => exact h.drop hstopped load
  | arrive load tree layout queue hload hended hactive _ hloaded _ hlayout horigin hqueue =>
    exact h.settle hactive
      (arrive_settles h hactive hload hended hloaded hlayout horigin hqueue)
  | miss load tree queue hload hended hactive _ herror _ hlayout hqueue =>
    exact h.settle hactive (miss_settles h hactive hload hended herror hlayout hqueue)
  | release load _ hload hended => exact h.release hload hended

theorem Scheduled.changes (h : Scheduled f) (hchanges : Changes scope f g) :
    Scheduled g := by
  induction hchanges with
  | refl => exact h
  | tail _ hchange ih => exact ih.change hchange

theorem start_scheduled (h : Start f) : Scheduled f := by
  have hnone : ∀ i event, ¬ At f i event := by
    intro i event hat
    unfold At at hat
    rw [h.trace] at hat
    cases hat
  have hawaited : awaited f = [] := by
    unfold awaited
    rw [h.loads]
    rfl
  have hnot : ∀ rootId, ¬ f.Loading rootId := by
    rintro rootId ⟨tree, hget, hloading⟩
    rw [(h.loaded rootId tree hget).1] at hloading
    cases hloading
  constructor
  · rw [h.inFlight, h.loads]
    rfl
  · rw [h.loads]
    exact Nat.zero_le _
  · rw [h.loads]
    exact List.nodup_nil
  · rw [h.loads]
    exact fun _ hload => absurd hload List.not_mem_nil
  · rw [h.loads]
    exact fun _ hload => absurd hload List.not_mem_nil
  · rw [hawaited]
    exact List.nodup_nil
  · rw [h.loads]
    exact fun _ _ hload => absurd hload List.not_mem_nil
  · exact fun _ rootId hloading => absurd hloading (hnot rootId)
  · intro rootId queued hqueued
    rw [h.queue] at hqueued
    cases hqueued
  · exact fun _ i rootId hfetch => absurd hfetch (hnone i _)
  · intro rootId tree layout number hget hlayout horigin
    rw [(h.loaded rootId tree hget).2.2 layout hlayout] at horigin
    cases horigin
  · exact fun _ i rootId hforced => absurd hforced (hnone i _)

theorem reach_scheduled {layoutLineageTree : Arrange}
    (h : (machine layoutLineageTree).Reach Machine.anyStep f) : Scheduled f := by
  apply h.invariant
  · exact fun s hs => start_scheduled hs
  · intro s l t hs _ hstep
    exact hs.changes (step_changes within_any hstep)

end Potocolom.Forest
