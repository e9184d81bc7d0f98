import Potocolom.Forest.Answered

/-! # A replaced generation stays replaced

`replaceGeneration` writes the generation into the trees that hold the asset. A load writes a
whole tree when it ends: what it fetched, or the layout it captured when it began. So the
generation stays as long as no load that is older than the replacement ends. -/

namespace Potocolom.Forest

open LineageForest

variable {f g : LineageForest} {rootId : String}

/-- The layout that is shown. -/
def shownLayout (f : LineageForest) (rootId : String) : Option LineageTreeLayout :=
  (f.trees.get rootId).bind (·.layout)

/-- A node as `replaceGeneration` leaves it. -/
structure Showing (generation : Generation) (node : LineageNode) : Prop where
  shown : node.data.generation = some generation
  thumbnailUrl : node.data.entry.thumbnailUrl = generation.assets.head?.bind (·.thumbnailUrl)
  missing : node.data.entry.missing = decide (generation.assets = [])

/-- The tree has the asset, and shows the generation there. -/
def Shows (f : LineageForest) (rootId assetId : String) (generation : Generation) : Prop :=
  ∃ layout, shownLayout f rootId = some layout ∧ (∃ node ∈ layout.nodes, node.id = assetId) ∧
    ∀ node ∈ layout.nodes, node.id = assetId → Showing generation node

/-- What ends the duty to show what was put in at place `i`: another replacement, the end of
the tree, or a fetch that began later and succeeded. -/
inductive Superseded (f : LineageForest) (i : Nat) (rootId assetId : String) : Prop where
  | replaced (j : Nat) (generation : Generation) : i < j →
    At f j (.replaced rootId assetId generation) → Superseded f i rootId assetId
  | invalidated (j : Nat) : i < j → At f j (.invalidated rootId) →
    Superseded f i rootId assetId
  | arrived (j number : Nat) : i < number → At f j (.arrived rootId number) →
    Superseded f i rootId assetId

theorem Superseded.mono {i : Nat} {assetId : String} (h : Superseded f i rootId assetId)
    (hext : f.trace <+: g.trace) : Superseded g i rootId assetId := by
  cases h with
  | replaced j generation hlt hat => exact .replaced j generation hlt (hat.mono hext)
  | invalidated j hlt hat => exact .invalidated j hlt (hat.mono hext)
  | arrived j number hlt hat => exact .arrived j number hlt (hat.mono hext)

/-- No generation of the load's tree was replaced since the load began. -/
def Current (f : LineageForest) (load : Load) : Prop :=
  ∀ j assetId generation, load.number < j →
    ¬ At f j (.replaced load.rootId assetId generation)

/-- The loads that may end: those that are not older than a replacement in their tree. -/
def newestOnly : Scope := ⟨Current, False, True⟩

/-- The newest generation is shown, and what a load captured is what is shown. -/
structure Replaced (f : LineageForest) : Prop where
  shows : ∀ i rootId assetId generation, At f i (.replaced rootId assetId generation) →
    Superseded f i rootId assetId ∨ Shows f rootId assetId generation
  captured : f.active = true → ∀ load ∈ f.loads, load.ended = false → Current f load →
    shownLayout f load.rootId = load.existing.bind (·.layout)

theorem Current.of_later {load : Load} (h : Current g load) (hext : f.trace <+: g.trace) :
    Current f load := fun j assetId generation hlt hat =>
  h j assetId generation hlt (hat.mono hext)

/-! ## What the changes keep -/

/-- Whether a change shows another layout for some root. -/
structure Reshown (f g : LineageForest) (rootId : String) : Prop where
  other : ∀ other ≠ rootId, shownLayout g other = shownLayout f other
  trace : f.trace <+: g.trace
  events : ∀ i other assetId generation, other ≠ rootId →
    At g i (.replaced other assetId generation) → At f i (.replaced other assetId generation)

theorem Replaced.reshown (h : Replaced f) (hreshown : Reshown f g rootId)
    (hshows : ∀ i assetId generation, At g i (.replaced rootId assetId generation) →
      Superseded g i rootId assetId ∨ Shows g rootId assetId generation)
    (hcaptured : g.active = true → ∀ load ∈ g.loads, load.ended = false → Current g load →
      shownLayout g load.rootId = load.existing.bind (·.layout)) : Replaced g := by
  constructor
  · intro i other assetId generation hat
    by_cases heq : other = rootId
    · rw [heq] at hat ⊢
      exact hshows i assetId generation hat
    · rcases h.shows i other assetId generation
        (hreshown.events i other assetId generation heq hat) with hsuperseded | hshows
      · exact .inl (hsuperseded.mono hreshown.trace)
      · right
        unfold Shows
        rw [hreshown.other other heq]
        exact hshows
  · exact hcaptured

/-- A change that shows the same layouts. -/
theorem Replaced.same (h : Replaced f) (hlayout : ∀ rootId, shownLayout g rootId =
      shownLayout f rootId) (htrace : f.trace <+: g.trace)
    (hevents : ∀ i rootId assetId generation, At g i (.replaced rootId assetId generation) →
      At f i (.replaced rootId assetId generation))
    (hloads : g.active = true → ∀ load ∈ g.loads, load.ended = false →
      f.active = true ∧ load ∈ f.loads ∨
        shownLayout f load.rootId = load.existing.bind (·.layout)) : Replaced g := by
  constructor
  · intro i rootId assetId generation hat
    rcases h.shows i rootId assetId generation (hevents i rootId assetId generation hat) with
      hsuperseded | hshows
    · exact .inl (hsuperseded.mono htrace)
    · right
      unfold Shows
      rw [hlayout]
      exact hshows
  · intro hactive load hload hended hcurrent
    rw [hlayout]
    rcases hloads hactive load hload hended with ⟨hactive', hload'⟩ | hsame
    · exact h.captured hactive' load hload' hended (hcurrent.of_later htrace)
    · exact hsame

theorem shownLayout_put {tree : LineageTree} (htrees : g.trees = f.trees.put rootId tree)
    (hsame : shownLayout f rootId = tree.layout) (other : String) :
    shownLayout g other = shownLayout f other := by
  unfold shownLayout at hsame ⊢
  rw [htrees]
  by_cases heq : other = rootId
  · rw [heq, Ordered.get_put_self, hsame]
    rfl
  · rw [Ordered.get_put_of_ne heq]

theorem shownLayout_put_self {tree : LineageTree} (htrees : g.trees = f.trees.put rootId tree) :
    shownLayout g rootId = tree.layout := by
  unfold shownLayout
  rw [htrees, Ordered.get_put_self]
  rfl

theorem shownLayout_put_other {tree : LineageTree} (htrees : g.trees = f.trees.put rootId tree)
    {other : String} (hne : other ≠ rootId) : shownLayout g other = shownLayout f other := by
  unfold shownLayout
  rw [htrees, Ordered.get_put_of_ne hne]

theorem shownLayout_of_get {tree : LineageTree} (h : f.trees.get rootId = some tree) :
    shownLayout f rootId = tree.layout := by
  unfold shownLayout
  rw [h]
  rfl

/-- Without new replacements in the trace, no new duties. -/
theorem no_replaced_log {event : Event}
    (h : ∀ rootId assetId generation, event ≠ .replaced rootId assetId generation)
    (i : Nat) (rootId assetId : String) (generation : Generation)
    (hat : At (f.log event) i (.replaced rootId assetId generation)) :
    At f i (.replaced rootId assetId generation) := by
  rcases at_log.1 hat with hat | ⟨-, heq⟩
  · exact hat
  · exact absurd heq.symm (h rootId assetId generation)

theorem no_replaced_note {noted : Bool} {other : String} (i : Nat) (rootId assetId : String)
    (generation : Generation)
    (hat : At (f.note noted other) i (.replaced rootId assetId generation)) :
    At f i (.replaced rootId assetId generation) := by
  rcases note_at hat with hat | heq
  · exact hat
  · cases heq

theorem at_set {tree : LineageTree} {i : Nat} {event : Event} :
    At (f.set rootId tree) i event ↔ At f i event := by
  unfold At
  rw [set_trace]

theorem Replaced.mark (h : Replaced f) (hactive : f.active = true) {tree : LineageTree}
    (hget : f.trees.get rootId = some tree) (noted : Bool) :
    Replaced ((f.note noted rootId).set rootId { tree with dirty := true }) := by
  have hnote : (f.note noted rootId).active = true := by
    rw [note_active]
    exact hactive
  apply h.same
  · have htrees : ((f.note noted rootId).set rootId { tree with dirty := true }).trees =
        f.trees.put rootId { tree with dirty := true } := by
      rw [set_trees hnote, note_trees]
    have hlayout : shownLayout f rootId = tree.layout := shownLayout_of_get hget
    exact shownLayout_put htrees hlayout
  · rw [set_trace]
    exact note_extends
  · intro i other assetId generation hat
    exact no_replaced_note i other assetId generation (at_set.1 hat)
  · intro _ load hload _
    rw [set_loads, note_loads] at hload
    exact .inl ⟨hactive, hload⟩

theorem Replaced.fallback (h : Replaced f) (hf : Scheduled f) (hactive : f.active = true)
    {tree : LineageTree} (habsent : f.trees.get rootId = none) :
    Replaced (f.set rootId tree) := by
  have hreshown : Reshown f (f.set rootId tree) rootId := by
    refine ⟨?_, ?_, ?_⟩
    · intro other hne
      exact shownLayout_put_other (set_trees hactive) hne
    · have hsame : (f.set rootId tree).trace = f.trace := set_trace
      exact hsame ▸ List.prefix_rfl
    · exact fun i other assetId generation _ hat => at_set.1 hat
  refine h.reshown hreshown ?_ ?_
  · intro i assetId generation hat
    rcases h.shows i rootId assetId generation (at_set.1 hat) with hsuperseded | hshows
    · exact .inl (hsuperseded.mono hreshown.trace)
    · obtain ⟨layout, hlayout, -⟩ := hshows
      unfold shownLayout at hlayout
      rw [habsent] at hlayout
      cases hlayout
  · intro _ load hload hended hcurrent
    rw [set_loads] at hload
    have hne : load.rootId ≠ rootId := by
      intro heq
      have hloading := hf.loading hactive load hload hended
      rw [heq] at hloading
      exact not_loading_of_absent habsent hloading
    rw [hreshown.other _ hne]
    exact h.captured hactive load hload hended (hcurrent.of_later hreshown.trace)

theorem Replaced.begin (h : Replaced f) (hactive : f.active = true) {next : LoadRequest} :
    Replaced (f.begin rootId next) := by
  have htrees : (f.begin rootId next).trees =
      f.trees.put next.root.id (f.loadingTree next) := by rw [begin_eq hactive]
  apply h.same
  · -- a loading tree keeps its layout
    exact shownLayout_put htrees (Eq.refl _)
  · rw [begin_eq hactive]
    exact List.prefix_append _ _
  · intro i other assetId generation hat
    rw [begin_eq hactive] at hat
    exact no_replaced_log (fun _ _ _ heq => by cases heq) i other assetId generation hat
  · intro _ load hload _
    rw [begin_eq hactive] at hload
    rcases List.mem_append.1 hload with hload | hload
    · exact .inl ⟨hactive, hload⟩
    · rw [List.mem_singleton] at hload
      subst hload
      exact .inr (Eq.refl _)

theorem Replaced.invalidate (h : Replaced f) (hf : Scheduled f) (hnot : ¬ f.Loading rootId) :
    Replaced (f.invalidate rootId) := by
  have hreshown : Reshown f (f.invalidate rootId) rootId := by
    refine ⟨?_, log_extends, ?_⟩
    · intro other hne
      show ((f.trees.erase rootId).get other).bind _ = (f.trees.get other).bind _
      rw [Ordered.get_erase_of_ne hne]
    · intro i other assetId generation _ hat
      exact no_replaced_log (fun _ _ _ heq => by cases heq) i other assetId generation hat
  refine h.reshown hreshown ?_ ?_
  · intro i assetId generation hat
    have hold : At f i (.replaced rootId assetId generation) :=
      no_replaced_log (fun _ _ _ heq => by cases heq) i rootId assetId generation hat
    exact .inl (.invalidated f.trace.length hold.lt (at_log.2 (.inr ⟨rfl, rfl⟩)))
  · intro hactive load hload hended hcurrent
    have hne : load.rootId ≠ rootId := by
      intro heq
      exact hnot (heq ▸ hf.loading hactive load hload hended)
    rw [hreshown.other _ hne]
    exact h.captured hactive load hload hended (hcurrent.of_later hreshown.trace)

/-! ## A replacement -/

theorem relabel_id {assetId : String} {generation : Generation} {node : LineageNode} :
    (relabel assetId generation node).id = node.id := by
  unfold relabel
  split
  · exact Eq.refl _
  · exact Eq.refl _

/-- Every node of the asset shows the new generation, and the others what they showed. -/
theorem relabel_showing {assetId other : String} {generation shown : Generation}
    {nodes : List LineageNode} (hold : other ≠ assetId → ∀ node ∈ nodes, node.id = other →
      Showing shown node) (hnew : other = assetId → shown = generation) :
    ∀ node ∈ nodes.map (relabel assetId generation), node.id = other → Showing shown node := by
  intro node hnode hid
  obtain ⟨old, hmem, heq⟩ := List.mem_map.1 hnode
  subst heq
  rw [relabel_id] at hid
  unfold relabel
  split
  · next hasset =>
    rw [hnew (hid.symm.trans hasset)]
    exact ⟨Eq.refl _, Eq.refl _, Eq.refl _⟩
  · next hasset =>
    have hne : other ≠ assetId := fun heq => hasset (hid.trans heq)
    exact hold hne old hmem hid

theorem Replaced.replace (h : Replaced f) (hf : Scheduled f) (hactive : f.active = true)
    {assetId : String} {generation : Generation} {tree : LineageTree}
    {layout : LineageTreeLayout} (hget : f.trees.get rootId = some tree)
    (hlayout : tree.layout = some layout) (hnode : ∃ node ∈ layout.nodes, node.id = assetId) :
    Replaced ((f.log (.replaced rootId assetId generation)).set rootId
      { tree with
        layout := some ⟨layout.nodes.map (relabel assetId generation), layout.origin⟩ }) := by
  have hlog : (f.log (.replaced rootId assetId generation)).active = true := hactive
  have hbefore : shownLayout f rootId = some layout := (shownLayout_of_get hget).trans hlayout
  have hnow : shownLayout ((f.log (.replaced rootId assetId generation)).set rootId
      { tree with
        layout := some ⟨layout.nodes.map (relabel assetId generation), layout.origin⟩ }) rootId =
      some ⟨layout.nodes.map (relabel assetId generation), layout.origin⟩ := by
    rw [shownLayout_put_self (set_trees hlog)]
  have hshown : ∀ other shown, (∃ node ∈ layout.nodes, node.id = other) →
      (other ≠ assetId → ∀ node ∈ layout.nodes, node.id = other → Showing shown node) →
      (other = assetId → shown = generation) →
      Shows ((f.log (.replaced rootId assetId generation)).set rootId
        { tree with
          layout := some ⟨layout.nodes.map (relabel assetId generation), layout.origin⟩ })
        rootId other shown := by
    intro other shown hmem hold hnew
    refine ⟨_, hnow, ?_, relabel_showing hold hnew⟩
    obtain ⟨node, hnode, hid⟩ := hmem
    exact ⟨relabel assetId generation node, List.mem_map_of_mem hnode, relabel_id.trans hid⟩
  have hreshown : Reshown f ((f.log (.replaced rootId assetId generation)).set rootId
      { tree with
        layout := some ⟨layout.nodes.map (relabel assetId generation), layout.origin⟩ })
      rootId := by
    refine ⟨?_, ?_, ?_⟩
    · intro other hne
      exact shownLayout_put_other (set_trees hlog) hne
    · rw [set_trace]
      exact log_extends
    · intro i other assetId' generation' hne hat
      rcases at_log.1 (at_set.1 hat) with hat | ⟨-, heq⟩
      · exact hat
      · cases heq
        exact absurd (Eq.refl _) hne
  refine h.reshown hreshown ?_ ?_
  · intro i other shown hat
    rcases at_log.1 (at_set.1 hat) with hold | ⟨-, heq⟩
    · by_cases hasset : other = assetId
      · -- the asset is replaced again
        left
        rw [hasset]
        refine .replaced f.trace.length generation hold.lt ?_
        exact at_set.2 (at_log.2 (.inr ⟨rfl, rfl⟩))
      · rcases h.shows i rootId other shown hold with hsuperseded | hshows
        · exact .inl (hsuperseded.mono hreshown.trace)
        · obtain ⟨layout', hlayout', hmem, hnodes⟩ := hshows
          rw [hbefore] at hlayout'
          cases hlayout'
          exact .inr (hshown other shown hmem (fun _ => hnodes) fun heq => absurd heq hasset)
    · cases heq
      exact .inr (hshown assetId generation hnode (fun hne => absurd (Eq.refl _) hne) fun _ => rfl)
  · intro _ load hload hended hcurrent
    rw [set_loads] at hload
    by_cases heq : load.rootId = rootId
    · -- a load of this tree is older than the replacement
      have hlt : load.number < f.trace.length := (hf.fetch load hload).lt
      refine absurd ?_ (hcurrent f.trace.length assetId generation hlt)
      rw [heq]
      exact at_set.2 (at_log.2 (.inr ⟨rfl, rfl⟩))
    · rw [hreshown.other _ heq]
      exact h.captured hactive load hload hended (hcurrent.of_later hreshown.trace)

/-! ## The end of a load -/

theorem Replaced.over (h : Replaced f) (load : Load) : Replaced (f.loadOver load) := by
  apply h.same
  · exact fun _ => Eq.refl _
  · exact List.prefix_rfl
  · exact fun _ _ _ _ => id
  · exact fun hactive l hl hended => .inl ⟨hactive, ((mem_over hended).1 hl).1⟩

/-- A fetch that succeeded is newer than what it takes away. -/
theorem Replaced.arrive (h : Replaced f) (hf : Scheduled f) {load : Load} {tree : LineageTree}
    (hcurrent : Current f load) (hactive : f.active = true)
    (hsettles : Settles f g load tree)
    (htrace : g.trace = f.trace ++ [.arrived load.rootId load.number]) : Replaced g := by
  have hlog : ∀ i event, At g i event → At f i event ∨
      i = f.trace.length ∧ event = .arrived load.rootId load.number := by
    intro i event hat
    unfold At at hat
    rw [htrace] at hat
    exact at_log.1 hat
  have hevents : ∀ i other assetId generation, At g i (.replaced other assetId generation) →
      At f i (.replaced other assetId generation) := by
    intro i other assetId generation hat
    rcases hlog i _ hat with hat | ⟨-, heq⟩
    · exact hat
    · cases heq
  have hreshown : Reshown f g load.rootId :=
    ⟨fun other hne => shownLayout_put_other hsettles.trees hne, hsettles.trace,
      fun i other assetId generation _ => hevents i other assetId generation⟩
  refine h.reshown hreshown ?_ ?_
  · intro i assetId generation hat
    have hold := hevents i _ assetId generation hat
    -- the replacement is older than the fetch
    have hlt : i < load.number := by
      rcases Nat.lt_trichotomy i load.number with hlt | heq | hgt
      · exact hlt
      · have hfetch := hf.fetch load hsettles.mem
        unfold At at hold hfetch
        rw [heq, hfetch] at hold
        cases hold
      · exact absurd hold (hcurrent i assetId generation hgt)
    left
    refine .arrived f.trace.length load.number hlt ?_
    unfold At
    rw [htrace]
    exact at_log.2 (.inr ⟨rfl, rfl⟩)
  · intro _ l hl hended hl'
    rw [hsettles.loads, mem_over hended] at hl
    have hne : l.rootId ≠ load.rootId := fun heq =>
      hl.2 (hf.unique hl.1 hsettles.mem hended hsettles.ended heq)
    rw [hreshown.other _ hne]
    exact h.captured hactive l hl.1 hended (hl'.of_later hsettles.trace)

/-- A load that fails writes what is shown. -/
theorem Replaced.miss (h : Replaced f) {load : Load} {tree : LineageTree}
    (hcurrent : Current f load) (hactive : f.active = true) (hsettles : Settles f g load tree)
    (hlayout : tree.layout = load.existing.bind (·.layout)) (htrace : g.trace = f.trace) :
    Replaced g := by
  have hshown := h.captured hactive load hsettles.mem hsettles.ended hcurrent
  apply h.same
  · exact shownLayout_put hsettles.trees (hshown.trans hlayout.symm)
  · exact hsettles.trace
  · intro i other assetId generation hat
    unfold At at hat
    rw [htrace] at hat
    exact hat
  · intro _ l hl hended
    rw [hsettles.loads, mem_over hended] at hl
    exact .inl ⟨hactive, hl.1⟩

theorem Replaced.change (h : Replaced f) (hf : Scheduled f)
    (hchange : Change newestOnly f g) : Replaced g := by
  have hsame : (∀ rootId, shownLayout g rootId = shownLayout f rootId) → f.trace <+: g.trace →
      (∀ i rootId assetId generation, At g i (.replaced rootId assetId generation) →
        At f i (.replaced rootId assetId generation)) →
      (g.active = true → f.active = true) → (∀ load ∈ g.loads, load ∈ f.loads) → Replaced g := by
    intro hlayout htrace hevents hactive hloads
    exact h.same hlayout htrace hevents fun hg load hload _ => .inl ⟨hactive hg, hloads load hload⟩
  cases hchange with
  | caches cache known =>
    exact hsame (fun _ => rfl) List.prefix_rfl (fun _ _ _ _ => id) id fun _ => id
  | fallback rootId tree hactive habsent _ _ => exact h.fallback hf hactive habsent
  | mark noted rootId tree hactive hget _ => exact h.mark hactive hget noted
  | again rootId tree =>
    refine hsame (fun _ => rfl) log_extends ?_ id fun _ => id
    exact no_replaced_log fun _ _ _ heq => by cases heq
  | demand noted rootId queue =>
    refine hsame ?_ note_extends no_replaced_note ?_ ?_
    · intro other
      show ((f.note noted rootId).trees.get other).bind _ = (f.trees.get other).bind _
      rw [note_trees]
    · intro hactive
      exact note_active.symm.trans hactive
    · intro load hload
      have hload' : load ∈ (f.note noted rootId).loads := hload
      rw [note_loads] at hload'
      exact hload'
  | wait rootId request =>
    exact hsame (fun _ => rfl) List.prefix_rfl (fun _ _ _ _ => id) id fun _ => id
  | begins rootId next hactive _ _ => exact h.begin hactive
  | invalidate rootId hnot => exact h.invalidate hf hnot
  | replace rootId assetId generation tree layout hactive hget hlayout hnode =>
    exact h.replace hf hactive hget hlayout hnode
  | late rootId assetId generation hlate _ => exact absurd hlate id
  | stop =>
    refine hsame (fun _ => rfl) log_extends ?_ (fun hactive => by cases hactive) fun _ => id
    exact no_replaced_log fun _ _ _ heq => by cases heq
  | drop load _ _ _ => exact h.over load
  | arrive load tree layout queue hload hended hactive hcurrent hloaded _ hlayout horigin hqueue =>
    have hsettles := arrive_settles hf hactive hload hended hloaded hlayout horigin hqueue
    refine h.arrive hf hcurrent hactive hsettles ?_
    show (LineageForest.set _ _ _).trace = _
    rw [set_trace]
    rfl
  | miss load tree queue hload hended hactive hcurrent herror _ hlayout hqueue =>
    have hsettles := miss_settles hf hactive hload hended herror hlayout hqueue
    refine h.miss hcurrent hactive hsettles hlayout ?_
    show (LineageForest.set _ _ _).trace = _
    rw [set_trace]
    rfl
  | release load _ hload _ =>
    exact hsame (fun _ => rfl) List.prefix_rfl (fun _ _ _ _ => id) id fun _ hl =>
      List.mem_of_mem_erase hl

theorem Replaced.changes (h : Replaced f) (hf : Scheduled f)
    (hchanges : Changes newestOnly f g) : Replaced g := by
  induction hchanges with
  | refl => exact h
  | tail hchanges hchange ih => exact ih.change (hf.changes hchanges) hchange

/-- No load ends that is older than a replacement in its tree, and nothing is replaced in a
forest that was stopped. -/
def NoStaleEnd (f : LineageForest) (l : Label) : Prop := l.Within newestOnly f

/-- Whatever was put in last is shown, until a fetch that began later succeeds. -/
def KeepsReplaced (f : LineageForest) : Prop :=
  ∀ i rootId assetId generation, At f i (.replaced rootId assetId generation) →
    Superseded f i rootId assetId ∨ Shows f rootId assetId generation

theorem replaced_stays {layoutLineageTree : Arrange}
    (h : (machine layoutLineageTree).Reach NoStaleEnd f) : KeepsReplaced f := by
  have hboth : Scheduled f ∧ Replaced f := by
    apply h.invariant (I := fun f => Scheduled f ∧ Replaced f)
    · intro s hs
      refine ⟨start_scheduled hs, ?_, ?_⟩
      · intro i rootId assetId generation hat
        unfold At at hat
        rw [hs.trace] at hat
        cases hat
      · intro _ load hload
        rw [hs.loads] at hload
        exact absurd hload List.not_mem_nil
    · intro s l t hs hin hstep
      have hchanges := step_changes hin hstep
      exact ⟨hs.1.changes hchanges, hs.2.changes hs.1 hchanges⟩
  exact hboth.2.shows

/-! ## A load that is older than the replacement -/

def Event.replaces (rootId : String) : Event → Bool
  | .replaced other _ _ => other = rootId
  | _ => false

theorem current_iff {load : Load} :
    (∀ event ∈ f.trace.drop (load.number + 1), Event.replaces load.rootId event = false) ↔
      Current f load := by
  constructor
  · intro h j assetId generation hlt hat
    have hmem : Event.replaced load.rootId assetId generation ∈
        f.trace.drop (load.number + 1) := by
      rw [List.mem_iff_getElem?]
      refine ⟨j - (load.number + 1), ?_⟩
      rw [List.getElem?_drop, Nat.add_sub_cancel' hlt]
      exact hat
    have hfalse := h _ hmem
    simp [Event.replaces] at hfalse
  · intro h event hmem
    obtain ⟨j, hj⟩ := List.mem_iff_getElem?.1 hmem
    rw [List.getElem?_drop] at hj
    cases event with
    | replaced other assetId generation =>
      have hne : other ≠ load.rootId := by
        rintro rfl
        exact h (load.number + 1 + j) assetId generation (by omega) hj
      simp [Event.replaces, hne]
    | _ => rfl

instance (f : LineageForest) (load : Load) : Decidable (Current f load) :=
  decidable_of_iff _ current_iff

instance (f : LineageForest) : (l : Label) → Decidable (NoStaleEnd f l)
  | .ends load _ => inferInstanceAs (Decidable (f.active = true → Current f load))
  | .replaceGeneration _ _ _ => inferInstanceAs (Decidable (f.active = false → False))
  | .ensureVisible _ _ => .isTrue trivial
  | .force _ => .isTrue trivial
  | .reconcileFinished _ _ _ _ => .isTrue trivial
  | .reconcileHistory _ _ => .isTrue trivial
  | .stop => .isTrue trivial
  | .releases _ => .isTrue trivial

section Sample

/-- The generation of the root, with a new thumbnail. -/
def refreshed : Generation := { root with assets := [⟨"image", some "new"⟩] }

/-- The root is fetched, and then its generation replaced. -/
def replacedAfter : List Label :=
  [.ensureVisible root [], .ends firstLoad (.resolved rootSubtree []),
    .releases { firstLoad with ended := true }, .replaceGeneration [root] "image" refreshed]

def refreshedForest : LineageForest := ((machine rootOnly).run empty replacedAfter).getD empty

theorem replaced_stays_sample : KeepsReplaced refreshedForest := by
  have hrun : (machine rootOnly).run empty replacedAfter = some refreshedForest := rfl
  have hok : (machine rootOnly).RunOk NoStaleEnd empty replacedAfter := by decide +kernel
  exact replaced_stays ((Machine.Reach.of_init empty_start).path (Machine.path_of_run hrun hok))

/-- The generation is replaced while the root is fetched again, which fails. -/
def replacedDuring : List Label :=
  [.ensureVisible root [], .ends firstLoad (.resolved rootSubtree []),
    .releases { firstLoad with ended := true }, .force root,
    .replaceGeneration [root] "image" refreshed, .ends forcedLoad .rejected]

def reverted : LineageForest := ((machine rootOnly).run empty replacedDuring).getD empty

theorem replacement_reverted :
    ¬ ∀ f, (machine rootOnly).Reach Machine.anyStep f → KeepsReplaced f := by
  intro hall
  have hrun : (machine rootOnly).run empty replacedDuring = some reverted := rfl
  have hreach : (machine rootOnly).Reach Machine.anyStep reverted :=
    (Machine.Reach.of_init empty_start).path (Machine.path_of_run_any hrun)
  have htrace : reverted.trace = [.fetch "root", .arrived "root" 0, .forced "root",
      .fetch "root", .replaced "root" "image" refreshed] := rfl
  have hat : At reverted 4 (.replaced "root" "image" refreshed) := by
    unfold At
    rw [htrace]
    rfl
  rcases hall reverted hreach 4 "root" "image" refreshed hat with hsuperseded | hshows
  · cases hsuperseded with
    | replaced j generation hlt hj =>
      have hlength := hj.lt
      rw [htrace] at hlength
      simp only [List.length_cons, List.length_nil] at hlength
      omega
    | invalidated j hlt hj =>
      have hlength := hj.lt
      rw [htrace] at hlength
      simp only [List.length_cons, List.length_nil] at hlength
      omega
    | arrived j number hlt hj =>
      have hmem := List.mem_of_getElem? hj
      rw [htrace] at hmem
      simp only [List.mem_cons, reduceCtorEq, Event.arrived.injEq, List.not_mem_nil, or_false,
        false_or] at hmem
      omega
  · obtain ⟨layout, hlayout, -, hnodes⟩ := hshows
    have hshown : shownLayout reverted "root" = some ⟨[⟨"image", rootNode.data⟩], some 0⟩ := rfl
    rw [hshown] at hlayout
    cases hlayout
    have hshowing := (hnodes ⟨"image", rootNode.data⟩ List.mem_cons_self rfl).thumbnailUrl
    cases hshowing

end Sample

end Potocolom.Forest
