import Potocolom.Listing.Filters

/-! # What the listing lists

With the roots asked for, a library filter reaches them through chains of owned source
links; and following the cursor lists the filtered set in order, each row once. -/

namespace Potocolom.Listing

variable {t : Tables} {text : TextSearch} {user : Nat} {f : Filters} {job : Job}

/-! ## The roots -/

theorem job_unique {x y : Job} (hx : x ∈ t.jobs) (hy : y ∈ t.jobs) (h : x.id = y.id) : x = y :=
  List.inj_on_of_nodup_map t.jobIds hx hy h

/-- An owned source link: the job reads an owned asset, which an owned job made. -/
def OwnedLink (t : Tables) (user : Nat) (child parent : Job) : Prop :=
  child ∈ t.jobs ∧ child.userId = user ∧ parent ∈ t.jobs ∧ parent.userId = user ∧
    ∃ source ∈ t.assets, child.sourceAssetId = some source.id ∧ source.userId = user ∧
      source.jobId = some parent.id

/-- An owned job that meets the conditions. -/
def Matches (t : Tables) (user : Nat) (conditions : List (Job → Bool)) (job : Job) : Prop :=
  job ∈ t.jobs ∧ job.userId = user ∧ ∀ condition ∈ conditions, condition job = true

/-- A chain of zero or more owned source links leads from the job down to one that meets the
conditions. -/
def LeadsDown (t : Tables) (user : Nat) (conditions : List (Job → Bool)) (job : Job) : Prop :=
  ∃ matching, Matches t user conditions matching ∧
    Relation.ReflTransGen (OwnedLink t user) matching job

theorem mem_seed {conditions : List (Job → Bool)} {id : Nat} :
    id ∈ (libraryAncestorCte t user conditions).seed ↔
      ∃ job, Matches t user conditions job ∧ job.id = id := by
  simp only [libraryAncestorCte, Matches, List.mem_map, List.mem_filter, Bool.and_eq_true,
    decide_eq_true_eq, List.all_eq_true, and_assoc]

theorem mem_parents {child : Job} (hchild : child ∈ t.jobs) (huser : child.userId = user)
    {id : Nat} : id ∈ parents t user child.id ↔ ∃ parent, OwnedLink t user child parent ∧
      parent.id = id := by
  simp only [parents, List.mem_flatMap, List.mem_filter, List.mem_map, decide_eq_true_eq]
  constructor
  · rintro ⟨job, ⟨hjob, hid⟩, source, ⟨hsource, hreads, hsourceUser⟩, parent,
      ⟨hparent, hmade, hparentUser⟩, rfl⟩
    obtain rfl := job_unique hjob hchild hid
    exact ⟨parent, ⟨hjob, huser, hparent, hparentUser, source, hsource, hreads, hsourceUser,
      hmade⟩, rfl⟩
  · rintro ⟨parent, ⟨-, -, hparent, hparentUser, source, hsource, hreads, hsourceUser, hmade⟩,
      rfl⟩
    exact ⟨child, ⟨hchild, rfl⟩, source, ⟨hsource, hreads, hsourceUser⟩, parent,
      ⟨hparent, hmade, hparentUser⟩, rfl⟩

/-- The walk from an owned job goes along owned source links, and stays at owned jobs. -/
theorem leads_iff {conditions : List (Job → Bool)} {start : Job} (hstart : start ∈ t.jobs)
    (huser : start.userId = user) {id : Nat} :
    (libraryAncestorCte t user conditions).Leads start.id id ↔
      ∃ job, Relation.ReflTransGen (OwnedLink t user) start job ∧ job.id = id := by
  constructor
  · intro hleads
    -- the jobs walked through are owned, so that the next link starts at an owned job
    have howned : ∃ job, Relation.ReflTransGen (OwnedLink t user) start job ∧ job.id = id ∧
        job ∈ t.jobs ∧ job.userId = user := by
      induction hleads with
      | refl => exact ⟨start, .refl, rfl, hstart, huser⟩
      | tail _ hnext ih =>
        obtain ⟨job, hchain, rfl, hjob, hjobUser⟩ := ih
        obtain ⟨parent, hlink, rfl⟩ := (mem_parents hjob hjobUser).1 hnext
        exact ⟨parent, hchain.tail hlink, rfl, hlink.2.2.1, hlink.2.2.2.1⟩
    obtain ⟨job, hchain, hid, -, -⟩ := howned
    exact ⟨job, hchain, hid⟩
  · rintro ⟨job, hchain, rfl⟩
    induction hchain with
    | refl => exact .refl
    | tail _ hlink ih => exact ih.tail ((mem_parents hlink.1 hlink.2.1).2 ⟨_, hlink, rfl⟩)

/-- The walk ends within a round more than there are jobs. -/
theorem walk_ends (conditions : List (Job → Bool)) {fuel : Nat} (hfuel : t.jobs.length < fuel) :
    ((libraryAncestorCte t user conditions).run fuel
      (libraryAncestorCte t user conditions).start).isSome := by
  have hall : (libraryAncestorCte t user conditions).all.length < fuel := by
    rw [libraryAncestorCte, List.length_map]
    exact hfuel
  obtain ⟨result, hrun, -⟩ := Closure.Query.run_start hall
  rw [hrun]
  rfl

/-- The walk finds the jobs that lead down to a job that meets the conditions. -/
theorem mem_ancestors {conditions : List (Job → Bool)} (hjob : job ∈ t.jobs) :
    job.id ∈ ancestors t user conditions ↔ LeadsDown t user conditions job := by
  have hall : (libraryAncestorCte t user conditions).all.length < t.jobs.length + 1 := by
    rw [libraryAncestorCte, List.length_map]
    omega
  obtain ⟨result, hrun, hmem⟩ := Closure.Query.run_start hall
  rw [ancestors, hrun, Option.getD_some, hmem]
  constructor
  · rintro ⟨id, hseed, hleads⟩
    obtain ⟨start, hmatches, rfl⟩ := mem_seed.1 hseed
    obtain ⟨found, hchain, hid⟩ := (leads_iff hmatches.1 hmatches.2.1).1 hleads
    have hfound : found = job := by
      rcases Relation.ReflTransGen.cases_tail hchain with heq | ⟨_, -, hlink⟩
      · exact job_unique (heq ▸ hmatches.1) hjob hid
      · exact job_unique hlink.2.2.1 hjob hid
    exact ⟨start, hmatches, hfound ▸ hchain⟩
  · rintro ⟨start, hmatches, hchain⟩
    exact ⟨start.id, mem_seed.2 ⟨start, hmatches, rfl⟩,
      (leads_iff hmatches.1 hmatches.2.1).2 ⟨job, hchain, rfl⟩⟩

/-- With the roots asked for and a library filter, the filtered set is that of the roots which
meet the direct filters and lead down to a match. -/
theorem mem_filtered_roots (hroots : f.rootsOnly = some true) (hlibrary : libraryConditions t f ≠ []) :
    job ∈ filtered t text user f ↔ job ∈ t.jobs ∧ job.sourceAssetId = none ∧
      direct t text user f job = true ∧ LeadsDown t user (walkConditions t f) job := by
  have hempty : (libraryConditions t f).isEmpty = false := by
    rw [List.isEmpty_eq_false_iff]
    exact hlibrary
  simp only [filtered, List.mem_filter, filterGenerations, hroots, hempty, Bool.and_eq_true,
    decide_true, Bool.not_false, Bool.and_self, if_true, decide_eq_true_eq]
  constructor
  · rintro ⟨hjob, hdirect, hancestor⟩
    have hroot : job.sourceAssetId = none := by
      simp only [direct, hroots, Bool.and_eq_true, if_true, Option.isNone_iff_eq_none] at hdirect
      exact hdirect.1.1.2
    exact ⟨hjob, hroot, hdirect, (mem_ancestors hjob).1 hancestor⟩
  · rintro ⟨hjob, -, hdirect, hleads⟩
    exact ⟨hjob, hdirect, (mem_ancestors hjob).2 hleads⟩

section Sample

/-- A root, a job made from it by another model, and a job made from that one. -/
def sampleTables : Tables where
  jobs :=
    [⟨1, 7, "sdxl", .succeeded, none, none, 10, none⟩,
      ⟨2, 7, "vega", .succeeded, some 21, none, 20, none⟩,
      ⟨3, 7, "sdxl", .succeeded, some 22, none, 20, none⟩]
  assets :=
    [⟨21, 7, some 1, [], 512, 512, none⟩, ⟨22, 7, some 2, [], 512, 512, none⟩]
  models := []
  jobIds := by decide
  assetIds := by decide

example : (filtered sampleTables ⟨id, fun _ _ => true⟩ 7
    ⟨none, none, some true, none, ["vega"], none, none, [], none⟩).map Job.id = [1] := by
  decide +kernel

end Sample

/-! ## The pages -/

theorem orderKey_id (starred : Option Bool) (job : Job) :
    (ofLex (orderKey starred job)).2 = job.id := by
  unfold orderKey
  split <;> rfl

theorem nodup_orderKeys (starred : Option Bool) {rows : List Job} (hrows : rows.Sublist t.jobs) :
    (rows.map (orderKey starred)).Nodup := by
  -- the id is part of the key
  have hids : ((rows.map (orderKey starred)).map fun key => (ofLex key).2) = rows.map Job.id := by
    rw [List.map_map]
    apply List.map_congr_left
    exact fun row _ => orderKey_id starred row
  apply List.Nodup.of_map fun key : WithTop Int ×ₗ Nat => (ofLex key).2
  rw [hids]
  exact t.jobIds.sublist (hrows.map Job.id)

theorem filtered_sublist : (filtered t text user f).Sublist t.jobs := List.filter_sublist

/-- A row of a starred listing is starred. -/
theorem starred_of_filtered (hstarred : f.starred = some true)
    (hjob : job ∈ filtered t text user f) : job.starredAt.isSome := by
  have hpass := (List.mem_filter.1 hjob).2
  simp only [filterGenerations, direct, hstarred, Bool.and_eq_true, if_true] at hpass
  exact hpass.1.1.1.1.2

/-- Behind the cursor's job is what has a lower key. -/
theorem behind_iff {anchor : Job} (hanchor : anchor ∈ filtered t text user f)
    (hjob : job ∈ filtered t text user f) :
    behind f.starred anchor job = decide (orderKey f.starred job < orderKey f.starred anchor) := by
  rw [Bool.eq_iff_iff, decide_eq_true_eq]
  unfold behind orderKey
  by_cases hstarred : f.starred = some true
  · obtain ⟨bound, hbound⟩ := Option.isSome_iff_exists.1 (starred_of_filtered hstarred hanchor)
    obtain ⟨instant, hinstant⟩ := Option.isSome_iff_exists.1 (starred_of_filtered hstarred hjob)
    simp [hstarred, hbound, hinstant, Prod.Lex.toLex_lt_toLex]
  · simp [hstarred, Prod.Lex.toLex_lt_toLex]

/-- The page behind a listed job takes what stands behind it in the order of the listing. -/
theorem page_behind (hwindow : validateCreatedWindow f = none) {limit : Nat} {ids : Bool}
    {pre post : List Job} {anchor : Job}
    (hsplit : listed f (filtered t text user f) = pre ++ anchor :: post) :
    listGenerations t text user f limit ids (some anchor.id) =
      .ok (post.take (min (max limit 1) (if ids then 5000 else 200))) := by
  have hanchor : anchor ∈ filtered t text user f := by
    have hlisted : anchor ∈ listed f (filtered t text user f) := by
      rw [hsplit]
      simp
    exact Keyset.mem_descending.1 hlisted
  have hrow : anchor ∈ t.jobs := filtered_sublist.subset hanchor
  have hfind : t.jobs.find? (fun job => job.id = anchor.id) = some anchor := by
    cases hfound : t.jobs.find? fun job => job.id = anchor.id with
    | none =>
      have hnone := List.find?_eq_none.1 hfound anchor hrow
      simp at hnone
    | some found =>
      have hid : found.id = anchor.id := by simpa using List.find?_some hfound
      rw [job_unique (List.mem_of_find?_eq_some hfound) hrow hid]
  have howner : anchor.userId = user := by
    have hpass := (List.mem_filter.1 hanchor).2
    simp only [filterGenerations, direct, Bool.and_eq_true, decide_eq_true_eq] at hpass
    exact hpass.1.1.1.1.1.1
  have hmember : ((filtered t text user f).all fun job => job.id ≠ anchor.id) = false := by
    rw [List.all_eq_false]
    exact ⟨anchor, hanchor, by simp⟩
  have hbelow : (filtered t text user f).filter (behind f.starred anchor) =
      (filtered t text user f).filter
        fun job => orderKey f.starred job < orderKey f.starred anchor :=
    List.filter_congr fun job hjob => behind_iff hanchor hjob
  rw [listGenerations, hwindow]
  simp only [hfind, howner, hmember, hbelow, ne_eq, not_true_eq_false, if_false, Bool.false_eq_true]
  rw [listed, Keyset.descending_below (nodup_orderKeys f.starred filtered_sublist) hsplit]

/-- Following the cursor from page to page. -/
def followPages (t : Tables) (text : TextSearch) (user : Nat) (f : Filters) (limit : Nat)
    (ids : Bool) (requests : Nat) : Option (Except Refusal (List Job)) :=
  Keyset.follow (listGenerations t text user f limit ids) Job.id requests none

/-- What following the cursor gives: a bad window is refused, and otherwise the filtered set is
listed in its order. -/
theorem followPages_eq (limit : Nat) (ids : Bool) {requests : Nat}
    (hrequests : (filtered t text user f).length < requests) :
    followPages t text user f limit ids requests =
      some (match validateCreatedWindow f with
        | some refusal => .error refusal
        | none => .ok (listed f (filtered t text user f))) := by
  cases hwindow : validateCreatedWindow f with
  | some refusal =>
    obtain ⟨fuel, rfl⟩ : ∃ fuel, requests = fuel + 1 := ⟨requests - 1, by omega⟩
    have hrefused : listGenerations t text user f limit ids none = .error refusal := by
      rw [listGenerations, hwindow]
    rw [followPages, Keyset.follow, hrefused]
  | none =>
    have hcap : 1 ≤ min (max limit 1) (if ids then 5000 else 200) := by
      split <;> omega
    apply Keyset.follow_lists hcap
    · rw [listGenerations, hwindow]
    · intro pre anchor post hsplit
      exact page_behind hwindow hsplit
    · rw [listed, Keyset.perm_descending.length_eq]
      exact hrequests

/-- The ancestor query ends; the roots filter is exact; and following the cursor lists the
filtered set, each row once, in descending order, and ends. -/
theorem listing_exact (t : Tables) (text : TextSearch) (user : Nat) (f : Filters) (limit : Nat)
    (ids : Bool) :
    (∀ conditions rounds, t.jobs.length < rounds →
      ((libraryAncestorCte t user conditions).run rounds
        (libraryAncestorCte t user conditions).start).isSome) ∧
    (f.rootsOnly = some true → libraryConditions t f ≠ [] → ∀ job,
      (job ∈ filtered t text user f ↔ job ∈ t.jobs ∧ job.sourceAssetId = none ∧
        direct t text user f job = true ∧ LeadsDown t user (walkConditions t f) job)) ∧
    (∀ requests, (filtered t text user f).length < requests →
      followPages t text user f limit ids requests =
        some (match validateCreatedWindow f with
          | some refusal => .error refusal
          | none => .ok (listed f (filtered t text user f)))) ∧
    (listed f (filtered t text user f)).Perm (filtered t text user f) ∧
    (listed f (filtered t text user f)).Pairwise
      fun a b => orderKey f.starred b < orderKey f.starred a := by
  refine ⟨fun conditions rounds hrounds => walk_ends conditions hrounds, ?_, ?_, ?_, ?_⟩
  · exact fun hroots hlibrary job => mem_filtered_roots hroots hlibrary
  · exact fun requests hrequests => followPages_eq limit ids hrequests
  · exact Keyset.perm_descending
  · exact Keyset.strict_descending (nodup_orderKeys f.starred filtered_sublist)

end Potocolom.Listing
