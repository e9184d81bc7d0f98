import Potocolom.Lib.Breadth
import Potocolom.Lineage.Subtree

/-! # The jobs of a user as a graph

A job reads one asset, which one job made, so it has one parent at most; its children
are the jobs of the user that read a master asset of it and have one themselves. -/

namespace Potocolom.Lineage

open Breadth (Source)

/-- A job of the user with a master asset. -/
def Eligible (lib : Library) (user job : Nat) : Prop :=
  (∃ row ∈ lib.jobs, row.id = job ∧ row.userId = user) ∧ outputs lib user job ≠ []

/-- A row of the job `c` reads a master asset of the job `p`. -/
def IsChild (lib : Library) (user p c : Nat) : Prop :=
  outputs lib user c ≠ [] ∧ ∃ row ∈ lib.jobs, row.id = c ∧ row.userId = user ∧
    ∃ output ∈ outputs lib user p, row.sourceAssetId = some output.id

/-- Strictly before in the order of `created_at, id`. -/
def Before (lib : Library) (a b : Nat) : Prop :=
  ∃ x ∈ lib.jobs, ∃ y ∈ lib.jobs, x.id = a ∧ y.id = b ∧
    (x.createdAt < y.createdAt ∨ x.createdAt = y.createdAt ∧ a < b)

section
variable {lib : Library} {user : Nat} {seen : List Nat} {p q c : Nat}

theorem IsChild.eligible (h : IsChild lib user p c) : Eligible lib user c := by
  obtain ⟨hmaster, row, hrow, hid, huser, -⟩ := h
  exact ⟨⟨row, hrow, hid, huser⟩, hmaster⟩

theorem job_unique {x y : Job} (hx : x ∈ lib.jobs) (hy : y ∈ lib.jobs) (h : x.id = y.id) :
    x = y :=
  List.inj_on_of_nodup_map lib.jobIds hx hy h

theorem asset_unique {x y : Asset} (hx : x ∈ lib.assets) (hy : y ∈ lib.assets)
    (h : x.id = y.id) : x = y :=
  List.inj_on_of_nodup_map lib.assetIds hx hy h

theorem IsChild.parent_unique (hp : IsChild lib user p c) (hq : IsChild lib user q c) :
    p = q := by
  obtain ⟨-, x, hx, hxid, -, a, ha, hxa⟩ := hp
  obtain ⟨-, y, hy, hyid, -, b, hb, hyb⟩ := hq
  have hxy : x = y := job_unique hx hy (hxid.trans hyid.symm)
  subst hxy
  have hids : a.id = b.id := Option.some.inj (hxa.symm.trans hyb)
  unfold outputs at ha hb
  simp only [List.mem_filter, decide_eq_true_eq] at ha hb
  have hab : a = b := asset_unique ha.1 hb.1 hids
  have hjobs : some p = some q := ha.2.1.symm.trans (hab ▸ hb.2.1)
  exact Option.some.inj hjobs

theorem Before.irrefl (a : Nat) : ¬ Before lib a a := by
  rintro ⟨x, hx, y, hy, hxid, hyid, h⟩
  have hxy : x = y := job_unique hx hy (hxid.trans hyid.symm)
  subst hxy
  omega

theorem mem_children {row : Job} :
    row ∈ children lib user p ↔ row ∈ lib.jobs ∧ row.userId = user ∧
      ∃ output ∈ outputs lib user p, row.sourceAssetId = some output.id := by
  unfold children
  simp only [List.mem_flatMap, List.mem_filter, decide_eq_true_eq]
  constructor
  · rintro ⟨output, houtput, hrow, hsource, huser⟩
    exact ⟨hrow, huser, output, houtput, hsource⟩
  · rintro ⟨hrow, huser, output, houtput, hsource⟩
    exact ⟨output, houtput, hrow, hsource, huser⟩

theorem mem_fresh_row {row : Job} :
    row ∈ fresh lib user seen p ↔
      row ∈ children lib user p ∧ row.id ∉ seen ∧ outputs lib user row.id ≠ [] := by
  unfold fresh
  rw [List.mem_insertionSort, List.mem_filter, decide_eq_true_eq]

theorem mem_fresh :
    c ∈ (fresh lib user seen p).map Job.id ↔ IsChild lib user p c ∧ c ∉ seen := by
  simp only [List.mem_map, mem_fresh_row, mem_children, IsChild]
  constructor
  · rintro ⟨row, ⟨⟨hrow, huser, hsource⟩, hseen, hmaster⟩, rfl⟩
    exact ⟨⟨hmaster, row, hrow, rfl, huser, hsource⟩, hseen⟩
  · rintro ⟨⟨hmaster, row, hrow, rfl, huser, hsource⟩, hseen⟩
    exact ⟨row, ⟨⟨hrow, huser, hsource⟩, hseen, hmaster⟩, rfl⟩

instance : Std.Total Job.le := ⟨fun a b => by
  unfold Job.le
  omega⟩

instance : IsTrans Job Job.le := ⟨fun a b c hab hbc => by
  unfold Job.le at *
  omega⟩

/-- Each child comes once: its row reads one asset, and the asset is listed once. -/
theorem nodup_children : (children lib user p).Nodup := by
  unfold children
  rw [List.nodup_flatMap]
  constructor
  · intro output _
    exact (List.Nodup.of_map _ lib.jobIds).filter _
  · have hassets : (outputs lib user p).Nodup := (List.Nodup.of_map _ lib.assetIds).filter _
    refine hassets.imp_of_mem ?_
    intro a b ha hb hne row hrowa hrowb
    simp only [List.mem_filter, decide_eq_true_eq] at hrowa hrowb
    unfold outputs at ha hb
    have hids : a.id = b.id := Option.some.inj (hrowa.2.1.symm.trans hrowb.2.1)
    exact hne (asset_unique (List.mem_of_mem_filter ha) (List.mem_of_mem_filter hb) hids)

theorem sorted_fresh (seen : List Nat) (p : Nat) :
    ((fresh lib user seen p).map Job.id).Pairwise (Before lib) := by
  rw [List.pairwise_map]
  have hnodup : (fresh lib user seen p).Nodup := by
    unfold fresh
    exact (List.perm_insertionSort _ _).nodup_iff.2 (nodup_children.filter _)
  have hsorted : (fresh lib user seen p).Pairwise Job.le := List.pairwise_insertionSort _ _
  refine (hsorted.and hnodup).imp_of_mem ?_
  rintro a b ha hb ⟨hle, hne⟩
  have hajob := (mem_children.1 (mem_fresh_row.1 ha).1).1
  have hbjob := (mem_children.1 (mem_fresh_row.1 hb).1).1
  have hid : a.id ≠ b.id := fun h => hne (job_unique hajob hbjob h)
  refine ⟨a, hajob, b, hbjob, rfl, rfl, ?_⟩
  unfold Job.le at hle
  omega

end

/-- The jobs of a user as a graph. -/
def graph (lib : Library) (user : Nat) : Source Nat where
  Child := IsChild lib user
  Before := Before lib
  fresh seen p := (fresh lib user seen p).map Job.id
  mem_fresh := mem_fresh
  sorted := sorted_fresh
  irrefl := Before.irrefl
  parent_unique := IsChild.parent_unique

end Potocolom.Lineage
