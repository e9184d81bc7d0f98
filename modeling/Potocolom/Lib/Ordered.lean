import Mathlib

/-! # Dictionaries in insertion order

An `Ordered κ ν` is a dictionary that remembers the order in which its keys
were first put: an assignment to a key it has keeps the key's place, and a key
that was removed and put back stands last. `tally p` counts the values that
satisfy `p`; what each operation does to it is stated without subtraction, so
that a counter kept beside the dictionary can be compared with it.
-/

/-- Pairs of distinct keys, oldest first. -/
structure Ordered (κ ν : Type*) where
  items : List (κ × ν)
  nodup : (items.map Prod.fst).Nodup

namespace Ordered

variable {κ ν : Type*}

def empty : Ordered κ ν := ⟨[], by simp⟩

instance : EmptyCollection (Ordered κ ν) := ⟨empty⟩

/-- The keys, oldest first. -/
def keys (d : Ordered κ ν) : List κ := d.items.map Prod.fst

/-- The pairs whose value passes the test. -/
def filter (d : Ordered κ ν) (p : ν → Bool) : Ordered κ ν :=
  ⟨d.items.filter fun i => p i.2, d.nodup.sublist (List.filter_sublist.map _)⟩

/-- How many values pass the test. -/
def tally (d : Ordered κ ν) (p : ν → Bool) : Nat := d.items.countP fun i => p i.2

variable [DecidableEq κ]

def get (d : Ordered κ ν) (k : κ) : Option ν := (d.items.find? (·.1 = k)).map Prod.snd

def erase (d : Ordered κ ν) (k : κ) : Ordered κ ν :=
  ⟨d.items.filter (·.1 ≠ k), d.nodup.sublist (List.filter_sublist.map _)⟩

/-- The assignment `d[k] = v`. -/
def put (d : Ordered κ ν) (k : κ) (v : ν) : Ordered κ ν where
  items := if k ∈ d.keys then d.items.map fun i => if i.1 = k then (k, v) else i
    else d.items ++ [(k, v)]
  nodup := by
    split
    · have hsame : (d.items.map fun i => if i.1 = k then (k, v) else i).map Prod.fst = d.keys := by
        rw [List.map_map, keys]
        exact List.map_congr_left fun i _ => by by_cases h : i.1 = k <;> simp [h]
      rw [hsame]
      exact d.nodup
    · next h =>
      rw [List.map_append, List.nodup_append]
      refine ⟨d.nodup, by simp, ?_⟩
      rintro a ha b hb rfl
      obtain rfl : a = k := by simpa using hb
      exact h ha

section get

variable {d : Ordered κ ν} {k k' : κ} {v v' : ν}

@[simp] theorem get_empty : (∅ : Ordered κ ν).get k = none := rfl

theorem get_eq_some : d.get k = some v ↔ (k, v) ∈ d.items := by
  constructor
  · intro h
    obtain ⟨i, hi, rfl⟩ := Option.map_eq_some_iff.mp h
    have hkey : i.1 = k := by simpa using List.find?_some hi
    subst hkey
    exact List.mem_of_find?_eq_some hi
  · intro h
    rcases hfind : d.items.find? (·.1 = k) with _ | i
    · rw [List.find?_eq_none] at hfind
      simpa using hfind _ h
    · have hkey : i.1 = k := by simpa using List.find?_some hfind
      have hi := List.mem_of_find?_eq_some hfind
      have : i = (k, v) := List.inj_on_of_nodup_map d.nodup hi h hkey
      simp [get, hfind, this]

theorem get_eq_none : d.get k = none ↔ k ∉ d.keys := by
  rw [Option.eq_none_iff_forall_not_mem]
  simp only [Option.mem_def, get_eq_some, keys, List.mem_map, Prod.exists, exists_and_right,
    exists_eq_right, not_exists]

theorem get_erase : (d.erase k).get k' = if k' = k then none else d.get k' := by
  ext v
  rw [get_eq_some]
  by_cases h : k' = k
  · simp [erase, h]
  · rw [if_neg h, get_eq_some]
    simp [erase, h]

@[simp] theorem get_erase_self : (d.erase k).get k = none := by simp [get_erase]

theorem get_erase_of_ne (h : k' ≠ k) : (d.erase k).get k' = d.get k' := by simp [get_erase, h]

theorem get_put : (d.put k v).get k' = if k' = k then some v else d.get k' := by
  ext w
  rw [get_eq_some]
  by_cases hk : k ∈ d.keys <;> by_cases h : k' = k
  · subst h
    rw [if_pos rfl, Option.some.injEq]
    obtain ⟨i, hi, hkey⟩ := List.mem_map.mp hk
    simp only [put, if_pos hk, List.mem_map]
    constructor
    · rintro ⟨i, -, hi⟩
      by_cases hik : i.1 = k' <;> simp_all
    · rintro rfl
      exact ⟨i, hi, by simp [hkey]⟩
  · rw [if_neg h, get_eq_some]
    simp only [put, if_pos hk, List.mem_map]
    constructor
    · rintro ⟨i, hi, heq⟩
      by_cases hik : i.1 = k
      · rw [if_pos hik, Prod.mk.injEq] at heq
        exact absurd heq.1.symm h
      · rw [if_neg hik] at heq
        exact heq ▸ hi
    · intro hmem
      exact ⟨_, hmem, by simp [h]⟩
  · subst h
    have hnone : (k', w) ∉ d.items := fun hmem => hk (List.mem_map.mpr ⟨_, hmem, rfl⟩)
    simp [put, hk, hnone, eq_comm]
  · rw [if_neg h, get_eq_some]
    simp [put, hk, h]

@[simp] theorem get_put_self : (d.put k v).get k = some v := by simp [get_put]

theorem get_put_of_ne (h : k' ≠ k) : (d.put k v).get k' = d.get k' := by simp [get_put, h]

theorem get_filter {p : ν → Bool} :
    (d.filter p).get k = some v ↔ d.get k = some v ∧ p v = true := by
  rw [get_eq_some, get_eq_some]
  simp [filter]

end get

/-! ## Tallies -/

section tally

variable {d : Ordered κ ν} {k : κ} {v v' : ν} {p : ν → Bool}

omit [DecidableEq κ] in
@[simp] theorem tally_empty : (∅ : Ordered κ ν).tally p = 0 := rfl

theorem erase_of_get_none (h : d.get k = none) : d.erase k = d := by
  have hitems : d.items.filter (·.1 ≠ k) = d.items := by
    rw [List.filter_eq_self]
    intro i hi
    have : i.1 ≠ k := fun hkey => get_eq_none.mp h (List.mem_map.mpr ⟨i, hi, hkey⟩)
    simpa using this
  cases d
  simpa [erase] using hitems

/-- The one pair of a key, and the other pairs around it. -/
theorem items_split (h : d.get k = some v) :
    ∃ before after, d.items = before ++ (k, v) :: after ∧
      (∀ i ∈ before, i.1 ≠ k) ∧ ∀ i ∈ after, i.1 ≠ k := by
  obtain ⟨before, after, hsplit⟩ := List.append_of_mem (get_eq_some.mp h)
  have hnodup := d.nodup
  rw [hsplit, List.map_append, List.map_cons, List.nodup_append, List.nodup_cons] at hnodup
  obtain ⟨-, ⟨hafter, -⟩, hdisj⟩ := hnodup
  refine ⟨before, after, hsplit, fun i hi => ?_, fun i hi hkey => ?_⟩
  · exact hdisj i.1 (List.mem_map.mpr ⟨i, hi, rfl⟩) k (by simp)
  · exact hafter (List.mem_map.mpr ⟨i, hi, hkey⟩)

/-- Removing a value takes it out of the tally. -/
theorem tally_erase (h : d.get k = some v) :
    d.tally p = (d.erase k).tally p + if p v then 1 else 0 := by
  obtain ⟨before, after, hsplit, hbefore, hafter⟩ := items_split h
  have hbefore' : before.filter (·.1 ≠ k) = before :=
    List.filter_eq_self.mpr fun i hi => by simpa using hbefore i hi
  have hafter' : after.filter (·.1 ≠ k) = after :=
    List.filter_eq_self.mpr fun i hi => by simpa using hafter i hi
  have herase : (d.erase k).items = before ++ after := by
    change d.items.filter (·.1 ≠ k) = before ++ after
    rw [hsplit, List.filter_append, hbefore', List.filter_cons_of_neg (by simp), hafter']
  rw [tally, tally, herase, hsplit, List.countP_append, List.countP_append, List.countP_cons]
  exact (Nat.add_assoc _ _ _).symm

/-- A new key adds its value to the tally. -/
theorem tally_put (h : d.get k = none) :
    (d.put k v).tally p = d.tally p + if p v then 1 else 0 := by
  have hk : k ∉ d.keys := get_eq_none.mp h
  simp [tally, put, hk, List.countP_append]

/-- Replacing a value: the old one leaves the tally, the new one joins it. -/
theorem tally_put_of_get (h : d.get k = some v') :
    (d.put k v).tally p + (if p v' then 1 else 0) = d.tally p + if p v then 1 else 0 := by
  have hk : k ∈ d.keys := List.mem_map.mpr ⟨_, get_eq_some.mp h, rfl⟩
  obtain ⟨before, after, hsplit, hbefore, hafter⟩ := items_split h
  have hbefore' : before.map (fun i => if i.1 = k then (k, v) else i) = before :=
    (List.map_congr_left fun i hi => if_neg (hbefore i hi)).trans (List.map_id' before)
  have hafter' : after.map (fun i => if i.1 = k then (k, v) else i) = after :=
    (List.map_congr_left fun i hi => if_neg (hafter i hi)).trans (List.map_id' after)
  have hput : (d.put k v).items = before ++ (k, v) :: after := by
    simp only [put, if_pos hk, hsplit, List.map_append, List.map_cons, hbefore', hafter', if_true]
  rw [tally, tally, hput, hsplit, List.countP_append, List.countP_append, List.countP_cons,
    List.countP_cons]
  dsimp only
  omega

omit [DecidableEq κ] in
/-- A filter that keeps every value of the tally does not change it. -/
theorem tally_filter {q : ν → Bool} (h : ∀ v, p v = true → q v = true) :
    (d.filter q).tally p = d.tally p := by
  rw [tally, tally, filter, List.countP_filter]
  refine List.countP_congr fun i _ => ?_
  simp only [Bool.and_eq_true]
  exact ⟨And.left, fun hp => ⟨hp, h _ hp⟩⟩

theorem tally_pos (h : d.get k = some v) (hp : p v = true) : 0 < d.tally p := by
  rw [tally_erase h, if_pos hp]
  omega

theorem tally_eq_zero : (∀ k v, d.get k = some v → p v = false) → d.tally p = 0 := by
  intro h
  rw [tally, List.countP_eq_zero]
  rintro ⟨k, v⟩ hi
  simpa using h k v (get_eq_some.mpr hi)

end tally

/-! ## Places -/

section place

variable {d : Ordered κ ν} {k k' : κ} {v : ν}

/-- How many keys are older. -/
def place (d : Ordered κ ν) (k : κ) : Nat := d.keys.idxOf k

theorem keys_put (d : Ordered κ ν) (k : κ) (v : ν) :
    (d.put k v).keys = if k ∈ d.keys then d.keys else d.keys ++ [k] := by
  by_cases hk : k ∈ d.keys
  · rw [if_pos hk]
    show (d.put k v).items.map Prod.fst = d.items.map Prod.fst
    simp only [put, if_pos hk, List.map_map]
    apply List.map_congr_left
    intro i _
    by_cases hi : i.1 = k
    · simp [hi]
    · simp [hi]
  · rw [if_neg hk]
    show (d.put k v).items.map Prod.fst = d.items.map Prod.fst ++ [k]
    simp only [put, if_neg hk, List.map_append, List.map_cons, List.map_nil]

theorem keys_erase (d : Ordered κ ν) (k : κ) :
    (d.erase k).keys = d.keys.filter fun k' => k' ≠ k := by
  simp only [erase, keys, List.filter_map]
  rfl

theorem mem_keys_put (h : k' ∈ d.keys) : k' ∈ (d.put k v).keys := by
  rw [keys_put]
  split
  · exact h
  · exact List.mem_append_left _ h

theorem place_put (h : k' ∈ d.keys) : (d.put k v).place k' = d.place k' := by
  unfold place
  rw [keys_put]
  split
  · exact Eq.refl _
  · exact List.idxOf_append_of_mem h

theorem mem_keys_erase (h : k' ∈ d.keys) (hne : k' ≠ k) : k' ∈ (d.erase k).keys := by
  rw [keys_erase, List.mem_filter]
  exact ⟨h, by simpa using hne⟩

theorem place_erase (hne : k' ≠ k) : (d.erase k).place k' ≤ d.place k' := by
  unfold place
  rw [keys_erase]
  induction d.keys with
  | nil => exact Nat.le_refl _
  | cons first rest ih =>
    by_cases hfirst : first = k
    · have hother : first ≠ k' := fun heq => hne (heq.symm.trans hfirst)
      rw [List.filter_cons_of_neg (by simpa using hfirst), List.idxOf_cons_ne _ hother]
      exact Nat.le_succ_of_le ih
    · rw [List.filter_cons_of_pos (by simpa using hfirst)]
      by_cases hk : first = k'
      · rw [List.idxOf_cons_eq _ hk]
        exact Nat.zero_le _
      · rw [List.idxOf_cons_ne _ hk, List.idxOf_cons_ne _ hk]
        exact Nat.succ_le_succ ih

/-- When the oldest key goes, every other one moves up. -/
theorem place_erase_head (hhead : d.items.head? = some (k, v)) (hne : k' ≠ k) :
    (d.erase k).place k' < d.place k' := by
  obtain ⟨rest, hrest⟩ : ∃ rest, d.items = (k, v) :: rest := by
    cases hitems : d.items with
    | nil =>
      rw [hitems] at hhead
      cases hhead
    | cons first rest =>
      rw [hitems] at hhead
      cases hhead
      exact ⟨rest, rfl⟩
  have hnodup := d.nodup
  rw [hrest, List.map_cons, List.nodup_cons] at hnodup
  have hkeys : d.keys = k :: rest.map Prod.fst := by
    unfold keys
    rw [hrest, List.map_cons]
  have herased : (rest.map Prod.fst).filter (fun k' => k' ≠ k) = rest.map Prod.fst := by
    rw [List.filter_eq_self]
    intro i hi
    have hik : i ≠ k := fun heq => hnodup.1 (heq ▸ hi)
    simpa using hik
  unfold place
  rw [keys_erase, hkeys, List.filter_cons_of_neg (by simp), herased,
    List.idxOf_cons_ne _ (fun heq => hne heq.symm)]
  exact Nat.lt_succ_self _

end place

end Ordered
