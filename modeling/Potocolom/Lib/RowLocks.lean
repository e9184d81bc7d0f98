import Mathlib

/-! # Rows under row locks

A row as READ COMMITTED shows it: the version committed last, and the version an open
transaction has written over it. Whoever writes a row holds it until its transaction
ends, so there is one such version at most. A statement works on what its transaction
sees, and waits for the holder of any row it would write. -/

/-- A row of versions `ν`, perhaps written by one of the open transactions `τ`. -/
structure Row (τ ν : Type*) where
  committed : ν
  held : Option (τ × ν)

namespace Row

variable {τ ν : Type*} [DecidableEq τ] {t t' : τ} {r : Row τ ν} {p : ν → Bool} {f : ν → ν}

/-- The version that `t` sees. -/
def seen (t : τ) (r : Row τ ν) : ν :=
  match r.held with
  | some (holder, v) => if holder = t then v else r.committed
  | none => r.committed

/-- Another transaction than `t` holds the row. -/
def lockedFrom (t : τ) (r : Row τ ν) : Bool := r.held.any fun hold => hold.1 ≠ t

/-- Write the row where it satisfies `p`. -/
def write (t : τ) (p : ν → Bool) (f : ν → ν) (r : Row τ ν) : Row τ ν :=
  if p (r.seen t) then { r with held := some (t, f (r.seen t)) } else r

/-- The row once `t` has committed. -/
def commit (t : τ) (r : Row τ ν) : Row τ ν :=
  match r.held with
  | some (holder, v) => if holder = t then ⟨v, none⟩ else r
  | none => r

/-- The row once `t` has rolled back. -/
def rollback (t : τ) (r : Row τ ν) : Row τ ν :=
  match r.held with
  | some (holder, _) => if holder = t then ⟨r.committed, none⟩ else r
  | none => r

/-- The statement of `t` has to wait for this row. -/
def blocks (t : τ) (p : ν → Bool) (r : Row τ ν) : Bool := r.lockedFrom t && p r.committed

@[simp] theorem write_committed : (r.write t p f).committed = r.committed := by
  unfold write
  split <;> rfl

@[simp] theorem rollback_committed : (r.rollback t).committed = r.committed := by
  unfold rollback
  split
  · split <;> rfl
  · rfl

theorem commit_of_held {v : ν} (h : r.held = some (t, v)) : r.commit t = ⟨v, none⟩ := by
  simp [commit, h]

theorem commit_of_not_held (h : ∀ v, r.held ≠ some (t, v)) : r.commit t = r := by
  unfold commit
  split
  · next holder v hheld =>
    split
    · next heq =>
      subst heq
      exact absurd hheld (h v)
    · rfl
  · rfl

theorem rollback_of_held {v : ν} (h : r.held = some (t, v)) :
    r.rollback t = ⟨r.committed, none⟩ := by
  simp [rollback, h]

theorem rollback_of_not_held (h : ∀ v, r.held ≠ some (t, v)) : r.rollback t = r := by
  unfold rollback
  split
  · next holder v hheld =>
    split
    · next heq =>
      subst heq
      exact absurd hheld (h v)
    · rfl
  · rfl

theorem seen_of_not_held (h : ∀ v, r.held ≠ some (t, v)) : r.seen t = r.committed := by
  unfold seen
  split
  · next holder v hheld =>
    split
    · next heq =>
      subst heq
      exact absurd hheld (h v)
    · rfl
  · rfl

/-! ### What each transaction sees -/

@[simp] theorem commit_committed : (r.commit t).committed = r.seen t := by
  unfold commit seen
  split
  · split <;> rfl
  · rfl

theorem seen_of_held {v : ν} (h : r.held = some (t, v)) : r.seen t = v := by
  simp [seen, h]

/-- A transaction sees the same of two rows that differ in the versions of others. -/
theorem seen_congr {r' : Row τ ν} (hcommitted : r'.committed = r.committed)
    (hheld : ∀ v, r'.held = some (t, v) ↔ r.held = some (t, v)) : r'.seen t = r.seen t := by
  by_cases h : ∃ v, r.held = some (t, v)
  · obtain ⟨v, hv⟩ := h
    rw [seen_of_held hv, seen_of_held ((hheld v).2 hv)]
  · have hfree : ∀ v, r.held ≠ some (t, v) := fun v hv => h ⟨v, hv⟩
    have hfree' : ∀ v, r'.held ≠ some (t, v) := fun v hv => hfree v ((hheld v).1 hv)
    rw [seen_of_not_held hfree, seen_of_not_held hfree', hcommitted]

/-- The end of another transaction leaves a version that is held. -/
theorem held_commit_of_ne {v : ν} (hne : t' ≠ t) :
    (r.commit t).held = some (t', v) ↔ r.held = some (t', v) := by
  unfold commit
  split
  · next holder u hheld =>
    split
    · next heq =>
      subst heq
      constructor
      · intro h
        cases h
      · intro h
        rw [hheld] at h
        cases h
        exact absurd rfl hne
    · rfl
  · rfl

theorem held_rollback_of_ne {v : ν} (hne : t' ≠ t) :
    (r.rollback t).held = some (t', v) ↔ r.held = some (t', v) := by
  unfold rollback
  split
  · next holder u hheld =>
    split
    · next heq =>
      subst heq
      constructor
      · intro h
        cases h
      · intro h
        rw [hheld] at h
        cases h
        exact absurd rfl hne
    · rfl
  · rfl

/-- A transaction that has ended holds nothing. -/
theorem not_held_commit (v : ν) : (r.commit t).held ≠ some (t, v) := by
  unfold commit
  split
  · next holder u hheld =>
    split
    · exact fun h => by cases h
    · next hne =>
      rw [hheld]
      rintro ⟨⟩
      exact hne rfl
  · next hheld =>
    rw [hheld]
    exact fun h => by cases h

theorem not_held_rollback (v : ν) : (r.rollback t).held ≠ some (t, v) := by
  unfold rollback
  split
  · next holder u hheld =>
    split
    · exact fun h => by cases h
    · next hne =>
      rw [hheld]
      rintro ⟨⟩
      exact hne rfl
  · next hheld =>
    rw [hheld]
    exact fun h => by cases h

/-- After the commit of another, a transaction sees what it has written itself, or else
what was committed. -/
theorem seen_commit (hne : t' ≠ t) :
    (∃ v, r.held = some (t', v) ∧ r.seen t' = v ∧ (r.commit t).seen t' = v) ∨
      (∀ v, r.held ≠ some (t', v)) ∧ (r.commit t).seen t' = r.seen t := by
  by_cases hheld : ∃ v, r.held = some (t', v)
  · obtain ⟨v, hv⟩ := hheld
    have hother : ∀ v', r.held ≠ some (t, v') := by
      intro v' hv'
      rw [hv] at hv'
      cases hv'
      exact hne rfl
    refine .inl ⟨v, hv, seen_of_held hv, ?_⟩
    rw [commit_of_not_held hother, seen_of_held hv]
  · have hfree : ∀ v, r.held ≠ some (t', v) := fun v hv => hheld ⟨v, hv⟩
    have hcommit : ∀ v, (r.commit t).held ≠ some (t', v) := by
      intro v hv
      unfold commit at hv
      split at hv
      · next holder u hr =>
        split at hv
        · cases hv
        · exact hfree v hv
      · exact hfree v hv
    exact .inr ⟨hfree, by rw [seen_of_not_held hcommit, commit_committed]⟩

theorem held_write :
    (r.write t p f).held = if p (r.seen t) then some (t, f (r.seen t)) else r.held := by
  unfold write
  split <;> rfl

theorem seen_write : (r.write t p f).seen t = if p (r.seen t) then f (r.seen t) else r.seen t := by
  unfold write
  split
  · simp [seen]
  · rfl

/-- A statement that need not wait takes no row from another. -/
theorem held_write_of_ne {v : ν} (hblocks : r.blocks t p = false) (hne : t' ≠ t) :
    (r.write t p f).held = some (t', v) ↔ r.held = some (t', v) := by
  rw [held_write]
  split
  · next hp =>
    constructor
    · intro h
      cases h
      exact absurd rfl hne
    · intro h
      have hcommitted : r.seen t = r.committed := by simp [seen, h, hne]
      rw [hcommitted] at hp
      simp [blocks, lockedFrom, h, hne, hp] at hblocks
  · rfl

/-- A statement that need not wait writes free rows only, where its transaction has
written none before. -/
theorem write_cases (hfree : ∀ v, r.held ≠ some (t, v)) (hblocks : r.blocks t p = false) :
    (p r.committed = true ∧ r.held = none ∧
        r.write t p f = ⟨r.committed, some (t, f r.committed)⟩) ∨
      (p r.committed = false ∧ r.write t p f = r) := by
  have hseen : r.seen t = r.committed := seen_of_not_held hfree
  by_cases hp : p r.committed = true
  · refine .inl ⟨hp, ?_, ?_⟩
    · -- a holder would be another transaction, and the statement would wait for it
      rcases hheld : r.held with _ | ⟨holder, v⟩
      · rfl
      · have hholder : holder = t := by simpa [blocks, lockedFrom, hp, hheld] using hblocks
        exact absurd (hholder ▸ hheld) (hfree v)
    · simp [write, hseen, hp]
  · refine .inr ⟨by simpa using hp, ?_⟩
    simp [write, hseen, hp]

end Row

/-- A table under row locks. -/
abbrev Rows (τ ν : Type*) := List (Row τ ν)

namespace Rows

variable {τ ν : Type*} [DecidableEq τ] {t : τ} {rows : Rows τ ν} {p : ν → Bool} {f : ν → ν}

/-- `UPDATE … SET f WHERE p RETURNING *` by `t`; `none` while it has to wait. -/
def update (t : τ) (p : ν → Bool) (f : ν → ν) (rows : Rows τ ν) : Option (Rows τ ν × List ν) :=
  if rows.any (·.blocks t p) then none
  else some (rows.map (·.write t p f), (rows.filter fun r => p (r.seen t)).map fun r => f (r.seen t))

def commit (t : τ) (rows : Rows τ ν) : Rows τ ν := rows.map (·.commit t)

def rollback (t : τ) (rows : Rows τ ν) : Rows τ ν := rows.map (·.rollback t)

theorem update_eq_some {after : Rows τ ν} {returned : List ν} :
    rows.update t p f = some (after, returned) ↔
      (∀ r ∈ rows, r.blocks t p = false) ∧ after = rows.map (·.write t p f) ∧
        returned = (rows.filter fun r => p (r.seen t)).map fun r => f (r.seen t) := by
  unfold update
  split
  · next hany =>
    rcases List.any_eq_true.1 hany with ⟨r, hr, hblocks⟩
    constructor
    · intro h
      cases h
    · rintro ⟨hfree, -, -⟩
      rw [hfree r hr] at hblocks
      cases hblocks
  · next hany =>
    have hfree : ∀ r ∈ rows, r.blocks t p = false := by simpa using hany
    constructor
    · intro h
      cases h
      exact ⟨hfree, rfl, rfl⟩
    · rintro ⟨-, rfl, rfl⟩
      rfl

/-- The first `UPDATE` of a transaction, row by row. -/
theorem mem_update {after : Rows τ ν} {returned : List ν}
    (h : rows.update t p f = some (after, returned))
    (hfree : ∀ r ∈ rows, ∀ v, r.held ≠ some (t, v)) {r' : Row τ ν} (hr' : r' ∈ after) :
    ∃ r ∈ rows, (p r.committed = true ∧ r.held = none ∧
        r' = ⟨r.committed, some (t, f r.committed)⟩) ∨ (p r.committed = false ∧ r' = r) := by
  rcases update_eq_some.1 h with ⟨hblocks, rfl, -⟩
  rcases List.mem_map.1 hr' with ⟨r, hr, rfl⟩
  exact ⟨r, hr, Row.write_cases (hfree r hr) (hblocks r hr)⟩

theorem mem_update_of_match {after : Rows τ ν} {returned : List ν}
    (h : rows.update t p f = some (after, returned))
    (hfree : ∀ r ∈ rows, ∀ v, r.held ≠ some (t, v)) {r : Row τ ν} (hr : r ∈ rows)
    (hp : p r.committed = true) : ⟨r.committed, some (t, f r.committed)⟩ ∈ after := by
  rcases update_eq_some.1 h with ⟨hblocks, rfl, -⟩
  refine List.mem_map.2 ⟨r, hr, ?_⟩
  rcases Row.write_cases (f := f) (hfree r hr) (hblocks r hr) with ⟨-, -, hwrite⟩ | ⟨hno, -⟩
  · exact hwrite
  · rw [hp] at hno
    cases hno

/-- It leaves alone what others hold. -/
theorem mem_update_of_held {after : Rows τ ν} {returned : List ν}
    (h : rows.update t p f = some (after, returned))
    (hfree : ∀ r ∈ rows, ∀ v, r.held ≠ some (t, v)) {r : Row τ ν} (hr : r ∈ rows)
    (hheld : r.held ≠ none) : r ∈ after := by
  rcases update_eq_some.1 h with ⟨hblocks, rfl, -⟩
  refine List.mem_map.2 ⟨r, hr, ?_⟩
  rcases Row.write_cases (f := f) (hfree r hr) (hblocks r hr) with ⟨-, hnone, -⟩ | ⟨-, hsame⟩
  · exact absurd hnone hheld
  · exact hsame

theorem mem_commit {r' : Row τ ν} (h : r' ∈ rows.commit t) :
    ∃ r ∈ rows, (∃ v, r.held = some (t, v) ∧ r' = ⟨v, none⟩) ∨
      ((∀ v, r.held ≠ some (t, v)) ∧ r' = r) := by
  rcases List.mem_map.1 h with ⟨r, hr, rfl⟩
  by_cases hheld : ∃ v, r.held = some (t, v)
  · rcases hheld with ⟨v, hv⟩
    exact ⟨r, hr, .inl ⟨v, hv, Row.commit_of_held hv⟩⟩
  · have hfree : ∀ v, r.held ≠ some (t, v) := fun v hv => hheld ⟨v, hv⟩
    exact ⟨r, hr, .inr ⟨hfree, Row.commit_of_not_held hfree⟩⟩

theorem mem_commit_of_held {t' : τ} {r : Row τ ν} {v : ν} (hr : r ∈ rows)
    (hheld : r.held = some (t', v)) (hne : t' ≠ t) : r ∈ rows.commit t := by
  refine List.mem_map.2 ⟨r, hr, Row.commit_of_not_held ?_⟩
  intro v' hv'
  rw [hheld] at hv'
  cases hv'
  exact hne rfl

theorem mem_rollback {r' : Row τ ν} (h : r' ∈ rows.rollback t) :
    ∃ r ∈ rows, (∃ v, r.held = some (t, v) ∧ r' = ⟨r.committed, none⟩) ∨
      ((∀ v, r.held ≠ some (t, v)) ∧ r' = r) := by
  rcases List.mem_map.1 h with ⟨r, hr, rfl⟩
  by_cases hheld : ∃ v, r.held = some (t, v)
  · rcases hheld with ⟨v, hv⟩
    exact ⟨r, hr, .inl ⟨v, hv, Row.rollback_of_held hv⟩⟩
  · have hfree : ∀ v, r.held ≠ some (t, v) := fun v hv => hheld ⟨v, hv⟩
    exact ⟨r, hr, .inr ⟨hfree, Row.rollback_of_not_held hfree⟩⟩

theorem mem_rollback_of_held {t' : τ} {r : Row τ ν} {v : ν} (hr : r ∈ rows)
    (hheld : r.held = some (t', v)) (hne : t' ≠ t) : r ∈ rows.rollback t := by
  refine List.mem_map.2 ⟨r, hr, Row.rollback_of_not_held ?_⟩
  intro v' hv'
  rw [hheld] at hv'
  cases hv'
  exact hne rfl

/-- What it returns is made of the committed versions it matched. -/
theorem returned_update {after : Rows τ ν} {returned : List ν}
    (h : rows.update t p f = some (after, returned))
    (hfree : ∀ r ∈ rows, ∀ v, r.held ≠ some (t, v)) :
    returned = (rows.filter fun r => p r.committed).map fun r => f r.committed := by
  rcases update_eq_some.1 h with ⟨-, -, rfl⟩
  have hseen : ∀ r ∈ rows, r.seen t = r.committed := by
    intro r hr
    exact Row.seen_of_not_held (hfree r hr)
  rw [List.filter_congr fun r hr => by rw [hseen r hr]]
  exact List.map_congr_left fun r hr => by rw [hseen r (List.mem_filter.1 hr).1]

theorem map_committed_update {after : Rows τ ν} {returned : List ν}
    (h : rows.update t p f = some (after, returned)) :
    after.map Row.committed = rows.map Row.committed := by
  rcases update_eq_some.1 h with ⟨-, rfl, -⟩
  simp

/-! ### What the statements of one transaction make of a table -/

/-- The rows with the versions of others as they were, and then new rows of `t`. -/
def Extends {ν : Type*} (t : τ) (rows after : Rows τ (Option ν)) : Prop :=
  ∃ g extra, after = rows.map g ++ extra ∧
    (∀ r ∈ rows, (g r).committed = r.committed ∧
      ∀ t', t' ≠ t → ∀ v, (g r).held = some (t', v) ↔ r.held = some (t', v)) ∧
    ∀ r ∈ extra, r.committed = none ∧ ∃ v, r.held = some (t, v)

section Extends

variable {ν : Type*} {rows after : Rows τ (Option ν)} {p : Option ν → Bool}
  {f : Option ν → Option ν}

omit [DecidableEq τ] in
theorem Extends.refl (t : τ) (rows : Rows τ (Option ν)) : rows.Extends t rows := by
  refine ⟨id, [], by simp, ?_, by simp⟩
  intro r _
  exact ⟨rfl, fun _ _ _ => Iff.rfl⟩

theorem Extends.of_update {returned : List (Option ν)}
    (h : rows.update t p f = some (after, returned)) : rows.Extends t after := by
  obtain ⟨hblocks, rfl, -⟩ := update_eq_some.1 h
  refine ⟨Row.write t p f, [], by simp, ?_, by simp⟩
  intro r hr
  exact ⟨Row.write_committed, fun t' hne v => Row.held_write_of_ne (hblocks r hr) hne⟩

omit [DecidableEq τ] in
theorem Extends.append (t : τ) (rows : Rows τ (Option ν)) (v : Option ν) :
    rows.Extends t (rows ++ [⟨none, some (t, v)⟩]) := by
  refine ⟨id, [⟨none, some (t, v)⟩], by simp, ?_, ?_⟩
  · intro r _
    exact ⟨rfl, fun _ _ _ => Iff.rfl⟩
  · intro r hr
    rw [List.mem_singleton.1 hr]
    exact ⟨rfl, v, rfl⟩

variable (h : rows.Extends t after)
include h

omit [DecidableEq τ] in
theorem Extends.mem {r' : Row τ (Option ν)} (hr' : r' ∈ after) :
    (∃ r ∈ rows, r'.committed = r.committed ∧
      ∀ t', t' ≠ t → ∀ v, r'.held = some (t', v) ↔ r.held = some (t', v)) ∨
      r'.committed = none ∧ ∃ v, r'.held = some (t, v) := by
  obtain ⟨g, extra, rfl, hg, hextra⟩ := h
  rcases List.mem_append.1 hr' with hr' | hr'
  · obtain ⟨r, hr, rfl⟩ := List.mem_map.1 hr'
    exact .inl ⟨r, hr, hg r hr⟩
  · exact .inr (hextra r' hr')

omit [DecidableEq τ] in
theorem Extends.exists_committed {r : Row τ (Option ν)} (hr : r ∈ rows) :
    ∃ r' ∈ after, r'.committed = r.committed := by
  obtain ⟨g, extra, rfl, hg, -⟩ := h
  exact ⟨g r, List.mem_append_left _ (List.mem_map_of_mem hr), (hg r hr).1⟩

omit [DecidableEq τ] in
theorem Extends.filterMap_committed :
    after.filterMap Row.committed = rows.filterMap Row.committed := by
  obtain ⟨g, extra, rfl, hg, hextra⟩ := h
  have hnone : extra.filterMap Row.committed = [] := by
    rw [List.filterMap_eq_nil_iff]
    exact fun r hr => (hextra r hr).1
  have hmap : rows.map (Row.committed ∘ g) = rows.map Row.committed :=
    List.map_congr_left fun r hr => (hg r hr).1
  have hfilter := congrArg (List.filterMap id) hmap
  rw [List.filterMap_append, hnone, List.append_nil, List.filterMap_map]
  simpa only [List.filterMap_map, Function.id_comp] using hfilter

/-- What another transaction sees is as it was. -/
theorem Extends.mem_seen {t' : τ} (hne : t' ≠ t) {r' : Row τ (Option ν)} (hr' : r' ∈ after) :
    r'.seen t' = none ∨ ∃ r ∈ rows, r'.seen t' = r.seen t' := by
  rcases h.mem hr' with ⟨r, hr, hcommitted, hheld⟩ | ⟨hnone, v, hv⟩
  · exact .inr ⟨r, hr, Row.seen_congr hcommitted (hheld t' hne)⟩
  · left
    rw [Row.seen_of_not_held, hnone]
    intro v' hv'
    rw [hv] at hv'
    cases hv'
    exact hne rfl

theorem Extends.countP_seen {t' : τ} (hne : t' ≠ t) {q : Option ν → Bool} (hq : q none = false) :
    after.countP (fun r => q (r.seen t')) = rows.countP fun r => q (r.seen t') := by
  obtain ⟨g, extra, rfl, hg, hextra⟩ := h
  have hnone : extra.countP (fun r => q (r.seen t')) = 0 := by
    rw [List.countP_eq_zero]
    intro r hr
    obtain ⟨hcommitted, v, hv⟩ := hextra r hr
    have hseen : r.seen t' = none := by
      rw [Row.seen_of_not_held, hcommitted]
      intro v' hv'
      rw [hv] at hv'
      cases hv'
      exact hne rfl
    rw [hseen, hq]
    exact Bool.false_ne_true
  rw [List.countP_append, hnone, Nat.add_zero, List.countP_map]
  apply List.countP_congr
  intro r hr
  have hseen : (g r).seen t' = r.seen t' := Row.seen_congr (hg r hr).1 ((hg r hr).2 t' hne)
  simp only [Function.comp_apply, hseen]

omit [DecidableEq τ] in
theorem Extends.countP_committed {q : Option ν → Bool} (hq : q none = false) :
    after.countP (fun r => q r.committed) = rows.countP fun r => q r.committed := by
  obtain ⟨g, extra, rfl, hg, hextra⟩ := h
  have hnone : extra.countP (fun r => q r.committed) = 0 := by
    rw [List.countP_eq_zero]
    intro r hr
    rw [(hextra r hr).1, hq]
    exact Bool.false_ne_true
  rw [List.countP_append, hnone, Nat.add_zero, List.countP_map]
  apply List.countP_congr
  intro r hr
  simp only [Function.comp_apply, (hg r hr).1]

end Extends

theorem map_committed_rollback : (rows.rollback t).map Row.committed = rows.map Row.committed := by
  simp [rollback]

end Rows
