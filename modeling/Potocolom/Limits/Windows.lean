import Potocolom.Limits.Statements

/-! # The windows of a row

The charges of a row's window are numbered without a gap, and its turns are as far apart
as the delays say. A new charge goes by what it found on the row. -/

namespace Potocolom.Limits

/-- The last turn taken in a window. -/
def windowTurn (entries : List Entry) : Option Time := (entries.filterMap Entry.turn).getLast?

/-- The last turn taken in the latest window. -/
def History.lastTurn : History → Option Time
  | latest :: _ => windowTurn latest
  | [] => none

/-- The second turn comes after the first by at least its own delay. -/
def Entry.PacedBy (a b : Entry) : Prop :=
  ∀ t, a.turn = some t → ∀ t', b.turn = some t' →
    ∃ delay, delayFor b.charge.attempts = some delay ∧ t + delay ≤ t'

/-- The charges of one window. -/
structure WindowOk (scope : Scope) (entries : List Entry) : Prop where
  /-- None is lost. -/
  counted : entries.map (fun entry => entry.charge.attempts) = List.range' 1 entries.length
  limited : scope = .identifier →
    ∀ entry ∈ entries, entry.answer = .refused ↔ identifierLimit < entry.charge.attempts
  turns : ∀ entry ∈ entries,
    entry.turn ≠ none ↔ scope = .address ∧ ∃ wait, entry.answer = .accepted wait
  paced : entries.Pairwise Entry.PacedBy
  waits : ∀ entry ∈ entries, ∀ wait, entry.answer = .accepted wait → wait ≤ maxQueue

/-- The windows of a row, and the row as the latest of them left it. -/
structure RowOk (scope : Scope) (committed : Option LoginAttempt) (history : History) :
    Prop where
  windows : ∀ entries ∈ history, WindowOk scope entries
  current : ∀ row, committed = some row → ∃ latest rest, history = latest :: rest ∧
    row.attempts = latest.length ∧ row.notBefore = windowTurn latest

@[simp] theorem windowTurn_nil : windowTurn [] = none := rfl

theorem windowTurn_snoc (entries : List Entry) (entry : Entry) :
    windowTurn (entries ++ [entry]) = entry.turn.or (windowTurn entries) := by
  unfold windowTurn
  cases h : entry.turn <;> simp [List.filterMap_append, h]

/-- No turn of a paced window is after the last one. -/
theorem turn_le_windowTurn {entries : List Entry} (h : entries.Pairwise Entry.PacedBy)
    {entry : Entry} (he : entry ∈ entries) {t : Time} (ht : entry.turn = some t) :
    ∃ last, windowTurn entries = some last ∧ t ≤ last := by
  induction entries using List.reverseRecOn with
  | nil => cases he
  | append_singleton entries last ih =>
    rw [List.pairwise_append] at h
    rw [windowTurn_snoc]
    rcases List.mem_append.1 he with he | he
    · obtain ⟨prev, hprev, hle⟩ := ih h.1 he
      cases hlast : last.turn with
      | none => exact ⟨prev, by simp [hprev], hle⟩
      | some t' =>
        obtain ⟨delay, -, hpaced⟩ :=
          h.2.2 entry he last (List.mem_singleton_self _) t ht t' hlast
        exact ⟨t', rfl, (Nat.le_add_right t delay).trans hpaced⟩
    · rw [List.mem_singleton.1 he] at ht
      rw [ht]
      exact ⟨t, rfl, le_refl _⟩

/-- What an entry says of its own charge. -/
structure EntryOk (scope : Scope) (entry : Entry) : Prop where
  limited : scope = .identifier →
    (entry.answer = .refused ↔ identifierLimit < entry.charge.attempts)
  turns : entry.turn ≠ none ↔ scope = .address ∧ ∃ wait, entry.answer = .accepted wait
  waits : ∀ wait, entry.answer = .accepted wait → wait ≤ maxQueue

variable {scope : Scope} {entries : List Entry} {entry : Entry}

theorem WindowOk.single (h : EntryOk scope entry) (hone : entry.charge.attempts = 1) :
    WindowOk scope [entry] where
  counted := by simp [hone]
  limited hscope := by simpa using h.limited hscope
  turns := by simpa using h.turns
  paced := List.pairwise_singleton _ _
  waits := by simpa using h.waits

theorem WindowOk.snoc (hw : WindowOk scope entries) (h : EntryOk scope entry)
    (hnext : entry.charge.attempts = entries.length + 1)
    (hpaced : ∀ t, windowTurn entries = some t → ∀ t', entry.turn = some t' →
      ∃ delay, delayFor entry.charge.attempts = some delay ∧ t + delay ≤ t') :
    WindowOk scope (entries ++ [entry]) where
  counted := by
    rw [List.map_append, hw.counted, List.length_append, List.length_singleton,
      List.range'_concat]
    simp [hnext, Nat.add_comm]
  limited hscope := by
    intro e he
    rcases List.mem_append.1 he with he | he
    · exact hw.limited hscope e he
    · rw [List.mem_singleton.1 he]
      exact h.limited hscope
  turns := by
    intro e he
    rcases List.mem_append.1 he with he | he
    · exact hw.turns e he
    · rw [List.mem_singleton.1 he]
      exact h.turns
  paced := by
    rw [List.pairwise_append]
    refine ⟨hw.paced, List.pairwise_singleton _ _, ?_⟩
    intro a ha b hb t ht t' ht'
    rw [List.mem_singleton.1 hb] at ht' ⊢
    -- the turn before the new one is the last, and none is after it
    obtain ⟨last, hlast, hle⟩ := turn_le_windowTurn hw.paced ha ht
    obtain ⟨delay, hdelay, hfar⟩ := hpaced last hlast t' ht'
    exact ⟨delay, hdelay, (Nat.add_le_add_right hle delay).trans hfar⟩
  waits := by
    intro e he
    rcases List.mem_append.1 he with he | he
    · exact hw.waits e he
    · rw [List.mem_singleton.1 he]
      exact h.waits

/-- The turn a charge finds on its row: none, in a window of its own. -/
def Charge.base (charge : Charge) (committed : Option LoginAttempt) : Option Time :=
  if charge.fresh then none else committed.bind LoginAttempt.notBefore

/-- A charge against the row it found. -/
structure Charge.Counts (charge : Charge) (committed : Option LoginAttempt) : Prop where
  fresh : charge.fresh = true → charge.attempts = 1
  next : charge.fresh = false →
    ∃ row, committed = some row ∧ charge.attempts = row.attempts + 1

theorem RowOk.push {committed : Option LoginAttempt} {history : History} {row : LoginAttempt}
    (h : RowOk scope committed history) (he : EntryOk scope entry)
    (hcounts : entry.charge.Counts committed) (hattempts : row.attempts = entry.charge.attempts)
    (hturn : row.notBefore = entry.turn.or (entry.charge.base committed))
    (hpaced : ∀ t, entry.charge.base committed = some t → ∀ t', entry.turn = some t' →
      ∃ delay, delayFor entry.charge.attempts = some delay ∧ t + delay ≤ t') :
    RowOk scope (some row) (history.push entry) := by
  unfold History.push
  cases hfresh : entry.charge.fresh with
  | true =>
    have hone := hcounts.fresh hfresh
    rw [if_pos rfl]
    constructor
    · intro entries hmem
      rcases List.mem_cons.1 hmem with rfl | hmem
      · exact WindowOk.single he hone
      · exact h.windows entries hmem
    · intro row' hrow'
      cases hrow'
      refine ⟨[entry], history, rfl, by simp [hattempts, hone], ?_⟩
      rw [hturn, Charge.base, hfresh, if_pos rfl]
      cases ht : entry.turn <;> simp [windowTurn, ht]
  | false =>
    obtain ⟨old, hold, hnext⟩ := hcounts.next hfresh
    obtain ⟨latest, rest, hhistory, hlen, hlast⟩ := h.current old hold
    have hbase : entry.charge.base committed = windowTurn latest := by
      rw [Charge.base, hfresh, hold, ← hlast]
      rfl
    rw [hhistory, if_neg Bool.false_ne_true]
    dsimp only
    constructor
    · intro entries hmem
      rcases List.mem_cons.1 hmem with rfl | hmem
      · refine WindowOk.snoc (h.windows latest (hhistory ▸ List.mem_cons_self)) he ?_ ?_
        · rw [hnext, hlen]
        · rwa [hbase] at hpaced
      · exact h.windows entries (hhistory ▸ List.mem_cons_of_mem _ hmem)
    · intro row' hrow'
      cases hrow'
      refine ⟨latest ++ [entry], rest, rfl, ?_, ?_⟩
      · rw [hattempts, hnext, hlen, List.length_append, List.length_singleton]
      · rw [hturn, hbase, windowTurn_snoc]

end Potocolom.Limits
