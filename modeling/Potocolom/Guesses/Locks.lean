import Potocolom.Guesses.Statements

/-! # Who holds which challenge, and why

A challenge is held by a `begin_challenge` that is consuming it, by an answer that is
counting an attempt on it, or by an answer that is winning it; each of them found it
unconsumed. The account key is held from its taking to the end of the transaction. -/

namespace Potocolom.Guesses

open Accounts (Time maxAttempts)

variable {budgetLock : Nat → Nat} {w : World}

/-- The request has written `new` over `old`. -/
def Explains (request : Request) (old new : Challenge) : Prop :=
  match request with
  | .carried user startedAt _ => outstanding user startedAt old = true ∧ new = old.consume startedAt
  | .claimed _ => old.consumedAt = none ∧ old.attempts < maxAttempts ∧ new = old.attempt
  | .winning challenge => old.id = challenge ∧ old.consumedAt = none ∧ ∃ at', new = old.consume at'
  | _ => False

/-- The user whose key the request holds. -/
def Request.keyOf : Request → Option Nat
  | .keyed user _ | .carried user _ _ => some user
  | _ => none

/-- What a request knows of the rows it has written. -/
def Knows (r : Nat) (rows : Rows Nat Challenge) : Request → Prop
  | .carried user startedAt spent =>
    ∀ row ∈ rows, outstanding user startedAt row.committed = true →
      row.held = some (r, row.committed.consume startedAt) ∧ row.committed.attempts ≤ spent
  | .claimed (some challenge) =>
    ∃ row ∈ rows, row.committed.id = challenge ∧ row.held = some (r, row.committed.attempt)
  | .winning challenge =>
    ∃ row ∈ rows, row.committed.id = challenge ∧ ∃ v, row.held = some (r, v)
  | _ => True

structure Locks (budgetLock : Nat → Nat) (w : World) : Prop where
  held : ∀ row ∈ w.rows, ∀ r v, row.held = some (r, v) →
    ∃ request, w.requests.get r = some request ∧ Explains request row.committed v
  keyed : ∀ r request user, w.requests.get r = some request → request.keyOf = some user →
    w.keys (budgetLock user) = some r
  knows : ∀ r request, w.requests.get r = some request → Knows r w.rows request

/-- A request that has written nothing holds nothing. -/
theorem Locks.free (h : Locks budgetLock w) {r : Nat} {request : Request}
    (hr : w.requests.get r = some request) (hnone : ∀ old new, ¬ Explains request old new) :
    ∀ row ∈ w.rows, ∀ v, row.held ≠ some (r, v) := by
  intro row hrow v hheld
  rcases h.held row hrow r v hheld with ⟨request', hr', hexplains⟩
  rw [hr] at hr'
  cases hr'
  exact hnone _ _ hexplains

theorem Locks.free_of_none (h : Locks budgetLock w) {r : Nat} (hr : w.requests.get r = none) :
    ∀ row ∈ w.rows, ∀ v, row.held ≠ some (r, v) := by
  intro row hrow v hheld
  rcases h.held row hrow r v hheld with ⟨request, hr', -⟩
  rw [hr] at hr'
  cases hr'

/-! ## What the steps keep -/

/-- A request that holds no row goes on to a stage that holds none. -/
theorem Locks.put (h : Locks budgetLock w) {r : Nat} {request : Request}
    (hfree : ∀ row ∈ w.rows, ∀ v, row.held ≠ some (r, v)) (hkey : request.keyOf = none)
    (hknows : Knows r w.rows request) : Locks budgetLock (w.put r request) where
  held := by
    intro row hrow r' v hheld
    by_cases hr : r' = r
    · exact absurd (hr ▸ hheld) (hfree row hrow v)
    · rcases h.held row hrow r' v hheld with ⟨request', hr', hexplains⟩
      exact ⟨request', by simpa [World.put, Table.get_set_of_ne _ _ hr] using hr', hexplains⟩
  keyed := by
    intro r' request' user hr' huser
    by_cases hr : r' = r
    · subst hr
      have heq : request = request' := by simpa [World.put] using hr'
      rw [← heq, hkey] at huser
      cases huser
    · exact h.keyed r' request' user (by simpa [World.put, Table.get_set_of_ne _ _ hr] using hr') huser
  knows := by
    intro r' request' hr'
    by_cases hr : r' = r
    · subst hr
      have heq : request = request' := by simpa [World.put] using hr'
      rw [← heq]
      exact hknows
    · exact h.knows r' request' (by simpa [World.put, Table.get_set_of_ne _ _ hr] using hr')

/-- What another request knows outlasts a step that leaves its rows alone and makes no
row outstanding. -/
theorem Knows.mono {r : Nat} {request : Request} {rows rows' : Rows Nat Challenge}
    (h : Knows r rows request)
    (hkept : ∀ row ∈ rows, ∀ v, row.held = some (r, v) → row ∈ rows')
    (hnew : ∀ user startedAt spent, request = .carried user startedAt spent →
      ∀ row' ∈ rows', outstanding user startedAt row'.committed = true →
        row' ∈ rows ∨ ∃ row ∈ rows, outstanding user startedAt row.committed = true ∧
          ∀ v, row.held ≠ some (r, v)) : Knows r rows' request := by
  cases request with
  | carried user startedAt spent =>
    intro row' hrow' hout
    rcases hnew user startedAt spent rfl row' hrow' hout with hsame | ⟨row, hrow, hrowOut, hfree⟩
    · exact h row' hsame hout
    · exact absurd (h row hrow hrowOut).1 (hfree _)
  | claimed challenge =>
    cases challenge with
    | none => trivial
    | some challenge =>
      rcases h with ⟨row, hrow, hid, hheld⟩
      exact ⟨row, hkept row hrow _ hheld, hid, hheld⟩
  | winning challenge =>
    rcases h with ⟨row, hrow, hid, v, hheld⟩
    exact ⟨row, hkept row hrow v hheld, hid, v, hheld⟩
  | _ => trivial

/-- Committing what was written makes no row outstanding. -/
theorem Explains.outstanding_of_new {request : Request} {old new : Challenge}
    (h : Explains request old new) {user startedAt : Nat}
    (hnew : outstanding user startedAt new = true) : outstanding user startedAt old = true := by
  cases request with
  | carried user' startedAt' spent =>
    rw [h.2] at hnew
    simp [outstanding, Challenge.consume] at hnew
  | claimed challenge =>
    rw [h.2.2] at hnew
    exact hnew
  | winning challenge =>
    rcases h.2.2 with ⟨at', rfl⟩
    simp [outstanding, Challenge.consume] at hnew
  | _ => exact h.elim

/-- A request writes the rows that satisfy `p`, its first and only `UPDATE`. -/
theorem Locks.update (h : Locks budgetLock w) {r : Nat} {old request : Request}
    {p : Challenge → Bool} {f : Challenge → Challenge} {rows : Rows Nat Challenge}
    {returned : List Challenge} (hr : w.requests.get r = some old)
    (hnone : ∀ c d, ¬ Explains old c d) (hkey : request.keyOf = old.keyOf)
    (hupdate : w.rows.update r p f = some (rows, returned))
    (hexplains : ∀ c, p c = true → Explains request c (f c)) (hknows : Knows r rows request) :
    Locks budgetLock { w.put r request with rows := rows } where
  held := by
    intro row' hrow' r' v hheld
    have hfree := h.free hr hnone
    rcases Rows.mem_update hupdate hfree hrow' with ⟨row, hrow, ⟨hp, -, rfl⟩ | ⟨-, rfl⟩⟩
    · cases hheld
      exact ⟨request, by simp [World.put], hexplains _ hp⟩
    · have hne : r' ≠ r := by
        rintro rfl
        exact hfree _ hrow v hheld
      rcases h.held _ hrow r' v hheld with ⟨request', hr', hexplains'⟩
      exact ⟨request', by simpa [World.put, Table.get_set_of_ne _ _ hne] using hr', hexplains'⟩
  keyed := by
    intro r' request' user hr' huser
    by_cases heq : r' = r
    · subst heq
      have hrequest : request = request' := by simpa [World.put] using hr'
      rw [← hrequest, hkey] at huser
      exact h.keyed _ old user hr huser
    · exact h.keyed r' request' user
        (by simpa [World.put, Table.get_set_of_ne _ _ heq] using hr') huser
  knows := by
    intro r' request' hr'
    have hfree := h.free hr hnone
    by_cases heq : r' = r
    · subst heq
      have hrequest : request = request' := by simpa [World.put] using hr'
      rw [← hrequest]
      exact hknows
    · have hold : w.requests.get r' = some request' := by
        simpa [World.put, Table.get_set_of_ne _ _ heq] using hr'
      refine (h.knows r' request' hold).mono ?_ ?_
      · intro row hrow v hheld
        exact Rows.mem_update_of_held hupdate hfree hrow (by simp [hheld])
      · intro user startedAt spent _ row' hrow' hout
        rcases Rows.mem_update hupdate hfree hrow' with ⟨row, hrow, ⟨-, hunheld, rfl⟩ | ⟨-, rfl⟩⟩
        · exact .inr ⟨row, hrow, hout, by simp [hunheld]⟩
        · exact .inl hrow

/-- A request commits, perhaps with a row of its own, and lets its locks go. -/
theorem Locks.commit (h : Locks budgetLock w) {r : Nat} {old request : Request}
    {added : List Challenge} (hr : w.requests.get r = some old) (hkey : request.keyOf = none)
    (hknows : ∀ rows, Knows r rows request)
    (hadded : ∀ c ∈ added, old.keyOf = some c.userId) :
    Locks budgetLock
      { w.put r request with
        rows := w.rows.commit r ++ added.map fun c => ⟨c, none⟩
        keys := w.released r } where
  held := by
    intro row' hrow' r' v hheld
    rcases List.mem_append.1 hrow' with hrow' | hrow'
    · rcases Rows.mem_commit hrow' with ⟨row, hrow, ⟨v', -, rfl⟩ | ⟨hfree, rfl⟩⟩
      · cases hheld
      · have hne : r' ≠ r := by
          rintro rfl
          exact hfree v hheld
        rcases h.held _ hrow r' v hheld with ⟨request', hr', hexplains⟩
        exact ⟨request', by simpa [World.put, Table.get_set_of_ne _ _ hne] using hr', hexplains⟩
    · rcases List.mem_map.1 hrow' with ⟨c, -, rfl⟩
      cases hheld
  keyed := by
    intro r' request' user hr' huser
    by_cases heq : r' = r
    · subst heq
      have hrequest : request = request' := by simpa [World.put] using hr'
      rw [← hrequest, hkey] at huser
      cases huser
    · have hold := h.keyed r' request' user
        (by simpa [World.put, Table.get_set_of_ne _ _ heq] using hr') huser
      simp [World.released, hold, heq]
  knows := by
    intro r' request' hr'
    by_cases heq : r' = r
    · subst heq
      have hrequest : request = request' := by simpa [World.put] using hr'
      rw [← hrequest]
      exact hknows _
    · have hold : w.requests.get r' = some request' := by
        simpa [World.put, Table.get_set_of_ne _ _ heq] using hr'
      refine (h.knows r' request' hold).mono ?_ ?_
      · intro row hrow v hheld
        exact List.mem_append_left _ (Rows.mem_commit_of_held hrow hheld heq)
      · intro user startedAt spent hcarried row' hrow' hout
        rcases List.mem_append.1 hrow' with hrow' | hrow'
        · rcases Rows.mem_commit hrow' with ⟨row, hrow, ⟨v, hv, rfl⟩ | ⟨-, rfl⟩⟩
          · rcases h.held row hrow r v hv with ⟨request'', -, hexplains⟩
            refine .inr ⟨row, hrow, hexplains.outstanding_of_new hout, ?_⟩
            intro v' hv'
            rw [hv] at hv'
            cases hv'
            exact heq rfl
          · exact .inl hrow
        · -- the two requests cannot both hold the key of the user of the new row
          rcases List.mem_map.1 hrow' with ⟨c, hc, rfl⟩
          have huser : c.userId = user := by
            simp only [outstanding, Bool.and_eq_true, decide_eq_true_eq] at hout
            exact hout.1.1
          have hours := h.keyed r old user hr (by rw [hadded c hc, huser])
          have htheirs := h.keyed r' request' user hold (by rw [hcarried]; rfl)
          rw [hours] at htheirs
          cases htheirs
          exact absurd rfl heq

/-- A commit that adds no row, of a request without a key. -/
theorem Locks.commitOnly (h : Locks budgetLock w) {r : Nat} {old request : Request}
    (hr : w.requests.get r = some old) (hkey : request.keyOf = none)
    (hknows : ∀ rows, Knows r rows request) :
    Locks budgetLock { w.put r request with rows := w.rows.commit r } := by
  have hnothing : ∀ c ∈ ([] : List Challenge), old.keyOf = some c.userId := by simp
  have hcommit := h.commit hr hkey hknows hnothing
  refine ⟨?_, ?_, ?_⟩
  · intro row hrow
    exact hcommit.held row (List.mem_append_left _ hrow)
  · intro r' request' user hr' huser
    have hkeys := hcommit.keyed r' request' user hr' huser
    simp only [World.released] at hkeys
    split at hkeys
    · cases hkeys
    · exact hkeys
  · intro r' request' hr'
    simpa using hcommit.knows r' request' hr'

/-- A request ends without committing. -/
theorem Locks.rollback (h : Locks budgetLock w) {r : Nat} :
    Locks budgetLock
      { w.put r .over with
        rows := w.rows.rollback r
        keys := w.released r } where
  held := by
    intro row' hrow' r' v hheld
    rcases Rows.mem_rollback hrow' with ⟨row, hrow, ⟨v', -, rfl⟩ | ⟨hfree, rfl⟩⟩
    · cases hheld
    · have hne : r' ≠ r := by
        rintro rfl
        exact hfree v hheld
      rcases h.held _ hrow r' v hheld with ⟨request', hr', hexplains⟩
      exact ⟨request', by simpa [World.put, Table.get_set_of_ne _ _ hne] using hr', hexplains⟩
  keyed := by
    intro r' request' user hr' huser
    by_cases heq : r' = r
    · subst heq
      have hrequest : Request.over = request' := by simpa [World.put] using hr'
      rw [← hrequest] at huser
      cases huser
    · have hold := h.keyed r' request' user
        (by simpa [World.put, Table.get_set_of_ne _ _ heq] using hr') huser
      simp [World.released, hold, heq]
  knows := by
    intro r' request' hr'
    by_cases heq : r' = r
    · subst heq
      have hrequest : Request.over = request' := by simpa [World.put] using hr'
      rw [← hrequest]
      trivial
    · have hold : w.requests.get r' = some request' := by
        simpa [World.put, Table.get_set_of_ne _ _ heq] using hr'
      refine (h.knows r' request' hold).mono ?_ ?_
      · intro row hrow v hheld
        exact Rows.mem_rollback_of_held hrow hheld heq
      · intro user startedAt spent _ row' hrow' hout
        rcases Rows.mem_rollback hrow' with ⟨row, hrow, ⟨v, hv, rfl⟩ | ⟨-, rfl⟩⟩
        · refine .inr ⟨row, hrow, hout, ?_⟩
          intro v' hv'
          rw [hv] at hv'
          cases hv'
          exact heq rfl
        · exact .inl hrow

/-- Taking a free key. -/
theorem Locks.take (h : Locks budgetLock w) {r user : Nat} {startedAt : Time}
    (hr : w.requests.get r = some (.starting user startedAt))
    (hkey : w.keys (budgetLock user) = none) :
    Locks budgetLock
      { w.put r (.keyed user startedAt) with
        keys := Function.update w.keys (budgetLock user) (some r) } where
  held := by
    intro row hrow r' v hheld
    have hne : r' ≠ r := by
      rintro rfl
      exact h.free hr (by intro _ _ hno; exact hno) row hrow v hheld
    rcases h.held row hrow r' v hheld with ⟨request', hr', hexplains⟩
    exact ⟨request', by simpa [World.put, Table.get_set_of_ne _ _ hne] using hr', hexplains⟩
  keyed := by
    intro r' request' user' hr' huser
    by_cases heq : r' = r
    · subst heq
      have hrequest : Request.keyed user startedAt = request' := by simpa [World.put] using hr'
      rw [← hrequest] at huser
      cases huser
      simp
    · have hold := h.keyed r' request' user'
        (by simpa [World.put, Table.get_set_of_ne _ _ heq] using hr') huser
      have hother : budgetLock user' ≠ budgetLock user := by
        intro hsame
        rw [hsame, hkey] at hold
        cases hold
      simpa [Function.update_of_ne hother] using hold
  knows := by
    intro r' request' hr'
    by_cases heq : r' = r
    · subst heq
      have hrequest : Request.keyed user startedAt = request' := by simpa [World.put] using hr'
      rw [← hrequest]
      trivial
    · exact h.knows r' request' (by simpa [World.put, Table.get_set_of_ne _ _ heq] using hr')

theorem Locks.start : Locks budgetLock start where
  held := by
    intro row hrow
    cases hrow
  keyed := by
    intro r request user hr
    cases hr
  knows := by
    intro r request hr
    cases hr

/-- Every step keeps the locks in order. -/
theorem Locks.step (h : Locks budgetLock w) {l : Label} {w' : World}
    (hst : Guesses.step budgetLock w l = some w') : Locks budgetLock w' := by
  cases l with
  | tick seconds =>
    cases hst
    exact ⟨h.held, h.keyed, h.knows⟩
  | begin r user =>
    simp only [Guesses.step] at hst
    split at hst
    · next hr =>
      cases hst
      exact h.put (h.free_of_none hr) rfl trivial
    · cases hst
  | takeKey r =>
    simp only [Guesses.step] at hst
    split at hst
    · next user startedAt hr =>
      split at hst
      · next hkey =>
        cases hst
        exact h.take hr hkey
      · cases hst
    · cases hst
  | carry r =>
    simp only [Guesses.step] at hst
    split at hst
    · next user startedAt hr =>
      split at hst
      · next rows spent hupdate =>
        cases hst
        have hnone : ∀ c d, ¬ Explains (.keyed user startedAt) c d := fun _ _ hno => hno
        refine h.update hr hnone rfl hupdate ?_ ?_
        · intro c hc
          exact ⟨hc, rfl⟩
        · intro row' hrow' hout
          have hfree := h.free hr hnone
          rcases Rows.mem_update hupdate hfree hrow' with ⟨row, hrow, ⟨hp, -, rfl⟩ | ⟨hp, rfl⟩⟩
          · refine ⟨rfl, ?_⟩
            rw [Rows.returned_update hupdate hfree]
            have hmem : row.committed.attempts ∈ ((w.rows.filter fun r => outstanding user startedAt
                r.committed).map fun r => r.committed.consume startedAt).map Challenge.attempts :=
              List.mem_map.2 ⟨_, List.mem_map.2 ⟨row, List.mem_filter.2 ⟨hrow, hp⟩, rfl⟩, rfl⟩
            exact List.single_le_sum (fun _ _ => Nat.zero_le _) _ hmem
          · rw [hout] at hp
            cases hp
      · cases hst
    · cases hst
  | insert r expiresAt =>
    simp only [Guesses.step] at hst
    split at hst
    · next user startedAt spent hr =>
      cases hst
      have hadded : ∀ c ∈ [newChallenge w user startedAt spent expiresAt],
          (Request.carried user startedAt spent).keyOf = some c.userId := by
        simp [Request.keyOf, newChallenge]
      have hover : ∀ rows, Knows r rows .over := fun _ => trivial
      have hcommit := h.commit hr rfl hover hadded
      exact ⟨hcommit.held, hcommit.keyed, hcommit.knows⟩
    · cases hst
  | present r token =>
    simp only [Guesses.step] at hst
    split at hst
    · next hr =>
      cases hst
      exact h.put (h.free_of_none hr) rfl trivial
    · cases hst
  | claim r =>
    simp only [Guesses.step] at hst
    split at hst
    · next token startedAt hr =>
      split at hst
      · next rows returned hupdate =>
        cases hst
        have hnone : ∀ c d, ¬ Explains (.claiming token startedAt) c d := fun _ _ hno => hno
        refine h.update hr hnone rfl hupdate ?_ ?_
        · intro c hc
          simp only [answerable, Bool.and_eq_true, decide_eq_true_eq,
            Option.isNone_iff_eq_none] at hc
          exact ⟨hc.1.1.2, hc.2, rfl⟩
        · cases hfirst : returned.head? with
          | none => trivial
          | some c =>
            rw [Rows.returned_update hupdate (h.free hr hnone)] at hfirst
            rcases List.mem_map.1 (List.mem_of_mem_head? hfirst) with ⟨row, hrow, rfl⟩
            rcases List.mem_filter.1 hrow with ⟨hrow, hp⟩
            exact ⟨_, Rows.mem_update_of_match hupdate (h.free hr hnone) hrow hp, rfl, rfl⟩
      · cases hst
    · cases hst
  | commitClaim r =>
    simp only [Guesses.step] at hst
    split at hst
    · next challenge hr =>
      cases hst
      have hcounted : ∀ rows, Knows r rows (.counted challenge) := fun _ => trivial
      have hcommit := h.commitOnly hr rfl hcounted
      exact ⟨hcommit.held, hcommit.keyed, hcommit.knows⟩
    · next hr =>
      cases hst
      have hover : ∀ rows, Knows r rows .over := fun _ => trivial
      have hcommit := h.commitOnly hr rfl hover
      exact ⟨hcommit.held, hcommit.keyed, hcommit.knows⟩
    · cases hst
  | verify r good =>
    simp only [Guesses.step] at hst
    split at hst
    · next challenge hr =>
      cases hst
      have hfree := h.free hr fun _ _ hno => hno
      cases good with
      | false =>
        have hput : Locks budgetLock (w.put r .over) := h.put hfree rfl trivial
        exact ⟨hput.held, hput.keyed, hput.knows⟩
      | true =>
        have hput : Locks budgetLock (w.put r (.proved challenge)) := h.put hfree rfl trivial
        exact ⟨hput.held, hput.keyed, hput.knows⟩
    · cases hst
  | win r startedAt =>
    simp only [Guesses.step] at hst
    split at hst
    · next challenge hr =>
      split at hst
      · next rows c returned hupdate =>
        cases hst
        have hnone : ∀ c d, ¬ Explains (.proved challenge) c d := fun _ _ hno => hno
        refine h.update hr hnone rfl hupdate ?_ ?_
        · intro d hd
          simp only [winnable, Bool.and_eq_true, decide_eq_true_eq,
            Option.isNone_iff_eq_none] at hd
          exact ⟨hd.1, hd.2, startedAt, rfl⟩
        · have hreturned := Rows.returned_update hupdate (h.free hr hnone)
          have hmem : c ∈ (w.rows.filter fun r => winnable challenge r.committed).map
              fun r => r.committed.consume startedAt := hreturned ▸ List.mem_cons_self
          rcases List.mem_map.1 hmem with ⟨row, hrow, rfl⟩
          rcases List.mem_filter.1 hrow with ⟨hrow, hp⟩
          refine ⟨_, Rows.mem_update_of_match hupdate (h.free hr hnone) hrow hp, ?_, _, rfl⟩
          simp only [winnable, Bool.and_eq_true, decide_eq_true_eq] at hp
          exact hp.1
      · cases hst
    · cases hst
  | commitWin r =>
    simp only [Guesses.step] at hst
    split at hst
    · next challenge hr =>
      cases hst
      have hover : ∀ rows, Knows r rows .over := fun _ => trivial
      have hcommit := h.commitOnly hr rfl hover
      exact ⟨hcommit.held, hcommit.keyed, hcommit.knows⟩
    · cases hst
  | fail r =>
    simp only [Guesses.step] at hst
    split at hst
    · cases hst
      exact h.rollback
    · cases hst

end Potocolom.Guesses
