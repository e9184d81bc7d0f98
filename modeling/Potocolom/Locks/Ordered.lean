import Potocolom.Locks.Journal

/-! # No deadlock over the journal

Where what a transaction finds late is among what it locked early, the transactions of
the journal and the authority follow one order, so they never deadlock. A terminal report
that reads the journal again under the lease can. -/

namespace Potocolom.Locks.Journal

variable {W R : Type*} [LinearOrder W] [LinearOrder R] {region : W → R}

section phases

variable {held p : List (Resource W R)} {n : ℕ} {w : W} {accounts : List UserId} {e : Erasure W}

theorem goes_keys (users : List UserId) :
    (order region).Goes 0 [] ((keysOf users).map .account) 1 := by
  refine LockOrder.goes_ordered le_rfl (fun x _ hx => ?_) ?_ ?_
  · cases x with
    | account => rfl
    | _ => cases hx
  · intro r hr
    rcases List.mem_map.1 hr with ⟨key, _, rfl⟩
    exact ⟨rfl, rfl⟩
  · refine List.pairwise_map.2 (pairwise_keysOf.imp fun hkeys => ?_)
    rcases hkeys with rfl | hlt
    · exact .inl rfl
    · exact .inr hlt

theorem goes_key (u : UserId) : (order region).Goes 0 [] [holdTheAccount u] 1 :=
  goes_keys [u]

theorem pairwise_journal (rows : List (W × ℕ)) :
    (journal rows : List (Resource W R)).Pairwise fun a b => a = b ∨ (order region).before a b := by
  have htotal : Std.Total fun x y : W × ℕ => toLex x ≤ toLex y :=
    ⟨fun x y => le_total (toLex x) (toLex y)⟩
  have htrans : IsTrans (W × ℕ) fun x y => toLex x ≤ toLex y := ⟨fun _ _ _ => le_trans⟩
  refine List.pairwise_map.2 ((List.pairwise_insertionSort _ rows).imp fun h => ?_)
  rcases h.eq_or_lt with heq | hlt
  · obtain rfl := toLex_inj.1 heq
    exact .inl rfl
  · exact .inr hlt

omit [LinearOrder R] in
theorem mem_journal {rows : List (W × ℕ)} {r : Resource W R} :
    r ∈ journal rows ↔ ∃ x ∈ rows, Resource.command x.1 x.2 = r := by
  simp [journal, List.mem_insertionSort]

/-- The journal's rows, in its order, once no lease or connection is held. -/
theorem goes_journal (hn : n ≤ 4) (rows : List (W × ℕ)) :
    (order region).Goes n held (journal rows) 5 := by
  refine LockOrder.goes_ordered hn (fun x _ hx => ?_) ?_ (pairwise_journal rows)
  · cases x with
    | command => rfl
    | _ => cases hx
  · intro r hr
    rcases mem_journal.1 hr with ⟨x, _, rfl⟩
    exact ⟨rfl, rfl⟩

theorem goes_leases (hn : n ≤ 6) (regions : List R) :
    (order region).Goes n held ((regions.dedup.insertionSort (· ≤ ·)).map .lease) 7 := by
  have hsorted : (regions.dedup.insertionSort (· ≤ ·)).Pairwise (· ≤ ·) :=
    List.pairwise_insertionSort _ _
  refine LockOrder.goes_ordered hn (fun x _ hx => ?_) ?_ ?_
  · cases x with
    | lease => rfl
    | _ => cases hx
  · intro r hr
    rcases List.mem_map.1 hr with ⟨x, _, rfl⟩
    exact ⟨rfl, rfl⟩
  · refine List.pairwise_map.2 (hsorted.imp fun h => ?_)
    rcases h.eq_or_lt with rfl | hlt
    · exact .inl rfl
    · exact .inr hlt

theorem goes_lease (r : R) : (order region).Goes 0 [] [.lease r] 7 :=
  goes_leases (by omega) [r]

theorem goes_connections (hn : n ≤ 8) {ws : List W}
    (hleases : ∀ w ∈ ws, Resource.lease (region w) ∈ held) :
    (order region).Goes n held (ws.map .connection) 8 := by
  refine LockOrder.goes_gated hn fun r hr => .inr (.inr ?_)
  rcases List.mem_map.1 hr with ⟨w, hw, rfl⟩
  exact ⟨rfl, rfl, _, hleases w hw, rfl⟩

/-- A single connection, whatever leases are held. -/
theorem goes_connection (hn : n ≤ 7) (w : W) : (order region).Goes n held [.connection w] 9 :=
  LockOrder.goes_alone rfl (Nat.lt_succ_of_le hn)

/-- A connection whose lease is held. -/
theorem goes_connection_of_lease (hn : n ≤ 8) {w : W} (hlease : Resource.lease (region w) ∈ held) :
    (order region).Goes n held [.connection w] 8 := by
  have hleases : ∀ w' ∈ [w], Resource.lease (region w') ∈ held := by
    intro w' hw'
    rwa [List.mem_singleton.1 hw']
  exact goes_connections hn hleases

theorem goes_authority (hn : n ≤ 6) (w : W) : (order region).Goes n held (authority region w) 8 :=
  (goes_leases hn [region w]).append
    (goes_connection_of_lease (by omega) (List.mem_append_right _ (List.mem_singleton.2 rfl)))

/-- `_erase_pending_rows`, from its journal's rows on. -/
theorem goes_fence (hn : n ≤ 6) (hrows : ∀ x ∈ e.rows, Resource.command x.1 x.2 ∈ held) :
    (order region).Goes n held (e.fence region) 8 := by
  have hpending : (order region).Goes n held (journal (e.rows.filter e.pending)) n := by
    refine LockOrder.goes_sheltered fun r hr => .inl ?_
    rcases mem_journal.1 hr with ⟨x, hx, rfl⟩
    exact hrows x (List.mem_filter.1 hx).1
  refine (hpending.append (goes_leases hn _)).append (goes_connections (by omega) fun w hw => ?_)
  have hregion : region w ∈ (e.workers.map region).dedup.insertionSort (· ≤ ·) := by
    rw [List.mem_insertionSort, List.mem_dedup]
    exact List.mem_map_of_mem hw
  exact List.mem_append_right _ (List.mem_append_right _ (List.mem_map_of_mem hregion))

/-- The attempts of subjects that are held. -/
theorem goes_attempts (h : ∀ x ∈ e.attempts, Resource.subject x.subject ∈ held) :
    (order region).Goes n held (e.attempts.flatMap Attempt.rows) n := by
  refine LockOrder.goes_sheltered fun r hr => ?_
  rcases List.mem_flatMap.1 hr with ⟨x, hx, hr⟩
  simp only [Attempt.rows, List.mem_cons, List.not_mem_nil, or_false] at hr
  rcases hr with rfl | rfl
  · exact .inl (h x hx)
  · exact .inr ⟨_, h x hx, rfl⟩

omit [LinearOrder W] [LinearOrder R] in
theorem mem_lockAttemptRanges {attempts : List (Attempt W)} {r : Resource W R}
    (h : r ∈ lockAttemptRanges accounts attempts) :
    ∃ x ∈ attempts, shelter r = some (.subject x.subject) := by
  simp only [lockAttemptRanges, List.mem_map, List.mem_insertionSort, List.mem_filterMap,
    List.mem_filter] at h
  rcases h with ⟨y, ⟨x, ⟨hx, _⟩, hy⟩, rfl⟩
  rcases Option.map_eq_some_iff.1 hy with ⟨id, _, rfl⟩
  exact ⟨x, hx, rfl⟩

theorem goes_ranges {attempts : List (Attempt W)}
    (h : ∀ x ∈ attempts, Resource.subject x.subject ∈ held) :
    (order region).Goes n held (lockAttemptRanges accounts attempts) n := by
  refine LockOrder.goes_sheltered fun r hr => .inr ?_
  rcases mem_lockAttemptRanges hr with ⟨x, hx, hr⟩
  exact ⟨_, h x hx, hr⟩

/-- Subjects and their attempts, under the keys of their owners. -/
theorem goes_attempts_of_keys {attempts : List (Attempt W)}
    (h : ∀ x ∈ attempts, holdTheAccount x.subject.owner ∈ held) :
    (order region).Goes 2 held (attempts.flatMap Attempt.rows) 2 := by
  refine LockOrder.goes_flatMap _ held fun x hx held' hsub => ?_
  have hsubject : (order region).Goes 2 held' [.subject x.subject] 2 := by
    refine LockOrder.goes_gated le_rfl fun r hr => .inr (.inr ?_)
    rw [List.mem_singleton.1 hr]
    exact ⟨rfl, rfl, _, hsub (h x hx), rfl⟩
  have hattempt : (order region).Goes 2 (held' ++ [.subject x.subject])
      [.attempt x.subject x.number] 2 := by
    refine LockOrder.goes_sheltered fun r hr => .inr ?_
    rw [List.mem_singleton.1 hr]
    exact ⟨.subject x.subject, by simp, rfl⟩
  exact hsubject.append hattempt

/-- An erasure, once its attempts can be asked for. -/
theorem goes_erasure (hn : n ≤ 4)
    (hattempts : (order region).Goes n held (e.attempts.flatMap Attempt.rows) n) :
    (order region).Goes n held (e.locks region accounts) 8 := by
  have hsubjects : ∀ x ∈ e.attempts,
      Resource.subject x.subject ∈ held ++ e.attempts.flatMap Attempt.rows := by
    intro x hx
    exact List.mem_append_right _ (List.mem_flatMap.2 ⟨x, hx, List.mem_cons_self⟩)
  have hranges : (order region).Goes n held (e.attempts.flatMap Attempt.rows ++
      lockAttemptRanges accounts e.attempts) n := hattempts.append (goes_ranges hsubjects)
  have hselection := hranges.append (goes_journal hn e.rows)
  refine hselection.append (goes_fence (by omega) fun x hx => ?_)
  exact List.mem_append_right _ (List.mem_append_right _ (mem_journal.2 ⟨x, hx, rfl⟩))

/-- The first subject of a transaction, with no more than keys held. -/
theorem goes_subject (hn : n ≤ 1) (x : Subject) : (order region).Goes n held [.subject x] 3 :=
  LockOrder.goes_alone rfl (Nat.lt_succ_of_le hn)

/-- Rows of a subject that is held. -/
theorem goes_under {x : Subject} (hx : Resource.subject x ∈ held)
    (hp : ∀ r ∈ p, r = .subject x ∨ shelter r = some (.subject x)) :
    (order region).Goes n held p n := by
  refine LockOrder.goes_sheltered fun r hr => ?_
  rcases hp r hr with rfl | hshelter
  · exact .inl hx
  · exact .inr ⟨_, hx, hshelter⟩

/-- What is held is asked for again. -/
theorem goes_again (hp : p ⊆ held) : (order region).Goes n held p n :=
  LockOrder.goes_sheltered fun _ hr => .inl (hp hr)

omit [LinearOrder R] in
theorem journalOf_filter_subset (w : W) (sequences : List ℕ) (f : ℕ → Bool) :
    (journalOf w (sequences.filter f) : List (Resource W R)) ⊆ journalOf w sequences := by
  intro r hr
  rcases mem_journal.1 hr with ⟨x, hx, rfl⟩
  rcases List.mem_map.1 hx with ⟨n, hn, rfl⟩
  exact mem_journal.2 ⟨_, List.mem_map_of_mem (List.mem_filter.1 hn).1, rfl⟩

end phases

/-! ## The transactions -/

section transactions

variable {held : List (Resource W R)} {w : W} {accounts : List UserId} {e : Erasure W}

theorem eraseAccountCommands_goes (accounts : List UserId) (e : Erasure W) :
    (order region).Goes 0 [] (eraseAccountCommands region accounts e) 8 := by
  refine (goes_keys accounts).append ((goes_erasure (n := 2) (by omega) ?_).from_le (by omega))
  refine goes_attempts_of_keys fun x hx => ?_
  have howner : x.subject.owner ∈ accounts := by simpa using (List.mem_filter.1 hx).2
  exact List.mem_map_of_mem (mem_keysOf howner)

theorem eraseSubjectCommands_goes (account : UserId) (x : Subject) (e : Erasure W) :
    (order region).Goes 0 [] (eraseSubjectCommands region account x e) 8 := by
  refine (goes_key account).append ((goes_erasure (by omega)
    (goes_attempts_of_keys fun y hy => ?_)).from_le (by omega))
  have howner : y.subject = x ∧ y.subject.owner = account := by simpa using (List.mem_filter.1 hy).2
  rw [howner.2]
  exact List.mem_singleton.2 rfl

theorem eraseRealtimeCommands_goes (account : UserId) (bindings : List Subject) (e : Erasure W) :
    (order region).Goes 0 [] (eraseRealtimeCommands region account bindings e) 8 := by
  have hbindings : (order region).Goes 1 [holdTheAccount account]
      ((bindings.filter (·.owner = account)).map .subject) 2 := by
    refine LockOrder.goes_gated (by omega) fun r hr => .inr (.inr ?_)
    rcases List.mem_map.1 hr with ⟨x, hx, rfl⟩
    have howner : x.owner = account := by simpa using (List.mem_filter.1 hx).2
    exact ⟨rfl, rfl, _, List.mem_singleton.2 rfl, by rw [← howner]; rfl⟩
  refine ((goes_key account).append hbindings).append (goes_erasure (by omega) ?_)
  refine goes_attempts fun x hx => ?_
  have hfound : x.subject ∈ bindings.filter (·.owner = account) := by
    simpa using (List.mem_filter.1 hx).2
  exact List.mem_append_right _ (List.mem_append_right _ (List.mem_map_of_mem hfound))

theorem endRealtimeSession_goes (x : Subject) (attempt : Option ℕ) (e : Erasure W) :
    (order region).Goes 0 [] (endRealtimeSession region x attempt e) 8 := by
  have hkey : (order region).Goes 0 [] [holdTheAccount x.owner] 1 := goes_key x.owner
  have hsubject := hkey.append (goes_subject le_rfl x)
  have hattempt := hsubject.append (p := _) (q := attempt.toList.map (Resource.attempt x)) <|
    goes_under (x := x) (by simp) fun r hr => by
      rcases List.mem_map.1 hr with ⟨n, _, rfl⟩
      exact .inr rfl
  have herasure := hattempt.append (q := (e.about (· = x)).locks region [x.owner]) <|
    goes_erasure (by omega) <| goes_attempts fun y hy => by
      have hy' : y.subject = x := by simpa using (List.mem_filter.1 hy).2
      simp [hy']
  have hlast := herasure.append
      (q := attempt.toList.map (Resource.attempt x) ++ [Resource.subject x]) <|
    goes_under (x := x) (by simp) fun r hr => by
      rcases List.mem_append.1 hr with hr | hr
      · rcases List.mem_map.1 hr with ⟨n, _, rfl⟩
        exact .inr rfl
      · exact .inl (List.mem_singleton.1 hr)
  simpa only [endRealtimeSession, List.append_assoc, List.cons_append, List.nil_append] using hlast

/-- The journal of a worker, and its authority. -/
theorem goes_journal_authority {n : ℕ} (hn : n ≤ 4) (w : W) (sequences : List ℕ) :
    (order region).Goes n held (journalOf w sequences ++ authority region w) 8 :=
  (goes_journal hn _).append (goes_authority (by omega) w)

/-- Where the session's row is not of the generation, its attempt is the last request. -/
theorem prepared_goes (account : UserId) {prepared : Prepared}
    (h : ∀ x n, prepared ≠ .session x false (some n)) :
    (order region).Goes 1 [holdTheAccount account] (prepared.locks account) 3 := by
  have hsubject : ∀ x, (order region).Goes 1 [holdTheAccount account] [.subject x] 3 := fun x =>
    goes_subject le_rfl x
  cases prepared with
  | openSession existing =>
    rcases existing with _ | x
    · exact LockOrder.goes_nil.le (by omega)
    · exact hsubject x
  | session x current attempt =>
    cases current with
    | false =>
      rcases attempt with _ | n
      · exact LockOrder.goes_nil.le (by omega)
      · exact absurd rfl (h x n)
    | true =>
      rw [Prepared.locks, List.append_assoc]
      refine (hsubject x).append (goes_under (x := x) (by simp) fun r hr => ?_)
      rcases List.mem_append.1 hr with hr | hr
      · rcases List.mem_map.1 hr with ⟨n, _, rfl⟩
        exact .inr rfl
      · split at hr
        · exact .inl (List.mem_singleton.1 hr)
        · cases hr
  | dispatchJob job => exact hsubject job
  | cancelJob job attempt =>
    refine (hsubject job).append (goes_under (x := job) (by simp) fun r hr => ?_)
    split at hr
    · rcases List.mem_map.1 hr with ⟨n, _, rfl⟩
      exact .inr rfl
    · cases hr

omit [LinearOrder W] [LinearOrder R] in
theorem claim_subset (account : UserId) (prepared : Prepared) :
    (prepared.claim : List (Resource W R)) ⊆ prepared.locks account := by
  cases prepared with
  | openSession existing => exact List.Subset.refl _
  | dispatchJob job => exact List.Subset.refl _
  | session x current attempt => exact List.nil_subset _
  | cancelJob job attempt => exact List.nil_subset _

theorem commitCommand_goes (account : UserId) {prepared : Prepared} (w : W)
    (sequences : List ℕ) (deleted : ℕ → Bool) (h : ∀ x n, prepared ≠ .session x false (some n)) :
    (order region).Goes 0 [] (commitCommand region account prepared w sequences deleted) 8 := by
  have hkey : (order region).Goes 0 [] [holdTheAccount account] 1 := goes_key account
  have hprepared := hkey.append (prepared_goes account h)
  by_cases hadmits : prepared.admits account
  · have hauthority := hprepared.append (goes_journal_authority (by omega) w sequences)
    have hlast := hauthority.append (q := [Resource.connection w] ++
        journalOf w (sequences.filter deleted) ++ prepared.claim ++ [Resource.connection w]) <|
      goes_again fun r hr => by
        simp only [List.mem_append, List.mem_singleton] at hr
        rcases hr with ((rfl | hr) | hr) | rfl
        · simp [authority]
        · have hmem := journalOf_filter_subset w sequences deleted hr
          simp [hmem]
        · have hmem := claim_subset account prepared hr
          simp [hmem]
        · simp [authority]
    simpa [commitCommand, hadmits] using hlast
  · simpa [commitCommand, hadmits] using hprepared.le (by omega : 3 ≤ 8)

theorem commitCommand_follows (account : UserId) (prepared : Prepared) (w : W)
    (sequences : List ℕ) (deleted : ℕ → Bool) :
    (order region).Follows (commitCommand region account prepared w sequences deleted) := by
  by_cases h : ∃ x n, prepared = .session x false (some n)
  · rcases h with ⟨x, n, rfl⟩
    refine .inr ⟨[holdTheAccount account], .attempt x n, by simp [commitCommand, Prepared.locks,
      Prepared.admits], (goes_key account).followsFrom, .subject x, rfl, rfl, fun y hy _ => ?_⟩
    rw [List.mem_singleton.1 hy]
    exact Nat.zero_lt_two
  · exact (commitCommand_goes account w sequences deleted fun x n heq => h ⟨x, n, heq⟩).follows

theorem registerDelivery_goes (account : UserId) (x : Subject) (attempt : ℕ × Option Uuid) (w : W)
    (sequences : List ℕ) :
    (order region).Goes 0 [] (registerDelivery region account x attempt w sequences) 8 := by
  have hkey : (order region).Goes 0 [] [holdTheAccount account] 1 := goes_key account
  have hsubject := hkey.append (goes_subject le_rfl x)
  by_cases howner : x.owner = account
  · have hattempt := hsubject.append
      (q := [Resource.attempt x attempt.1] ++ attempt.2.toList.map (Resource.range x)) <|
      goes_under (x := x) (by simp) fun r hr => by
        rcases List.mem_append.1 hr with hr | hr
        · exact .inr (List.mem_singleton.1 hr ▸ rfl)
        · rcases List.mem_map.1 hr with ⟨id, _, rfl⟩
          exact .inr rfl
    have hlast := hattempt.append (goes_journal_authority (by omega) w sequences)
    simpa [registerDelivery, howner] using hlast
  · simpa [registerDelivery, howner] using hsubject.le (by omega : 3 ≤ 8)

/-- The rows of a pending update, whoever its account is. -/
theorem acknowledge_update_goes {users : List UserId}
    (update : Option (Subject × Option (ℕ × Option Uuid))) :
    (order region).Goes 1 (users.map holdTheAccount) (lockUpdateAckSubject update) 3 := by
  rcases update with _ | ⟨x, _ | ⟨n, range⟩⟩
  · exact LockOrder.goes_nil.le (by omega)
  · exact goes_subject le_rfl x
  · have hsubject : (order region).Goes 1 (users.map holdTheAccount) [.subject x] 3 :=
      goes_subject le_rfl x
    refine hsubject.append (q := [Resource.attempt x n] ++ range.toList.map (Resource.range x)) ?_
    refine goes_under (x := x) (by simp) fun r hr => ?_
    rcases List.mem_append.1 hr with hr | hr
    · exact .inr (List.mem_singleton.1 hr ▸ rfl)
    · rcases List.mem_map.1 hr with ⟨id, _, rfl⟩
      exact .inr rfl

omit [LinearOrder W] [LinearOrder R] in
theorem mem_lockUpdateAckSubject (update : Option (Subject × Option (ℕ × Option Uuid))) :
    (update.toList.map fun u => .subject u.1) ⊆ (lockUpdateAckSubject update : List (Resource W R)) := by
  rcases update with _ | ⟨x, _ | ⟨n, range⟩⟩ <;> simp [lockUpdateAckSubject]

theorem acknowledge_goes (account : Option UserId)
    (update : Option (Subject × Option (ℕ × Option Uuid))) (w : W) (sequences : List ℕ)
    (changed deleted : ℕ → Bool) :
    (order region).Goes 0 [] (acknowledge region account update w sequences changed deleted) 8 := by
  have hkey : (order region).Goes 0 [] (account.toList.map holdTheAccount) 1 := by
    rcases account with _ | u
    · exact LockOrder.goes_nil.le (by omega)
    · exact goes_key u
  have hupdate := hkey.append (acknowledge_update_goes update)
  have hauthority := hupdate.append (goes_journal_authority (by omega) w sequences)
  have hlast := hauthority.append
    (q := (update.toList.map fun u => .subject u.1) ++ (journalOf w (sequences.filter changed) ++
      [Resource.connection w] ++ journalOf w (sequences.filter deleted))) <|
    goes_again fun r hr => by
      simp only [List.mem_append, List.mem_singleton] at hr
      rcases hr with hr | (hr | rfl) | hr
      · have hmem := mem_lockUpdateAckSubject update hr
        simp [hmem]
      · have hmem := journalOf_filter_subset w sequences changed hr
        simp [hmem]
      · simp [authority]
      · have hmem := journalOf_filter_subset w sequences deleted hr
        simp [hmem]
  simpa only [acknowledge, List.append_assoc] using hlast

/-! Reports -/

/-- The erasure of one attempt is about its own worker. -/
theorem mem_workers_reading {x : Attempt W} {r : Reading} {w : W}
    (h : w ∈ (r.erasure x).workers) : w = x.worker ∧ r.fences = true := by
  simp only [Erasure.workers, List.mem_insertionSort, List.mem_dedup, List.mem_append,
    List.mem_map, List.mem_filter, Reading.erasure] at h
  rcases h with ⟨row, ⟨⟨n, hn, rfl⟩, hpending⟩, rfl⟩ | ⟨y, hy, rfl⟩
  · refine ⟨rfl, ?_⟩
    simp only [Reading.fences, Bool.or_eq_true, List.any_eq_true]
    exact .inr ⟨n, hn, hpending⟩
  · cases hfound : r.found with
    | false => simp [hfound] at hy
    | true =>
      refine ⟨?_, by simp [Reading.fences, hfound]⟩
      have hyx : y = x := by simpa [hfound] using hy
      rw [hyx]

omit [LinearOrder W] in
theorem mem_attempts_reading {x y : Attempt W} {r : Reading}
    (h : y ∈ (r.erasure x).attempts) : y = x := by
  cases hfound : r.found with
  | false => simp [Reading.erasure, hfound] at h
  | true => simpa [Reading.erasure, hfound] using h

theorem mem_fence {x : Attempt W} {r : Reading} {y : Resource W R}
    (h : y ∈ (r.erasure x).fence region) :
    (∃ k ∈ r.sequences, y = .command x.worker k) ∨
      (r.fences = true ∧ (y = .lease (region x.worker) ∨ y = .connection x.worker)) := by
  rcases List.mem_append.1 h with h | h
  · rcases List.mem_append.1 h with h | h
    · rcases mem_journal.1 h with ⟨row, hrow, rfl⟩
      rcases List.mem_map.1 (List.mem_filter.1 hrow).1 with ⟨k, hk, rfl⟩
      exact .inl ⟨k, hk, rfl⟩
    · rcases List.mem_map.1 h with ⟨reg, hreg, rfl⟩
      rw [List.mem_insertionSort, List.mem_dedup] at hreg
      rcases List.mem_map.1 hreg with ⟨w, hw, rfl⟩
      rcases mem_workers_reading hw with ⟨rfl, hfences⟩
      exact .inr ⟨hfences, .inl rfl⟩
  · rcases List.mem_map.1 h with ⟨w, hw, rfl⟩
    rcases mem_workers_reading hw with ⟨rfl, hfences⟩
    exact .inr ⟨hfences, .inr rfl⟩

omit [LinearOrder R] in
theorem mem_journal_reading {x : Attempt W} {r : Reading} {y : Resource W R} :
    y ∈ journal (r.erasure x).rows ↔ ∃ k ∈ r.sequences, y = .command x.worker k := by
  rw [mem_journal]
  constructor
  · rintro ⟨row, hrow, rfl⟩
    rcases List.mem_map.1 hrow with ⟨k, hk, rfl⟩
    exact ⟨k, hk, rfl⟩
  · rintro ⟨k, hk, rfl⟩
    exact ⟨_, List.mem_map_of_mem hk, rfl⟩

omit [LinearOrder W] [LinearOrder R] in
theorem mem_reading_attempts {x : Attempt W} {r : Reading} {y : Resource W R}
    (h : y ∈ (r.erasure x).attempts.flatMap Attempt.rows ++
      lockAttemptRanges accounts (r.erasure x).attempts) :
    y = .subject x.subject ∨ shelter y = some (.subject x.subject) := by
  rcases List.mem_append.1 h with h | h
  · rcases List.mem_flatMap.1 h with ⟨z, hz, h⟩
    rw [mem_attempts_reading hz, Attempt.rows, List.mem_cons, List.mem_singleton] at h
    rcases h with rfl | rfl
    · exact .inl rfl
    · exact .inr rfl
  · rcases mem_lockAttemptRanges h with ⟨z, hz, hy⟩
    rw [mem_attempts_reading hz] at hy
    exact .inr hy

/-- Everything an erasure asks for is held, but for what its subject shelters. -/
theorem goes_reading_again {n : ℕ} {x : Attempt W} {r : Reading}
    (hsubject : Resource.subject x.subject ∈ held)
    (hrows : ∀ k ∈ r.sequences, Resource.command x.worker k ∈ held)
    (hlease : r.fences = true → Resource.lease (region x.worker) ∈ held)
    (hconnection : r.fences = true → Resource.connection x.worker ∈ held) :
    (order region).Goes n held ((r.erasure x).locks region accounts) n := by
  have hattempts : (order region).Goes n held ((r.erasure x).attempts.flatMap Attempt.rows ++
      lockAttemptRanges accounts (r.erasure x).attempts) n :=
    goes_under hsubject fun y => mem_reading_attempts
  have hjournal := hattempts.append (q := journal (r.erasure x).rows) <| goes_again fun y hy => by
    rcases mem_journal_reading.1 hy with ⟨k, hk, rfl⟩
    exact List.mem_append_left _ (hrows k hk)
  refine hjournal.append (goes_again fun y hy => List.mem_append_left _ ?_)
  rcases mem_fence hy with ⟨k, hk, rfl⟩ | ⟨hfences, rfl | rfl⟩
  · exact hrows k hk
  · exact hlease hfences
  · exact hconnection hfences

theorem report_first_goes {x : Attempt W} (completion : Completion)
    (hsubject : Resource.subject x.subject ∈ held) :
    (order region).Goes 3 held (completion.first x) 5 := by
  cases completion with
  | none => exact LockOrder.goes_nil.le (by omega)
  | complete sequences again => exact goes_journal (by omega) _
  | terminal first second =>
    exact (goes_under hsubject fun y => mem_reading_attempts).append (goes_journal (by omega) _)

/-- What a settled report asks for at the end is held, but for what its subject shelters. -/
theorem report_second_goes {n : ℕ} {x : Attempt W} {completion : Completion} {range : Uuid}
    (hsettled : (Transaction.commitWorkerReport x range (region x.worker) completion).Settled)
    (hsubject : Resource.subject x.subject ∈ held) (hfirst : completion.first x ⊆ held)
    (hauthority : authority region x.worker ⊆ held) :
    (order region).Goes n held (completion.second region x) n := by
  cases completion with
  | none => exact LockOrder.goes_nil
  | complete sequences again =>
    exact goes_again fun y hy => hfirst (journalOf_filter_subset x.worker sequences again hy)
  | terminal first second =>
    refine goes_reading_again hsubject (fun k hk => hfirst ?_) (fun _ => hauthority ?_)
      fun _ => hauthority ?_
    · exact List.mem_append_right _ (mem_journal_reading.2 ⟨k, hsettled k hk, rfl⟩)
    · exact List.mem_cons_self
    · exact List.mem_cons_of_mem _ List.mem_cons_self

theorem commitWorkerReport_goes {x : Attempt W} {range : Uuid} {reported : R}
    {completion : Completion}
    (hsettled : (Transaction.commitWorkerReport x range reported completion).Settled) :
    (order region).Goes 0 [] (commitWorkerReport region x range reported completion) 9 := by
  have hkey : (order region).Goes 0 [] [holdTheAccount x.subject.owner] 1 :=
    goes_key x.subject.owner
  have hsubject := hkey.append (goes_subject le_rfl x.subject)
  have hrange := hsubject.append
      (q := [Resource.attempt x.subject x.number, Resource.range x.subject range]) <|
    goes_under (x := x.subject) (by simp) fun r hr => by
      simp only [List.mem_cons, List.not_mem_nil, or_false] at hr
      rcases hr with rfl | rfl <;> exact .inr rfl
  have hfirst := hrange.append (report_first_goes (x := x) completion (by simp))
  have hlease := hfirst.append (goes_leases (by omega) [reported])
  by_cases hregion : reported = region x.worker
  · subst hregion
    have hconnection := hlease.append
      (goes_connection_of_lease (w := x.worker) (by omega) (by simp))
    have hstored := hconnection.append
        (q := [Resource.range x.subject range, Resource.attempt x.subject x.number] ++
        (if completion.ends x.subject then [Resource.subject x.subject] else []) ++
        [Resource.range x.subject range]) <|
      goes_under (x := x.subject) (by simp) fun r hr => by
        simp only [List.mem_append, List.mem_cons, List.not_mem_nil, or_false] at hr
        rcases hr with ((rfl | rfl) | hr) | rfl
        · exact .inr rfl
        · exact .inr rfl
        · split at hr
          · exact .inl (List.mem_singleton.1 hr)
          · cases hr
        · exact .inr rfl
    have hsecond := hstored.append (q := completion.second region x) <|
      report_second_goes hsettled (by simp) (fun r hr => by simp [hr]) fun r hr => by
        simp only [authority, List.mem_cons, List.not_mem_nil, or_false] at hr
        rcases hr with rfl | rfl <;> simp
    have hall := hsecond.le (by omega : 8 ≤ 9)
    simpa [commitWorkerReport] using hall
  · -- the lease of another region: the report is refused once its connection is read
    have hconnection : (order region).Goes 0 [] _ 9 :=
      hlease.append (goes_connection le_rfl x.worker)
    simpa [commitWorkerReport, hregion] using hconnection

/-! `close_worker` -/

/-- What the iterations of `close_worker` on `w` have locked so far: the subjects, rows of
the worker's journal, and, once one has fenced, the worker's lease and connection. -/
structure Closes (region : W → R) (w : W) (subjects : List Subject) (locked : List ℕ)
    (fenced : Bool) (held : List (Resource W R)) : Prop where
  holdsSubjects : ∀ x ∈ subjects, Resource.subject x ∈ held
  holdsRows : ∀ k ∈ locked, Resource.command w k ∈ held
  holdsAuthority : fenced = true → authority region w ⊆ held
  below : ∀ y ∈ held, shelter y = none → level y < 4 ∨ (∃ k ∈ locked, y = .command w k) ∨
    (fenced = true ∧ y ∈ authority region w)

variable {subjects : List Subject} {locked : List ℕ} {fenced : Bool} {x : Attempt W} {r : Reading}
  {p : List (Resource W R)}

/-- Every lock that can be waited for is below level nine. -/
theorem steady_nine : (order region).Steady 9 held := by
  intro y _ hy
  left
  cases y with
  | attempt => cases hy
  | range => cases hy
  | _ => simp [order, level]

theorem Closes.steady (h : Closes region w subjects locked false held) :
    (order region).Steady 5 held := by
  intro y hy hsy
  left
  rcases h.below y hy hsy with hlt | ⟨k, _, rfl⟩ | ⟨hfenced, _⟩
  · exact hlt.trans (Nat.lt_succ_self 4)
  · exact Nat.lt_succ_self 4
  · cases hfenced

omit [LinearOrder W] [LinearOrder R] in
/-- Locks that are held already, or that nobody waits for, change nothing. -/
theorem Closes.sheltered (h : Closes region w subjects locked fenced held)
    (hp : ∀ y ∈ p, y ∈ held ∨ shelter y ≠ none) :
    Closes region w subjects locked fenced (held ++ p) where
  holdsSubjects := fun x hx => List.mem_append_left _ (h.holdsSubjects x hx)
  holdsRows := fun k hk => List.mem_append_left _ (h.holdsRows k hk)
  holdsAuthority := fun hfenced _ hy => List.mem_append_left _ (h.holdsAuthority hfenced hy)
  below := by
    intro y hy hsy
    rcases List.mem_append.1 hy with hy | hy
    · exact h.below y hy hsy
    · rcases hp y hy with hmem | hshelter
      · exact h.below y hmem hsy
      · exact absurd hsy hshelter

/-- The journal's rows of an iteration, in the journal's order. -/
theorem Closes.journal_follows (h : Closes region x.worker subjects locked false held)
    (hrows : ∀ n ∈ r.sequences, n ∈ locked ∨ ∀ k ∈ locked, k < n) :
    (order region).FollowsFrom held (journal (r.erasure x).rows) := by
  refine LockOrder.followsFrom_of_ordered (ℓ := 4) ?_ (pairwise_journal _) ?_
  · intro y hy
    rcases mem_journal_reading.1 hy with ⟨k, _, rfl⟩
    exact ⟨rfl, rfl, rfl⟩
  · intro y hy hsy
    rcases h.below y hy hsy with hlt | ⟨k, hk, rfl⟩ | ⟨hfenced, _⟩
    · exact .inl hlt
    · refine .inr ⟨rfl, rfl, fun z hz => ?_⟩
      rcases mem_journal_reading.1 hz with ⟨n, hn, rfl⟩
      rcases hrows n hn with hn' | hlater
      · exact .inl (h.holdsRows n hn')
      · exact .inr (Prod.Lex.toLex_lt_toLex.2 (.inr ⟨rfl, hlater k hk⟩))
    · cases hfenced

omit [LinearOrder R] in
theorem Closes.rows (h : Closes region x.worker subjects locked fenced held) :
    Closes region x.worker subjects (locked ++ r.sequences) fenced
      (held ++ journal (r.erasure x).rows) where
  holdsSubjects := fun x hx => List.mem_append_left _ (h.holdsSubjects x hx)
  holdsRows := by
    intro k hk
    rcases List.mem_append.1 hk with hk | hk
    · exact List.mem_append_left _ (h.holdsRows k hk)
    · exact List.mem_append_right _ (mem_journal_reading.2 ⟨k, hk, rfl⟩)
  holdsAuthority := fun hfenced _ hy => List.mem_append_left _ (h.holdsAuthority hfenced hy)
  below := by
    intro y hy hsy
    rcases List.mem_append.1 hy with hy | hy
    · rcases h.below y hy hsy with hlt | ⟨k, hk, rfl⟩ | hauthority
      · exact .inl hlt
      · exact .inr (.inl ⟨k, List.mem_append_left _ hk, rfl⟩)
      · exact .inr (.inr hauthority)
    · rcases mem_journal_reading.1 hy with ⟨k, hk, rfl⟩
      exact .inr (.inl ⟨k, List.mem_append_right _ hk, rfl⟩)

theorem authority_subset_fence (h : r.fences = true) :
    authority region x.worker ⊆ (r.erasure x).fence region := by
  have hworker : x.worker ∈ (r.erasure x).workers := by
    simp only [Erasure.workers, List.mem_insertionSort, List.mem_dedup, List.mem_append]
    rcases Bool.or_eq_true_iff.1 h with hfound | hpending
    · right
      simp [Reading.erasure, hfound]
    · left
      rcases List.any_eq_true.1 hpending with ⟨k, hk, hpending⟩
      exact List.mem_map.2 ⟨(x.worker, k), List.mem_filter.2
        ⟨List.mem_map_of_mem hk, hpending⟩, rfl⟩
  have hregion : region x.worker ∈
      ((r.erasure x).workers.map region).dedup.insertionSort (· ≤ ·) := by
    rw [List.mem_insertionSort, List.mem_dedup]
    exact List.mem_map_of_mem hworker
  intro y hy
  simp only [authority, List.mem_cons, List.not_mem_nil, or_false] at hy
  rcases hy with rfl | rfl
  · exact List.mem_append_left _ (List.mem_append_right _ (List.mem_map_of_mem hregion))
  · exact List.mem_append_right _ (List.mem_map_of_mem hworker)

theorem Closes.fence (h : Closes region x.worker subjects locked fenced held)
    (hrows : ∀ k ∈ r.sequences, k ∈ locked) :
    Closes region x.worker subjects locked (fenced || r.fences)
      (held ++ (r.erasure x).fence region) where
  holdsSubjects := fun x hx => List.mem_append_left _ (h.holdsSubjects x hx)
  holdsRows := fun k hk => List.mem_append_left _ (h.holdsRows k hk)
  holdsAuthority := by
    intro hfenced y hy
    rcases Bool.or_eq_true_iff.1 hfenced with hfenced | hfences
    · exact List.mem_append_left _ (h.holdsAuthority hfenced hy)
    · exact List.mem_append_right _ (authority_subset_fence hfences hy)
  below := by
    intro y hy hsy
    rcases List.mem_append.1 hy with hy | hy
    · rcases h.below y hy hsy with hlt | hrow | ⟨hfenced, hauthority⟩
      · exact .inl hlt
      · exact .inr (.inl hrow)
      · exact .inr (.inr ⟨by simp [hfenced], hauthority⟩)
    · rcases mem_fence hy with ⟨k, hk, rfl⟩ | ⟨hfences, hauthority⟩
      · exact .inr (.inl ⟨k, hrows k hk, rfl⟩)
      · exact .inr (.inr ⟨by simp [hfences], by simpa [authority] using hauthority⟩)

/-- One iteration. -/
theorem Closes.step (accounts : List UserId) (h : Closes region x.worker subjects locked fenced held)
    (hsubject : x.subject ∈ subjects)
    (hrows : ∀ n ∈ r.sequences, n ∈ locked ∨ (fenced = false ∧ ∀ k ∈ locked, k < n)) :
    (order region).FollowsFrom held ((r.erasure x).locks region accounts) ∧
      Closes region x.worker subjects (locked ++ r.sequences) (fenced || r.fences)
        (held ++ (r.erasure x).locks region accounts) := by
  have hmem := h.holdsSubjects _ hsubject
  have hattempts := h.sheltered (p := (r.erasure x).attempts.flatMap Attempt.rows ++
      lockAttemptRanges accounts (r.erasure x).attempts) fun y hy => by
    rcases mem_reading_attempts hy with rfl | hshelter
    · exact .inl hmem
    · exact .inr (by simp [hshelter])
  have hjournal := hattempts.rows (r := r)
  have hfence := hjournal.fence fun k hk => List.mem_append_right _ hk
  refine ⟨?_, by simpa only [Erasure.locks, Erasure.selection, List.append_assoc] using hfence⟩
  cases fenced with
  | true =>
    -- the lease is held: nothing new may be waited for
    have hlocked : ∀ k ∈ r.sequences, Resource.command x.worker k ∈ held := by
      intro k hk
      rcases hrows k hk with hk | ⟨hfenced, _⟩
      · exact h.holdsRows k hk
      · cases hfenced
    have hauthority := h.holdsAuthority rfl
    have hgoes : (order region).Goes 9 held ((r.erasure x).locks region accounts) 9 :=
      goes_reading_again hmem hlocked (fun _ => hauthority List.mem_cons_self)
        fun _ => hauthority (List.mem_cons_of_mem _ List.mem_cons_self)
    exact (hgoes steady_nine).1
  | false =>
    have hrows' : ∀ n ∈ r.sequences, n ∈ locked ∨ ∀ k ∈ locked, k < n := fun n hn =>
      (hrows n hn).imp_right And.right
    have hsheltered : (order region).Goes 5 held ((r.erasure x).attempts.flatMap Attempt.rows ++
        lockAttemptRanges accounts (r.erasure x).attempts) 5 :=
      goes_under hmem fun y => mem_reading_attempts
    refine LockOrder.followsFrom_append.2 ⟨LockOrder.followsFrom_append.2
      ⟨(hsheltered h.steady).1, hattempts.journal_follows hrows'⟩, ?_⟩
    have hsteady := hjournal.steady
    rw [List.append_assoc] at hsteady
    refine (goes_fence (by omega) (fun row hrow => ?_) hsteady).1
    exact List.mem_append_right _ (List.mem_append_right _ (mem_journal.2 ⟨row, hrow, rfl⟩))

/-- All iterations. -/
theorem Closes.iterations {attempts : List Closing}
    (h : Closes region w subjects locked fenced held)
    (hsubjects : ∀ x ∈ attempts, x.subject ∈ subjects)
    (horderly : Orderly locked fenced (attempts.map Closing.reading)) :
    (order region).FollowsFrom held (attempts.flatMap fun x => x.locks region w) ∧
      ∃ locked' fenced', Closes region w subjects locked' fenced'
        (held ++ attempts.flatMap fun x => x.locks region w) := by
  induction attempts generalizing locked fenced held with
  | nil => exact ⟨trivial, locked, fenced, by simpa using h⟩
  | cons x attempts ih =>
    rcases horderly with ⟨hrows, hrest⟩
    have hstep := Closes.step [x.subject.owner] (x := x.attempt w) h
      (hsubjects x List.mem_cons_self) hrows
    rcases ih hstep.2 (fun y hy => hsubjects y (List.mem_cons_of_mem _ hy)) hrest with
      ⟨hfollows, locked', fenced', hend⟩
    rw [List.flatMap_cons]
    refine ⟨LockOrder.followsFrom_append.2 ⟨hstep.1, hfollows⟩, locked', fenced', ?_⟩
    simpa only [List.append_assoc, Closing.locks] using hend

/-- Once the keys of the owners are held, the subjects of `close_worker` are. -/
theorem Closes.start (region : W → R) (w : W) {owners : List UserId} {attempts : List Closing}
    (howners : ∀ x ∈ attempts, x.subject.owner ∈ owners) :
    (order region).FollowsFrom [] ((keysOf owners).map .account ++
        (attempts.map (·.attempt w)).flatMap Attempt.rows ++
        lockAttemptRanges owners (attempts.map (·.attempt w))) ∧
      Closes region w (attempts.map Closing.subject) [] false ((keysOf owners).map .account ++
        (attempts.map (·.attempt w)).flatMap Attempt.rows ++
        lockAttemptRanges owners (attempts.map (·.attempt w))) := by
  have hsubjects : ∀ x ∈ attempts.map Closing.subject,
      Resource.subject (R := R) x ∈ (attempts.map (·.attempt w)).flatMap Attempt.rows := by
    intro x hx
    rcases List.mem_map.1 hx with ⟨y, hy, rfl⟩
    exact List.mem_flatMap.2 ⟨_, List.mem_map_of_mem hy, List.mem_cons_self⟩
  have hkeys : ∀ x ∈ attempts.map (·.attempt w), holdTheAccount x.subject.owner ∈
      [] ++ (keysOf owners).map (Resource.account (W := W) (R := R)) := by
    intro x hx
    rcases List.mem_map.1 hx with ⟨y, hy, rfl⟩
    exact List.mem_map_of_mem (mem_keysOf (howners y hy))
  have howners : (order region).Goes 0 [] ((keysOf owners).map .account) 1 := goes_keys owners
  have hrows := howners.append ((goes_attempts_of_keys hkeys).from_le (by omega))
  have hheld : ∀ x ∈ attempts.map (·.attempt w), Resource.subject x.subject ∈
      [] ++ ((keysOf owners).map .account ++
        (attempts.map (·.attempt w)).flatMap (Attempt.rows (R := R))) := by
    intro x hx
    rcases List.mem_map.1 hx with ⟨y, hy, rfl⟩
    have hsubject := hsubjects y.subject (List.mem_map_of_mem hy)
    exact List.mem_append_right _ (List.mem_append_right _ hsubject)
  have hgoes : (order region).Goes 0 [] ((keysOf owners).map .account ++
      (attempts.map (·.attempt w)).flatMap Attempt.rows ++
      lockAttemptRanges owners (attempts.map (·.attempt w))) 2 := hrows.append (goes_ranges hheld)
  have hnone : (order region).Steady 0 [] := fun x hx => by cases hx
  rcases hgoes hnone with ⟨hfollows, hsteady⟩
  refine ⟨hfollows, ?_, (fun k hk => by cases hk), (fun hfenced => by cases hfenced),
    fun y hy hsy => ?_⟩
  · exact fun x hx => List.mem_append_left _ (List.mem_append_right _ (hsubjects x hx))
  · left
    rcases hsteady y hy hsy with hlt | ⟨heq, _⟩
    · exact hlt.trans (by omega)
    · exact heq.trans_lt (by omega)

theorem closeWorker_follows {owners : List UserId} {attempts : List Closing}
    {ended : List (Subject × ℕ)}
    (hsettled : (Transaction.closeWorker (R := R) w owners attempts ended).Settled) :
    (order region).Follows (closeWorker region w owners attempts ended) := by
  rcases hsettled with ⟨howners, horderly, hended⟩
  rcases Closes.start region w howners with ⟨hstart, hcloses⟩
  rcases hcloses.iterations (fun x hx => List.mem_map_of_mem hx) horderly with
    ⟨hiterations, locked, fenced, hclosed⟩
  have hconnection : ∀ {held : List (Resource W R)},
      Closes region w (attempts.map Closing.subject) locked fenced held →
      (order region).FollowsFrom held [.connection w] := by
    intro held h
    cases fenced with
    | true =>
      exact LockOrder.followsFrom_of_sheltered fun y hy => .inl (h.holdsAuthority rfl
        (List.mem_singleton.1 hy ▸ List.mem_cons_of_mem _ List.mem_cons_self))
    | false => exact (goes_connection (by omega) w h.steady).1
  have hlast : ∀ {held : List (Resource W R)}, (∀ x ∈ attempts, Resource.subject x.subject ∈ held) →
      (order region).FollowsFrom held
        ((ended.map fun x => .attempt x.1 x.2) ++ attempts.map fun x => .subject x.subject) := by
    intro held h
    refine LockOrder.followsFrom_of_sheltered fun y hy => ?_
    rcases List.mem_append.1 hy with hy | hy
    · rcases List.mem_map.1 hy with ⟨e, he, rfl⟩
      rcases hended e he with ⟨x, hx, heq⟩
      exact .inr ⟨_, h x hx, by rw [heq]; rfl⟩
    · rcases List.mem_map.1 hy with ⟨x, hx, rfl⟩
      exact .inl (h x hx)
  have hall := LockOrder.followsFrom_append.2 ⟨LockOrder.followsFrom_append.2
    ⟨LockOrder.followsFrom_append.2 ⟨hstart, hiterations⟩, hconnection hclosed⟩,
    hlast fun x hx => List.mem_append_right _ (List.mem_append_left _
      (hclosed.holdsSubjects _ (List.mem_map_of_mem hx)))⟩
  left
  simpa only [closeWorker, List.flatMap_map, List.append_assoc] using hall

end transactions

/-! ## No deadlock -/

theorem Transaction.follows {t : Transaction W R} (ht : t.Settled) :
    (order region).Follows (t.locks region) := by
  cases t with
  | commitCommand account prepared w sequences deleted =>
    exact commitCommand_follows account prepared w sequences deleted
  | registerDelivery account x attempt w sequences =>
    exact (registerDelivery_goes account x attempt w sequences).follows
  | acknowledge account update w sequences changed deleted =>
    exact (acknowledge_goes account update w sequences changed deleted).follows
  | commitWorkerReport x range reported completion =>
    exact (commitWorkerReport_goes ht).follows
  | endRealtimeSession x attempt e => exact (endRealtimeSession_goes x attempt e).follows
  | closeWorker w owners attempts ended => exact closeWorker_follows ht
  | eraseAccountCommands accounts e => exact (eraseAccountCommands_goes accounts e).follows
  | eraseRealtimeCommands account bindings e =>
    exact (eraseRealtimeCommands_goes account bindings e).follows
  | eraseSubjectCommands account x e => exact (eraseSubjectCommands_goes account x e).follows
  | acquireSchedulerLease r connections =>
    refine ((goes_lease r).append (goes_connections (n := 7) (by omega) fun w hw => ?_)).follows
    have hregion : region w = r := by simpa using (List.mem_filter.1 hw).2
    simp [hregion]
  | registerWorker r previous =>
    rcases previous with _ | w
    · exact (goes_lease r).follows
    · exact ((goes_lease r).append (goes_connection le_rfl w)).follows
  | updateWorkerModels lease w =>
    rcases lease with _ | r
    · exact ((goes_connection (n := 0) (by omega) w).append
        (goes_again (p := [Resource.connection w]) (by simp))).follows
    · exact ((goes_lease r).append ((goes_connection le_rfl w).append
        (goes_again (p := [Resource.connection w]) (by simp)))).follows
  | activateInitialWorker r w =>
    exact ((goes_lease r).append ((goes_connection le_rfl w).append
      (goes_again (p := [Resource.connection w]) (by simp)))).follows
  | renewWorkerGrant w => exact (goes_connection (n := 0) (by omega) w).follows

/-- In every run whose transactions find late only what they locked early, the waits-for
graph has no cycle. -/
theorem journal_transactions_never_deadlock {τ : Type*} [DecidableEq τ]
    {s : LockOrder.State τ (Resource W R)}
    (h : (LockOrder.machine (τ := τ) (Transaction.locks region)).Reach
      (LockOrder.Begins Transaction.Settled) s) : LockOrder.Acyclic s :=
  LockOrder.acyclic_of_follows (fun _ ht => Transaction.follows ht) h

/-! ## Runs -/

theorem sampleOwner_lt : 4 * 2 ^ 76 < 2 ^ 128 := by decide

theorem sampleOwner_version : 4 * 2 ^ 76 / 2 ^ 76 % 16 = 4 := by decide

def sampleOwner : UserId := ⟨⟨4 * 2 ^ 76, sampleOwner_lt⟩, sampleOwner_version⟩

def sampleOther : UserId := ⟨⟨2 ^ 96 + 4 * 2 ^ 76, by decide⟩, by decide⟩

def sampleJob : Attempt ℕ := ⟨⟨.job, 1, sampleOwner⟩, 1, 7, some 10⟩

def sampleSession : Subject := ⟨.session, 2, sampleOther⟩

/-- Another account's command is delivered to the worker of the job. -/
def sampleDelivery : Transaction ℕ ℕ :=
  .registerDelivery sampleOther sampleSession (1, some 11) 7 [5]

/-- Here the report finds the command at both readings. -/
def sampleSettled : List (LockOrder.Label ℕ (Transaction ℕ ℕ)) :=
  .start 0 (.commitWorkerReport sampleJob 10 0
      (.terminal ⟨true, [5], fun _ => false⟩ ⟨true, [5], fun _ => false⟩)) ::
    List.replicate 8 (.take 0) ++ .start 2 sampleDelivery :: List.replicate 4 (.take 2)

def sampleWaiting : LockOrder.State ℕ (Resource ℕ ℕ) :=
  ((LockOrder.machine (Transaction.locks fun _ => 0)).run LockOrder.idle sampleSettled).getD
    LockOrder.idle

theorem journal_transactions_never_deadlock_sample :
    LockOrder.Waits sampleWaiting 2 0 ∧ LockOrder.Acyclic sampleWaiting := by
  have hrun : (LockOrder.machine (Transaction.locks fun _ => 0)).run LockOrder.idle sampleSettled =
      some sampleWaiting := rfl
  have hbegins : ∀ t a, LockOrder.Label.start t a ∈ sampleSettled → a.Settled := by
    intro t a ha
    simp only [sampleSettled, List.mem_append, List.mem_cons, List.mem_replicate, reduceCtorEq,
      and_false, or_false, LockOrder.Label.start.injEq] at ha
    rcases ha with ⟨rfl, rfl⟩ | ⟨rfl, rfl⟩
    · exact fun n hn => hn
    · trivial
  have hpath := Machine.path_of_run hrun (LockOrder.runOk_begins hbegins LockOrder.idle)
  exact ⟨⟨.command 7 5, _, rfl, rfl, by decide⟩,
    journal_transactions_never_deadlock ((Machine.Reach.of_init rfl).path hpath)⟩

/-- A finished job that is not physically complete: under the lease the report reads the
journal again. -/
def sampleReport : Transaction ℕ ℕ :=
  .commitWorkerReport sampleJob 10 0
    (.terminal ⟨true, [], fun _ => false⟩ ⟨true, [5], fun _ => false⟩)

def sampleOpen : Transaction ℕ ℕ :=
  .commitCommand sampleOther (.openSession none) 7 [] fun _ => false

/-- The report has read an empty journal when the command is committed; it takes the lease
when the delivery has locked the command. -/
def sampleLabels : List (LockOrder.Label ℕ (Transaction ℕ ℕ)) :=
  .start 0 sampleReport :: List.replicate 7 (.take 0) ++
    .start 1 sampleOpen :: List.replicate 5 (.take 1) ++ [.finish 1] ++
    .start 2 sampleDelivery :: List.replicate 5 (.take 2) ++ List.replicate 8 (.take 0)

def sampleDeadlock : LockOrder.State ℕ (Resource ℕ ℕ) :=
  ((LockOrder.machine (Transaction.locks fun _ => 0)).run LockOrder.idle sampleLabels).getD
    LockOrder.idle

/-- The report waits for the command, the delivery for the lease. -/
theorem journal_transactions_deadlock :
    (LockOrder.machine (τ := ℕ) (Transaction.locks fun _ : ℕ => 0)).Reach Machine.anyStep
        sampleDeadlock ∧ ¬ LockOrder.Acyclic sampleDeadlock := by
  have hrun : (LockOrder.machine (Transaction.locks fun _ => 0)).run LockOrder.idle sampleLabels =
      some sampleDeadlock := rfl
  refine ⟨(Machine.Reach.of_init rfl).path (Machine.path_of_run_any hrun), fun hacyclic => ?_⟩
  have hreport : LockOrder.Waits sampleDeadlock 0 2 := ⟨.command 7 5, _, rfl, rfl, by decide⟩
  have hdelivery : LockOrder.Waits sampleDeadlock 2 0 := ⟨.lease 0, _, rfl, rfl, by decide⟩
  exact hacyclic 0 (.tail (.single hreport) hdelivery)

end Potocolom.Locks.Journal
