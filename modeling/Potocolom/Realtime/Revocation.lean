import Potocolom.Realtime.Closing

/-! # Revocation reaches every socket

A close call takes each session it found out of the dictionary, ends it and releases
it. A handshake registers its session before the database confirms its account session,
so at any time each revoked session of the call is still to be closed, or its re-check
will refuse it. -/

namespace Potocolom.Realtime

/-- The call is about the session, and what it is bound to had been revoked when the call
began: its account session, or, for a session that has none, the mode without
accounts. -/
def CloseCall.revokes (call : CloseCall) (row : Session) : Prop :=
  call.matches row ∧
    match row.authSessionId with
    | some auth => auth ∈ call.revoked
    | none => call.accounts = true

namespace World

section Definitions

variable (s : World)

/-- How far a close call has come: what it revokes is among the sessions it has still
to close, or is being re-checked. -/
structure CallOk (call : CloseCall) (pending : List Nat) : Prop where
  revoked : call.revoked ⊆ s.revoked
  accounts : call.accounts = true → s.noneMode = false
  left : ∀ x ∈ s.sessions, call.revokes (s.rows x) → x ∈ pending ∨ s.rechecking x

/-- What holds of the close calls in any interleaving. -/
structure CloseInv : Prop where
  socket : s.SocketInv
  frames : ∀ frame ∈ s.forwards, frame.1 < s.created
  running : ∀ t call pending rest, s.tasks t = .closing call pending rest →
    s.CallOk call pending
  ended : ∀ e ∈ s.calls, e.completed = true → s.CallOk e.call [] ∧
    ∀ frame ∈ s.forwards.drop e.forwarded, ¬ e.call.revokes (s.rows frame.1)
  counted : ∀ e ∈ s.calls, e.forwarded ≤ s.forwards.length

/-- Once a close call has ended, a session it revokes is on no worker, none of its
frames is forwarded any more, and it is in the dictionary only until its re-check,
which refuses it. -/
structure ReachesSockets : Prop where
  closed : ∀ e ∈ s.calls, e.completed = true → ∀ x, e.call.revokes (s.rows x) →
    (s.rows x).worker = none ∧ (∀ frame ∈ s.forwards.drop e.forwarded, frame.1 ≠ x) ∧
      (x ∈ s.sessions → ∃ t answer, s.tasks t = .checking x answer ∧ answer ≠ some true)
  rechecked : ∀ e ∈ s.calls, e.completed = true → ∀ t x, e.call.revokes (s.rows x) →
    s.tasks t = .checking x none → ∀ alive s', step s (.recheck t alive) = some s' →
      s'.tasks t = .checking x (some false)
  refused : ∀ t x, s.tasks t = .checking x (some false) → x ∈ s.sessions →
    ∃ s', step s (.recheckAnswered t) = some s' ∧ x ∉ s'.sessions ∧
      s'.handshakes = s.handshakes ++ [(x, .refused closeUnauthorized)]

/-- Once a close call has ended, no session it revokes is left anywhere. -/
structure ReachesSocketsAtOnce : Prop where
  closed : ∀ e ∈ s.calls, e.completed = true → ∀ x, e.call.revokes (s.rows x) →
    x ∉ s.sessions ∧ (s.rows x).worker = none ∧
      ∀ frame ∈ s.forwards.drop e.forwarded, frame.1 ≠ x

end Definitions

variable {s s' : World} {x t w : Nat} {call : CloseCall} {pending : List Nat}

theorem revokes_congr {row row' : Session} (huser : row'.userId = row.userId)
    (hauth : row'.authSessionId = row.authSessionId) : call.revokes row' ↔ call.revokes row := by
  unfold CloseCall.revokes CloseCall.matches
  rw [huser, hauth]

/-! ## Stretches -/

theorem Follows.revokes (h : s.Follows s') (x : Nat) :
    call.revokes (s'.rows x) ↔ call.revokes (s.rows x) :=
  revokes_congr (h.userId x) (h.authSessionId x)

theorem Follows.callOk (h : s.Follows s') (hc : s.CallOk call pending) :
    s'.CallOk call pending where
  revoked := List.Subset.trans hc.revoked h.revoked
  accounts := by
    intro hon
    have hoff := hc.accounts hon
    by_contra hmode
    rw [h.noneMode (by simpa using hmode)] at hoff
    cases hoff
  left := by
    intro x hx hr
    rw [h.revokes] at hr
    rcases hc.left x (h.sessions x hx) hr with hmem | hcheck
    · exact .inl hmem
    · exact .inr (h.rechecking x hx hcheck)

/-- A stretch between two awaits leaves every close call where it is. -/
theorem CloseInv.goes (h : s.CloseInv) (hg : s.Goes s') : s'.CloseInv := by
  rcases hg.follows.forwards with ⟨sent, hsent, hall⟩
  refine ⟨hg.inv, ?_, ?_, ?_, ?_⟩
  · intro frame hframe
    rw [hg.follows.created]
    rw [hsent] at hframe
    rcases List.mem_append.mp hframe with hold | hnew
    · exact h.frames frame hold
    · exact h.socket.listed _ (hall frame hnew).1
  · intro t call pending rest ht
    exact hg.follows.callOk (h.running t call pending rest (hg.follows.closing t call pending rest ht))
  · intro e he hcompleted
    rw [hg.follows.calls] at he
    have hend := h.ended e he hcompleted
    refine ⟨hg.follows.callOk hend.1, ?_⟩
    intro frame hframe hr
    rw [hg.follows.revokes] at hr
    rw [hsent, List.drop_append_of_le_length (h.counted e he)] at hframe
    rcases List.mem_append.mp hframe with hold | hnew
    · exact hend.2 frame hold hr
    · rcases hend.1.left _ (hall frame hnew).1 hr with hmem | hcheck
      · cases hmem
      · exact (hall frame hnew).2 hcheck
  · intro e he
    rw [hg.follows.calls] at he
    have hle := h.counted e he
    rw [hsent, List.length_append]
    omega

/-! ## Close calls -/

theorem callOk_put {task : Task} (ht : s.Runs t) (hc : s.CallOk call pending) :
    (s.put t task).CallOk call pending where
  revoked := hc.revoked
  accounts := hc.accounts
  left := by
    intro x hx hr
    rcases hc.left x hx hr with hmem | hcheck
    · exact .inl hmem
    · exact .inr (rechecking_put ht task hcheck)

/-- The call awaits the release of one of its sessions. -/
theorem CloseInv.put_closing {rest : List (Nat × Nat)} (h : s.CloseInv) (ht : s.Runs t)
    (hc : s.CallOk call pending) : (s.put t (.closing call pending rest)).CloseInv := by
  refine ⟨h.socket.put ht.1 (by simp) fun _ hx => hx.elim, h.frames, ?_, ?_, h.counted⟩
  · intro u call' pending' rest' hu
    rcases eq_or_ne u t with rfl | hne
    · rw [put_tasks_self] at hu
      cases hu
      exact callOk_put ht hc
    · rw [put_tasks_of_ne _ hne] at hu
      exact callOk_put ht (h.running u call' pending' rest' hu)
  · intro e he hcompleted
    exact ⟨callOk_put ht (h.ended e he hcompleted).1, (h.ended e he hcompleted).2⟩

/-- The call has ended. -/
theorem CloseInv.log (completed : Bool) (h : s.CloseInv)
    (hc : completed = true → s.CallOk call []) :
    ({ s with calls := s.calls ++ [⟨call, s.forwards.length, completed⟩] } : World).CloseInv := by
  have hkeep : ∀ {other pending}, s.CallOk other pending →
      ({ s with calls := s.calls ++ [⟨call, s.forwards.length, completed⟩] } : World).CallOk
        other pending := fun hc => ⟨hc.revoked, hc.accounts, hc.left⟩
  refine ⟨⟨h.socket.hidden, h.socket.checked, h.socket.listed, h.socket.unborn, h.socket.owners,
    h.socket.ended⟩, h.frames, fun t call pending rest ht => hkeep (h.running t call pending rest ht),
    ?_, ?_⟩
  · intro e he hcompleted
    rcases List.mem_append.mp he with hold | hnew
    · exact ⟨hkeep (h.ended e hold hcompleted).1, (h.ended e hold hcompleted).2⟩
    · obtain rfl := List.mem_singleton.mp hnew
      refine ⟨hkeep (hc hcompleted), ?_⟩
      intro frame hframe
      simp at hframe
  · intro e he
    rcases List.mem_append.mp he with hold | hnew
    · exact h.counted e hold
    · obtain rfl := List.mem_singleton.mp hnew
      exact Nat.le_refl _

theorem closeNext_inv {rest : List (Nat × Nat)} (h : s.CloseInv) (ht : s.Runs t)
    (hc : s.CallOk call pending) : (closeNext t call rest s pending).CloseInv := by
  induction pending generalizing s with
  | nil =>
    unfold closeNext
    have hlog := h.log true fun _ => hc
    apply hlog.goes
    apply put_goes _ hlog.socket ht
    · split <;> simp
    · split <;> simp
    · intro x hx
      split at hx <;> exact hx.elim
  | cons x pending ih =>
    have hrelease := popRelease_goes (x := x) h.socket
    have hinv := h.goes hrelease.1
    have hrun := hrelease.1.follows.runs ht
    have hleft : ((s.pop x).release x).1.CallOk call pending := by
      have hnext := hrelease.1.follows.callOk hc
      refine ⟨hnext.revoked, hnext.accounts, ?_⟩
      intro y hy hr
      rcases hnext.left y hy hr with hmem | hcheck
      · rcases List.mem_cons.mp hmem with rfl | hmem
        · exact absurd hy hrelease.2
        · exact .inl hmem
      · exact .inr hcheck
    unfold closeNext
    dsimp only
    split
    · exact hinv.put_closing hrun hleft
    · exact ih hinv hrun hleft

/-- A call looks at the dictionary once, when it begins. -/
theorem beginClose_inv {rest : List (Nat × Nat)} (h : s.CloseInv) (ht : s.Runs t) :
    (s.beginClose t call rest).CloseInv := by
  unfold beginClose
  apply closeNext_inv h ht
  refine ⟨List.Subset.refl _, ?_, ?_⟩
  · intro hon
    simpa using hon
  · intro x hx hr
    have hmatches : call.matches (s.rows x) := hr.1
    exact .inl (List.mem_filter.mpr ⟨hx, by simpa using hmatches⟩)

/-! ## Handshakes -/

/-- A step that registers one session at most: a new one that will be re-checked, or one
of the mode without accounts. -/
theorem CloseInv.register (h : s.CloseInv) (hs : s'.SocketInv)
    (hrows : ∀ y, y < s.created → s'.rows y = s.rows y) (hcreated : s.created ≤ s'.created)
    (hrevoked : s'.revoked = s.revoked) (hmode : s'.noneMode = s.noneMode)
    (hcalls : s'.calls = s.calls) (hforwards : s'.forwards = s.forwards)
    (hclosing : ∀ t call pending rest, s'.tasks t = .closing call pending rest →
      s.tasks t = .closing call pending rest)
    (hnew : ∀ y ∈ s'.sessions, y ∈ s.sessions ∧ (s.rechecking y → s'.rechecking y) ∨
      s'.rechecking y ∨ ((s'.rows y).authSessionId = none ∧ s.noneMode = true)) :
    s'.CloseInv := by
  have hkeep : ∀ {call pending}, s.CallOk call pending → s'.CallOk call pending := by
    intro call pending hc
    refine ⟨by rw [hrevoked]; exact hc.revoked, by rw [hmode]; exact hc.accounts, ?_⟩
    intro y hy hr
    rcases hnew y hy with ⟨hold, hcheck⟩ | hcheck | ⟨hnone, hon⟩
    · rw [hrows y (h.socket.listed y hold)] at hr
      rcases hc.left y hold hr with hmem | hr
      · exact .inl hmem
      · exact .inr (hcheck hr)
    · exact .inr hcheck
    · -- a call that revokes it began with accounts on
      have hrevokes := hr.2
      rw [hnone] at hrevokes
      rw [hc.accounts hrevokes] at hon
      cases hon
  refine ⟨hs, ?_, fun t call pending rest ht => hkeep (h.running t call pending rest
    (hclosing t call pending rest ht)), ?_, ?_⟩
  · rw [hforwards]
    exact fun frame hframe => lt_of_lt_of_le (h.frames frame hframe) hcreated
  · rw [hcalls, hforwards]
    intro e he hcompleted
    refine ⟨hkeep (h.ended e he hcompleted).1, ?_⟩
    intro frame hframe
    rw [hrows _ (h.frames frame (List.mem_of_mem_drop hframe))]
    exact (h.ended e he hcompleted).2 frame hframe
  · rw [hcalls, hforwards]
    exact h.counted

/-- The session of a handshake, registered. -/
theorem register_socket (modelId : String) (user auth : Option Nat) (h : s.SocketInv) :
    ({ s.setRow s.created (fun _ => Session.new modelId user auth s.now) with
      created := s.created + 1, sessions := s.sessions ++ [s.created] } : World).SocketInv := by
  have hrows : ∀ y, y ≠ s.created → (s.setRow s.created
      (fun _ => Session.new modelId user auth s.now)).rows y = s.rows y := fun y hne =>
    setRow_rows_of_ne _ hne
  have hself : (s.setRow s.created (fun _ => Session.new modelId user auth s.now)).rows s.created =
      Session.new modelId user auth s.now := setRow_rows_self _
  refine ⟨?_, ?_, ?_, ?_, ?_, h.ended⟩
  · intro y hy
    have hne : y ≠ s.created := by
      rintro rfl
      exact hy (by simp)
    show ((s.setRow s.created (fun _ => Session.new modelId user auth s.now)).rows y).worker = none
    rw [hrows y hne]
    exact h.hidden y fun hmem => hy (List.mem_append_left _ hmem)
  · intro t y answer ht
    have hlt : y < s.created := h.owners t y (by
      have hchecking : s.tasks t = .checking y answer := ht
      rw [hchecking]
      rfl)
    have hne : y ≠ s.created := Nat.ne_of_lt hlt
    show ((s.setRow s.created (fun _ => Session.new modelId user auth s.now)).rows y).worker = none ∧
      (((s.setRow s.created (fun _ => Session.new modelId user auth s.now)).rows y).state =
        .assigning ∨
      ((s.setRow s.created (fun _ => Session.new modelId user auth s.now)).rows y).state =
        .ended) ∧ _
    rw [hrows y hne]
    exact h.checked t y answer ht
  · intro y hy
    show y < s.created + 1
    rcases List.mem_append.mp hy with hold | hnew
    · exact Nat.lt_succ_of_lt (h.listed y hold)
    · obtain rfl := List.mem_singleton.mp hnew
      exact Nat.lt_succ_self _
  · intro y hy
    have hlt : s.created < y := hy
    show ((s.setRow s.created (fun _ => Session.new modelId user auth s.now)).rows y).state = .ended
    rw [hrows y (by omega)]
    exact h.unborn y (Nat.le_of_lt hlt)
  · intro t y ht
    exact Nat.lt_succ_of_lt (h.owners t y ht)

/-- A re-check that was answered by no takes its session out of the dictionary. -/
theorem turnAway_goes (h : s.SocketInv) (ht : s.tasks t = .checking x (some false)) :
    s.Goes ((s.put t .done).turnAway x) := by
  have hcheck := h.checked t x (some false) ht
  have hlt : t < s.spawned := by
    by_contra hge
    rw [h.ended t (Nat.not_lt.mp hge)] at ht
    cases ht
  have hput : (s.put t .done).SocketInv := h.put hlt (by simp) fun _ hx => hx.elim
  have hothers : ∀ y, y ≠ x → s.rechecking y → (s.put t .done).rechecking y := by
    rintro y hne ⟨u, answer, hu, hanswer⟩
    refine ⟨u, answer, ?_, hanswer⟩
    rw [put_tasks_of_ne]
    · exact hu
    · rintro rfl
      rw [ht] at hu
      cases hu
      exact hne rfl
  have hstop : ∀ s' : World, s'.SocketInv → s'.rows = s.rows → s'.created = s.created →
      s'.spawned = s.spawned → s'.revoked = s.revoked → s'.noneMode = s.noneMode →
      s'.calls = s.calls → s'.forwards = s.forwards → s'.tasks = (s.put t .done).tasks →
      (∀ y ∈ s'.sessions, y ∈ s.sessions ∧ y ≠ x) → s.Goes s' := by
    intro s' hinv hrows hcreated hspawned hrevoked hmode hcalls hforwards htasks hsessions
    refine ⟨hinv, ⟨fun y hy => (hsessions y hy).1, fun y => by rw [hrows], fun y => by rw [hrows],
      hcreated, by rw [hspawned], by rw [hrevoked]; exact List.Subset.refl _,
      by rw [hmode]; exact id, hcalls, ?_, ?_, ?_, ⟨[], by simp [hforwards], by simp⟩⟩⟩
    · intro u y answer hu
      rw [htasks] at hu
      exact checking_of_put (by simp) hu
    · intro y hy hr
      rcases hothers y (hsessions y hy).2 hr with ⟨u, answer, hu, hanswer⟩
      exact ⟨u, answer, by rw [htasks]; exact hu, hanswer⟩
    · intro u call pending rest hu
      rw [htasks] at hu
      rcases eq_or_ne u t with rfl | hne
      · rw [put_tasks_self] at hu
        cases hu
      · rw [put_tasks_of_ne _ hne] at hu
        exact hu
  unfold turnAway
  split
  · have hgone := (unregister_goes (s := s.put t .done) (x := x) hput hcheck.1).inv
    have hleft : s.Goes ((s.put t .done).unregister x) := by
      apply hstop _ hgone rfl rfl rfl rfl rfl rfl rfl rfl
      intro y hy
      have hmem := List.mem_filter.mp hy
      exact ⟨hmem.1, by simpa using hmem.2⟩
    exact hleft.trans (aside_goes hgone rfl rfl rfl rfl rfl (List.Subset.refl _) id rfl rfl)
  · rename_i hnot
    have hleft : s.Goes (s.put t .done) := by
      apply hstop _ hput rfl rfl rfl rfl rfl rfl rfl rfl
      intro y hy
      refine ⟨hy, ?_⟩
      rintro rfl
      exact hnot hy
    exact hleft.trans (aside_goes hput rfl rfl rfl rfl rfl (List.Subset.refl _) id rfl rfl)

theorem serve_goes (h : s.SocketInv) (ht : s.Runs t) (hu : s.unchecked x)
    (hborn : x < s.created) : s.Goes (s.serve t x) :=
  goOn_goes (place_goes h hu) ht hu hborn

theorem openSession_inv {modelId : String} {user auth : Option Nat} (h : s.CloseInv)
    (ht : s.Runs t) : (s.openSession t user auth modelId).CloseInv := by
  have hreg := register_socket modelId user auth h.socket
  have hself : (s.setRow s.created (fun _ => Session.new modelId user auth s.now)).rows s.created =
      Session.new modelId user auth s.now := setRow_rows_self _
  have hrows : ∀ y, y < s.created → (s.setRow s.created
      (fun _ => Session.new modelId user auth s.now)).rows y = s.rows y := fun y hlt =>
    setRow_rows_of_ne _ (Nat.ne_of_lt hlt)
  have hunchecked : s.unchecked s.created := by
    intro u answer hu
    exact Nat.lt_irrefl _ (h.socket.owners u s.created (by rw [hu]; rfl))
  have hmem : ∀ y ∈ s.sessions ++ [s.created], y ∈ s.sessions ∨ y = s.created := by
    intro y hy
    simpa using hy
  unfold openSession
  split
  case isFalse => exact h
  case isTrue =>
    dsimp only
    split
    · -- the re-check begins
      rename_i auth'
      refine h.register ?_ hrows (Nat.le_succ _) rfl rfl rfl rfl ?_ ?_
      · refine ⟨hreg.hidden, ?_, hreg.listed, hreg.unborn, ?_, ?_⟩
        · intro u y answer hu
          rcases eq_or_ne u t with rfl | hne
          · rw [put_tasks_self] at hu
            cases hu
            refine ⟨?_, ?_, ?_⟩
            · show ((s.setRow s.created (fun _ => Session.new modelId user (some auth') s.now)).rows
                s.created).worker = none
              rw [hself]
              rfl
            · show ((s.setRow s.created (fun _ => Session.new modelId user (some auth') s.now)).rows
                s.created).state = .assigning ∨ _
              rw [hself]
              exact .inl rfl
            · intro v hv
              by_contra hne
              rw [put_tasks_of_ne _ hne] at hv
              exact Nat.lt_irrefl _ (h.socket.owners v s.created hv)
          · rw [put_tasks_of_ne _ hne] at hu
            have hcheck := hreg.checked u y answer hu
            refine ⟨hcheck.1, hcheck.2.1, ?_⟩
            intro v hv
            rcases eq_or_ne v t with rfl | hnev
            · rw [put_tasks_self] at hv
              obtain rfl : s.created = y := hv
              exact absurd hu (hunchecked u answer)
            · rw [put_tasks_of_ne _ hnev] at hv
              exact hcheck.2.2 v hv
        · intro u y hu
          rcases eq_or_ne u t with rfl | hne
          · rw [put_tasks_self] at hu
            obtain rfl : s.created = y := hu
            exact Nat.lt_succ_self _
          · rw [put_tasks_of_ne _ hne] at hu
            exact hreg.owners u y hu
        · intro u hu
          have hlt : t < u := lt_of_lt_of_le ht.1 hu
          rw [put_tasks_of_ne _ (by omega)]
          exact h.socket.ended u hu
      · intro u call pending rest hu
        rcases eq_or_ne u t with rfl | hne
        · rw [put_tasks_self] at hu
          cases hu
        · rw [put_tasks_of_ne _ hne] at hu
          exact hu
      · intro y hy
        rcases hmem y hy with hold | rfl
        · refine .inl ⟨hold, ?_⟩
          rintro ⟨u, answer, hu, hanswer⟩
          exact ⟨u, answer, checking_put (s := { s.setRow s.created
            (fun _ => Session.new modelId user (some auth') s.now) with
              created := s.created + 1, sessions := s.sessions ++ [s.created] })
            ht hanswer hu _, hanswer⟩
        · exact .inr (.inl ⟨t, none, put_tasks_self _, by simp⟩)
    · split
      · -- the mode without accounts asks nobody
        rename_i hmode
        have hinv : ({ s.setRow s.created (fun _ => Session.new modelId user none s.now) with
            created := s.created + 1, sessions := s.sessions ++ [s.created] } : World).CloseInv := by
          refine h.register hreg hrows (Nat.le_succ _) rfl rfl rfl rfl (fun _ _ _ _ hu => hu) ?_
          intro y hy
          rcases hmem y hy with hold | rfl
          · exact .inl ⟨hold, id⟩
          · refine .inr (.inr ⟨?_, hmode⟩)
            show ((s.setRow s.created (fun _ => Session.new modelId user none s.now)).rows
              s.created).authSessionId = none
            rw [hself]
            rfl
        exact hinv.goes (serve_goes hinv.socket ht hunchecked (Nat.lt_succ_self _))
      · -- registered and turned away at once
        have hlive : ({ s.setRow s.created (fun _ => Session.new modelId user none s.now) with
            created := s.created + 1, sessions := s.sessions ++ [s.created] } : World).isLive
              s.created := by
          simp [isLive]
        have hnone : ((s.setRow s.created (fun _ => Session.new modelId user none s.now)).rows
            s.created).worker = none := by
          rw [hself]
          rfl
        have hgone := (unregister_goes (x := s.created) hreg hnone).inv
        unfold turnAway
        rw [if_pos hlive]
        refine h.register ⟨hgone.hidden, hgone.checked, hgone.listed, hgone.unborn, hgone.owners,
          hgone.ended⟩ hrows (Nat.le_succ _) rfl rfl rfl rfl (fun _ _ _ _ hu => hu) ?_
        intro y hy
        have hy' := List.mem_filter.mp hy
        rcases hmem y hy'.1 with hold | rfl
        · exact .inl ⟨hold, id⟩
        · simp at hy'

/-- The database's answer: a session that an earlier call revokes is not alive. -/
theorem recheck_inv {auth : Nat} {alive : Bool} (h : s.CloseInv)
    (ht : s.tasks t = .checking x none) (hauth : (s.rows x).authSessionId = some auth) :
    (s.put t (.checking x (some (alive && decide (auth ∉ s.revoked))))).CloseInv := by
  have hcheck := h.socket.checked t x none ht
  have hlt : t < s.spawned := by
    by_contra hge
    rw [h.socket.ended t (Nat.not_lt.mp hge)] at ht
    cases ht
  have howns : ∀ u y, ((s.put t (.checking x (some (alive && decide (auth ∉ s.revoked))))).tasks
      u).owns y → (s.tasks u).owns y := by
    intro u y hu
    rcases eq_or_ne u t with rfl | hne
    · rw [put_tasks_self] at hu
      rw [ht]
      exact hu
    · rw [put_tasks_of_ne _ hne] at hu
      exact hu
  have hkeep : ∀ {call pending}, s.CallOk call pending →
      (s.put t (.checking x (some (alive && decide (auth ∉ s.revoked))))).CallOk call pending := by
    intro call pending hc
    refine ⟨hc.revoked, hc.accounts, ?_⟩
    intro y hy hr
    rcases hc.left y hy hr with hmem | ⟨u, answer, hu, hanswer⟩
    · exact .inl hmem
    refine .inr ?_
    rcases eq_or_ne u t with rfl | hne
    · rw [ht] at hu
      cases hu
      refine ⟨u, _, put_tasks_self _, ?_⟩
      have hrevoked : auth ∈ s.revoked := by
        have hcall := hr.2
        have hrow : ((s.put u (.checking x (some (alive && decide (auth ∉ s.revoked))))).rows
          x).authSessionId = some auth := hauth
        rw [hrow] at hcall
        exact hc.revoked hcall
      simp [hrevoked]
    · exact ⟨u, answer, by rw [put_tasks_of_ne _ hne]; exact hu, hanswer⟩
  refine ⟨⟨h.socket.hidden, ?_, h.socket.listed, h.socket.unborn, ?_, ?_⟩, h.frames, ?_, ?_,
    h.counted⟩
  · intro u y answer hu
    rcases eq_or_ne u t with rfl | hne
    · rw [put_tasks_self] at hu
      cases hu
      exact ⟨hcheck.1, hcheck.2.1, fun v hv => hcheck.2.2 v (howns v _ hv)⟩
    · rw [put_tasks_of_ne _ hne] at hu
      have hother := h.socket.checked u y answer hu
      exact ⟨hother.1, hother.2.1, fun v hv => hother.2.2 v (howns v _ hv)⟩
  · exact fun u y hu => h.socket.owners u y (howns u y hu)
  · intro u hu
    have hlt' : t < u := lt_of_lt_of_le hlt hu
    rw [put_tasks_of_ne _ (by omega)]
    exact h.socket.ended u hu
  · intro u call pending rest hu
    rcases eq_or_ne u t with rfl | hne
    · rw [put_tasks_self] at hu
      cases hu
    · rw [put_tasks_of_ne _ hne] at hu
      exact hkeep (h.running u call pending rest hu)
  · intro e he hcompleted
    exact ⟨hkeep (h.ended e he hcompleted).1, (h.ended e he hcompleted).2⟩

/-! ## Every step -/

/-- A task at an await that is no re-check may go on. -/
theorem SocketInv.runs {task : Task} (h : s.SocketInv) (ht : s.tasks t = task)
    (hne : task ≠ .done) (hchecking : ∀ x answer, task = .checking x answer → answer = some true) :
    s.Runs t := by
  constructor
  · by_contra hge
    rw [h.ended t (Nat.not_lt.mp hge)] at ht
    exact hne ht.symm
  · intro x answer hc
    rw [ht] at hc
    exact hchecking x answer hc

/-- A task that places its session runs, and no re-check of the session is left. -/
theorem SocketInv.stop {task : Task} (h : s.SocketInv) (ht : s.tasks t = task)
    (hx : task.owns x) (hchecking : ∀ x answer, task = .checking x answer → answer = some true) :
    s.Goes (s.put t .done) ∧ (s.put t .done).Runs t ∧ (s.put t .done).unchecked x ∧
      x < s.created := by
  have hrun := h.runs ht (by rintro rfl; exact hx) hchecking
  have howns : (s.tasks t).owns x := by rwa [ht]
  have hgoes := stop_goes h hrun
  refine ⟨hgoes, hgoes.follows.runs hrun, ?_, h.owners t x howns⟩
  intro u answer hu
  have hold := checking_of_put (by simp) hu
  obtain rfl := (h.checked u x answer hold).2.2 t howns
  rw [put_tasks_self] at hu
  cases hu

theorem hello_goes {worker : Worker} (h : s.SocketInv) :
    s.Goes { s.setWorker s.attached (fun _ =>
        { worker with slotsInUse := 0, inbox := [], connected := true }) with
      attached := s.attached + 1, registered := s.registered ++ [s.attached] } :=
  aside_goes h rfl rfl rfl rfl rfl (List.Subset.refl _) id rfl rfl

theorem setWorker_goes {f : Worker → Worker} (h : s.SocketInv) : s.Goes (s.setWorker w f) :=
  aside_goes h rfl rfl rfl rfl rfl (List.Subset.refl _) id rfl rfl

theorem fleetReads_goes {m : Message} {inbox : List Message} (h : s.SocketInv) :
    s.Goes (World.receive
      (match m.answer with
        | .sessionReady =>
          { s.setWorker w ({ · with inbox := inbox }) with
            readies := s.readies ++ [(⟨w, m.session, m.generation, s.opens.length⟩ : Ready)] }
        | .sessionRefused => s.setWorker w ({ · with inbox := inbox })) w m) := by
  have hread : s.Goes (s.setWorker w ({ · with inbox := inbox })) := setWorker_goes h
  cases m.answer with
  | sessionReady =>
    have hlogged : s.Goes { s.setWorker w ({ · with inbox := inbox }) with
        readies := s.readies ++ [(⟨w, m.session, m.generation, s.opens.length⟩ : Ready)] } :=
      aside_goes h rfl rfl rfl rfl rfl (List.Subset.refl _) id rfl rfl
    exact hlogged.trans (receive_goes hlogged.inv)
  | sessionRefused => exact hread.trans (receive_goes hread.inv)

theorem heartbeat_goes {measured : List (String × Nat)} (h : s.SocketInv) :
    s.Goes (if (raiseCosts (s.workers w) measured).2 then
      ((s.setWorker w fun _ => (raiseCosts (s.workers w) measured).1).overCapacitySessions w).foldl
        scheduleReassign (s.setWorker w fun _ => (raiseCosts (s.workers w) measured).1)
      else s.setWorker w fun _ => (raiseCosts (s.workers w) measured).1) := by
  have hcosts : s.Goes (s.setWorker w fun _ => (raiseCosts (s.workers w) measured).1) :=
    setWorker_goes h
  split
  · exact hcosts.trans (foldl_goes (fun _ _ => scheduleReassign_goes) hcosts.inv)
  · exact hcosts

theorem finalize_goes (h : s.SocketInv) :
    s.Goes ((((s.setWorker w ({ · with connected := false })).forgetWorker w).orphaned w).foldl
      orphan ((s.setWorker w ({ · with connected := false })).forgetWorker w)) := by
  have hlost : s.Goes ((s.setWorker w ({ · with connected := false })).forgetWorker w) :=
    aside_goes h rfl rfl rfl rfl rfl (List.Subset.refl _) id rfl rfl
  exact hlost.trans (foldl_goes (fun _ _ => orphan_goes) hlost.inv)

theorem releaseIdle_goes (h : s.SocketInv) (hlive : (s.rows x).state = .live) :
    s.Goes (((s.spawn .done).transition! x [.live] .idle).releaseLast s.spawned x) := by
  have hspawn : s.Goes (s.spawn .done) :=
    spawn_goes .done h (by simp) (by simp) fun _ hy => hy.elim
  have hstate : ((s.spawn .done).rows x).state = .live := hlive
  have hidle : (s.spawn .done).Goes ((s.spawn .done).transition! x [.live] .idle) := by
    unfold transition!
    cases hs : (s.spawn .done).transition x [.live] .idle with
    | none => exact Goes.refl hspawn.inv
    | some s' =>
      refine transition_goes hspawn.inv hs (.inr (.inr ?_))
      exact hspawn.inv.unchecked_of_state (by simp [hstate]) (by simp [hstate])
  have hrun : (s.spawn .done).Runs s.spawned := by
    refine ⟨Nat.lt_succ_self _, ?_⟩
    intro y answer hy
    have hdone : (s.spawn .done).tasks s.spawned = .done := put_tasks_self _
    rw [hdone] at hy
    cases hy
  have hgo := hspawn.trans hidle
  exact hgo.trans (releaseLast_goes hgo.inv (hidle.follows.runs hrun))

/-- Every step of every interleaving keeps the close calls. -/
theorem step_closeInv {a : Action} (h : s.CloseInv) (hstep : step s a = some s') :
    s'.CloseInv := by
  have hso := h.socket
  have hspawned : (s.spawn .done).CloseInv ∧ (s.spawn .done).Runs s.spawned := by
    refine ⟨h.goes (spawn_goes .done hso (by simp) (by simp) fun _ hy => hy.elim),
      Nat.lt_succ_self _, ?_⟩
    intro y answer hy
    have hdone : (s.spawn .done).tasks s.spawned = .done := put_tasks_self _
    rw [hdone] at hy
    cases hy
  cases a with
  | tick =>
    obtain rfl := Option.some.inj hstep
    exact h.goes (aside_goes hso rfl rfl rfl rfl rfl (List.Subset.refl _) id rfl rfl)
  | hello worker =>
    simp only [step] at hstep
    split at hstep
    · cases hstep
    · obtain rfl := Option.some.inj hstep
      exact h.goes (hello_goes hso)
  | prune w =>
    obtain rfl := Option.some.inj hstep
    exact h.goes (aside_goes hso rfl rfl rfl rfl rfl (List.Subset.refl _) id rfl rfl)
  | workerSends w m =>
    obtain rfl := Option.some.inj hstep
    exact h.goes (setWorker_goes hso)
  | fleetReads w =>
    simp only [step] at hstep
    split at hstep
    · obtain rfl := Option.some.inj hstep
      exact h.goes (fleetReads_goes hso)
    · cases hstep
  | heartbeat w measured =>
    simp only [step] at hstep
    split at hstep
    · obtain rfl := Option.some.inj hstep
      exact h.goes (heartbeat_goes hso)
    · cases hstep
  | finalize w =>
    simp only [step] at hstep
    split at hstep
    · obtain rfl := Option.some.inj hstep
      exact h.goes (finalize_goes hso)
    · cases hstep
  | admitQueued =>
    obtain rfl := Option.some.inj hstep
    exact h.goes (admitQueued_goes hso)
  | releaseIdle x =>
    simp only [step] at hstep
    split at hstep
    · rename_i hidle
      obtain rfl := Option.some.inj hstep
      exact h.goes (releaseIdle_goes hso hidle.1)
    · cases hstep
  | connect user auth =>
    simp only [step] at hstep
    split at hstep
    · obtain rfl := Option.some.inj hstep
      exact h.goes (spawn_goes _ hso (by simp) (by simp) fun _ hy => hy.elim)
    split at hstep
    · split at hstep
      · cases hstep
      · obtain rfl := Option.some.inj hstep
        exact h.goes (spawn_goes _ hso (by simp) (by simp) fun _ hy => hy.elim)
    · cases hstep
  | openSession t modelId =>
    simp only [step] at hstep
    split at hstep
    · rename_i user auth ht
      obtain rfl := Option.some.inj hstep
      have hrun := hso.runs ht (by simp) (by simp)
      have hstop := stop_goes hso hrun
      exact openSession_inv (h.goes hstop) (hstop.follows.runs hrun)
    · cases hstep
  | recheck t alive =>
    simp only [step] at hstep
    split at hstep
    · rename_i x ht
      split at hstep
      · rename_i auth hauth
        obtain rfl := Option.some.inj hstep
        exact recheck_inv h ht hauth
      · cases hstep
    · cases hstep
  | recheckAnswered t =>
    simp only [step] at hstep
    split at hstep
    · rename_i x ht
      obtain rfl := Option.some.inj hstep
      rcases hso.stop ht (x := x) rfl (by simp) with ⟨hstop, hrun, hu, hborn⟩
      exact h.goes (hstop.trans (serve_goes hstop.inv hrun hu hborn))
    · rename_i x ht
      obtain rfl := Option.some.inj hstep
      exact h.goes (turnAway_goes hso ht)
    · cases hstep
  | sent t =>
    simp only [step] at hstep
    split at hstep
    · rename_i caller x attempt ht
      split at hstep
      · obtain rfl := Option.some.inj hstep
        rcases hso.stop ht (x := x) rfl (by simp) with ⟨hstop, hrun, hu, hborn⟩
        have hput := hold_goes
          (.placing caller x { attempt with phase := .waiting (s.rows x).ready }) hstop.inv hrun hu hborn (fun _ hy => hy) (by simp) (by simp)
        rw [put_put] at hput
        exact h.goes (hstop.trans hput)
      · cases hstep
    · cases hstep
  | sendFails t =>
    simp only [step] at hstep
    split at hstep
    · rename_i caller x attempt ht
      split at hstep
      · obtain rfl := Option.some.inj hstep
        rcases hso.stop ht (x := x) rfl (by simp) with ⟨hstop, hrun, hu, hborn⟩
        exact h.goes (hstop.trans (goOn_goes (giveUp_goes hstop.inv hu) hrun hu hborn))
      · cases hstep
    · cases hstep
  | raises t =>
    simp only [step] at hstep
    split at hstep
    · rename_i x _ ht
      obtain rfl := Option.some.inj hstep
      rcases hso.stop ht (x := x) rfl (by simp) with ⟨hstop, hrun, hu, hborn⟩
      exact h.goes (hstop.trans (tearDown_goes hstop.inv hrun))
    all_goals first
      | (rename_i ht
         obtain rfl := Option.some.inj hstep
         exact h.goes (stop_goes hso (hso.runs ht (by simp) (by simp))))
      | cases hstep
  | wakes t =>
    simp only [step] at hstep
    split at hstep
    · rename_i caller x attempt ht
      split at hstep
      · obtain rfl := Option.some.inj hstep
        rcases hso.stop ht (x := x) rfl (by simp) with ⟨hstop, hrun, hu, hborn⟩
        exact h.goes (hstop.trans (goOn_goes (woken_goes hstop.inv hu) hrun hu hborn))
      · cases hstep
    · cases hstep
  | timesOut t =>
    simp only [step] at hstep
    split at hstep
    · rename_i caller x attempt ht
      split at hstep
      · obtain rfl := Option.some.inj hstep
        rcases hso.stop ht (x := x) rfl (by simp) with ⟨hstop, hrun, hu, hborn⟩
        exact h.goes (hstop.trans (goOn_goes (giveUp_goes hstop.inv hu) hrun hu hborn))
      · cases hstep
    · cases hstep
  | abandoned t =>
    simp only [step] at hstep
    split at hstep
    · rename_i caller x attempt ht
      split at hstep
      · obtain rfl := Option.some.inj hstep
        rcases hso.stop ht (x := x) rfl (by simp) with ⟨hstop, hrun, hu, hborn⟩
        exact h.goes (hstop.trans (goOn_goes (assigned_goes hstop.inv hu) hrun hu hborn))
      · cases hstep
    · cases hstep
  | starts t =>
    simp only [step] at hstep
    split at hstep
    · rename_i x ht
      obtain rfl := Option.some.inj hstep
      rcases hso.stop ht (x := x) rfl (by simp) with ⟨hstop, hrun, hu, hborn⟩
      exact h.goes (hstop.trans (goOn_goes (place_goes hstop.inv hu) hrun hu hborn))
    · rename_i x ht
      obtain rfl := Option.some.inj hstep
      rcases hso.stop ht (x := x) rfl (by simp) with ⟨hstop, hrun, hu, hborn⟩
      exact h.goes (hstop.trans (reassign_goes hstop.inv hrun hu hborn))
    · rename_i x ht
      obtain rfl := Option.some.inj hstep
      rcases hso.stop ht (x := x) rfl (by simp) with ⟨hstop, hrun, hu, hborn⟩
      exact h.goes (hstop.trans (resumeIdle_goes hstop.inv hrun hu hborn))
    · cases hstep
  | interrupted t =>
    simp only [step] at hstep
    split at hstep
    · rename_i x excluded ht
      obtain rfl := Option.some.inj hstep
      rcases hso.stop ht (x := x) rfl (by simp) with ⟨hstop, hrun, hu, hborn⟩
      exact h.goes (hstop.trans (interrupted_goes hstop.inv hrun hu hborn))
    · cases hstep
  | desiredRead t =>
    simp only [step] at hstep
    split at hstep
    · rename_i x excluded ht
      obtain rfl := Option.some.inj hstep
      rcases hso.stop ht (x := x) rfl (by simp) with ⟨hstop, hrun, hu, hborn⟩
      exact h.goes (hstop.trans (reopen_goes hstop.inv hrun hu hborn))
    · cases hstep
  | released t =>
    simp only [step] at hstep
    split at hstep
    · rename_i ht
      obtain rfl := Option.some.inj hstep
      have hstop := stop_goes hso (hso.runs ht (by simp) (by simp))
      exact h.goes (hstop.trans (admitQueued_goes hstop.inv))
    · rename_i call pending rest ht
      obtain rfl := Option.some.inj hstep
      have hrun := hso.runs ht (by simp) (by simp)
      have hstop := stop_goes hso hrun
      have hgo := hstop.trans (admitQueued_goes hstop.inv)
      exact closeNext_inv (h.goes hgo) (hgo.follows.runs hrun)
        (hgo.follows.callOk (h.running t call pending rest ht))
    · cases hstep
  | releaseRaises t =>
    simp only [step] at hstep
    split at hstep
    · rename_i ht
      obtain rfl := Option.some.inj hstep
      exact h.goes (stop_goes hso (hso.runs ht (by simp) (by simp)))
    · rename_i call pending rest ht
      obtain rfl := Option.some.inj hstep
      have hlog : ({ s with calls := s.calls ++ [⟨call, s.forwards.length, false⟩] } :
          World).CloseInv := h.log false (by simp)
      have hrun : ({ s with calls := s.calls ++ [⟨call, s.forwards.length, false⟩] } :
          World).Runs t := hso.runs ht (by simp) (by simp)
      exact hlog.goes (stop_goes hlog.socket hrun)
    · cases hstep
  | canvasFrame t =>
    simp only [step] at hstep
    split at hstep
    · obtain rfl := Option.some.inj hstep
      exact h.goes (canvasFrame_goes hso)
    · cases hstep
  | disconnect t =>
    simp only [step] at hstep
    split at hstep
    · rename_i x ht
      obtain rfl := Option.some.inj hstep
      have hrun := hso.runs ht (by simp) (by simp)
      have hstop := stop_goes hso hrun
      exact h.goes (hstop.trans (tearDown_goes hstop.inv (hstop.follows.runs hrun)))
    · cases hstep
  | revoke auths =>
    obtain rfl := Option.some.inj hstep
    exact h.goes (aside_goes hso rfl rfl rfl rfl rfl (List.subset_append_left _ _) id rfl rfl)
  | enableAccounts =>
    obtain rfl := Option.some.inj hstep
    exact h.goes (aside_goes hso rfl rfl rfl rfl rfl (List.Subset.refl _) (by simp) rfl rfl)
  | closeRevoked user auth keep =>
    obtain rfl := Option.some.inj hstep
    exact beginClose_inv hspawned.1 hspawned.2
  | closeNoneMode =>
    obtain rfl := Option.some.inj hstep
    exact beginClose_inv hspawned.1 hspawned.2
  | closeDead =>
    obtain rfl := Option.some.inj hstep
    exact h.goes (spawn_goes _ hso (by simp) (by simp) fun _ hy => hy.elim)
  | deadAnswered t expired =>
    simp only [step] at hstep
    split at hstep
    · rename_i held ht
      obtain rfl := Option.some.inj hstep
      have hrun := hso.runs ht (by simp) (by simp)
      exact h.goes (put_goes _ hso hrun (by simp) (by simp) fun _ hy => hy.elim)
    · cases hstep
  | nextDead t =>
    simp only [step] at hstep
    split at hstep
    · rename_i ht
      obtain rfl := Option.some.inj hstep
      exact h.goes (stop_goes hso (hso.runs ht (by simp) (by simp)))
    · rename_i auth user rest ht
      obtain rfl := Option.some.inj hstep
      have hrun := hso.runs ht (by simp) (by simp)
      have hstop := stop_goes hso hrun
      exact beginClose_inv (h.goes hstop) (hstop.follows.runs hrun)
    · cases hstep

theorem start_closeInv (noneMode : Bool) : (World.start noneMode).CloseInv := by
  refine ⟨⟨fun _ _ => rfl, ?_, ?_, fun _ _ => rfl, ?_, fun _ _ => rfl⟩, ?_, ?_, ?_, ?_⟩
  · intro t x answer ht
    cases ht
  · intro x hx
    cases hx
  · intro t x hx
    exact hx.elim
  · intro frame hframe
    cases hframe
  · intro t call pending rest ht
    cases ht
  · intro e he
    cases he
  · intro e he
    cases he

theorem run_closeInv (h : realtimeMachine.Reach Machine.anyStep s) : s.CloseInv := by
  apply h.invariant
  · rintro _ ⟨noneMode, rfl⟩
    exact start_closeInv noneMode
  · intro s a s' hinv _ hstep
    exact step_closeInv hinv hstep

section Sample

/-- A worker, and a browser with a cookie of account session 5. -/
def sampleHandshake : List Action :=
  [.hello ⟨"a", ["model"], 1, 0, none, [], [], true⟩, .connect (some 1) (some 5)]

/-- The session is live when it is revoked. -/
def sampleClosed : List Action :=
  sampleHandshake ++
    [.openSession 0 "model", .recheck 0 true, .recheckAnswered 0, .sent 0,
      .workerSends 0 ⟨.sessionReady, 0, 1⟩, .fleetReads 0, .wakes 0, .canvasFrame 0, .revoke [5],
      .closeRevoked 1 (some 5) none, .released 1]

/-- The revocation and its close call come before the browser's `open`. -/
def sampleLate : List Action :=
  sampleHandshake ++ [.revoke [5], .closeRevoked 1 (some 5) none, .openSession 0 "model"]

/-- Where a schedule of an install with accounts ends. -/
def sampleAfter (schedule : List Action) : World :=
  (realtimeMachine.run (World.start false) schedule).getD (World.start false)

theorem start_init (noneMode : Bool) : realtimeMachine.init (World.start noneMode) :=
  ⟨noneMode, rfl⟩

theorem sampleAfter_reach (schedule : List Action)
    (h : realtimeMachine.run (World.start false) schedule = some (sampleAfter schedule)) :
    realtimeMachine.Reach Machine.anyStep (sampleAfter schedule) :=
  (Machine.Reach.of_init (start_init false)).path (Machine.path_of_run_any h)

end Sample

end World

end Potocolom.Realtime
