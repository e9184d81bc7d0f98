import Potocolom.Install.Machine

/-! # Collapse

Addresses and ids stay unique, so `collapse` finds at most one implicit user, and it
works exactly where it finds one. -/

namespace Potocolom.Install

open Accounts Guard

variable {env : Env}

/-! ## Addresses and ids -/

/-- Ids and addresses of the accounts are unique; ids are not yet drawn from `next` on. -/
structure Unique (s : Database) : Prop where
  ids : (s.members.map Member.id).Nodup
  emails : (s.members.map fun m => m.user.email).Nodup
  drawn : ∀ m ∈ s.members, m.id < s.next

namespace Unique

variable {s : Database}

/-- Whatever keeps the ids and the addresses keeps them unique. -/
theorem of_eq {t : Database} (h : Unique s)
    (hids : t.members.map Member.id = s.members.map Member.id)
    (hemails : (t.members.map fun m => m.user.email) = s.members.map fun m => m.user.email)
    (hnext : s.next ≤ t.next) : Unique t where
  ids := hids ▸ h.ids
  emails := hemails ▸ h.emails
  drawn := by
    intro m hm
    have hmem : m.id ∈ s.members.map Member.id := hids ▸ List.mem_map_of_mem hm
    rcases List.mem_map.mp hmem with ⟨m', hm', heq⟩
    rw [← heq]
    exact Nat.lt_of_lt_of_le (h.drawn m' hm') hnext

/-- Rewriting one account keeps the addresses unique if its address is free. -/
theorem modify (h : Unique s) (id : Nat) {f : Member → Member} (hid : ∀ m, (f m).id = m.id)
    (hfree : ∀ m ∈ s.members, m.id = id → ∀ m' ∈ s.members, m'.id ≠ id →
      (f m).user.email ≠ m'.user.email) : Unique (s.modify id f) := by
  have hids : (s.modify id f).members.map Member.id = s.members.map Member.id := by
    show (s.members.map _).map Member.id = _
    rw [List.map_map]
    apply List.map_congr_left
    intro m _
    show (if m.id = id then f m else m).id = m.id
    split
    · exact hid m
    · rfl
  constructor
  case ids => exact hids ▸ h.ids
  case drawn =>
    intro m hm
    rcases List.mem_map.mp hm with ⟨m', hm', heq⟩
    have hsame : m.id = m'.id := by
      rw [← heq]
      split
      · exact hid m'
      · rfl
    rw [hsame]
    exact h.drawn m' hm'
  case emails =>
    show ((s.members.map _).map fun m : Member => m.user.email).Nodup
    rw [List.map_map, List.Nodup, List.pairwise_map]
    have hpair := (List.pairwise_map.mp h.ids).and (List.pairwise_map.mp h.emails)
    apply hpair.imp_of_mem
    rintro a b ha hb ⟨hab, hmail⟩
    show (if a.id = id then f a else a).user.email ≠ (if b.id = id then f b else b).user.email
    split
    · next haid =>
      rw [if_neg fun hbid => hab (haid.trans hbid.symm)]
      exact hfree a ha haid b hb fun hbid => hab (haid.trans hbid.symm)
    · next haid =>
      split
      · next hbid => exact (hfree b hb hbid a ha haid).symm
      · exact hmail

/-- A rewrite that leaves the address alone. -/
theorem modify_rows (h : Unique s) (id : Nat) {f : Account → Account}
    (hf : ∀ a, (f a).user.email = a.user.email) : Unique (s.modify id (·.modify f)) := by
  apply h.modify id
  · exact fun _ => rfl
  · intro m hm hmid m' hm' hne heq
    have hmail : m.user.email = m'.user.email := (hf m.world.account).symm.trans heq
    have hsame : m = m' := List.inj_on_of_nodup_map h.emails hm hm' hmail
    exact hne (hsame ▸ hmid)

/-- A rewrite to an address nobody else holds. -/
theorem modify_held (h : Unique s) (id : Nat) {f : Member → Member}
    (hid : ∀ m, (f m).id = m.id)
    (hfree : ∀ m ∈ s.members, m.id = id → ¬ s.held env id (f m).user.email) :
    Unique (s.modify id f) := by
  apply h.modify id hid
  intro m hm hmid m' hm' hne heq
  exact hfree m hm hmid ⟨m', hm', hne, by rw [heq]⟩

theorem addUser (h : Unique s) {email : String} {role : Role} {now : Time} {t : Database}
    (ht : s.addUser env email role now = .ok t) : Unique t := by
  simp only [Database.addUser, bind_eq_ok, require_eq_ok, pure_eq_ok] at ht
  rcases ht with ⟨_, hfree, rfl⟩
  constructor
  case ids =>
    show ((s.members ++ [_]).map Member.id).Nodup
    rw [List.map_append, List.nodup_append]
    refine ⟨h.ids, by simp, ?_⟩
    intro id hid id' hid' heq
    rcases List.mem_map.mp hid with ⟨m, hm, rfl⟩
    have hnew : id' = s.next := by simpa [newMember] using hid'
    exact absurd (h.drawn m hm) (by omega)
  case emails =>
    show ((s.members ++ [_]).map fun m : Member => m.user.email).Nodup
    rw [List.map_append, List.nodup_append]
    refine ⟨h.emails, by simp, ?_⟩
    intro mail hmail mail' hmail' heq
    rcases List.mem_map.mp hmail with ⟨m, hm, rfl⟩
    have hnew : mail' = email := by simpa [newMember, Member.user] using hmail'
    apply hfree
    exact ⟨m, hm, Nat.ne_of_lt (h.drawn m hm), by rw [heq, hnew]⟩
  case drawn =>
    intro m hm
    show m.id < s.next + 1
    rcases List.mem_append.mp hm with hm | hm
    · exact Nat.lt_succ_of_lt (h.drawn m hm)
    · rw [List.mem_singleton.mp hm]
      exact Nat.lt_succ_self _

theorem filter (h : Unique s) (p : Member → Bool) {t : Database}
    (hmembers : t.members = s.members.filter p) (hnext : t.next = s.next) : Unique t where
  ids := hmembers ▸ h.ids.sublist (List.filter_sublist.map _)
  emails := hmembers ▸ h.emails.sublist (List.filter_sublist.map _)
  drawn := by
    intro m hm
    rw [hmembers] at hm
    rw [hnext]
    exact h.drawn m (List.mem_filter.mp hm).1

end Unique

/-! ## One step -/

theorem recordMode_members {s t : Database} {mode : Mode} {ring : Option KeyRing}
    (h : s.recordMode mode ring = .ok t) :
    t.members = s.members ∧ t.next = s.next ∧ t.mode = some mode := by
  simp only [Database.recordMode, bind_eq_ok] at h
  rcases h with ⟨version, -, h⟩
  split at h
  · next hmode =>
    cases h
    exact ⟨rfl, rfl, hmode⟩
  · cases h
    exact ⟨rfl, rfl, rfl⟩

theorem Unique.same {s t : Database} (h : Unique s) (hmembers : t.members = s.members)
    (hnext : s.next ≤ t.next) : Unique t :=
  h.of_eq (by rw [hmembers]) (by rw [hmembers]) hnext

theorem Unique.recordMode {s t : Database} (h : Unique s) {mode : Mode} {ring : Option KeyRing}
    (ht : s.recordMode mode ring = .ok t) : Unique t := by
  have hsame := recordMode_members ht
  exact h.same hsame.1 (Nat.le_of_eq hsame.2.1.symm)

theorem spend_members {s t : Database} {token : Nat} {now : Time}
    (h : s.spend token now = .ok t) :
    t.members = s.members ∧ t.next = s.next ∧ t.mode = s.mode := by
  simp only [Database.spend, bind_eq_ok, require_eq_ok, pure_eq_ok] at h
  rcases h with ⟨_, _, rfl⟩
  exact ⟨rfl, rfl, rfl⟩

theorem Unique.spend {s t : Database} (h : Unique s) {token : Nat} {now : Time}
    (ht : s.spend token now = .ok t) : Unique t := by
  have hsame := spend_members ht
  exact h.same hsame.1 (Nat.le_of_eq hsame.2.1.symm)

theorem Unique.adopt {s t : Database} (h : Unique s) {address password : String}
    (ht : s.adopt env address password = .ok t) : Unique t := by
  simp only [Database.adopt, bind_eq_ok, require_eq_ok, demand_eq_ok, pure_eq_ok] at ht
  rcases ht with ⟨_, _, hash, _, m, _, _, hfree, rfl⟩
  exact h.modify_held m.id (fun _ => rfl) fun _ _ _ => hfree

theorem Unique.ensureClaimable {s t : Database} (h : Unique s) {now : Time}
    (ht : s.ensureClaimable env now = .ok t) : Unique t := by
  unfold Database.ensureClaimable at ht
  split at ht
  · cases ht
    exact h
  · split at ht
    · exact h.addUser ht
    · cases ht
      exact h

theorem Unique.ensureLocalUser {s t : Database} (h : Unique s) {mode : Mode} {now : Time}
    {id : Option Nat} (ht : s.ensureLocalUser env mode now = .ok (id, t)) : Unique t := by
  unfold Database.ensureLocalUser at ht
  split at ht
  · split at ht
    · cases ht
      exact h
    · simp only [bind_eq_ok, pure_eq_ok, Prod.mk.injEq] at ht
      rcases ht with ⟨t', ht', -, rfl⟩
      exact h.addUser ht'
  · next m _ =>
    split at ht
    · cases ht
      exact h.modify_rows m.id fun _ => rfl
    · cases ht
      exact h

theorem Unique.decideStartup {s t : Database} (h : Unique s) {override : Option Override}
    {ring : Option KeyRing} {mode : Mode}
    (ht : s.decideStartupAuthMode override ring = .ok (mode, t)) : Unique t := by
  unfold Database.decideStartupAuthMode at ht
  split at ht
  case h_3 | h_4 =>
    simp only [bind_eq_ok, pure_eq_ok, Prod.mk.injEq] at ht
    rcases ht with ⟨t', ht', -, rfl⟩
    exact h.recordMode ht'
  case h_6 =>
    split at ht
    · cases ht
      exact h
    · cases ht
  all_goals
    cases ht
    exact h

theorem Unique.startup {s : Database} (h : Unique s) (override : Option Override)
    (ring : Option KeyRing) (now : Time) : Unique (s.startup env override ring now) := by
  unfold Database.startup
  split
  · exact h
  · next mode s' hdecide =>
    have hs' := h.decideStartup hdecide
    split
    · exact hs'
    · rcases settle_cases (s'.ensureLocalUser env mode now) s' with ⟨id, hid⟩ | hsame
      · exact hs'.ensureLocalUser hid
      · rw [hsame]
        exact hs'

theorem mintSetupToken_members {s t : Database} {token : Nat} {now : Time}
    (h : s.mintSetupToken token now = .ok t) : t.members = s.members ∧ t.next = s.next := by
  simp only [Database.mintSetupToken, bind_eq_ok, require_eq_ok, pure_eq_ok] at h
  rcases h with ⟨_, _, _, _, rfl⟩
  exact ⟨rfl, rfl⟩

theorem Unique.mintSetupToken {s t : Database} (h : Unique s) {token : Nat} {now : Time}
    (ht : s.mintSetupToken token now = .ok t) : Unique t := by
  have hsame := mintSetupToken_members ht
  exact h.same hsame.1 (Nat.le_of_eq hsame.2.symm)

theorem Unique.authEnable {s : Database} (h : Unique s) (token : Nat) (ring : Option KeyRing)
    (now : Time) : Unique (s.authEnable env token ring now) := by
  unfold Database.authEnable
  split
  · exact h
  · next s₁ h₁ =>
    have hs₁ := h.ensureClaimable h₁
    split
    · exact hs₁
    · next s₂ h₂ =>
      have hs₂ := hs₁.recordMode h₂
      rcases hmint : s₂.mintSetupToken token now with e | s₃
      · exact hs₂
      · exact hs₂.mintSetupToken hmint

theorem Unique.register {s t : Database} (h : Unique s) {token : Nat} {password : String}
    {now : Time} (ht : s.register env token password now = .ok t) : Unique t := by
  simp only [Database.register, bind_eq_ok, require_eq_ok, demand_eq_ok, pure_eq_ok] at ht
  rcases ht with ⟨i, _, hash, _, s', hadd, _, _, rfl⟩
  have haccepted : Unique
      { s with
        invitations := s.invitations.map fun j =>
          if j.id = i.id then { j with acceptedAt := some now } else j } :=
    h.same rfl (Nat.le_refl _)
  exact (haccepted.addUser hadd).modify_rows s.next fun _ => rfl

theorem Unique.onAccount {s t : Database} (h : Unique s) {id : Nat} {action : Accounts.Action}
    (ht : s.onAccount env id action = .ok t) : Unique t := by
  simp only [Database.onAccount, bind_eq_ok, require_eq_ok, demand_eq_ok, pure_eq_ok] at ht
  rcases ht with ⟨m, _, world, _, _, hfree, rfl⟩
  exact h.modify_held id (fun _ => rfl) fun _ _ _ => hfree

theorem Unique.deleteAccount {s : Database} (h : Unique s) (id : Nat) :
    Unique (s.deleteAccount id) :=
  h.filter (fun m => decide (m.id ≠ id)) rfl rfl

/-- A committed collapse, taken apart. -/
theorem collapse_ok {s t : Database} {confirmation : String} {counted : Database.Counted}
    (h : s.collapse confirmation = .ok (counted, t)) :
    confirmation = collapsePhrase ∧ ∃ m, s.localUser = some m ∧
      t = { s with
        jobs := s.jobs.map ({ · with userId := m.id })
        assets := s.assets.map ({ · with userId := m.id })
        setupTokens := [], invitations := []
        members := (s.members.filter (·.id = m.id)).map (·.modify Database.emptied)
        mode := s.mode.map fun _ => .none
        rootKeyVersion := none } := by
  simp only [Database.collapse, bind_eq_ok, require_eq_ok, demand_eq_ok, pure_eq_ok,
    Prod.mk.injEq] at h
  rcases h with ⟨_, hphrase, m, hm, _, rfl⟩
  exact ⟨hphrase, m, hm, rfl⟩

theorem Unique.collapse {s t : Database} (h : Unique s) {confirmation : String}
    {counted : Database.Counted} (ht : s.collapse confirmation = .ok (counted, t)) :
    Unique t := by
  rcases collapse_ok ht with ⟨-, m, -, rfl⟩
  have hkept := h.filter (t := { s with members := s.members.filter (·.id = m.id) })
    (fun m' => decide (m'.id = m.id)) rfl rfl
  apply hkept.of_eq
  · show ((s.members.filter _).map _).map Member.id = _
    rw [List.map_map]
    rfl
  · show ((s.members.filter _).map _).map _ = _
    rw [List.map_map]
    rfl
  · exact Nat.le_refl _

theorem toOption_eq {ε α : Type} {x : Except ε α} {a : α} (h : x.toOption = some a) :
    x = .ok a := by
  cases x with
  | error => cases h
  | ok b =>
    cases h
    rfl

theorem step_unique {s t : Database} {l : Action} (h : Unique s) (hst : step env s l = some t) :
    Unique t := by
  cases l <;> simp only [step] at hst
  case startup override ring now =>
    cases hst
    exact h.startup override ring now
  case mintSetupToken => exact h.mintSetupToken (toOption_eq hst)
  case authEnable token ring now =>
    cases hst
    exact h.authEnable token ring now
  case claim =>
    have hclaim := toOption_eq hst
    simp only [Database.claim, bind_eq_ok, require_eq_ok, demand_eq_ok] at hclaim
    rcases hclaim with ⟨address, _, s₁, h₁, _, _, s₂, h₂, h₃⟩
    exact ((h.spend h₁).adopt h₂).recordMode h₃
  case declineAccounts =>
    have hdecline := toOption_eq hst
    simp only [Database.declineAccounts, bind_eq_ok, require_eq_ok] at hdecline
    rcases hdecline with ⟨s₁, h₁, _, _, h₂⟩
    exact (h.spend h₁).recordMode h₂
  case turnAccountsOn =>
    have hon := toOption_eq hst
    simp only [Database.turnAccountsOn, bind_eq_ok, require_eq_ok, demand_eq_ok] at hon
    rcases hon with ⟨address, _, _, _, s₁, h₁, h₂⟩
    exact (h.adopt h₁).recordMode h₂
  case invite =>
    have hinvite := toOption_eq hst
    simp only [Database.invite, bind_eq_ok, require_eq_ok, demand_eq_ok, pure_eq_ok] at hinvite
    rcases hinvite with ⟨address, _, _, _, _, _, rfl⟩
    exact h.same rfl (Nat.le_succ _)
  case revokeInvitation =>
    cases hst
    exact h.same rfl (Nat.le_refl _)
  case register => exact h.register (toOption_eq hst)
  case onAccount => exact h.onAccount (toOption_eq hst)
  case reclaimRestore =>
    have hrestore := toOption_eq hst
    simp only [Database.reclaimRestore, bind_eq_ok, require_eq_ok, demand_eq_ok,
      pure_eq_ok] at hrestore
    rcases hrestore with ⟨m, _, _, _, rfl⟩
    exact h.modify_rows m.id fun _ => rfl
  case clearFactor =>
    have hclear := toOption_eq hst
    simp only [Database.clearFactor, bind_eq_ok, demand_eq_ok] at hclear
    rcases hclear with ⟨m, _, hclear⟩
    split at hclear
    · cases hclear
      exact h
    · cases hclear
      exact h.modify_rows m.id fun _ => rfl
  case deleteAccount id =>
    split at hst
    · cases hst
      exact h.deleteAccount id
    · cases hst
  case addJob =>
    split at hst
    · cases hst
      exact h.same rfl (Nat.le_succ _)
    · cases hst
  case addAsset =>
    split at hst
    · cases hst
      exact h.same rfl (Nat.le_succ _)
    · cases hst
  case collapse confirmation =>
    cases hst
    rcases settle_cases (s.collapse confirmation) s with ⟨counted, hok⟩ | hsame
    · exact h.collapse hok
    · rw [hsame]
      exact h

theorem reach_unique {s : Database} (hs : (installMachine env).Reach Machine.anyStep s) :
    Unique s := by
  apply hs.invariant
  · rintro _ ⟨next, rfl⟩
    constructor <;> simp [fresh]
  · intro s l t h _ hst
    exact step_unique h hst

/-! ## The law of collapse -/

/-- What a collapse of `s` is to leave: one account without any credential, which the
next startup finds, and all the work, in its hands. -/
structure Collapsed (env : Env) (s t : Database) (m : Member) : Prop where
  mode : t.mode = some .none
  only : t.members = [m]
  role : m.user.role = .admin
  state : m.user.state = .active
  identities : m.world.account.identities = []
  factor : m.world.account.factor = none
  recoveryCodes : m.world.account.recoveryCodes = []
  tokens : m.world.account.tokens = [] ∧ t.setupTokens = []
  sessions : m.world.account.sessions = []
  invitations : t.invitations = []
  found : ∀ override ring now, override ≠ some .accounts →
    t.startup env override ring now = t ∧
      t.decideStartupAuthMode override ring = .ok (.none, t) ∧
      t.ensureLocalUser env .none now = .ok (some m.id, t)
  jobs : t.jobs.map Job.id = s.jobs.map Job.id ∧ ∀ job ∈ t.jobs, job.userId = m.id
  assets : t.assets.map (fun asset => (asset.id, asset.jobId)) =
      s.assets.map (fun asset => (asset.id, asset.jobId)) ∧
    ∀ asset ∈ t.assets, asset.userId = m.id

/-- With the phrase it succeeds; with any other, or when it fails, it changes nothing. -/
def CollapseLaw (env : Env) (s : Database) : Prop :=
  (∃ counted t m, s.collapse collapsePhrase = .ok (counted, t) ∧ Collapsed env s t m) ∧
    ∀ phrase, (phrase ≠ collapsePhrase ∨ ∃ why, s.collapse phrase = .error why) →
      settle (s.collapse phrase) s = s

theorem localUser_some {s : Database} {m : Member} (h : s.localUser = some m) :
    m ∈ s.members ∧ m.user.email = localUserEmail :=
  ⟨List.mem_of_find?_eq_some h, by simpa using List.find?_some h⟩

/-- With unique keys, one entry has the key of an entry. -/
theorem filter_key {α : Type} {f : α → Nat} {l : List α} (h : (l.map f).Nodup) {a : α}
    (ha : a ∈ l) : l.filter (fun b => decide (f b = f a)) = [a] := by
  induction l with
  | nil => cases ha
  | cons b l ih =>
    rw [List.map_cons, List.nodup_cons] at h
    rcases List.mem_cons.mp ha with rfl | ha
    · rw [List.filter_cons_of_pos (by simp), List.cons_inj_right, List.filter_eq_nil_iff]
      intro b hb heq
      have hkey : f b = f a := by simpa using heq
      exact h.1 (hkey ▸ List.mem_map_of_mem hb)
    · have hne : f b ≠ f a := fun heq => h.1 (heq ▸ List.mem_map_of_mem ha)
      rw [List.filter_cons_of_neg (by simpa using hne)]
      exact ih h.2 ha

/-- A none install whose only account is the implicit administrator starts unchanged, and
finds it. -/
theorem startup_settled {t : Database} {m : Member} (hmode : t.mode = some .none)
    (hversion : t.rootKeyVersion = none) (honly : t.members = [m])
    (hemail : m.user.email = localUserEmail) (hrole : m.user.role = .admin)
    {override : Option Override} (hoverride : override ≠ some .accounts)
    (ring : Option KeyRing) (now : Time) :
    t.startup env override ring now = t ∧
      t.decideStartupAuthMode override ring = .ok (.none, t) ∧
      t.ensureLocalUser env .none now = .ok (some m.id, t) := by
  have hdecide : t.decideStartupAuthMode override ring = .ok (.none, t) := by
    unfold Database.decideStartupAuthMode
    rw [hmode]
    rcases override with _ | override
    · rfl
    · cases override with
      | none => rfl
      | accounts => exact absurd rfl hoverride
  have hlocal : t.localUser = some m := by
    unfold Database.localUser
    rw [honly, List.find?_cons_of_pos]
    simpa using hemail
  have hensure : t.ensureLocalUser env .none now = .ok (some m.id, t) := by
    unfold Database.ensureLocalUser
    rw [hlocal]
    dsimp only
    rw [if_neg fun hne => hne.1 hrole]
    rfl
  refine ⟨?_, hdecide, hensure⟩
  unfold Database.startup
  rw [hdecide]
  dsimp only
  have hring : t.validateStartupKeyRing ring = .ok () := by
    unfold Database.validateStartupKeyRing
    rw [hversion]
    rfl
  rw [hring]
  dsimp only
  rw [hensure]
  rfl

/-- A collapse that commits leaves what it is to leave. -/
theorem collapse_leaves (env : Env) {s t : Database} (h : Unique s) (hmode : s.mode = some .accounts)
    {confirmation : String} {counted : Database.Counted}
    (ht : s.collapse confirmation = .ok (counted, t)) : ∃ m, Collapsed env s t m := by
  rcases collapse_ok ht with ⟨-, m, hm, rfl⟩
  have hlocal := localUser_some hm
  have honly : s.members.filter (fun m' => decide (m'.id = m.id)) = [m] :=
    filter_key h.ids hlocal.1
  refine ⟨m.modify Database.emptied, ?_⟩
  constructor
  case mode =>
    show s.mode.map _ = _
    rw [hmode]
    rfl
  case only =>
    show (s.members.filter _).map _ = _
    rw [honly]
    rfl
  case found =>
    intro override ring now hoverride
    have hmode' : (s.mode.map fun _ => Mode.none) = some .none := by rw [hmode]; rfl
    have honly' : (s.members.filter (·.id = m.id)).map (·.modify Database.emptied) =
        [m.modify Database.emptied] := by rw [honly]; rfl
    exact startup_settled (m := m.modify Database.emptied) hmode' rfl honly' hlocal.2 rfl
      hoverride ring now
  case tokens => exact ⟨rfl, rfl⟩
  case jobs =>
    refine ⟨?_, ?_⟩
    · show (s.jobs.map _).map Job.id = _
      rw [List.map_map]
      rfl
    · intro job hjob
      rcases List.mem_map.mp hjob with ⟨job', _, rfl⟩
      rfl
  case assets =>
    refine ⟨?_, ?_⟩
    · show (s.assets.map _).map _ = _
      rw [List.map_map]
      rfl
    · intro asset hasset
      rcases List.mem_map.mp hasset with ⟨asset', _, rfl⟩
      rfl
  all_goals rfl

/-- `collapse` meets its law in an accounts install exactly when some account holds the
implicit user's address. -/
theorem collapse_law {s : Database} (hs : (installMachine env).Reach Machine.anyStep s)
    (hmode : s.mode = some .accounts) :
    CollapseLaw env s ↔ ∃ m ∈ s.members, m.user.email = localUserEmail := by
  constructor
  · rintro ⟨⟨counted, t, _, hok, -⟩, -⟩
    rcases collapse_ok hok with ⟨-, m, hm, -⟩
    exact ⟨m, localUser_some hm⟩
  · rintro ⟨m, hm, hemail⟩
    have hlocal : s.localUser.isSome := by
      unfold Database.localUser
      rw [List.find?_isSome]
      exact ⟨m, hm, by simpa using hemail⟩
    rcases Option.isSome_iff_exists.mp hlocal with ⟨m', hm'⟩
    refine ⟨?_, ?_⟩
    · rcases hok : s.collapse collapsePhrase with why | ⟨counted, t⟩
      · unfold Database.collapse at hok
        rw [hm'] at hok
        cases hok
      · rcases collapse_leaves env (reach_unique hs) hmode hok with ⟨left, hleft⟩
        exact ⟨counted, t, left, rfl, hleft⟩
    · rintro phrase (hphrase | ⟨why, hwhy⟩)
      · rcases hok : s.collapse phrase with why | ⟨counted, t⟩
        · rfl
        · exact absurd (collapse_ok hok).1 hphrase
      · rw [hwhy]
        rfl

/-- Text and passwords as they are. -/
def sampleEnv : Env where
  stripLower := id
  lowerBtrim := id
  checkedEmail := some
  hashPassword := some
  verifyPassword hash password := hash == password
  codeHash := id
  matchedStep _ _ _ := none
  openedEnrolment _ _ := none

def sampleRing : KeyRing := ⟨1, [1]⟩

/-- A scripted accounts install with some work, collapsed before anybody claimed it. -/
def scriptedInstall : List Action :=
  [.startup (some .accounts) (some sampleRing) 0, .addJob 0, .addAsset 0 (some 1)]

/-- A setup link spent on an account, as the setup page does it. -/
def claimedInstall : List Action :=
  [.startup none none 0, .mintSetupToken 5 0, .claim 5 "ada@example.org" "pass" (some sampleRing) 1]

theorem sample_reach (actions : List Action) {s : Database}
    (h : (installMachine sampleEnv).run (fresh 0) actions = some s) :
    (installMachine sampleEnv).Reach Machine.anyStep s :=
  ⟨_, ⟨0, rfl⟩, Machine.path_of_run_any h⟩

theorem collapse_law_sample :
    ∃ s, (installMachine sampleEnv).run (fresh 0) scriptedInstall = some s ∧
      s.jobs = [⟨1, 0⟩] ∧ CollapseLaw sampleEnv s := by
  refine ⟨_, rfl, rfl, ?_⟩
  apply (collapse_law (sample_reach scriptedInstall rfl) rfl).mpr
  exact ⟨_, List.mem_singleton_self _, rfl⟩

theorem collapse_after_claim :
    ∃ s, (installMachine sampleEnv).run (fresh 0) claimedInstall = some s ∧
      s.mode = some .accounts ∧ ¬ CollapseLaw sampleEnv s := by
  refine ⟨_, rfl, rfl, ?_⟩
  rintro ⟨⟨counted, t, m, hok, -⟩, -⟩
  cases hok

end Potocolom.Install
