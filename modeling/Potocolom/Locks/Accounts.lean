import Potocolom.Locks.Keys

/-! # The locks of the account transactions

The transactions on `users`, `auth_tokens`, `auth_factors`, `recovery_codes`, `sessions`
and `auth_identities`, each as the locks it asks for, in the order of its statements.
What a statement finds is a parameter. Almost all of them take the account's key first;
the second factor is answered, and a replacement attempt counted, without it.

Every row but that of a setup link belongs to an account of the installation. None of
these transactions adds an account, so the ones `collapse` lists are all there are. -/

namespace Potocolom.Locks.Accounts

/-- An account of the installation. -/
abbrev Account (accounts : List UserId) := { u : UserId // u ∈ accounts }

/-- `auth_tokens.purpose`, where the token has an account. -/
inductive Purpose where
  | reset
  | recovery
  | challenge
  deriving DecidableEq

/-- An advisory key, or a row with the account it belongs to. -/
inductive Resource (accounts : List UserId) where
  | advisory (key : Int)
  | user (a : Account accounts)
  | token (a : Account accounts) (purpose : Purpose) (id : Uuid)
  /-- A token of purpose `setup`, which has no account. -/
  | setupToken (id : Uuid)
  | factor (a : Account accounts) (id : Uuid)
  | recoveryCode (a : Account accounts) (id : Uuid)
  | session (a : Account accounts) (id : Uuid)
  | identity (a : Account accounts) (id : Uuid)
  deriving DecidableEq

variable {accounts : List UserId}

/-- `hold_the_account`. -/
def holdTheAccount (a : Account accounts) : Resource accounts := .advisory (budgetLock a.1)

/-- Which row `_spend` consumes: that of a recovery code, or the factor's own. -/
def spend (a : Account accounts) (factor : Uuid) : Option Uuid → Resource accounts
  | some code => .recoveryCode a code
  | none => .factor a factor

/-- `begin_challenge`. -/
def beginChallenge (a : Account accounts) (outstanding : List Uuid) : List (Resource accounts) :=
  holdTheAccount a :: outstanding.map (.token a .challenge)

/-- `answer_challenge` counts the attempt in a transaction of its own, … -/
def countAttempt (a : Account accounts) (token : Uuid) : List (Resource accounts) :=
  [.token a .challenge token]

/-- … and spends the challenge and the proof in another. -/
def spendChallenge (a : Account accounts) (token factor : Uuid) (code : Option Uuid) :
    List (Resource accounts) :=
  [.token a .challenge token, .factor a factor, spend a factor code, .factor a factor]

/-- `mint_behind_the_gate`. -/
def mintBehindTheGate (a : Account accounts) : List (Resource accounts) := [holdTheAccount a]

/-- `_spend_replacement_attempt`. -/
def spendReplacementAttempt (a : Account accounts) (factor : Uuid) : List (Resource accounts) :=
  [.factor a factor]

/-- The mailed capabilities of an account: its reset and recovery links. -/
structure Links where
  resets : List Uuid
  recoveries : List Uuid

def Links.rows (l : Links) (a : Account accounts) : List (Resource accounts) :=
  l.resets.map (.token a .reset) ++ l.recoveries.map (.token a .recovery)

/-- What `rotate_and_revoke_others` finds: the live sessions in id order, those it
revokes, and the one it rotates. -/
structure Rotation where
  links : Links
  live : List Uuid
  others : List Uuid
  own : Uuid

/-- `rotate_and_revoke_others`. -/
def rotateAndRevokeOthers (a : Account accounts) (spendCapabilities : Bool) (r : Rotation) :
    List (Resource accounts) :=
  [holdTheAccount a] ++ (if spendCapabilities then r.links.rows a else []) ++
    r.live.map (.session a) ++ r.others.map (.session a) ++ [.session a r.own]

/-- `remove_factor`, once the code is known to be one. -/
def removeFactor (a : Account accounts) (factor : Uuid) (code : Option Uuid) (codes : List Uuid)
    (r : Rotation) : List (Resource accounts) :=
  [holdTheAccount a, .factor a factor, spend a factor code, .factor a factor] ++
    codes.map (.recoveryCode a) ++ rotateAndRevokeOthers a false r

/-- `confirm_enrolment`; a first one replaces nothing. -/
def confirmEnrolment (a : Account accounts) (replacing : Option (Uuid × Option Uuid))
    (codes : List Uuid) (r : Rotation) : List (Resource accounts) :=
  [holdTheAccount a] ++
    (match replacing with
      | some (factor, code) => [.factor a factor, spend a factor code, .factor a factor]
      | none => []) ++
    codes.map (.recoveryCode a) ++ rotateAndRevokeOthers a false r

/-- `change_password`; without a password identity it locks the account's row instead. -/
def changePassword (a : Account accounts) (existing : Option Uuid) (r : Rotation) :
    List (Resource accounts) :=
  [holdTheAccount a, (match existing with | some identity => .identity a identity | none => .user a)]
    ++ rotateAndRevokeOthers a true r

/-- `change_email`. -/
def changeEmail (a : Account accounts) (identities : List Uuid) (r : Rotation) :
    List (Resource accounts) :=
  [holdTheAccount a, .user a] ++ identities.map (.identity a) ++ rotateAndRevokeOthers a true r

/-- `unlink_identity`. -/
def unlinkIdentity (a : Account accounts) (held : List Uuid) (linked : Uuid) (r : Rotation) :
    List (Resource accounts) :=
  [holdTheAccount a] ++ held.map (.identity a) ++ [.identity a linked] ++
    rotateAndRevokeOthers a true r

/-- `_link` of an identity provider. -/
def link (a : Account accounts) (verified : Bool) (r : Rotation) : List (Resource accounts) :=
  [holdTheAccount a] ++ (if verified then [.user a] else []) ++ rotateAndRevokeOthers a true r

/-- `complete_reset`, with a token of purpose `reset` or `recovery`. -/
def completeReset (a : Account accounts) (recovery : Bool) (token : Uuid)
    (identities sessions : List Uuid) : List (Resource accounts) :=
  [holdTheAccount a, .token a (if recovery then .recovery else .reset) token] ++
    identities.map (.identity a) ++ sessions.map (.session a)

/-- `change_role`. -/
def changeRole (a : Account accounts) (links : Links) (sessions : List Uuid) :
    List (Resource accounts) :=
  [holdTheAccount a, .advisory roleChangeLock, .user a] ++ links.rows a ++ sessions.map (.session a)

/-- `change_state`; back to `active` it stops after the account's row. -/
def changeState (a : Account accounts) (active : Bool) (links : Links) (sessions : List Uuid) :
    List (Resource accounts) :=
  [holdTheAccount a, .advisory roleChangeLock, .user a] ++
    if active then [] else links.rows a ++ sessions.map (.session a)

/-- The request of `deletion.py`, which consumes every token of the account. -/
def requestDeletion (a : Account accounts) (challenges : List Uuid) (links : Links)
    (sessions : List Uuid) : List (Resource accounts) :=
  [holdTheAccount a, .user a] ++ challenges.map (.token a .challenge) ++ links.rows a ++
    sessions.map (.session a)

/-- `restore`. -/
def restore (a : Account accounts) : List (Resource accounts) := [holdTheAccount a, .user a]

/-- `revoke`, and `rotate` up to the session it mints. -/
def revoke (a : Account accounts) (session : Uuid) : List (Resource accounts) :=
  [holdTheAccount a, .session a session, .session a session]

/-- `revoke_all`. -/
def revokeAll (a : Account accounts) (sessions : List Uuid) : List (Resource accounts) :=
  holdTheAccount a :: sessions.map (.session a)

/-- The rows `collapse` finds, each delete in whatever order it scans its table. -/
structure Collapse (accounts : List UserId) where
  tokens : List (Account accounts × Purpose × Uuid)
  setupTokens : List Uuid
  factors : List (Account accounts × Uuid)
  codes : List (Account accounts × Uuid)
  sessions : List (Account accounts × Uuid)
  identities : List (Account accounts × Uuid)
  users : List (Account accounts)

/-- `collapse`; the account it keeps is the local one. -/
def collapse (home : Account accounts) (c : Collapse accounts) : List (Resource accounts) :=
  (keysOf accounts).map .advisory ++
    (c.tokens.map fun t => .token t.1 t.2.1 t.2.2) ++ c.setupTokens.map .setupToken ++
    (c.factors.map fun f => .factor f.1 f.2) ++ (c.codes.map fun k => .recoveryCode k.1 k.2) ++
    (c.sessions.map fun s => .session s.1 s.2) ++ (c.identities.map fun i => .identity i.1 i.2) ++
    (c.users.filter (· ≠ home)).map .user ++ [.user home]

/-- `clear_factor`. -/
def clearFactor (a : Account accounts) (factors codes sessions : List Uuid) :
    List (Resource accounts) :=
  [holdTheAccount a] ++ factors.map (.factor a) ++ factors.map (.factor a) ++
    codes.map (.recoveryCode a) ++ sessions.map (.session a)

/-- A transaction, with what its statements find. -/
inductive Transaction (accounts : List UserId) where
  | beginChallenge (a : Account accounts) (outstanding : List Uuid)
  | countAttempt (a : Account accounts) (token : Uuid)
  | spendChallenge (a : Account accounts) (token factor : Uuid) (code : Option Uuid)
  | mintBehindTheGate (a : Account accounts)
  | spendReplacementAttempt (a : Account accounts) (factor : Uuid)
  | removeFactor (a : Account accounts) (factor : Uuid) (code : Option Uuid) (codes : List Uuid)
      (r : Rotation)
  | confirmEnrolment (a : Account accounts) (replacing : Option (Uuid × Option Uuid))
      (codes : List Uuid) (r : Rotation)
  | changePassword (a : Account accounts) (existing : Option Uuid) (r : Rotation)
  | changeEmail (a : Account accounts) (identities : List Uuid) (r : Rotation)
  | unlinkIdentity (a : Account accounts) (held : List Uuid) (linked : Uuid) (r : Rotation)
  | link (a : Account accounts) (verified : Bool) (r : Rotation)
  | completeReset (a : Account accounts) (recovery : Bool) (token : Uuid)
      (identities sessions : List Uuid)
  | changeRole (a : Account accounts) (links : Links) (sessions : List Uuid)
  | changeState (a : Account accounts) (active : Bool) (links : Links) (sessions : List Uuid)
  | requestDeletion (a : Account accounts) (challenges : List Uuid) (links : Links)
      (sessions : List Uuid)
  | restore (a : Account accounts)
  | revoke (a : Account accounts) (session : Uuid)
  | revokeAll (a : Account accounts) (sessions : List Uuid)
  | collapse (c : Collapse accounts)
  | clearFactor (a : Account accounts) (factors codes sessions : List Uuid)

/-- The locks a transaction asks for. -/
def Transaction.locks (home : Account accounts) : Transaction accounts → List (Resource accounts)
  | .beginChallenge a outstanding => Accounts.beginChallenge a outstanding
  | .countAttempt a token => Accounts.countAttempt a token
  | .spendChallenge a token factor code => Accounts.spendChallenge a token factor code
  | .mintBehindTheGate a => Accounts.mintBehindTheGate a
  | .spendReplacementAttempt a factor => Accounts.spendReplacementAttempt a factor
  | .removeFactor a factor code codes r => Accounts.removeFactor a factor code codes r
  | .confirmEnrolment a replacing codes r => Accounts.confirmEnrolment a replacing codes r
  | .changePassword a existing r => Accounts.changePassword a existing r
  | .changeEmail a identities r => Accounts.changeEmail a identities r
  | .unlinkIdentity a held linked r => Accounts.unlinkIdentity a held linked r
  | .link a verified r => Accounts.link a verified r
  | .completeReset a recovery token identities sessions =>
    Accounts.completeReset a recovery token identities sessions
  | .changeRole a links sessions => Accounts.changeRole a links sessions
  | .changeState a active links sessions => Accounts.changeState a active links sessions
  | .requestDeletion a challenges links sessions =>
    Accounts.requestDeletion a challenges links sessions
  | .restore a => Accounts.restore a
  | .revoke a session => Accounts.revoke a session
  | .revokeAll a sessions => Accounts.revokeAll a sessions
  | .collapse c => Accounts.collapse home c
  | .clearFactor a factors codes sessions => Accounts.clearFactor a factors codes sessions

/-! ## The order -/

/-- The lock under which alone a row is asked for. Challenges, factors and codes have
none: the second factor is answered without the key. -/
def shelter (home : Account accounts) : Resource accounts → Option (Resource accounts)
  | .user a | .session a _ | .identity a _ => some (holdTheAccount a)
  | .token a .reset _ | .token a .recovery _ => some (holdTheAccount a)
  | .setupToken _ => some (holdTheAccount home)
  | .advisory _ | .token _ .challenge _ | .factor _ _ | .recoveryCode _ _ => none

/-- Keys, the key of the role changes, challenges, factors, codes. -/
def level : Resource accounts → ℕ
  | .advisory key => if key = roleChangeLock then 1 else 0
  | .token _ _ _ | .setupToken _ => 2
  | .factor _ _ => 3
  | .recoveryCode _ _ => 4
  | .user _ | .session _ _ | .identity _ _ => 5

def gate : Resource accounts → Option (Resource accounts)
  | .token a _ _ | .factor a _ | .recoveryCode a _ => some (holdTheAccount a)
  | _ => none

def before : Resource accounts → Resource accounts → Prop
  | .advisory k, .advisory k' => place k < place k'
  | _, _ => False

def order (home : Account accounts) : LockOrder (Resource accounts) where
  shelter := shelter home
  level := level
  gate := gate
  before := before
  irrefl := by
    intro r h
    cases r <;> first | exact lt_irrefl _ h | exact h
  trans := by
    intro a b c hab hbc
    cases a <;> cases b <;> first | exact hab.elim | skip
    cases c <;> first | exact hbc.elim | exact lt_trans hab hbc

variable {home : Account accounts} {a : Account accounts} {n m k : ℕ}
  {held p q : List (Resource accounts)}

/-- Asking for `p` follows the order and leads from level `n` to level `m`. -/
abbrev Goes (home : Account accounts) (n : ℕ) (held p : List (Resource accounts)) (m : ℕ) : Prop :=
  (order home).Goes n held p m

/-- The account's key again, and rows that only its holder asks for. -/
theorem goes_keyed (hkey : holdTheAccount a ∈ held)
    (hp : ∀ r ∈ p, r = holdTheAccount a ∨ shelter home r = some (holdTheAccount a)) :
    Goes home n held p n := by
  refine LockOrder.goes_sheltered fun r hr => ?_
  rcases hp r hr with rfl | hshelter
  · exact .inl hkey
  · exact .inr ⟨_, hkey, hshelter⟩

theorem level_key (u : UserId) : level (.advisory (budgetLock u) : Resource accounts) = 0 := by
  simp [level, budgetLock_ne_roleChangeLock]

/-- Keys have no gates. -/
theorem gate_of_key (x : Resource accounts) (hx : level x = n) (hn : n ≤ 1) : gate x = none := by
  cases x <;> simp [level, gate] at hx ⊢ <;> omega

/-- The keys of several accounts, in the order of the ids. -/
theorem goes_keys (users : List UserId) :
    Goes home 0 [] ((keysOf users).map .advisory) 1 := by
  refine LockOrder.goes_ordered le_rfl (fun x _ hx => gate_of_key x hx (Nat.zero_le 1)) ?_ ?_
  · intro r hr
    rcases List.mem_map.1 hr with ⟨key, hkey, rfl⟩
    rcases exists_of_mem_keysOf hkey with ⟨u, _, rfl⟩
    have hzero : level (.advisory (budgetLock u) : Resource accounts) = 0 := level_key u
    exact ⟨rfl, hzero⟩
  · refine List.pairwise_map.2 (pairwise_keysOf.imp fun hkeys => ?_)
    rcases hkeys with rfl | hlt
    · exact .inl rfl
    · exact .inr hlt

theorem goes_key (a : Account accounts) : Goes home 0 [] [holdTheAccount a] 1 :=
  goes_keys [a.1]

theorem goes_roleChangeLock : Goes home 1 held [.advisory roleChangeLock] 2 := by
  refine LockOrder.goes_ordered le_rfl (fun x _ hx => gate_of_key x hx le_rfl) ?_
    (List.pairwise_singleton _ _)
  intro r hr
  rw [List.mem_singleton.1 hr]
  exact ⟨rfl, by simp [order, level]⟩

/-! ## The transactions -/

/-- Once the account's key is held, only sheltered rows. -/
theorem goes_of_keyed
    (hp : ∀ r ∈ p, r = holdTheAccount a ∨ shelter home r = some (holdTheAccount a)) :
    Goes home 0 [] (holdTheAccount a :: p) 1 :=
  (goes_key a).append (goes_keyed List.mem_cons_self hp)

theorem Links.rows_keyed (l : Links) {r : Resource accounts} (hr : r ∈ l.rows a) :
    shelter home r = some (holdTheAccount a) := by
  rcases List.mem_append.1 hr with hr | hr
  · rcases List.mem_map.1 hr with ⟨id, _, rfl⟩
    rfl
  · rcases List.mem_map.1 hr with ⟨id, _, rfl⟩
    rfl

theorem sessions_keyed (ids : List Uuid) {r : Resource accounts}
    (hr : r ∈ ids.map (Resource.session a)) : shelter home r = some (holdTheAccount a) := by
  rcases List.mem_map.1 hr with ⟨id, _, rfl⟩
  rfl

theorem identities_keyed (ids : List Uuid) {r : Resource accounts}
    (hr : r ∈ ids.map (Resource.identity a)) : shelter home r = some (holdTheAccount a) := by
  rcases List.mem_map.1 hr with ⟨id, _, rfl⟩
  rfl

theorem rotateAndRevokeOthers_keyed (spendCapabilities : Bool) (x : Rotation)
    {r : Resource accounts} (hr : r ∈ rotateAndRevokeOthers a spendCapabilities x) :
    r = holdTheAccount a ∨ shelter home r = some (holdTheAccount a) := by
  simp only [rotateAndRevokeOthers, List.mem_append, List.mem_singleton] at hr
  rcases hr with (((hkey | hlinks) | hlive) | hothers) | rfl
  · exact .inl hkey
  · split at hlinks
    · exact .inr (x.links.rows_keyed hlinks)
    · cases hlinks
  · exact .inr (sessions_keyed _ hlive)
  · exact .inr (sessions_keyed _ hothers)
  · exact .inr rfl

/-- A factor and what proves it: its own counter, or one of the account's codes. -/
theorem goes_spend (hkey : holdTheAccount a ∈ held) (hn : n ≤ 3) (factor : Uuid)
    (code : Option Uuid) :
    Goes home n held [.factor a factor, spend a factor code, .factor a factor] 4 := by
  have hfactor : Goes home n held [.factor a factor] 3 := by
    refine LockOrder.goes_gated hn fun r hr => .inr (.inr ?_)
    rw [List.mem_singleton.1 hr]
    exact ⟨rfl, rfl, _, hkey, rfl⟩
  have hspend : Goes home 3 (held ++ [.factor a factor]) [spend a factor code, .factor a factor] 4 := by
    refine LockOrder.goes_gated (by omega) fun r hr => ?_
    have hmem : Resource.factor a factor ∈ held ++ [.factor a factor] := by simp
    rcases code with _ | code
    · have hagain : r = .factor a factor := by simpa [spend] using hr
      exact .inl (hagain ▸ hmem)
    · simp only [spend, List.mem_cons, List.not_mem_nil, or_false] at hr
      rcases hr with rfl | rfl
      · exact .inr (.inr ⟨rfl, rfl, _, List.mem_append_left _ hkey, rfl⟩)
      · exact .inl hmem
  exact hfactor.append hspend

theorem goes_codes (hkey : holdTheAccount a ∈ held) (hn : n ≤ 4) (codes : List Uuid) :
    Goes home n held (codes.map (.recoveryCode a)) 4 := by
  refine LockOrder.goes_gated hn fun r hr => .inr (.inr ?_)
  rcases List.mem_map.1 hr with ⟨code, _, rfl⟩
  exact ⟨rfl, rfl, _, hkey, rfl⟩

theorem goes_factors (hkey : holdTheAccount a ∈ held) (hn : n ≤ 3) (factors : List Uuid) :
    Goes home n held (factors.map (.factor a)) 3 := by
  refine LockOrder.goes_gated hn fun r hr => .inr (.inr ?_)
  rcases List.mem_map.1 hr with ⟨factor, _, rfl⟩
  exact ⟨rfl, rfl, _, hkey, rfl⟩

theorem goes_challenges (hkey : holdTheAccount a ∈ held) (hn : n ≤ 2) (tokens : List Uuid) :
    Goes home n held (tokens.map (.token a .challenge)) 2 := by
  refine LockOrder.goes_gated hn fun r hr => .inr (.inr ?_)
  rcases List.mem_map.1 hr with ⟨token, _, rfl⟩
  exact ⟨rfl, rfl, _, hkey, rfl⟩

/-- The key, then a statement on one row after the other, each asked for alone. -/
theorem follows_single (r : Resource accounts) (hr : shelter home r = none) :
    (order home).Follows [r] :=
  .inl ⟨.inr (LockOrder.allows_of_lt hr fun x hx => by cases hx), trivial⟩

/-- The second factor is answered without the key: the challenge, the factor, the code. -/
theorem spendChallenge_follows (a : Account accounts) (token factor : Uuid) (code : Option Uuid) :
    (order home).Follows (spendChallenge a token factor code) := by
  have hfactor : (order home).Allows [.token a .challenge token] (.factor a factor) := by
    refine LockOrder.allows_of_lt rfl fun x hx _ => ?_
    rw [List.mem_singleton.1 hx]
    exact Nat.lt_succ_self 2
  have hspend : spend a factor code ∈ [.token a .challenge token, .factor a factor] ∨
      (order home).Allows [.token a .challenge token, .factor a factor] (spend a factor code) := by
    rcases code with _ | code
    · exact .inl (by simp [spend])
    · right
      refine LockOrder.allows_of_lt rfl fun x hx _ => ?_
      have hle : level x ≤ 3 := by
        simp only [List.mem_cons, List.not_mem_nil, or_false] at hx
        rcases hx with rfl | rfl
        · exact Nat.le_succ 2
        · exact le_rfl
      exact Nat.lt_succ_of_le hle
  refine .inl ⟨.inr (LockOrder.allows_of_lt rfl fun x hx => by cases hx), .inr hfactor, hspend, ?_⟩
  exact ⟨.inl (by simp), trivial⟩

theorem removeFactor_goes (a : Account accounts) (factor : Uuid) (code : Option Uuid)
    (codes : List Uuid) (x : Rotation) :
    Goes home 0 [] (removeFactor a factor code codes x) 4 := by
  have hkey : Goes home 0 [] [holdTheAccount a] 1 := goes_key a
  have hproof := hkey.append (goes_spend (a := a) (by simp) (by omega) factor code)
  have hcodes := hproof.append (goes_codes (a := a) (by simp) le_rfl codes)
  exact hcodes.append (goes_keyed (a := a) (by simp) fun r => rotateAndRevokeOthers_keyed false x)

theorem confirmEnrolment_goes (a : Account accounts) (replacing : Option (Uuid × Option Uuid))
    (codes : List Uuid) (x : Rotation) :
    Goes home 0 [] (confirmEnrolment a replacing codes x) 4 := by
  have hproof : Goes home 1 [holdTheAccount a] (match replacing with
      | some (factor, code) => [.factor a factor, spend a factor code, .factor a factor]
      | none => []) 4 := by
    rcases replacing with _ | ⟨factor, code⟩
    · exact goes_codes (a := a) (by simp) (by omega) []
    · exact goes_spend (a := a) (by simp) (by omega) factor code
  have hcodes := ((goes_key a).append hproof).append (goes_codes (a := a) (by simp) le_rfl codes)
  exact hcodes.append (goes_keyed (a := a) (by simp) fun r => rotateAndRevokeOthers_keyed false x)

/-- The rows of an account that only the holder of its key asks for. -/
theorem goes_account (hkey : holdTheAccount a ∈ held) (links : Links) (sessions : List Uuid) :
    Goes home n held (links.rows a ++ sessions.map (.session a)) n := by
  refine goes_keyed hkey fun r hr => .inr ?_
  rcases List.mem_append.1 hr with hr | hr
  · exact links.rows_keyed hr
  · exact sessions_keyed sessions hr

theorem goes_user (hkey : holdTheAccount a ∈ held) : Goes home n held [.user a] n := by
  refine goes_keyed hkey fun r hr => .inr ?_
  rw [List.mem_singleton.1 hr]
  rfl

theorem changeRole_goes (a : Account accounts) (links : Links) (sessions : List Uuid) :
    Goes home 0 [] (changeRole a links sessions) 2 := by
  have hkey : Goes home 0 [] [holdTheAccount a] 1 := goes_key a
  have hkeys := hkey.append goes_roleChangeLock
  have huser := hkeys.append (goes_user (a := a) (by simp))
  have hrows := huser.append (goes_account (a := a) (by simp) links sessions)
  simpa [changeRole] using hrows

/-- Back to `active`, it stops after the account's row. -/
theorem changeState_goes (a : Account accounts) (active : Bool) (links : Links)
    (sessions : List Uuid) : Goes home 0 [] (changeState a active links sessions) 2 := by
  have hkey : Goes home 0 [] [holdTheAccount a] 1 := goes_key a
  have hkeys := hkey.append goes_roleChangeLock
  have huser := hkeys.append (goes_user (a := a) (by simp))
  have hrows := huser.append (goes_account (a := a) (by simp) links sessions)
  by_cases hactive : active
  · simpa [changeState, hactive] using huser
  · simpa [changeState, hactive] using hrows

theorem requestDeletion_goes (a : Account accounts) (challenges : List Uuid) (links : Links)
    (sessions : List Uuid) :
    Goes home 0 [] (requestDeletion a challenges links sessions) 2 := by
  have hkey : Goes home 0 [] [holdTheAccount a] 1 := goes_key a
  have huser := hkey.append (goes_user (a := a) (by simp))
  have hchallenges := huser.append (goes_challenges (a := a) (by simp) (by omega) challenges)
  have hrows := hchallenges.append (goes_account (a := a) (by simp) links sessions)
  simpa [requestDeletion] using hrows

theorem clearFactor_goes (a : Account accounts) (factors codes sessions : List Uuid) :
    Goes home 0 [] (clearFactor a factors codes sessions) 4 := by
  have hkey : Goes home 0 [] [holdTheAccount a] 1 := goes_key a
  have hread := hkey.append (goes_factors (a := a) (by simp) (by omega) factors)
  have hdelete := hread.append (goes_factors (a := a) (by simp) le_rfl factors)
  have hcodes := hdelete.append (goes_codes (a := a) (by simp) (by omega) codes)
  exact hcodes.append (goes_keyed (a := a) (by simp) fun r hr => .inr (sessions_keyed sessions hr))

/-- Every row of the accounts' tables belongs to one of the accounts whose keys it took. -/
theorem collapse_goes (home : Account accounts) (c : Collapse accounts) :
    Goes home 0 [] (collapse home c) 4 := by
  have hkey : ∀ b : Account accounts,
      holdTheAccount b ∈ ((keysOf accounts).map .advisory : List (Resource accounts)) :=
    fun b => List.mem_map_of_mem (mem_keysOf b.2)
  have hkeys : Goes home 0 [] ((keysOf accounts).map .advisory) 1 := goes_keys accounts
  have htokens := hkeys.append
    (q := c.tokens.map fun t => .token t.1 t.2.1 t.2.2) <|
    LockOrder.goes_gated (m := 2) (by omega) fun r hr => by
      rcases List.mem_map.1 hr with ⟨⟨b, purpose, id⟩, _, rfl⟩
      have hb := List.mem_append_right [] (hkey b)
      cases purpose with
      | reset | recovery => exact .inr (.inl ⟨_, hb, rfl⟩)
      | challenge => exact .inr (.inr ⟨rfl, rfl, _, hb, rfl⟩)
  have hsetup := htokens.append (q := c.setupTokens.map Resource.setupToken) <|
    LockOrder.goes_gated (m := 2) le_rfl fun r hr => by
      rcases List.mem_map.1 hr with ⟨id, _, rfl⟩
      exact .inr (.inl ⟨_, by simp [hkey home], rfl⟩)
  have hfactors := hsetup.append (q := c.factors.map fun f => .factor f.1 f.2) <|
    LockOrder.goes_gated (m := 3) (by omega) fun r hr => by
      rcases List.mem_map.1 hr with ⟨f, _, rfl⟩
      exact .inr (.inr ⟨rfl, rfl, _, by simp [hkey f.1], rfl⟩)
  have hcodes := hfactors.append (q := c.codes.map fun k => .recoveryCode k.1 k.2) <|
    LockOrder.goes_gated (m := 4) (by omega) fun r hr => by
      rcases List.mem_map.1 hr with ⟨k, _, rfl⟩
      exact .inr (.inr ⟨rfl, rfl, _, by simp [hkey k.1], rfl⟩)
  have hrest := hcodes.append (q := (c.sessions.map fun s => .session s.1 s.2) ++
      (c.identities.map fun i => Resource.identity i.1 i.2) ++ (c.users.filter (· ≠ home)).map Resource.user ++
      [.user home]) <|
    LockOrder.goes_gated (m := 4) le_rfl fun r hr => by
      have howned : ∃ b : Account accounts, shelter home r = some (holdTheAccount b) := by
        simp only [List.mem_append, List.mem_map, List.mem_singleton] at hr
        rcases hr with ((⟨s, _, rfl⟩ | ⟨i, _, rfl⟩) | ⟨u, _, rfl⟩) | rfl
        · exact ⟨s.1, rfl⟩
        · exact ⟨i.1, rfl⟩
        · exact ⟨u, rfl⟩
        · exact ⟨home, rfl⟩
      rcases howned with ⟨b, hb⟩
      exact .inr (.inl ⟨_, by simp [hkey b], hb⟩)
  simpa only [collapse, List.append_assoc] using hrest

/-- Every transaction follows the order. -/
theorem Transaction.follows (t : Transaction accounts) :
    (order home).Follows (t.locks home) := by
  cases t with
  | beginChallenge a outstanding =>
    exact ((goes_key a).append (goes_challenges (by simp) (by omega) outstanding)).follows
  | countAttempt a token => exact follows_single _ rfl
  | spendChallenge a token factor code => exact spendChallenge_follows a token factor code
  | mintBehindTheGate a => exact (goes_key a).follows
  | spendReplacementAttempt a factor => exact follows_single _ rfl
  | removeFactor a factor code codes x => exact (removeFactor_goes a factor code codes x).follows
  | confirmEnrolment a replacing codes x => exact (confirmEnrolment_goes a replacing codes x).follows
  | changePassword a existing x =>
    refine (goes_of_keyed fun r hr => ?_).follows
    rcases List.mem_append.1 hr with hr | hr
    · rw [List.mem_singleton.1 hr]
      cases existing <;> exact .inr rfl
    · exact rotateAndRevokeOthers_keyed true x hr
  | changeEmail a identities x =>
    refine (goes_of_keyed fun r hr => ?_).follows
    rcases List.mem_append.1 hr with hr | hr
    · rcases List.mem_cons.1 hr with rfl | hr
      · exact .inr rfl
      · exact .inr (identities_keyed identities hr)
    · exact rotateAndRevokeOthers_keyed true x hr
  | unlinkIdentity a held linked x =>
    refine (goes_of_keyed fun r hr => ?_).follows
    rcases List.mem_append.1 hr with hr | hr
    · have hall : r ∈ (held ++ [linked]).map (Resource.identity a) := by simpa using hr
      exact .inr (identities_keyed _ hall)
    · exact rotateAndRevokeOthers_keyed true x hr
  | link a verified x =>
    refine (goes_of_keyed fun r hr => ?_).follows
    rcases List.mem_append.1 hr with hr | hr
    · cases verified with
      | true => exact .inr (List.mem_singleton.1 hr ▸ rfl)
      | false => cases hr
    · exact rotateAndRevokeOthers_keyed true x hr
  | completeReset a recovery token identities sessions =>
    refine (goes_of_keyed fun r hr => .inr ?_).follows
    rcases List.mem_append.1 hr with hr | hr
    · rcases List.mem_cons.1 hr with rfl | hr
      · cases recovery <;> rfl
      · exact identities_keyed identities hr
    · exact sessions_keyed sessions hr
  | changeRole a links sessions => exact (changeRole_goes a links sessions).follows
  | changeState a active links sessions => exact (changeState_goes a active links sessions).follows
  | requestDeletion a challenges links sessions =>
    exact (requestDeletion_goes a challenges links sessions).follows
  | restore a => exact ((goes_key a).append (goes_user (by simp))).follows
  | revoke a session =>
    exact (goes_of_keyed fun r hr => .inr (sessions_keyed [session, session] hr)).follows
  | revokeAll a sessions =>
    exact (goes_of_keyed fun r hr => .inr (sessions_keyed sessions hr)).follows
  | collapse c => exact (collapse_goes home c).follows
  | clearFactor a factors codes sessions => exact (clearFactor_goes a factors codes sessions).follows

/-- In every run of the account transactions the waits-for graph has no cycle. -/
theorem account_transactions_never_deadlock {τ : Type*} [DecidableEq τ]
    {s : LockOrder.State τ (Resource accounts)}
    (h : (LockOrder.machine (τ := τ) (Transaction.locks home)).Reach Machine.anyStep s) :
    LockOrder.Acyclic s := by
  have hfollows : ∀ t : Transaction accounts, True → (order home).Follows (t.locks home) :=
    fun t _ => t.follows
  refine LockOrder.acyclic_of_follows hfollows (h.mono fun s l _ => ?_)
  cases l <;> trivial

/-! ## A run -/

def sampleHome : UserId := ⟨⟨4 * 2 ^ 76, by decide⟩, by decide⟩

def sampleOther : UserId := ⟨⟨2 ^ 64 * 2 ^ 32 + 4 * 2 ^ 76, by decide⟩, by decide⟩

def sampleAccounts : List UserId := [sampleHome, sampleOther]

def sampleAccount : Account sampleAccounts := ⟨sampleHome, by decide⟩

def sampleRows : Collapse sampleAccounts where
  tokens := [(sampleAccount, .challenge, 1)]
  setupTokens := [2]
  factors := [(sampleAccount, 3)]
  codes := [(sampleAccount, 4)]
  sessions := []
  identities := []
  users := [sampleAccount]

/-- An answer to a challenge waits for the factor that `collapse` has deleted. -/
def sampleWaiting : LockOrder.State Bool (Resource sampleAccounts) :=
  ((LockOrder.machine (Transaction.locks sampleAccount)).run LockOrder.idle
    [.start true (.collapse sampleRows), .start false (.spendChallenge sampleAccount 5 3 (some 4)),
      .take true, .take false, .take true, .take true, .take true, .take true]).getD LockOrder.idle

theorem account_transactions_never_deadlock_sample :
    LockOrder.Waits sampleWaiting false true ∧ LockOrder.Acyclic sampleWaiting := by
  have hrun : (LockOrder.machine (Transaction.locks sampleAccount)).run LockOrder.idle
      [.start true (.collapse sampleRows),
        .start false (.spendChallenge sampleAccount 5 3 (some 4)),
        .take true, .take false, .take true, .take true, .take true, .take true] =
      some sampleWaiting := rfl
  have hstart : (LockOrder.machine (Transaction.locks sampleAccount)).Reach Machine.anyStep
      (LockOrder.idle : LockOrder.State Bool (Resource sampleAccounts)) := Machine.Reach.of_init rfl
  have hreach := hstart.path (Machine.path_of_run_any hrun)
  exact ⟨⟨_, _, rfl, rfl, by decide⟩, account_transactions_never_deadlock hreach⟩

end Potocolom.Locks.Accounts
