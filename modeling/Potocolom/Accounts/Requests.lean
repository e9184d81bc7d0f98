import Potocolom.Accounts.Changes
import Potocolom.Lib.Machine
import Potocolom.Lib.Table

/-! # Requests on one account

A request is a chain of transactions, and other requests run between any two of
them. What a request has read, and has yet to act on, is its entry in the table of
requests; what a step commits is one transaction on the account. The logs record
what no row keeps: which changes committed and in what order, what each sign-in and
each minting had read, and the state of the account when a link set a password. -/

namespace Potocolom.Accounts

open Guard

/-! ## The logs -/

/-- What a sign-in reads of an account. -/
inductive Aspect where
  | passwordHash
  | identity
  | role
  | state
  | factor
deriving DecidableEq, Repr

/-- The changes of credential or authority. -/
inductive ChangeKind where
  | password
  | reset
  | address
  | linked
  | unlinked
  | enrolment
  | removal
  | role
  | state (next : AccountState)
  | deletion
deriving DecidableEq, Repr

/-- What the change alters. -/
def ChangeKind.alters : ChangeKind → List Aspect
  | .password | .reset => [.passwordHash]
  | .address | .linked | .unlinked => [.identity]
  | .enrolment | .removal => [.factor]
  | .role => [.role]
  | .state _ | .deletion => [.state]

/-- A change back to active, the one that takes nothing away. -/
def ChangeKind.reactivates (kind : ChangeKind) : Bool := kind == .state .active

/-- The role changes, the state changes and the credential changes that spend
capabilities. -/
def ChangeKind.fencesLinks : ChangeKind → Bool
  | .password | .address | .linked | .unlinked | .role | .state _ | .deletion => true
  | .reset | .enrolment | .removal => false

/-- A committed change: the session of the request that made it, and the cookie it
rotated. -/
structure Change where
  kind : ChangeKind
  keeps : Option Nat
  presented : Option Nat
deriving DecidableEq, Repr

/-- The three ways to sign in. -/
inductive Door where
  | password
  | provider
  | challenge
deriving DecidableEq, Repr

/-- A session issued by a sign-in. Moments are counted in committed changes:
`readAt` is when it read the account, `factorReadAt` when it read the factor. -/
structure Issue where
  session : Nat
  door : Door
  readAt : Nat
  factorReadAt : Nat
  mintedAt : Nat
deriving DecidableEq, Repr

/-- What the sign-in read, and when. -/
def Issue.reads (x : Issue) : List (Aspect × Nat) :=
  match x.door with
  | .password =>
    [(.passwordHash, x.readAt), (.identity, x.readAt), (.role, x.readAt), (.state, x.readAt),
      (.factor, x.factorReadAt)]
  | .provider =>
    [(.identity, x.readAt), (.role, x.readAt), (.state, x.readAt), (.factor, x.factorReadAt)]
  | .challenge => [(.role, x.readAt), (.state, x.readAt), (.factor, x.factorReadAt)]

/-- A minted link: when its request read the account, and whether it was queued to
a mailbox. -/
structure Minted where
  token : Nat
  readAt : Nat
  queued : Bool
deriving DecidableEq, Repr

/-- A link that set the password, and the account as it was at that moment. -/
structure Accepted where
  token : Nat
  at' : Nat
  role : Role
  state : AccountState
deriving DecidableEq, Repr

/-! ## Requests in flight -/

/-- What a factor route is asked for. -/
inductive FactorGoal where
  /-- `confirm_enrolment`, with the enrolment opened and its code matched. -/
  | confirm (secret : String) (codes : List String) (step : Nat) (current : Option String)
  /-- `remove_factor`. -/
  | remove (code : String)
deriving DecidableEq, Repr

/-- The code that proves the factor being replaced or removed. -/
def FactorGoal.code : FactorGoal → Option String
  | .confirm _ _ _ current => current
  | .remove code => some code

/-- How far a factor route has got. -/
inductive FactorStage where
  | resolved
  | read (factor : AuthFactor)
  /-- The code is no recovery code. -/
  | uncharged (factor : AuthFactor)
  | proved (replacing : Option (AuthFactor × Proof))
  /-- The session was asked about after the factor was read. -/
  | live (replacing : Option (AuthFactor × Proof))
deriving DecidableEq, Repr

/-- A request between two of its transactions. -/
inductive Request where
  /-- `_deliver_reset`, after its read. -/
  | resetting (user : User) (readAt : Nat)
  /-- `mint_reset` or `mint_admin_recovery`, after its read. -/
  | minting (purpose : Purpose) (readAt : Nat)
  /-- `complete`, after the link was found. -/
  | completing (token : Nat) (password : String)
  /-- A credential route, after its principal was resolved. -/
  | credential (principal : Resolved) (call : CredentialCall)
  | factorChange (principal : Resolved) (goal : FactorGoal) (stage : FactorStage)
  /-- A sign-in that has proved what it has to, before `mint_behind_the_gate`. -/
  | signingIn (door : Door) (user : User) (rememberMe : Bool) (readAt : Nat)
      (proved : Option (Nat × Nat))
  /-- A primary login that found the gate closed. -/
  | gated
  /-- `answer_challenge`, after it counted the attempt. -/
  | guessing (challenge : Nat) (code : String) (rememberMe : Bool)
  /-- After it read the account and its factor. -/
  | challenged (challenge : Nat) (code : String) (rememberMe : Bool) (user : User)
      (factor : AuthFactor) (readAt : Nat)
  /-- After it matched the code. -/
  | matched (challenge : Nat) (rememberMe : Bool) (user : User) (factor : Nat) (proof : Proof)
      (readAt : Nat)
  | done
deriving DecidableEq, Repr

/-- When a minting request read the account, and whether its link goes to a
mailbox. -/
def Request.readForLink : Request → Option (Nat × Bool)
  | .resetting _ readAt => some (readAt, true)
  | .minting _ readAt => some (readAt, false)
  | _ => none

/-- The factor a request read and proves, and when it read it. -/
def Request.factorRead : Request → Option (Nat × Nat)
  | .signingIn _ _ _ _ proved => proved
  | .challenged _ _ _ _ factor readAt => some (factor.id, readAt)
  | .matched _ _ _ factor _ readAt => some (factor, readAt)
  | _ => none

/-! ## The machine -/

/-- The account, the clock, the requests in flight and the logs. -/
structure World where
  account : Account
  now : Time
  requests : Table Nat Request
  changes : List Change
  issues : List Issue
  minted : List Minted
  accepted : List Accepted

/-- How a primary login proves who it is. -/
inductive Proving where
  /-- `login`. -/
  | password (email password : String) (rememberMe : Bool)
  /-- `_sign_in`. -/
  | provider (provider : Provider) (subject : String)
deriving DecidableEq, Repr

/-- One transaction of one request, or of the environment. -/
inductive Action where
  | tick (seconds : Nat)
  /-- A request in this session slides its idle window. -/
  | touch (session : Nat)
  /-- `sessions.revoke`: a logout, or the session presented to a sign-in. -/
  | revoke (session : Nat)
  | changeRole (change : RoleChange)
  | changeState (change : StateChange)
  | deleteAccount
  | restore
  | purge
  /-- `_deliver_reset` reads the account. -/
  | deliverReset (r : Nat) (email : String)
  /-- It commits the token and its delivery. -/
  | queueReset (r : Nat)
  /-- `mint_reset` reads the account. -/
  | readForReset (r : Nat) (email : String)
  /-- `mint_admin_recovery` reads the account. -/
  | readForRecovery (r : Nat) (email : String)
  /-- Either takes the account key and commits its token. -/
  | mintLink (r : Nat)
  /-- `complete` looks the link up. -/
  | presentLink (r : Nat) (token : Nat) (password : String)
  | complete (r : Nat)
  /-- A credential route resolves its principal. -/
  | openCredential (r : Nat) (cookie : Nat) (call : CredentialCall)
  | changeCredential (r : Nat)
  | openEnrolment (r : Nat) (cookie : Nat) (enrolment code : String) (current : Option String)
  | openRemoval (r : Nat) (cookie : Nat) (code : String)
  /-- A factor route reads the enrolled factor. -/
  | readFactor (r : Nat)
  /-- It looks for a recovery code. -/
  | lookForCode (r : Nat)
  /-- It charges the replacement budget and tries the code as the authenticator's. -/
  | chargeAttempt (r : Nat)
  /-- `confirm_enrolment` asks whether its session is still live. -/
  | checkLive (r : Nat)
  | changeFactor (r : Nat)
  /-- `login` or `_sign_in` reads the account; the slow hash check uses that read. -/
  | signIn (r : Nat) (proving : Proving)
  | mintBehindTheGate (r : Nat)
  | beginChallenge (r : Nat)
  | claimAttempt (r : Nat) (token : Nat) (code : String) (rememberMe : Bool)
  /-- `answer_challenge` reads the account and its factor. -/
  | readChallenged (r : Nat)
  | matchCode (r : Nat)
  | winChallenge (r : Nat)
deriving DecidableEq

namespace World

variable (s : World)

/-- Set where a request stands. -/
def put (r : Nat) (request : Request) : World :=
  { s with requests := s.requests.set r request }

/-- Commit a transaction that is no change. -/
def commit (a : Account) : World := { s with account := a }

/-- Commit a change. -/
def committed (a : Account) (kind : ChangeKind) (keeps presented : Option Nat) : World :=
  { s with account := a, changes := s.changes ++ [⟨kind, keeps, presented⟩] }

/-- Commit a change that rotates the session of `principal`. -/
def rotated (a : Account) (kind : ChangeKind) (principal : Resolved) : World :=
  s.committed a kind (some principal.session.id) (some principal.session.tokenHash)

end World

/-- The change a credential route makes. -/
def CredentialCall.kind : CredentialCall → ChangeKind
  | .password .. => .password
  | .email .. => .address
  | .unlink _ => .unlinked
  | .link .. => .linked

/-- The change a factor route makes. -/
def FactorGoal.kind : FactorGoal → ChangeKind
  | .confirm .. => .enrolment
  | .remove _ => .removal

variable (env : Env)

/-- `recent_principal`, and for `_link` its own check of the linker. -/
def admits (principal : Resolved) (call : CredentialCall) (now : Time) : Bool :=
  principal.user.state == .active &&
    match call with
    | .link .. => true
    | _ => principal.session.isRecent now

/-- The read of a primary login: the account, if the proof and the state pass. -/
def primaryRead (proving : Proving) (a : Account) : Option (Door × User × Bool) :=
  match proving with
  | .password email password rememberMe =>
    match a.identities.find? fun row =>
        row.provider == .password && row.subject == env.stripLower email with
    | some identity =>
      if env.verifyPassword (identity.passwordHash.getD "") password ∧
          a.user.state.cannotSignIn = false then
        some (.password, a.user, rememberMe)
      else none
    | none => none
  | .provider provider subject =>
    if (a.identities.any fun row => row.provider == provider && row.subject == subject) ∧
        a.user.state.cannotSignIn = false then
      some (.provider, a.user, false)
    else none

/-- One transaction. -/
def step (s : World) : Action → Option World
  | .tick seconds => some { s with now := s.now + seconds }
  | .touch session =>
    some
      (s.commit
        { s.account with
          sessions := s.account.sessions.map fun row =>
            if row.id = session ∧ row.usable s.now then row.touch s.account.user.role s.now
            else row })
  | .revoke session => some (s.commit (s.account.revoke session s.now))
  | .changeRole change =>
    match s.account.changeRole change s.now with
    | .ok a => some (s.committed a .role none none)
    | .error _ => none
  | .changeState change =>
    match s.account.changeState change s.now with
    | .ok (some a) => some (s.committed a (.state change.state) none none)
    | _ => none
  | .deleteAccount => (s.account.request s.now).map (s.committed · .deletion none none)
  | .restore =>
    match s.account.restore s.now with
    | .ok (some a) => some (s.commit a)
    | _ => none
  | .purge => (s.account.claimPurge s.now).map s.commit
  | .deliverReset r email =>
    match s.account.activeAccount env email with
    | some user =>
      if user.role ≠ .admin then some (s.put r (.resetting user s.changes.length)) else none
    | none => none
  | .queueReset r =>
    match s.requests.get r with
    | some (.resetting user readAt) =>
      let (token, a) := s.account.mint .reset resetTtl s.now
      let a := { a with outbox := a.outbox ++ [⟨user.email, token⟩] }
      some { (s.commit a).put r .done with minted := s.minted ++ [⟨token, readAt, true⟩] }
    | _ => none
  | .readForReset r email =>
    (s.account.activeAccount env email).map fun _ => s.put r (.minting .reset s.changes.length)
  | .readForRecovery r email =>
    match s.account.activeAccount env email with
    | some user =>
      if user.role = .admin then some (s.put r (.minting .recovery s.changes.length)) else none
    | none => none
  | .mintLink r =>
    match s.requests.get r with
    | some (.minting purpose readAt) =>
      let ttl := if purpose = .recovery then adminRecoveryTtl else resetTtl
      let (token, a) := s.account.mint purpose ttl s.now
      some { (s.commit a).put r .done with minted := s.minted ++ [⟨token, readAt, false⟩] }
    | _ => none
  | .presentLink r token password =>
    if s.account.tokens.any (·.opens token s.now) then some (s.put r (.completing token password))
    else none
  | .complete r =>
    match s.requests.get r with
    | some (.completing token password) =>
      match s.account.complete env token password s.now with
      | .ok a =>
        let accepted : Accepted :=
          ⟨token, s.changes.length, s.account.user.role, s.account.user.state⟩
        some
          { (s.committed a .reset none none).put r .done with
            accepted := s.accepted ++ [accepted] }
      | .error _ => none
    | _ => none
  | .openCredential r cookie call =>
    match s.account.resolve cookie s.now with
    | some principal =>
      if admits principal call s.now then some (s.put r (.credential principal call)) else none
    | none => none
  | .changeCredential r =>
    match s.requests.get r with
    | some (.credential principal call) =>
      match s.account.changeCredential env principal call s.now with
      | .ok (some a) => some ((s.rotated a call.kind principal).put r .done)
      | _ => none
    | _ => none
  | .openEnrolment r cookie enrolment code current =>
    match s.account.resolve cookie s.now, env.openedEnrolment enrolment s.now with
    | some principal, some (secret, codes) =>
      match env.matchedStep secret code s.now with
      | some step =>
        if principal.user.state = .active then
          some (s.put r (.factorChange principal (.confirm secret codes step current) .resolved))
        else none
      | none => none
    | _, _ => none
  | .openRemoval r cookie code =>
    match s.account.resolve cookie s.now with
    | some principal =>
      if principal.user.state = .active ∧ principal.session.isRecent s.now then
        some (s.put r (.factorChange principal (.remove code) .resolved))
      else none
    | none => none
  | .readFactor r =>
    match s.requests.get r with
    | some (.factorChange principal goal .resolved) =>
      match s.account.enrolledFactor, goal with
      | some factor, _ => some (s.put r (.factorChange principal goal (.read factor)))
      | none, .confirm .. => some (s.put r (.factorChange principal goal (.proved none)))
      | none, .remove _ => none
    | _ => none
  | .lookForCode r =>
    match s.requests.get r with
    | some (.factorChange principal goal (.read factor)) =>
      match goal.code with
      | some code =>
        match s.account.recoveryProof env code with
        | some proof =>
          some (s.put r (.factorChange principal goal (.proved (some (factor, proof)))))
        | none => some (s.put r (.factorChange principal goal (.uncharged factor)))
      | none => none
    | _ => none
  | .chargeAttempt r =>
    match s.requests.get r with
    | some (.factorChange principal goal (.uncharged factor)) =>
      match s.account.spendReplacementAttempt factor.id with
      | some a =>
        match goal.code.bind fun code => totpProof env code factor s.now with
        | some proof =>
          some ((s.commit a).put r (.factorChange principal goal (.proved (some (factor, proof)))))
        | none => some ((s.commit a).put r .done)
      | none => none
    | _ => none
  | .checkLive r =>
    match s.requests.get r with
    | some (.factorChange principal (.confirm secret codes step current) (.proved replacing)) =>
      if s.account.sessions.any fun row => row.id == principal.session.id && row.usable s.now then
        some
          (s.put r (.factorChange principal (.confirm secret codes step current) (.live replacing)))
      else none
    | _ => none
  | .changeFactor r =>
    match s.requests.get r with
    | some (.factorChange principal (.confirm secret codes step current) (.live replacing)) =>
      match s.account.confirmEnrolment env principal replacing secret codes step s.now with
      | .ok a =>
        some ((s.rotated a (FactorGoal.confirm secret codes step current).kind principal).put r .done)
      | .error _ => none
    | some (.factorChange principal (.remove code) (.proved (some (factor, proof)))) =>
      match s.account.removeFactor principal factor proof s.now with
      | .ok a => some ((s.rotated a (FactorGoal.remove code).kind principal).put r .done)
      | .error _ => none
    | _ => none
  | .signIn r proving =>
    (primaryRead env proving s.account).map fun (door, user, rememberMe) =>
      s.put r (.signingIn door user rememberMe s.changes.length none)
  | .mintBehindTheGate r =>
    match s.requests.get r with
    | some (.signingIn door user rememberMe readAt proved) =>
      match s.account.mintBehindTheGate user rememberMe (proved.map (·.1)) s.now with
      | some (session, a) =>
        let issue : Issue :=
          { session := session.id, door := door, readAt := readAt
            factorReadAt := (proved.map (·.2)).getD s.changes.length
            mintedAt := s.changes.length }
        some { (s.commit a).put r .done with issues := s.issues ++ [issue] }
      | none => some (s.put r (if door = .challenge then .done else .gated))
    | _ => none
  | .beginChallenge r =>
    match s.requests.get r with
    | some .gated => some ((s.commit (s.account.beginChallenge s.now).2).put r .done)
    | _ => none
  | .claimAttempt r token code rememberMe =>
    (s.account.claimAttempt token s.now).map fun (challenge, a) =>
      (s.commit a).put r (.guessing challenge code rememberMe)
  | .readChallenged r =>
    match s.requests.get r with
    | some (.guessing challenge code rememberMe) =>
      match s.account.enrolledFactor with
      | some factor =>
        if s.account.user.state.cannotSignIn = false then
          some
            (s.put r
              (.challenged challenge code rememberMe s.account.user factor s.changes.length))
        else none
      | none => none
    | _ => none
  | .matchCode r =>
    match s.requests.get r with
    | some (.challenged challenge code rememberMe user factor readAt) =>
      let proof := (s.account.recoveryProof env code).or (totpProof env code factor s.now)
      proof.map fun proof => s.put r (.matched challenge rememberMe user factor.id proof readAt)
    | _ => none
  | .winChallenge r =>
    match s.requests.get r with
    | some (.matched challenge rememberMe user factor proof readAt) =>
      match s.account.winChallenge challenge factor proof s.now with
      | .ok a =>
        some
          ((s.commit a).put r
            (.signingIn .challenge user rememberMe readAt (some (factor, readAt))))
      | .error _ => none
    | _ => none

/-- The requests on one account, from any account without outstanding links and
whose live sessions hold no value still to be drawn. -/
def accountMachine : Machine World Action where
  init s :=
    (∀ row ∈ s.account.sessions,
        row.revokedAt = none → row.id < s.account.next ∧ row.tokenHash < s.account.next) ∧
      (∀ factor ∈ s.account.factor, factor.id < s.account.next) ∧
      s.account.tokens = [] ∧ s.requests = ∅ ∧
      s.changes = [] ∧ s.issues = [] ∧ s.minted = [] ∧ s.accepted = []
  step := step env

end Potocolom.Accounts
