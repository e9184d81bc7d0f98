import Potocolom.Keys.Ring
import Potocolom.Lib.Machine

/-! # Rotating the root keys

Two tables hold what the ring seals: the secrets of the second factors and the bodies
of the pending worker commands. `rotate_keys` moves the secrets to the active version
of its ring, and `retired_versions` tells which versions are still needed. Processes
hold rings of their own, which may differ in the version they write. -/

namespace Potocolom.Keys

open Guard

/-- `TOTP_PURPOSE`. -/
def totpPurpose : String := "totp-factors"

/-- The purpose of a command body. -/
def commandPurpose : String := "worker-command"

/-- A row of `auth_factors`. -/
structure AuthFactor where
  id : Nat
  userId : Bytes
  secretCiphertext : Bytes
  keyVersion : Nat
  deriving DecidableEq

/-- `worker_commands.state`. -/
inductive CommandState where
  | pending
  | acknowledged
  | erased
  deriving DecidableEq

/-- A row of `worker_commands`; `aad` is the context its identity columns give. -/
structure WorkerCommand where
  id : Nat
  aad : Bytes
  state : CommandState
  keyVersion : Option Nat
  encryptedBody : Option Bytes
  deriving DecidableEq

/-- A `rotate_keys` after its read: its ring, and the rows it selected. -/
structure Rotation where
  ring : KeyRing
  selected : List AuthFactor

/-- The tables, the rotations under way, and what was sealed for each row. Row ids are
drawn fresh. -/
structure World where
  factors : List AuthFactor
  commands : List WorkerCommand
  /-- `installation_auth_state.root_key_version`. -/
  rootKeyVersion : Option Nat
  rotations : Nat → Option Rotation
  nextId : Nat
  userOf : Nat → Bytes
  secretOf : Nat → Bytes
  bodyOf : Nat → Bytes

/-- What a factor's secret becomes. -/
structure Moved where
  id : Nat
  secretCiphertext : Bytes

variable (crypto : Crypto)

/-- The loop of `rotate_keys`: a version the ring does not hold is refused. -/
def Rotation.moves (rotation : Rotation) (nonces : Nat → Nonce) :
    Except KeyRingError (List Moved) :=
  rotation.selected.mapM fun factor => do
    let stored ← versionOf factor.secretCiphertext
    require (stored ∈ rotation.ring.versions)
      ⟨"root key version is missing; add it to ROOT_KEYS before rotating"⟩
    let blob ← rotation.ring.reencrypt crypto totpPurpose factor.secretCiphertext factor.userId
      (nonces factor.id)
    pure ⟨factor.id, blob⟩

/-- The row after the updates: its ciphertext and its version are written together. -/
def AuthFactor.move (factor : AuthFactor) (version : Nat) (moved : List Moved) : AuthFactor :=
  match moved.find? fun m => m.id = factor.id with
  | some m => { factor with secretCiphertext := m.secretCiphertext, keyVersion := version }
  | none => factor

/-- `retired_versions`. -/
def retiredVersions (ring : KeyRing) (w : World) : List Nat :=
  ((w.factors.map AuthFactor.keyVersion).dedup.filter fun version =>
    version ≠ ring.activeVersion).mergeSort

inductive Action where
  /-- `confirm_enrolment` replaces what the account had. -/
  | confirmEnrolment (ring : KeyRing) (userId secret : Bytes) (nonce : Nonce)
  /-- `remove_factor`, `clear_factor`. -/
  | removeFactor (userId : Bytes)
  | commitCommand (ring : KeyRing) (aad body : Bytes) (nonce : Nonce)
  | acknowledge (id : Nat)
  | eraseCommand (id : Nat)
  /-- A commit deletes acknowledged rows at or below the floor. -/
  | deleteAcknowledged (id : Nat)
  /-- `rotate_keys` selects the rows of other versions. -/
  | rotateRead (r : Nat) (ring : KeyRing)
  /-- It writes them and commits. -/
  | rotateCommit (r : Nat) (nonces : Nat → Nonce)
  /-- Its transaction fails at any point. -/
  | rotateFails (r : Nat)

/-- The ring of the process that acts. -/
def Action.ring : Action → Option KeyRing
  | .confirmEnrolment ring _ _ _ => some ring
  | .commitCommand ring _ _ _ => some ring
  | .rotateRead _ ring => some ring
  | _ => none

namespace World

/-- End a rotation. -/
def endRotation (w : World) (r : Nat) : World :=
  { w with rotations := fun r' => if r' = r then none else w.rotations r' }

/-- The columns of a command that no longer has a body. -/
def settleCommand (w : World) (id : Nat) (state : CommandState) : World :=
  { w with
    commands := w.commands.map fun c =>
      if c.id = id ∧ c.state = .pending then
        { c with state := state, keyVersion := none, encryptedBody := none }
      else c }

end World

def step (w : World) : Action → Option World
  | .confirmEnrolment ring userId secret nonce => some { w with
      factors := w.factors.filter (fun f => f.userId ≠ userId) ++
        [⟨w.nextId, userId, ring.encrypt crypto totpPurpose secret userId nonce,
          ring.activeVersion⟩]
      nextId := w.nextId + 1
      userOf := fun id => if id = w.nextId then userId else w.userOf id
      secretOf := fun id => if id = w.nextId then secret else w.secretOf id }
  | .removeFactor userId => some { w with
      factors := w.factors.filter fun f => f.userId ≠ userId }
  | .commitCommand ring aad body nonce =>
    let encrypted := ring.encrypt crypto commandPurpose body aad nonce
    match versionOf encrypted with
    | .ok version => some { w with
        commands := w.commands ++ [⟨w.nextId, aad, .pending, some version, some encrypted⟩]
        nextId := w.nextId + 1
        bodyOf := fun id => if id = w.nextId then body else w.bodyOf id }
    | .error _ => none
  | .acknowledge id => some (w.settleCommand id .acknowledged)
  | .eraseCommand id => some (w.settleCommand id .erased)
  | .deleteAcknowledged id => some { w with
      commands := w.commands.filter fun c => ¬ (c.id = id ∧ c.state = .acknowledged) }
  | .rotateRead r ring =>
    match w.rotations r with
    | none => some { w with
        rotations := fun r' =>
          if r' = r then
            some ⟨ring, w.factors.filter fun f => f.keyVersion ≠ ring.activeVersion⟩
          else w.rotations r' }
    | some _ => none
  | .rotateCommit r nonces =>
    match w.rotations r with
    | some rotation =>
      match rotation.moves crypto nonces with
      | .ok moved => some { w.endRotation r with
          factors := w.factors.map fun f => f.move rotation.ring.activeVersion moved
          rootKeyVersion := some rotation.ring.activeVersion }
      | .error _ => some (w.endRotation r)
    | none => none
  | .rotateFails r => (w.rotations r).map fun _ => w.endRotation r

/-- An install that has sealed nothing yet. -/
def start : World := ⟨[], [], none, fun _ => none, 0, fun _ => [], fun _ => [], fun _ => []⟩

def machine : Machine World Action where
  init w := w = start
  step := step crypto

/-! ## Rings of one install -/

variable (roots : Nat → Bytes)

/-- A ring of the install: each version names one root key everywhere. -/
def KeyRing.Of (ring : KeyRing) : Prop := ∀ e ∈ ring.entries, e.2 = roots e.1

/-- Every process that acts holds a ring of the install. -/
def OneInstall (_ : World) (l : Action) : Prop := ∀ ring, l.ring = some ring → ring.Of roots

variable {crypto roots} {w t : World}

theorem root_of {ring : KeyRing} (h : ring.Of roots) {version : Nat}
    (hversion : version ∈ ring.versions) : ring.root version = .ok (roots version) := by
  rw [KeyRing.root, demand_eq_ok, Option.map_eq_some_iff]
  rcases hfind : ring.entries.find? fun e => e.1 = version with _ | e
  · rw [List.find?_eq_none] at hfind
    rcases List.mem_map.1 hversion with ⟨e, he, hkey⟩
    exact absurd hkey (by simpa using hfind e he)
  · have hkey : e.1 = version := by simpa using List.find?_some hfind
    refine ⟨e, hfind, ?_⟩
    rw [h e (List.mem_of_find?_eq_some hfind), hkey]

theorem activeOnly_of {ring : KeyRing} (h : ring.Of roots) : ring.activeOnly.Of roots := by
  intro e he
  rw [List.mem_singleton.1 he]
  exact h _ List.mem_cons_self

theorem activeVersion_mem (ring : KeyRing) : ring.activeVersion ∈ ring.versions :=
  List.mem_cons_self

theorem activeVersion_le (ring : KeyRing) : ring.activeVersion ≤ maxVersion :=
  (ring.bounded _ List.mem_cons_self).2

/-! ## What the rows hold -/

/-- A blob of the install: sealed under a version, with the version's root. -/
def Holds (crypto : Crypto) (roots : Nat → Bytes) (version : Nat) (purpose : String)
    (plaintext aad blob : Bytes) : Prop :=
  version ≤ maxVersion ∧
    ∃ nonce, blob = sealUnder crypto (version, roots version) purpose plaintext aad nonce

/-- The rings that hold its version open it. -/
theorem Holds.opens {version : Nat} {purpose : String} {plaintext aad blob : Bytes}
    (h : Holds crypto roots version purpose plaintext aad blob) {ring : KeyRing}
    (hring : ring.Of roots) (hversion : version ∈ ring.versions) :
    ring.decrypt crypto purpose blob aad = .ok plaintext := by
  rcases h with ⟨hmax, nonce, rfl⟩
  exact decrypt_sealed hmax (root_of hring hversion)

/-- No other ring does. -/
theorem Holds.version {version : Nat} {purpose : String} {plaintext aad blob opened : Bytes}
    (h : Holds crypto roots version purpose plaintext aad blob) {ring : KeyRing}
    (hopen : ring.decrypt crypto purpose blob aad = .ok opened) : version ∈ ring.versions := by
  rcases h with ⟨hmax, nonce, rfl⟩
  exact decrypt_ok_version hmax hopen

theorem holds_encrypt {ring : KeyRing} (hring : ring.Of roots) (purpose : String)
    (plaintext aad : Bytes) (nonce : Nonce) :
    Holds crypto roots ring.activeVersion purpose plaintext aad
      (ring.encrypt crypto purpose plaintext aad nonce) := by
  refine ⟨activeVersion_le ring, nonce, ?_⟩
  have hactive : ring.active = (ring.activeVersion, roots ring.activeVersion) := by
    have hroot := hring ring.active List.mem_cons_self
    exact Prod.ext rfl hroot
  rw [KeyRing.encrypt, ← hactive]

/-- The factor's blob holds the secret of its row, under the version of its column. -/
def FactorHolds (crypto : Crypto) (roots : Nat → Bytes) (w : World) (f : AuthFactor) : Prop :=
  f.id < w.nextId ∧ f.userId = w.userOf f.id ∧
    Holds crypto roots f.keyVersion totpPurpose (w.secretOf f.id) f.userId f.secretCiphertext

/-- The command's body, where it has one, is under the version of its column. -/
def CommandHolds (crypto : Crypto) (roots : Nat → Bytes) (w : World) (c : WorkerCommand) : Prop :=
  c.id < w.nextId ∧ c.encryptedBody.isSome = c.keyVersion.isSome ∧
    ∀ version ∈ c.keyVersion, ∀ blob ∈ c.encryptedBody,
      Holds crypto roots version commandPurpose (w.bodyOf c.id) c.aad blob

/-- Every blob, stored or read by a rotation, holds what was sealed for its row. -/
structure Inv (crypto : Crypto) (roots : Nat → Bytes) (w : World) : Prop where
  factors : ∀ f ∈ w.factors, FactorHolds crypto roots w f
  commands : ∀ c ∈ w.commands, CommandHolds crypto roots w c
  rings : ∀ r rotation, w.rotations r = some rotation → rotation.ring.Of roots
  selected : ∀ r rotation, w.rotations r = some rotation →
    ∀ f ∈ rotation.selected, FactorHolds crypto roots w f

theorem start_inv : Inv crypto roots start where
  factors := by
    intro f hf
    cases hf
  commands := by
    intro c hc
    cases hc
  rings := by
    intro r rotation hr
    cases hr
  selected := by
    intro r rotation hr
    cases hr

theorem FactorHolds.mono {f : AuthFactor} (h : FactorHolds crypto roots w f)
    (hnext : w.nextId ≤ t.nextId) (huser : ∀ id < w.nextId, t.userOf id = w.userOf id)
    (hsecret : ∀ id < w.nextId, t.secretOf id = w.secretOf id) :
    FactorHolds crypto roots t f := by
  rcases h with ⟨hid, hof, hholds⟩
  refine ⟨hid.trans_le hnext, ?_, ?_⟩
  · rw [huser f.id hid]
    exact hof
  · rw [hsecret f.id hid]
    exact hholds

theorem CommandHolds.mono {c : WorkerCommand} (h : CommandHolds crypto roots w c)
    (hnext : w.nextId ≤ t.nextId) (hbody : ∀ id < w.nextId, t.bodyOf id = w.bodyOf id) :
    CommandHolds crypto roots t c := by
  rcases h with ⟨hid, hsome, hholds⟩
  refine ⟨hid.trans_le hnext, hsome, ?_⟩
  rw [hbody c.id hid]
  exact hholds

/-! ## A rotation -/

/-- What a move writes for a selected row that holds its secret. -/
theorem moves_holds {rotation : Rotation} {nonces : Nat → Nonce} {moved : List Moved}
    (hring : rotation.ring.Of roots)
    (hselected : ∀ f ∈ rotation.selected, FactorHolds crypto roots w f)
    (h : rotation.moves crypto nonces = .ok moved) :
    List.Forall₂ (fun f m => m.id = f.id ∧
      Holds crypto roots rotation.ring.activeVersion totpPurpose (w.secretOf f.id) f.userId
        m.secretCiphertext) rotation.selected moved := by
  unfold Rotation.moves at h
  generalize rotation.selected = selected at h hselected
  induction selected generalizing moved with
  | nil =>
    cases h
    exact .nil
  | cons f selected ih =>
    simp only [List.mapM_cons, bind_eq_ok, pure_eq_ok, require_eq_ok] at h
    rcases h with ⟨m, ⟨stored, hstored, _, hin, blob, hblob, rfl⟩, rest, hrest, rfl⟩
    refine .cons ⟨rfl, ?_⟩ (ih hrest fun g hg => hselected g (List.mem_cons_of_mem _ hg))
    have hf := hselected f List.mem_cons_self
    -- the blob's version is the row's, so the ring opens it to the row's secret
    have hversion : stored = f.keyVersion := by
      rcases hf.2.2 with ⟨hmax, nonce, hseal⟩
      rw [hseal, versionOf_sealUnder hmax] at hstored
      exact (Except.ok.inj hstored).symm
    rw [hversion] at hin
    simp only [KeyRing.reencrypt, bind_eq_ok, pure_eq_ok] at hblob
    rcases hblob with ⟨plaintext, hopen, rfl⟩
    rw [hf.2.2.opens hring hin] at hopen
    cases hopen
    exact holds_encrypt hring _ _ _ _

@[simp] theorem move_id (f : AuthFactor) (version : Nat) (moved : List Moved) :
    (f.move version moved).id = f.id := by
  unfold AuthFactor.move
  split <;> rfl

@[simp] theorem move_userId (f : AuthFactor) (version : Nat) (moved : List Moved) :
    (f.move version moved).userId = f.userId := by
  unfold AuthFactor.move
  split <;> rfl

/-- A move carries the id of the row it was made for. -/
theorem exists_selected {P : AuthFactor → Moved → Prop} {selected : List AuthFactor}
    {moved : List Moved} (h : List.Forall₂ P selected moved) {m : Moved} (hm : m ∈ moved) :
    ∃ f ∈ selected, P f m := by
  induction h with
  | nil => cases hm
  | cons hp _ ih =>
    rcases List.mem_cons.1 hm with rfl | hm
    · exact ⟨_, List.mem_cons_self, hp⟩
    · rcases ih hm with ⟨f, hf, hfm⟩
      exact ⟨f, List.mem_cons_of_mem _ hf, hfm⟩

theorem exists_moved {P : AuthFactor → Moved → Prop} {selected : List AuthFactor}
    {moved : List Moved} (h : List.Forall₂ P selected moved) {f : AuthFactor}
    (hf : f ∈ selected) : ∃ m ∈ moved, P f m := by
  induction h with
  | nil => cases hf
  | cons hp _ ih =>
    rcases List.mem_cons.1 hf with rfl | hf
    · exact ⟨_, List.mem_cons_self, hp⟩
    · rcases ih hf with ⟨m, hm, hfm⟩
      exact ⟨m, List.mem_cons_of_mem _ hm, hfm⟩

/-- A rotation that goes through keeps every secret. -/
theorem Inv.moved (h : Inv crypto roots w) {r : Nat} {rotation : Rotation} {nonces : Nat → Nonce}
    {moved : List Moved} (hr : w.rotations r = some rotation)
    (hmoves : rotation.moves crypto nonces = .ok moved) {f : AuthFactor} (hf : f ∈ w.factors) :
    FactorHolds crypto roots w (f.move rotation.ring.activeVersion moved) := by
  have hall := moves_holds (h.rings r rotation hr) (h.selected r rotation hr) hmoves
  rcases h.factors f hf with ⟨hid, huser, hholds⟩
  refine ⟨by rw [move_id]; exact hid, by rw [move_id, move_userId]; exact huser, ?_⟩
  rw [move_id, move_userId]
  unfold AuthFactor.move
  split
  · next m hm =>
    have hkey : m.id = f.id := by simpa using List.find?_some hm
    rcases exists_selected hall (List.mem_of_find?_eq_some hm) with ⟨g, hg, hgm, hgholds⟩
    have hsame : f.id = g.id := hkey.symm.trans hgm
    have hguser := (h.selected r rotation hr g hg).2.1
    rw [huser, hsame, ← hguser]
    exact hgholds
  · exact hholds

/-! ## Every step -/

theorem Inv.endRotation (h : Inv crypto roots w) (r : Nat) : Inv crypto roots (w.endRotation r) := by
  have hrotations : ∀ r' rotation, (w.endRotation r).rotations r' = some rotation →
      w.rotations r' = some rotation := by
    intro r' rotation hr'
    by_cases heq : r' = r
    · simp [World.endRotation, heq] at hr'
    · simpa [World.endRotation, heq] using hr'
  constructor
  · exact h.factors
  · exact h.commands
  · intro r' rotation hr'
    exact h.rings r' rotation (hrotations r' rotation hr')
  · intro r' rotation hr'
    exact h.selected r' rotation (hrotations r' rotation hr')

theorem Inv.settleCommand (h : Inv crypto roots w) (id : Nat) (state : CommandState) :
    Inv crypto roots (w.settleCommand id state) := by
  constructor
  · exact h.factors
  · intro c hc
    rcases List.mem_map.1 hc with ⟨old, hold, rfl⟩
    have hholds := h.commands old hold
    by_cases hsettled : old.id = id ∧ old.state = .pending
    · rw [if_pos hsettled]
      refine ⟨hholds.1, rfl, ?_⟩
      intro version hversion
      cases hversion
    · rw [if_neg hsettled]
      exact hholds
  · exact h.rings
  · exact h.selected

/-- Rows may go, and the rest of the invariant is about those that stay. -/
theorem Inv.shrink (h : Inv crypto roots w) {factors : List AuthFactor}
    {commands : List WorkerCommand} (hfactors : factors ⊆ w.factors)
    (hcommands : commands ⊆ w.commands) :
    Inv crypto roots { w with factors := factors, commands := commands } where
  factors f hf := h.factors f (hfactors hf)
  commands c hc := h.commands c (hcommands hc)
  rings := h.rings
  selected := h.selected

theorem Inv.step {l : Action} (h : Inv crypto roots w) (hl : OneInstall roots w l)
    (hst : (machine crypto).step w l = some t) : Inv crypto roots t := by
  cases l with
  | confirmEnrolment ring userId secret nonce =>
    cases hst
    have hring := hl ring rfl
    have hfresh : ∀ (x : Bytes) (old : Nat → Bytes), ∀ id < w.nextId,
        (fun id => if id = w.nextId then x else old id) id = old id := by
      intro x old id hid
      exact if_neg (Nat.ne_of_lt hid)
    constructor
    · intro f hf
      rcases List.mem_append.1 hf with hf | hf
      · have hold := h.factors f (List.mem_filter.1 hf).1
        exact hold.mono (Nat.le_succ _) (hfresh userId w.userOf) (hfresh secret w.secretOf)
      · rw [List.mem_singleton.1 hf]
        refine ⟨Nat.lt_succ_self _, ?_, ?_⟩
        · simp only [if_true]
        · simp only [if_true]
          exact holds_encrypt hring _ _ _ _
    · intro c hc
      exact (h.commands c hc).mono (Nat.le_succ _) fun _ _ => rfl
    · exact h.rings
    · intro r rotation hr f hf
      exact (h.selected r rotation hr f hf).mono (Nat.le_succ _) (hfresh userId w.userOf)
        (hfresh secret w.secretOf)
  | removeFactor userId =>
    cases hst
    exact h.shrink List.filter_sublist.subset (List.Subset.refl _)
  | commitCommand ring aad body nonce =>
    have hring := hl ring rfl
    have hholds : Holds crypto roots ring.activeVersion commandPurpose body aad
        (ring.encrypt crypto commandPurpose body aad nonce) :=
      holds_encrypt hring commandPurpose body aad nonce
    have hversion : versionOf (ring.encrypt crypto commandPurpose body aad nonce) =
        .ok ring.activeVersion := versionOf_sealUnder (activeVersion_le ring)
    simp only [machine, Keys.step, hversion] at hst
    cases hst
    have hkept : ∀ id < w.nextId,
        (fun id => if id = w.nextId then body else w.bodyOf id) id = w.bodyOf id := by
      intro id hid
      exact if_neg (Nat.ne_of_lt hid)
    constructor
    · intro f hf
      exact (h.factors f hf).mono (Nat.le_succ _) (fun _ _ => rfl) fun _ _ => rfl
    · intro c hc
      rcases List.mem_append.1 hc with hc | hc
      · exact (h.commands c hc).mono (Nat.le_succ _) hkept
      · rw [List.mem_singleton.1 hc]
        refine ⟨Nat.lt_succ_self _, rfl, ?_⟩
        intro version hv blob hblob
        cases hv
        cases hblob
        simp only [if_true]
        exact hholds
    · exact h.rings
    · intro r rotation hr f hf
      exact (h.selected r rotation hr f hf).mono (Nat.le_succ _) (fun _ _ => rfl) fun _ _ => rfl
  | acknowledge id =>
    cases hst
    exact h.settleCommand id .acknowledged
  | eraseCommand id =>
    cases hst
    exact h.settleCommand id .erased
  | deleteAcknowledged id =>
    cases hst
    exact h.shrink (List.Subset.refl _) List.filter_sublist.subset
  | rotateRead r ring =>
    simp only [machine, Keys.step] at hst
    split at hst
    · cases hst
      have hring := hl ring rfl
      have hcases : ∀ r' rotation, (if r' = r then
            some (Rotation.mk ring (w.factors.filter fun f => f.keyVersion ≠ ring.activeVersion))
          else w.rotations r') = some rotation →
          w.rotations r' = some rotation ∨
            rotation.ring = ring ∧ rotation.selected ⊆ w.factors := by
        intro r' rotation hr'
        by_cases heq : r' = r
        · rw [if_pos heq] at hr'
          cases hr'
          exact .inr ⟨rfl, List.filter_sublist.subset⟩
        · rw [if_neg heq] at hr'
          exact .inl hr'
      constructor
      · exact h.factors
      · exact h.commands
      · intro r' rotation hr'
        rcases hcases r' rotation hr' with hold | ⟨hsame, -⟩
        · exact h.rings r' rotation hold
        · rw [hsame]
          exact hring
      · intro r' rotation hr' f hf
        rcases hcases r' rotation hr' with hold | ⟨-, hsub⟩
        · exact h.selected r' rotation hold f hf
        · exact h.factors f (hsub hf)
    · cases hst
  | rotateCommit r nonces =>
    simp only [machine, Keys.step] at hst
    split at hst
    · next rotation hr =>
      split at hst
      · next moved hmoves =>
        cases hst
        have hrest := h.endRotation r
        constructor
        · intro f hf
          rcases List.mem_map.1 hf with ⟨old, hold, rfl⟩
          exact h.moved hr hmoves hold
        · exact hrest.commands
        · exact hrest.rings
        · exact hrest.selected
      · cases hst
        exact h.endRotation r
    · cases hst
  | rotateFails r =>
    simp only [machine, Keys.step, Option.map_eq_some_iff] at hst
    rcases hst with ⟨-, -, rfl⟩
    exact h.endRotation r

theorem reach_inv (hw : (machine crypto).Reach (OneInstall roots) w) : Inv crypto roots w := by
  refine hw.invariant ?_ ?_
  · rintro _ rfl
    exact start_inv
  · intro s l t hs hl hst
    exact hs.step hl hst

/-! ## The result -/

/-- Every secret is still what was enrolled, to any ring that holds its version. -/
def World.Readable (w : World) (crypto : Crypto) (roots : Nat → Bytes) : Prop :=
  ∀ f ∈ w.factors, ∀ ring : KeyRing, ring.Of roots → f.keyVersion ∈ ring.versions →
    ring.decrypt crypto totpPurpose f.secretCiphertext f.userId = .ok (w.secretOf f.id)

/-- The ring opens every stored secret. -/
def KeyRing.OpensFactors (ring : KeyRing) (crypto : Crypto) (w : World) : Prop :=
  ∀ f ∈ w.factors,
    ring.decrypt crypto totpPurpose f.secretCiphertext f.userId = .ok (w.secretOf f.id)

/-- The ring opens every stored command body. -/
def KeyRing.OpensCommands (ring : KeyRing) (crypto : Crypto) (w : World) : Prop :=
  ∀ c ∈ w.commands, ∀ body ∈ c.encryptedBody,
    ring.decrypt crypto commandPurpose body c.aad = .ok (w.bodyOf c.id)

/-- The rotation moved every row it read that still stands, and no other. -/
def Rotation.MovesAll (rotation : Rotation) (w t : World) : Prop :=
  ∀ f ∈ t.factors,
    (f.id ∈ rotation.selected.map AuthFactor.id → f.keyVersion = rotation.ring.activeVersion) ∧
      (f.id ∉ rotation.selected.map AuthFactor.id → f ∈ w.factors)

theorem Inv.readable (h : Inv crypto roots w) : w.Readable crypto roots := by
  intro f hf ring hring hversion
  exact (h.factors f hf).2.2.opens hring hversion

theorem rotates_all {rotation : Rotation} {nonces : Nat → Nonce} {moved : List Moved}
    (h : Inv crypto roots w) {r : Nat} (hr : w.rotations r = some rotation)
    (hmoves : rotation.moves crypto nonces = .ok moved)
    (ht : t.factors = w.factors.map fun f => f.move rotation.ring.activeVersion moved) :
    rotation.MovesAll w t := by
  have hall := moves_holds (h.rings r rotation hr) (h.selected r rotation hr) hmoves
  intro f hf
  rw [ht] at hf
  rcases List.mem_map.1 hf with ⟨old, hold, rfl⟩
  rw [move_id]
  constructor
  · intro hid
    rcases List.mem_map.1 hid with ⟨g, hg, hgid⟩
    rcases exists_moved hall hg with ⟨m, hm, hmid, -⟩
    unfold AuthFactor.move
    split
    · rfl
    · next hnone =>
      rw [List.find?_eq_none] at hnone
      exact absurd (hmid.trans hgid) (by simpa using hnone m hm)
  · intro hid
    unfold AuthFactor.move
    split
    · next m hm =>
      have hkey : m.id = old.id := by simpa using List.find?_some hm
      rcases exists_selected hall (List.mem_of_find?_eq_some hm) with ⟨g, hg, hgm, -⟩
      exact absurd (List.mem_map.2 ⟨g, hg, hgm.symm.trans hkey⟩) hid
    · exact hold

theorem not_mem_retired {ring : KeyRing} (h : retiredVersions ring w = []) {f : AuthFactor}
    (hf : f ∈ w.factors) : f.keyVersion = ring.activeVersion := by
  by_contra hne
  have hmem : f.keyVersion ∈ retiredVersions ring w := by
    rw [retiredVersions, List.mem_mergeSort, List.mem_filter]
    exact ⟨List.mem_dedup.2 (List.mem_map_of_mem hf), by simpa using hne⟩
  rw [h] at hmem
  cases hmem

theorem retiredVersions_nil (ring : KeyRing) (h : w.factors = []) :
    retiredVersions ring w = [] := by
  simp [retiredVersions, h]

/-- The active key alone opens what is under the active version, and nothing else. -/
theorem activeOnly_opens {ring : KeyRing} (hring : ring.Of roots) {version : Nat}
    {purpose : String} {plaintext aad blob : Bytes}
    (h : Holds crypto roots version purpose plaintext aad blob) :
    ring.activeOnly.decrypt crypto purpose blob aad = .ok plaintext ↔
      version = ring.activeVersion := by
  constructor
  · intro hopen
    have hmem : version ∈ [ring.activeVersion] := h.version hopen
    exact List.mem_singleton.1 hmem
  · rintro rfl
    exact h.opens (activeOnly_of hring) (activeVersion_mem ring.activeOnly)

/-- Among processes whose rings are of one install: a rotation keeps every secret and
moves all rows it read or changes none; and when no version is retired, the active key
opens every secret, while it opens every pending command exactly when no pending command
is sealed under another version. -/
theorem rotation_strands (hw : (machine crypto).Reach (OneInstall roots) w) :
    (∀ r nonces t, step crypto w (.rotateCommit r nonces) = some t →
      ∃ rotation, w.rotations r = some rotation ∧ w.Readable crypto roots ∧
        t.Readable crypto roots ∧ t.secretOf = w.secretOf ∧
        t.factors.map AuthFactor.id = w.factors.map AuthFactor.id ∧
        (rotation.MovesAll w t ∨ t.factors = w.factors)) ∧
      ∀ ring : KeyRing, ring.Of roots → retiredVersions ring w = [] →
        ring.activeOnly.OpensFactors crypto w ∧
          (ring.activeOnly.OpensCommands crypto w ↔
            ∀ c ∈ w.commands, ∀ version ∈ c.keyVersion, version = ring.activeVersion) := by
  have hinv := reach_inv hw
  constructor
  · intro r nonces t hst
    have ht : Inv crypto roots t := by
      refine hinv.step (l := .rotateCommit r nonces) ?_ hst
      intro ring hring
      cases hring
    simp only [step] at hst
    split at hst
    · next rotation hr =>
      refine ⟨rotation, hr, hinv.readable, ht.readable, ?_⟩
      split at hst
      · next moved hmoves =>
        cases hst
        refine ⟨rfl, ?_, .inl (rotates_all hinv hr hmoves rfl)⟩
        rw [List.map_map]
        exact List.map_congr_left fun f _ => move_id f _ _
      · cases hst
        exact ⟨rfl, rfl, .inr rfl⟩
    · cases hst
  · intro ring hring hretired
    constructor
    · intro f hf
      exact (activeOnly_opens hring (hinv.factors f hf).2.2).2 (not_mem_retired hretired hf)
    · constructor
      · intro hopens c hc version hversion
        rcases hinv.commands c hc with ⟨-, hsome, hholds⟩
        rw [hversion] at hsome
        rcases Option.isSome_iff_exists.1 (hsome.trans rfl) with ⟨blob, hblob⟩
        exact (activeOnly_opens hring (hholds version hversion blob hblob)).1
          (hopens c hc blob hblob)
      · intro hversions c hc blob hblob
        rcases hinv.commands c hc with ⟨-, hsome, hholds⟩
        rw [hblob] at hsome
        rcases Option.isSome_iff_exists.1 (hsome.symm.trans rfl) with ⟨version, hversion⟩
        exact (activeOnly_opens hring (hholds version hversion blob hblob)).2
          (hversions c hc version hversion)

/-! ## An install of two keys -/

/-- A library whose tag is the key, as far as sixteen bytes of it go. -/
def sampleCrypto : Crypto where
  hkdf root _ := root
  aesEncrypt key _ plaintext _ := plaintext ++ (key ++ List.replicate tagBytes 0).take tagBytes
  aesDecrypt key _ ciphertext _ :=
    if ciphertext.drop (ciphertext.length - tagBytes) =
        (key ++ List.replicate tagBytes 0).take tagBytes then
      some (ciphertext.take (ciphertext.length - tagBytes))
    else none
  length_encrypt := by
    intro key nonce plaintext aad
    simp [tagBytes]
  decrypt_encrypt := by
    intro key nonce plaintext aad
    have hlength : ((key ++ List.replicate tagBytes 0).take tagBytes : Bytes).length = tagBytes := by
      simp [tagBytes]
    simp [hlength]

def sampleRoots (version : Nat) : Bytes := List.replicate keyBytes (UInt8.ofNat version)

/-- The ring before the second key. -/
def oldRing : KeyRing where
  active := (1, sampleRoots 1)
  others := []
  bounded := by simp [maxVersion]
  sized := by simp [sampleRoots]
  versions_nodup := by simp
  keys_nodup := by simp

/-- The ring with it. -/
def newRing : KeyRing where
  active := (2, sampleRoots 2)
  others := [(1, sampleRoots 1)]
  bounded := by simp [maxVersion]
  sized := by simp [sampleRoots]
  versions_nodup := by simp
  keys_nodup := by decide

def zeroNonce : Nonce := ⟨List.replicate nonceBytes 0, by simp⟩

theorem oldRing_of : oldRing.Of sampleRoots := by
  intro e he
  rw [List.mem_singleton.1 he]
  rfl

theorem newRing_of : newRing.Of sampleRoots := by
  intro e he
  rcases List.mem_cons.1 he with rfl | he
  · rfl
  · rw [List.mem_singleton.1 he]

/-- A command committed under the first key waits for its acknowledgement. -/
def samplePending : World :=
  ((step sampleCrypto start (.commitCommand oldRing [] [7] zeroNonce)).getD start)

theorem samplePending_reach :
    (machine sampleCrypto).Reach (OneInstall sampleRoots) samplePending := by
  have hstep : (machine sampleCrypto).step start (.commitCommand oldRing [] [7] zeroNonce) =
      some samplePending := rfl
  have hinit : (machine sampleCrypto).Reach (OneInstall sampleRoots) start := .of_init rfl
  refine hinit.tail ?_ hstep
  intro ring hring
  cases hring
  exact oldRing_of

theorem rotation_strands_sample :
    retiredVersions oldRing samplePending = [] ∧
      oldRing.activeOnly.OpensCommands sampleCrypto samplePending := by
  have hretired : retiredVersions oldRing samplePending = [] := retiredVersions_nil oldRing rfl
  refine ⟨hretired, ((rotation_strands samplePending_reach).2 oldRing oldRing_of hretired).2.2 ?_⟩
  intro c hc version hversion
  rw [List.mem_singleton.1 hc] at hversion
  cases hversion
  rfl

/-- The new ring reports nothing left under the first key, and its own key alone cannot
read the command that waits. -/
theorem pending_command_stranded :
    ¬ ∀ (crypto : Crypto) (roots : Nat → Bytes) (w : World),
      (machine crypto).Reach (OneInstall roots) w → ∀ ring : KeyRing, ring.Of roots →
        retiredVersions ring w = [] →
          ring.activeOnly.OpensFactors crypto w ∧ ring.activeOnly.OpensCommands crypto w := by
  intro hall
  have hopens := (hall sampleCrypto sampleRoots samplePending samplePending_reach newRing
    newRing_of (retiredVersions_nil newRing rfl)).2
  have hholds := (reach_inv samplePending_reach).commands _ List.mem_cons_self
  have hversion := (activeOnly_opens newRing_of (hholds.2.2 1 rfl _ rfl)).1
    (hopens _ List.mem_cons_self _ rfl)
  cases hversion

end Potocolom.Keys
