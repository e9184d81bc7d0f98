import Potocolom.Lib.Machine

/-! # Orders on locks

Transactions ask for exclusive locks one after the other, wait for those that others
hold, and let go of all of them at once. A discipline says which locks may be asked for
while which are held. Where every transaction follows one, the waits-for graph has no
cycle.

A lock can be *sheltered* by another one, which every transaction holds by the time it
asks for the first: nobody ever waits for it. The other locks have levels, and are asked
for in ascending levels. Within a level they are either ordered, or each has a *gate*: a
transaction that asks for a second lock of the level holds the gates of both. What a
transaction asks for last it may ask for without the shelter, from below its level. -/

/-- What may be asked for, and when. -/
structure LockOrder (ρ : Type*) where
  shelter : ρ → Option ρ
  level : ρ → ℕ
  gate : ρ → Option ρ
  before : ρ → ρ → Prop
  irrefl : ∀ r, ¬ before r r
  trans : ∀ a b c, before a b → before b c → before a c

namespace LockOrder

variable {ρ τ α : Type*} (D : LockOrder ρ)

/-- Two locks of one level, the first held: they are ordered, or both gates are held. -/
def Beside (held : List ρ) (h r : ρ) : Prop :=
  (D.gate h = none ∧ D.gate r = none ∧ D.before h r) ∨
    ∃ g ∈ held, ∃ g' ∈ held, D.gate h = some g ∧ D.gate r = some g'

/-- Holding `held`, a transaction may ask for `r`. -/
def Allows (held : List ρ) (r : ρ) : Prop :=
  match D.shelter r with
  | some g => g ∈ held
  | none => ∀ h ∈ held, D.shelter h = none →
      D.level h ≤ D.level r ∧ (D.level h = D.level r → D.Beside held h r)

/-- What is asked for is held already or allowed. -/
def FollowsFrom (held : List ρ) : List ρ → Prop
  | [] => True
  | r :: rest => (r ∈ held ∨ D.Allows held r) ∧ FollowsFrom (held ++ [r]) rest

/-- A last request: it stands for its shelter, and nothing follows that could wait. -/
def Last (held : List ρ) (r : ρ) : Prop :=
  ∃ g, D.shelter r = some g ∧ D.shelter g = none ∧
    ∀ h ∈ held, D.shelter h = none → D.level h < D.level g

/-- The requests of a transaction follow the discipline. -/
def Follows (requests : List ρ) : Prop :=
  D.FollowsFrom [] requests ∨
    ∃ p r, requests = p ++ [r] ∧ D.FollowsFrom [] p ∧ D.Last p r

variable {D} {held held' p q : List ρ} {r : ρ}

theorem allows_of_sheltered {g : ρ} (hr : D.shelter r = some g) (hg : g ∈ held) :
    D.Allows held r := by
  rw [Allows, hr]
  exact hg

theorem allows_of_level (hr : D.shelter r = none)
    (h : ∀ h ∈ held, D.shelter h = none →
      D.level h ≤ D.level r ∧ (D.level h = D.level r → D.Beside held h r)) :
    D.Allows held r := by
  rw [Allows, hr]
  exact h

theorem allows_of_lt (hr : D.shelter r = none)
    (h : ∀ h ∈ held, D.shelter h = none → D.level h < D.level r) : D.Allows held r :=
  allows_of_level hr fun x hx hsx =>
    ⟨Nat.le_of_lt (h x hx hsx), fun heq => absurd heq (Nat.ne_of_lt (h x hx hsx))⟩

theorem followsFrom_append :
    D.FollowsFrom held (p ++ q) ↔ D.FollowsFrom held p ∧ D.FollowsFrom (held ++ p) q := by
  induction p generalizing held with
  | nil => simp [FollowsFrom]
  | cons r p ih =>
    simp only [List.cons_append, FollowsFrom, ih, List.append_assoc, List.nil_append, and_assoc]

/-- Asking again for what is held, and for what held locks shelter. -/
theorem followsFrom_of_sheltered
    (h : ∀ r ∈ p, r ∈ held ∨ ∃ g ∈ held, D.shelter r = some g) : D.FollowsFrom held p := by
  induction p generalizing held with
  | nil => trivial
  | cons r p ih =>
    refine ⟨?_, ih fun x hx => ?_⟩
    · rcases h r List.mem_cons_self with hmem | ⟨g, hg, hr⟩
      · exact .inl hmem
      · exact .inr (allows_of_sheltered hr hg)
    · rcases h x (List.mem_cons_of_mem _ hx) with hmem | ⟨g, hg, hx'⟩
      · exact .inl (List.mem_append_left _ hmem)
      · exact .inr ⟨g, List.mem_append_left _ hg, hx'⟩

/-- A level whose locks are asked for in their order, after lower levels. -/
theorem followsFrom_of_ordered {ℓ : ℕ}
    (h : ∀ r ∈ p, D.shelter r = none ∧ D.level r = ℓ ∧ D.gate r = none)
    (hsorted : p.Pairwise fun a b => a = b ∨ D.before a b)
    (hheld : ∀ x ∈ held, D.shelter x = none → D.level x < ℓ ∨
      (D.level x = ℓ ∧ D.gate x = none ∧ ∀ r ∈ p, r ∈ held ∨ D.before x r)) :
    D.FollowsFrom held p := by
  induction p generalizing held with
  | nil => trivial
  | cons r p ih =>
    rcases h r List.mem_cons_self with ⟨hshelter, hlevel, hgate⟩
    rw [List.pairwise_cons] at hsorted
    refine ⟨?_, ih (fun x hx => h x (List.mem_cons_of_mem _ hx)) hsorted.2 ?_⟩
    · by_cases hr : r ∈ held
      · exact .inl hr
      · right
        refine allows_of_level hshelter fun x hx hsx => ?_
        rcases hheld x hx hsx with hlt | ⟨hxl, hxg, hbefore⟩
        · rw [hlevel]
          exact ⟨Nat.le_of_lt hlt, fun heq => absurd heq (Nat.ne_of_lt hlt)⟩
        · rw [hlevel, hxl]
          refine ⟨le_rfl, fun _ => .inl ⟨hxg, hgate, ?_⟩⟩
          exact (hbefore r List.mem_cons_self).resolve_left hr
    · intro x hx hsx
      rcases List.mem_append.1 hx with hx | hx
      · rcases hheld x hx hsx with hlt | ⟨hxl, hxg, hbefore⟩
        · exact .inl hlt
        · refine .inr ⟨hxl, hxg, fun y hy => ?_⟩
          exact (hbefore y (List.mem_cons_of_mem _ hy)).imp_left (List.mem_append_left _)
      · obtain rfl := List.mem_singleton.1 hx
        refine .inr ⟨hlevel, hgate, fun y hy => (hsorted.1 y hy).imp_left ?_⟩
        rintro rfl
        exact List.mem_append_right _ hx

/-- A level whose gates are held, among locks that are sheltered or held already. -/
theorem followsFrom_of_gated {ℓ : ℕ}
    (h : ∀ r ∈ p, r ∈ held ∨ (∃ g ∈ held, D.shelter r = some g) ∨
      (D.shelter r = none ∧ D.level r = ℓ ∧ ∃ g ∈ held, D.gate r = some g))
    (hheld : ∀ x ∈ held, D.shelter x = none → D.level x < ℓ ∨
      (D.level x = ℓ ∧ ∃ g ∈ held, D.gate x = some g)) :
    D.FollowsFrom held p := by
  induction p generalizing held with
  | nil => trivial
  | cons r p ih =>
    have hgates : ∀ x, (∃ g ∈ held, D.gate x = some g) → ∃ g ∈ held ++ [r], D.gate x = some g :=
      fun x ⟨g, hg, hx⟩ => ⟨g, List.mem_append_left _ hg, hx⟩
    refine ⟨?_, ih (fun x hx => ?_) fun x hx hsx => ?_⟩
    · rcases h r List.mem_cons_self with hmem | ⟨g, hg, hr⟩ | ⟨hshelter, hlevel, g, hg, hgate⟩
      · exact .inl hmem
      · exact .inr (allows_of_sheltered hr hg)
      · right
        refine allows_of_level hshelter fun x hx hsx => ?_
        rcases hheld x hx hsx with hlt | ⟨hxl, g', hg', hxg⟩
        · rw [hlevel]
          exact ⟨Nat.le_of_lt hlt, fun heq => absurd heq (Nat.ne_of_lt hlt)⟩
        · rw [hlevel, hxl]
          exact ⟨le_rfl, fun _ => .inr ⟨g', hg', g, hg, hxg, hgate⟩⟩
    · rcases h x (List.mem_cons_of_mem _ hx) with hmem | ⟨g, hg, hsx⟩ | ⟨hsx, hlx, hgate⟩
      · exact .inl (List.mem_append_left _ hmem)
      · exact .inr (.inl ⟨g, List.mem_append_left _ hg, hsx⟩)
      · exact .inr (.inr ⟨hsx, hlx, hgates x hgate⟩)
    · have hlast : x ∈ held → D.level x < ℓ ∨
          (D.level x = ℓ ∧ ∃ g ∈ held ++ [r], D.gate x = some g) := fun hx =>
        (hheld x hx hsx).imp_right fun ⟨hxl, hgate⟩ => ⟨hxl, hgates x hgate⟩
      rcases List.mem_append.1 hx with hx | hx
      · exact hlast hx
      · obtain rfl := List.mem_singleton.1 hx
        rcases h x List.mem_cons_self with hmem | ⟨g, _, hr⟩ | ⟨_, hlevel, hgate⟩
        · exact hlast hmem
        · rw [hr] at hsx
          cases hsx
        · exact .inr ⟨hlevel, hgates x hgate⟩

/-! ## Phases -/

/-- What is held and may be waited for is below level `n`, or at it and behind a held gate. -/
def Steady (D : LockOrder ρ) (n : ℕ) (held : List ρ) : Prop :=
  ∀ x ∈ held, D.shelter x = none →
    D.level x < n ∨ (D.level x = n ∧ ∃ g ∈ held, D.gate x = some g)

/-- Asking for `p` follows the discipline and leads from level `n` to level `m`. -/
def Goes (D : LockOrder ρ) (n : ℕ) (held p : List ρ) (m : ℕ) : Prop :=
  D.Steady n held → D.FollowsFrom held p ∧ D.Steady m (held ++ p)

variable {n m k : ℕ}

theorem Steady.le (h : D.Steady n held) (hnm : n ≤ m) : D.Steady m held := by
  intro x hx hsx
  rcases h x hx hsx with hlt | ⟨heq, hgate⟩
  · exact .inl (Nat.lt_of_lt_of_le hlt hnm)
  · rcases Nat.lt_or_eq_of_le hnm with hlt | rfl
    · exact .inl (heq ▸ hlt)
    · exact .inr ⟨heq, hgate⟩

theorem Goes.append (hp : D.Goes n held p m) (hq : D.Goes m (held ++ p) q k) :
    D.Goes n held (p ++ q) k := by
  intro hsteady
  rcases hp hsteady with ⟨hfollows, hmiddle⟩
  rcases hq hmiddle with ⟨hfollows', hend⟩
  exact ⟨followsFrom_append.2 ⟨hfollows, hfollows'⟩, List.append_assoc held p q ▸ hend⟩

theorem Goes.le (h : D.Goes n held p m) (hmk : m ≤ k) : D.Goes n held p k :=
  fun hsteady => ⟨(h hsteady).1, (h hsteady).2.le hmk⟩

theorem Goes.from_le (h : D.Goes m held p k) (hnm : n ≤ m) : D.Goes n held p k :=
  fun hsteady => h (hsteady.le hnm)

theorem goes_nil : D.Goes n held [] n :=
  fun hsteady => ⟨trivial, (List.append_nil held).symm ▸ hsteady⟩

theorem Goes.followsFrom (h : D.Goes n [] p m) : D.FollowsFrom [] p :=
  (h fun x hx => by cases hx).1

theorem Goes.follows (h : D.Goes n [] p m) : D.Follows p := .inl h.followsFrom

/-- What is added is held, sheltered, below level `m`, or at it and behind a held gate. -/
theorem Steady.append (h : D.Steady n held) (hn : n ≤ m)
    (hp : ∀ r ∈ p, r ∈ held ∨ (∃ g ∈ held, D.shelter r = some g) ∨ D.level r < m ∨
      (D.level r = m ∧ ∃ g ∈ held, D.gate r = some g)) :
    D.Steady m (held ++ p) := by
  have hgates : ∀ x, (∃ g ∈ held, D.gate x = some g) → ∃ g ∈ held ++ p, D.gate x = some g :=
    fun x ⟨g, hg, hx⟩ => ⟨g, List.mem_append_left _ hg, hx⟩
  have hold : ∀ x ∈ held, D.shelter x = none →
      D.level x < m ∨ (D.level x = m ∧ ∃ g ∈ held ++ p, D.gate x = some g) := fun x hx hsx =>
    (h.le hn x hx hsx).imp_right fun ⟨heq, hgate⟩ => ⟨heq, hgates x hgate⟩
  intro x hx hsx
  rcases List.mem_append.1 hx with hx | hx
  · exact hold x hx hsx
  · rcases hp x hx with hmem | ⟨g, _, hg⟩ | hlt | ⟨heq, hgate⟩
    · exact hold x hmem hsx
    · rw [hg] at hsx
      cases hsx
    · exact .inl hlt
    · exact .inr ⟨heq, hgates x hgate⟩

/-- Again what is held, or what held locks shelter. -/
theorem goes_sheltered (hp : ∀ r ∈ p, r ∈ held ∨ ∃ g ∈ held, D.shelter r = some g) :
    D.Goes n held p n := by
  intro hsteady
  refine ⟨followsFrom_of_sheltered hp, hsteady.append le_rfl fun r hr => ?_⟩
  exact (hp r hr).imp_right .inl

/-- Locks of one level behind held gates, among some that are sheltered or held already. -/
theorem goes_gated (hnm : n ≤ m)
    (hp : ∀ r ∈ p, r ∈ held ∨ (∃ g ∈ held, D.shelter r = some g) ∨
      (D.shelter r = none ∧ D.level r = m ∧ ∃ g ∈ held, D.gate r = some g)) :
    D.Goes n held p m := by
  intro hsteady
  refine ⟨followsFrom_of_gated hp (hsteady.le hnm), hsteady.append hnm fun r hr => ?_⟩
  exact (hp r hr).imp_right (Or.imp_right fun ⟨_, hlevel, hgate⟩ => .inr ⟨hlevel, hgate⟩)

/-- A level that has an order and no gates. -/
theorem goes_ordered {ℓ : ℕ} (hnℓ : n ≤ ℓ)
    (hlevel : ∀ x, D.shelter x = none → D.level x = ℓ → D.gate x = none)
    (hp : ∀ r ∈ p, D.shelter r = none ∧ D.level r = ℓ)
    (hsorted : p.Pairwise fun a b => a = b ∨ D.before a b) : D.Goes n held p (ℓ + 1) := by
  intro hsteady
  have hbelow : ∀ x ∈ held, D.shelter x = none → D.level x < ℓ := by
    intro x hx hsx
    rcases hsteady.le hnℓ x hx hsx with hlt | ⟨heq, g, _, hgate⟩
    · exact hlt
    · rw [hlevel x hsx heq] at hgate
      cases hgate
  refine ⟨followsFrom_of_ordered (ℓ := ℓ) ?_ hsorted fun x hx hsx => .inl (hbelow x hx hsx),
    hsteady.append (Nat.le_succ_of_le hnℓ) fun r hr => ?_⟩
  · exact fun r hr => ⟨(hp r hr).1, (hp r hr).2, hlevel r (hp r hr).1 (hp r hr).2⟩
  · exact .inr (.inr (.inl ((hp r hr).2 ▸ Nat.lt_succ_self ℓ)))

/-- One lock above all that are held. -/
theorem goes_alone (hr : D.shelter r = none) (hn : n < D.level r) :
    D.Goes n held [r] (D.level r + 1) := by
  intro hsteady
  have hbelow : ∀ x ∈ held, D.shelter x = none → D.level x < D.level r := by
    intro x hx hsx
    rcases hsteady x hx hsx with hlt | ⟨heq, _⟩
    · exact hlt.trans hn
    · exact heq ▸ hn
  refine ⟨⟨.inr (allows_of_lt hr hbelow), trivial⟩,
    hsteady.append (Nat.le_succ_of_le hn.le) fun x hx => .inr (.inr (.inl ?_))⟩
  rw [List.mem_singleton.1 hx]
  exact Nat.lt_succ_self _

/-- One phase after the other, each possible whatever else is held. -/
theorem goes_flatMap {β : Type*} (f : β → List ρ) {xs : List β} (held : List ρ)
    (h : ∀ x ∈ xs, ∀ held', held ⊆ held' → D.Goes n held' (f x) n) :
    D.Goes n held (xs.flatMap f) n := by
  induction xs generalizing held with
  | nil => exact goes_nil
  | cons x xs ih =>
    rw [List.flatMap_cons]
    refine (h x List.mem_cons_self held (List.Subset.refl held)).append (ih _ fun y hy held' hsub => ?_)
    exact h y (List.mem_cons_of_mem _ hy) held' fun z hz => hsub (List.mem_append_left _ hz)

/-! ## Transactions -/

/-- Who holds which lock; what each transaction has been granted, and what it still asks
for, its next request first. -/
structure State (τ ρ : Type*) where
  owner : ρ → Option τ
  granted : τ → List ρ
  todo : τ → List ρ

inductive Label (τ α : Type*) where
  | start (t : τ) (transaction : α)
  /-- Its next request is granted. -/
  | take (t : τ)
  /-- It commits or is rolled back. -/
  | finish (t : τ)

/-- `t` waits for `r`, which `t'` holds. -/
def WaitsOn (s : State τ ρ) (r : ρ) (t t' : τ) : Prop :=
  ∃ rest, s.todo t = r :: rest ∧ s.owner r = some t' ∧ t' ≠ t

/-- The waits-for graph. -/
def Waits (s : State τ ρ) (t t' : τ) : Prop := ∃ r, WaitsOn s r t t'

/-- No transaction waits for itself, directly or through others. -/
def Acyclic (s : State τ ρ) : Prop := ∀ t, ¬ Relation.TransGen (Waits s) t t

/-- Every transaction that begins meets `ok`. -/
def Begins (ok : α → Prop) (_ : State τ ρ) : Label τ α → Prop
  | .start _ transaction => ok transaction
  | _ => True

/-- Nothing is held or asked for. -/
def idle : State τ ρ := ⟨fun _ => none, fun _ => [], fun _ => []⟩

section step

variable [DecidableEq τ] [DecidableEq ρ]

/-- One step; `requests` lists what a transaction asks for. -/
def step (requests : α → List ρ) (s : State τ ρ) : Label τ α → Option (State τ ρ)
  | .start t transaction =>
    if s.granted t = [] ∧ s.todo t = [] then
      some { s with todo := Function.update s.todo t (requests transaction) }
    else none
  | .take t =>
    match s.todo t with
    | [] => none
    | r :: rest =>
      if s.owner r = none ∨ s.owner r = some t then
        some
          { owner := Function.update s.owner r (some t)
            granted := Function.update s.granted t (s.granted t ++ [r])
            todo := Function.update s.todo t rest }
      else none
  | .finish t => some
      { owner := fun r => if s.owner r = some t then none else s.owner r
        granted := Function.update s.granted t []
        todo := Function.update s.todo t [] }

def machine (requests : α → List ρ) : Machine (State τ ρ) (Label τ α) where
  init s := s = idle
  step := step requests

end step

section acyclic

variable {s : State τ ρ} {t t' u : τ}

/-- What a transaction has been granted it holds, and nobody else does; all it ever asks
for follows the discipline. -/
structure Inv (D : LockOrder ρ) (s : State τ ρ) : Prop where
  owner : ∀ r t, s.owner r = some t ↔ r ∈ s.granted t
  follows : ∀ t, D.Follows (s.granted t ++ s.todo t)

theorem idle_inv : Inv D (idle : State τ ρ) where
  owner := by
    intro r t
    simp [idle]
  follows := fun _ => .inl trivial

/-- A lock that a transaction holds was allowed when it was first granted. -/
theorem mem_follows {p : List ρ} (h : D.FollowsFrom held p) {r : ρ} (hr : r ∈ p)
    (hnew : r ∉ held) : ∃ pre, (∀ x ∈ pre, x ∈ held ++ p) ∧ D.Allows pre r := by
  induction p generalizing held with
  | nil => cases hr
  | cons x p ih =>
    rcases h with ⟨hx, hrest⟩
    by_cases heq : r = x
    · subst heq
      rcases hx with hmem | hallows
      · exact absurd hmem hnew
      · exact ⟨held, fun y hy => List.mem_append_left _ hy, hallows⟩
    · have hr' : r ∈ p := (List.mem_cons.1 hr).resolve_left heq
      have hnew' : r ∉ held ++ [x] := by simp [hnew, heq]
      rcases ih hrest hr' hnew' with ⟨pre, hpre, hallows⟩
      refine ⟨pre, fun y hy => ?_, hallows⟩
      have := hpre y hy
      simpa [or_assoc] using this

/-- The next request, and what was granted before it. -/
theorem Follows.next {r : ρ} (h : D.Follows (p ++ r :: q)) :
    D.FollowsFrom [] p ∧ (r ∈ p ∨ D.Allows p r ∨ D.Last p r) := by
  have hmiddle : ∀ {q}, D.FollowsFrom [] (p ++ r :: q) →
      D.FollowsFrom [] p ∧ (r ∈ p ∨ D.Allows p r ∨ D.Last p r) := by
    intro q hfollows
    rcases followsFrom_append.1 hfollows with ⟨hp, hr, _⟩
    exact ⟨hp, hr.imp_right .inl⟩
  rcases h with hfollows | ⟨p', x, heq, hp', hlast⟩
  · exact hmiddle hfollows
  · rcases List.eq_nil_or_concat q with rfl | ⟨q', y, rfl⟩
    · rcases List.append_inj' heq rfl with ⟨rfl, hx⟩
      obtain rfl := (List.cons.inj hx).1
      exact ⟨hp', .inr (.inr hlast)⟩
    · have heq' : (p ++ r :: q') ++ [y] = p' ++ [x] := by simpa using heq
      rcases List.append_inj' heq' rfl with ⟨rfl, _⟩
      exact hmiddle hp'

/-- Who holds a sheltered lock and asks for another one holds the shelter. -/
theorem Inv.shelter (h : Inv D s) {r g : ρ} (hr : s.owner r = some t) (hg : D.shelter r = some g)
    (htodo : s.todo t ≠ []) : s.owner g = some t := by
  rcases List.exists_cons_of_ne_nil htodo with ⟨x, rest, hrest⟩
  have hfollows := (hrest ▸ h.follows t).next.1
  have hmem := (h.owner r t).1 hr
  rcases mem_follows hfollows hmem List.not_mem_nil with ⟨pre, hpre, hallows⟩
  rw [Allows, hg] at hallows
  exact (h.owner g t).2 (by simpa using hpre g hallows)

/-- What a wait for `r` counts as: a last request stands for its shelter. -/
def stands (D : LockOrder ρ) (r : ρ) : ρ := (D.shelter r).getD r

/-- What a transaction waits for, while its holder waits in turn, its order allows. -/
theorem Inv.waits (h : Inv D s) {r : ρ} (hwaits : WaitsOn s r t t') (hnext : s.todo t' ≠ []) :
    s.owner (D.stands r) = some t' ∧ D.shelter (D.stands r) = none ∧
      ∀ x, s.owner x = some t → D.shelter x = none → D.level x ≤ D.level (D.stands r) ∧
        (D.level x = D.level (D.stands r) → D.Beside (s.granted t) x (D.stands r)) := by
  rcases hwaits with ⟨rest, htodo, howner, hne⟩
  rcases (htodo ▸ h.follows t).next.2 with hmem | hallows | ⟨g, hg, hgs, hbelow⟩
  · -- it would wait for its own lock
    have hown := (h.owner r t).2 hmem
    exact absurd (Option.some.inj (howner.symm.trans hown)) hne
  · rcases hshelter : D.shelter r with _ | g
    · have hstands : D.stands r = r := by rw [stands, hshelter, Option.getD_none]
      rw [hstands]
      refine ⟨howner, hshelter, fun x hx hsx => ?_⟩
      rw [Allows, hshelter] at hallows
      exact hallows x ((h.owner x t).1 hx) hsx
    · -- both would hold the shelter
      rw [Allows, hshelter] at hallows
      have hown := (h.owner g t).2 hallows
      exact absurd (Option.some.inj ((h.shelter howner hshelter hnext).symm.trans hown)) hne
  · have hstands : D.stands r = g := by rw [stands, hg, Option.getD_some]
    rw [hstands]
    refine ⟨h.shelter howner hg hnext, hgs, fun x hx hsx => ?_⟩
    have hlt := hbelow x ((h.owner x t).1 hx) hsx
    exact ⟨Nat.le_of_lt hlt, fun heq => absurd heq (Nat.ne_of_lt hlt)⟩

/-! ## No cycle -/

/-- An edge that lies on a cycle. -/
def OnCycle (s : State τ ρ) (r : ρ) (t u : τ) : Prop :=
  WaitsOn s r t u ∧ Relation.TransGen (Waits s) u t

theorem WaitsOn.unique {r r' : ρ} (h : WaitsOn s r t t') (h' : WaitsOn s r' t u) : r = r' := by
  rcases h with ⟨rest, htodo, _⟩
  rcases h' with ⟨rest', htodo', _⟩
  rw [htodo] at htodo'
  exact (List.cons.inj htodo').1

theorem WaitsOn.todo_ne {r : ρ} (h : WaitsOn s r t t') : s.todo t ≠ [] := by
  rcases h with ⟨rest, htodo, _⟩
  rw [htodo]
  exact List.cons_ne_nil r rest

/-- The holder on a cycle waits in turn. -/
theorem OnCycle.todo_ne {r : ρ} (h : OnCycle s r t u) : s.todo u ≠ [] := by
  rcases Relation.TransGen.head'_iff.1 h.2 with ⟨v, ⟨r', hv⟩, _⟩
  exact hv.todo_ne

theorem Inv.level_le (hinv : Inv D s) (hpath : Relation.TransGen (Waits s) t u) {r r' : ρ}
    {v v' : τ} (h : WaitsOn s r t v) (h' : WaitsOn s r' u v') (hnext : s.todo v' ≠ []) :
    D.level (D.stands r) ≤ D.level (D.stands r') := by
  induction hpath generalizing r' v' with
  | single hwaits =>
    rcases hwaits with ⟨x, hx⟩
    obtain rfl := hx.unique h
    rcases hinv.waits hx h'.todo_ne with ⟨howner, hshelter, _⟩
    exact ((hinv.waits h' hnext).2.2 _ howner hshelter).1
  | tail _ hwaits ih =>
    rcases hwaits with ⟨x, hx⟩
    rcases hinv.waits hx h'.todo_ne with ⟨howner, hshelter, _⟩
    exact (ih hx h'.todo_ne).trans ((hinv.waits h' hnext).2.2 _ howner hshelter).1

/-- On a cycle all levels are the same, so the requests stand beside each other. -/
theorem Inv.beside (hinv : Inv D s) {r r' : ρ} (h : OnCycle s r t t') (h' : OnCycle s r' t' u) :
    D.Beside (s.granted t') (D.stands r) (D.stands r') := by
  rcases hinv.waits h.1 h.todo_ne with ⟨howner, hshelter, _⟩
  have hle := (hinv.waits h'.1 h'.todo_ne).2.2 _ howner hshelter
  exact hle.2 (le_antisymm hle.1 (hinv.level_le h.2 h'.1 h.1 h.todo_ne))

theorem OnCycle.next {r : ρ} (h : OnCycle s r t u) : ∃ r' v, OnCycle s r' u v := by
  have hback : Relation.TransGen (Waits s) t u := .single ⟨r, h.1⟩
  rcases Relation.TransGen.head'_iff.1 h.2 with ⟨v, ⟨r', hv⟩, hrest⟩
  exact ⟨r', v, hv, Relation.TransGen.trans_right hrest hback⟩

/-- The holder of a gate is the only one to ask for a second lock behind it, so the
requests of a cycle are ordered. -/
theorem Inv.before (hinv : Inv D s) {r r' : ρ} (h : OnCycle s r t t') (h' : OnCycle s r' t' u) :
    D.before (D.stands r) (D.stands r') := by
  rcases hinv.beside h h' with ⟨_, _, hbefore⟩ | ⟨_, _, g, hg, _, hgate⟩
  · exact hbefore
  · rcases h'.next with ⟨r'', v, hnext⟩
    rcases hinv.beside h' hnext with ⟨hnone, _⟩ | ⟨g', hg', _, _, hgate', _⟩
    · rw [hgate] at hnone
      cases hnone
    · obtain rfl := Option.some.inj (hgate.symm.trans hgate')
      have hown := ((hinv.owner g t').2 hg).symm.trans ((hinv.owner g u).2 hg')
      exact absurd (Option.some.inj hown).symm h'.1.choose_spec.2.2

theorem Inv.acyclic (hinv : Inv D s) : Acyclic s := by
  have hon : ∀ {t u}, Relation.TransGen (Waits s) t u → Relation.TransGen (Waits s) u t →
      ∀ {r r' v v'}, OnCycle s r t v → OnCycle s r' u v' →
        D.before (D.stands r) (D.stands r') := by
    intro t u htu
    induction htu with
    | single hwaits =>
      intro hback r r' v v' hr hr'
      rcases hwaits with ⟨x, hx⟩
      obtain rfl := hx.unique hr.1
      exact hinv.before ⟨hx, hback⟩ hr'
    | tail hpath hwaits ih =>
      intro hback r r' v v' hr hr'
      rcases hwaits with ⟨x, hx⟩
      have hx' : OnCycle s x _ _ := ⟨hx, hback.trans hpath⟩
      exact D.trans _ _ _ (ih (.head ⟨x, hx⟩ hback) hr hx') (hinv.before hx' hr')
  intro t hcycle
  rcases Relation.TransGen.head'_iff.1 hcycle with ⟨v, ⟨r, hv⟩, hrest⟩
  have hback : Relation.TransGen (Waits s) v t := by
    rcases Relation.reflTransGen_iff_eq_or_transGen.1 hrest with rfl | hrest
    · exact hcycle
    · exact hrest
  exact D.irrefl _ (hon hcycle hcycle ⟨hv, hback⟩ ⟨hv, hback⟩)

end acyclic

section step

variable [DecidableEq τ] [DecidableEq ρ] {requests : α → List ρ} {s : State τ ρ}

theorem Inv.step {ok : α → Prop} (hok : ∀ a, ok a → D.Follows (requests a)) {s' : State τ ρ}
    {l : Label τ α} (h : Inv D s) (hl : Begins ok s l) (hstep : step requests s l = some s') :
    Inv D s' := by
  cases l with
  | start t a =>
    simp only [LockOrder.step, Option.ite_none_right_eq_some, Option.some.injEq] at hstep
    rcases hstep with ⟨⟨hgranted, _⟩, rfl⟩
    refine ⟨h.owner, fun u => ?_⟩
    by_cases hu : u = t
    · subst hu
      simp only [Function.update_self, hgranted, List.nil_append]
      exact hok a hl
    · simp only [Function.update_of_ne hu]
      exact h.follows u
  | take t =>
    simp only [LockOrder.step] at hstep
    split at hstep
    · cases hstep
    · next r rest htodo =>
      rw [Option.ite_none_right_eq_some] at hstep
      rcases hstep with ⟨hfree, hstep⟩
      cases hstep
      refine ⟨fun x u => ?_, fun u => ?_⟩
      · by_cases hx : x = r
        · subst hx
          by_cases hu : u = t
          · simp [hu]
          · -- another transaction did not hold the lock that was granted
            have hnot : x ∉ s.granted u := fun hmem => by
              rcases hfree with hnone | hown
              · rw [(h.owner x u).2 hmem] at hnone
                cases hnone
              · rw [(h.owner x u).2 hmem] at hown
                exact hu (Option.some.inj hown)
            simp [hu, hnot, Ne.symm hu]
        · by_cases hu : u = t
          · subst hu
            simp [hx, h.owner]
          · simp [hx, hu, h.owner]
      · by_cases hu : u = t
        · subst hu
          have hfollows := h.follows u
          rw [htodo] at hfollows
          simpa using hfollows
        · simp only [Function.update_of_ne hu]
          exact h.follows u
  | finish t =>
    simp only [LockOrder.step, Option.some.injEq] at hstep
    subst hstep
    refine ⟨fun x u => ?_, fun u => ?_⟩
    · by_cases hu : u = t
      · subst hu
        by_cases hown : s.owner x = some u
        · simp [hown]
        · simp [hown]
      · by_cases hown : s.owner x = some t
        · have hnot : x ∉ s.granted u := fun hmem =>
            hu (Option.some.inj (((h.owner x u).2 hmem).symm.trans hown))
          simp [hown, hu, hnot]
        · simp [hown, hu, h.owner]
    · by_cases hu : u = t
      · subst hu
        simp only [Function.update_self, List.append_nil]
        exact .inl trivial
      · simp only [Function.update_of_ne hu]
        exact h.follows u

/-- A schedule is fine where the transactions it begins are. -/
theorem runOk_begins {ok : α → Prop} {labels : List (Label τ α)}
    (h : ∀ t a, Label.start t a ∈ labels → ok a) (s : State τ ρ) :
    (machine requests).RunOk (Begins ok) s labels := by
  induction labels generalizing s with
  | nil => trivial
  | cons l labels ih =>
    refine ⟨?_, fun s' _ => ih (fun t a ha => h t a (List.mem_cons_of_mem _ ha)) s'⟩
    cases l with
    | start t a => exact h t a List.mem_cons_self
    | take t => trivial
    | finish t => trivial

theorem reach_inv {ok : α → Prop} (hok : ∀ a, ok a → D.Follows (requests a))
    (h : (machine requests).Reach (Begins ok) s) : Inv D s :=
  h.invariant (fun _ hinit => hinit ▸ idle_inv) fun _ _ _ hinv hl hstep => hinv.step hok hl hstep

/-- Where every transaction follows the discipline, nothing deadlocks. -/
theorem acyclic_of_follows {ok : α → Prop} (hok : ∀ a, ok a → D.Follows (requests a))
    (h : (machine requests).Reach (Begins ok) s) : Acyclic s :=
  (reach_inv hok h).acyclic

end step

end LockOrder
