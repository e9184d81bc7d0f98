import Potocolom.Guesses.Locks

/-! # The guessing budget of an account

A challenge begun while the one before it is unexpired consumes that one and starts from
its attempts, so along a chain of such challenges the attempts of the last one count every
code tried on any of them. -/

namespace Potocolom.Guesses

open Accounts (Time maxAttempts)

variable {budgetLock : Nat → Nat} {w : World}

/-! ## Chains -/

/-- What no statement changes of a challenge. -/
structure Begun where
  id : Nat
  userId : Nat
  expiresAt : Time
  createdAt : Time
deriving DecidableEq, Repr

def Challenge.begun (c : Challenge) : Begun := ⟨c.id, c.userId, c.expiresAt, c.createdAt⟩

/-- The committed challenges, oldest first. -/
def World.challenges (w : World) : List Challenge := w.rows.map Row.committed

/-- The challenges of a user among `cs`. -/
def begunFor (cs : List Challenge) (user : Nat) : List Begun :=
  (cs.map Challenge.begun).filter fun b => b.userId = user

/-- The second was begun while the first was unexpired. -/
def Linked (a b : Begun) : Prop := b.createdAt < a.expiresAt

/-- Challenges of one user, each begun while its predecessor was unexpired, none of them
answered successfully. -/
structure Chain (cs : List Challenge) (won : List Nat) (user : Nat) (chain : List Begun) : Prop where
  consecutive : chain <:+: begunFor cs user
  linked : chain.IsChain Linked
  unwon : ∀ b ∈ chain, b.id ∉ won

/-- How many of the attempts are on challenges of the chain. -/
def onChain (chain : List Begun) (attempts : List (Nat × Nat)) : Nat :=
  attempts.countP fun attempt => attempt.2 ∈ chain.map Begun.id

/-! ## The ledger -/

/-- What the committed challenges say of the attempts counted so far. -/
structure Ledger (cs : List Challenge) (claims : List (Nat × Nat)) (won : List Nat)
    (next : Nat) : Prop where
  nodup : (cs.map Challenge.id).Nodup
  fresh : ∀ c ∈ cs, c.id < next
  claimed : ∀ claim ∈ claims, claim.2 < next
  /-- A challenge with a linked successor is consumed. -/
  linked : ∀ user a b, [a, b] <:+: begunFor cs user → Linked a b →
    ∀ c ∈ cs, c.id = a.id → c.consumedAt ≠ none
  /-- The last challenge of a user is consumed by nothing but a success. -/
  last : ∀ user a, (begunFor cs user).getLast? = some a → a.id ∉ won →
    ∀ c ∈ cs, c.id = a.id → c.consumedAt = none
  /-- The last challenge of a chain counts every attempt on the chain. -/
  budget : ∀ user chain b, Chain cs won user (chain ++ [b]) → ∀ c ∈ cs, c.id = b.id →
    onChain (chain ++ [b]) claims ≤ c.attempts ∧ onChain (chain ++ [b]) claims ≤ maxAttempts

variable {cs cs' : List Challenge} {claims : List (Nat × Nat)} {won : List Nat} {next : Nat}

theorem Ledger.start : Ledger [] [] [] 0 where
  nodup := List.nodup_nil
  fresh := by simp
  claimed := by simp
  linked := by simp
  last := by simp
  budget := by simp

/-- `cs'` is `cs` with some challenges rewritten, none of them to another. -/
def Rewrites (cs cs' : List Challenge) (p : Challenge → Challenge → Prop) : Prop :=
  List.Forall₂ (fun c c' => c' = c ∨ c'.begun = c.begun ∧ p c c') cs cs'

theorem Rewrites.begun {p : Challenge → Challenge → Prop} (h : Rewrites cs cs' p) :
    cs'.map Challenge.begun = cs.map Challenge.begun := by
  induction h with
  | nil => rfl
  | cons hc _ ih =>
    rcases hc with rfl | ⟨hc, -⟩
    · simp [ih]
    · simp [hc, ih]

theorem Rewrites.begunFor {p : Challenge → Challenge → Prop} (h : Rewrites cs cs' p)
    (user : Nat) : Guesses.begunFor cs' user = Guesses.begunFor cs user := by
  unfold Guesses.begunFor
  rw [h.begun]

theorem Rewrites.ids {p : Challenge → Challenge → Prop} (h : Rewrites cs cs' p) :
    cs'.map Challenge.id = cs.map Challenge.id := by
  have hids : ∀ xs : List Challenge, xs.map Challenge.id = (xs.map Challenge.begun).map Begun.id := by
    intro xs
    simp [Challenge.begun, Function.comp_def]
  rw [hids, hids, h.begun]

theorem Rewrites.mem {p : Challenge → Challenge → Prop} (h : Rewrites cs cs' p) {c' : Challenge}
    (hc' : c' ∈ cs') : ∃ c ∈ cs, c' = c ∨ c'.begun = c.begun ∧ p c c' := by
  induction h with
  | nil => cases hc'
  | cons hc _ ih =>
    rcases List.mem_cons.1 hc' with rfl | hc'
    · exact ⟨_, List.mem_cons_self, hc⟩
    · rcases ih hc' with ⟨c, hmem, hrel⟩
      exact ⟨c, List.mem_cons_of_mem _ hmem, hrel⟩

theorem Ledger.eq_of_id (h : (cs.map Challenge.id).Nodup) {c d : Challenge} (hc : c ∈ cs)
    (hd : d ∈ cs) (hid : c.id = d.id) : c = d :=
  List.inj_on_of_nodup_map h hc hd hid

theorem mem_begunFor {user : Nat} {a : Begun} :
    a ∈ begunFor cs user ↔ ∃ c ∈ cs, c.begun = a ∧ c.userId = user := by
  constructor
  · intro ha
    rcases List.mem_filter.1 ha with ⟨hmem, huser⟩
    rcases List.mem_map.1 hmem with ⟨c, hc, rfl⟩
    exact ⟨c, hc, rfl, of_decide_eq_true huser⟩
  · rintro ⟨c, hc, rfl, rfl⟩
    exact List.mem_filter.2 ⟨List.mem_map_of_mem hc, by simp [Challenge.begun]⟩

/-- Winning a challenge. -/
theorem Ledger.win (h : Ledger cs claims won next) {challenge : Nat}
    (hrewrites : Rewrites cs cs' fun c c' =>
      c.id = challenge ∧ ∃ at', c' = c.consume at') :
    Ledger cs' claims (won ++ [challenge]) next where
  nodup := by
    rw [hrewrites.ids]
    exact h.nodup
  fresh := by
    intro c' hc'
    rcases hrewrites.mem hc' with ⟨c, hc, rfl | ⟨hbegun, -⟩⟩
    · exact h.fresh _ hc
    · have hid : c'.id = c.id := congrArg Begun.id hbegun
      rw [hid]
      exact h.fresh c hc
  claimed := h.claimed
  linked := by
    intro user a b hwithin hlinked c' hc' hid
    rw [hrewrites.begunFor] at hwithin
    rcases hrewrites.mem hc' with ⟨c, hc, rfl | ⟨-, -, at', rfl⟩⟩
    · exact h.linked user a b hwithin hlinked _ hc hid
    · simp [Challenge.consume]
  last := by
    intro user a hlast hwon c' hc' hid
    rw [hrewrites.begunFor] at hlast
    have hnot : a.id ∉ won ∧ a.id ≠ challenge := by simpa using hwon
    rcases hrewrites.mem hc' with ⟨c, hc, rfl | ⟨hbegun, hwinner, -⟩⟩
    · exact h.last user a hlast hnot.1 _ hc hid
    · have hsame : c'.id = c.id := congrArg Begun.id hbegun
      rw [hsame, hwinner] at hid
      exact absurd hid.symm hnot.2
  budget := by
    intro user chain b hchain c' hc' hid
    have hold : Chain cs won user (chain ++ [b]) := by
      refine ⟨?_, hchain.linked, ?_⟩
      · rw [← hrewrites.begunFor]
        exact hchain.consecutive
      · intro a ha hwon
        exact hchain.unwon a ha (List.mem_append_left _ hwon)
    rcases hrewrites.mem hc' with ⟨c, hc, rfl | ⟨-, -, at', rfl⟩⟩
    · exact h.budget user chain b hold _ hc hid
    · exact h.budget user chain b hold c hc hid

/-- Every challenge of a chain but the last has its successor in it. -/
theorem exists_successor {chain : List Begun} {a b : Begun} (ha : a ∈ chain)
    (hlinked : (chain ++ [b]).IsChain Linked) :
    ∃ a', [a, a'] <:+: chain ++ [b] ∧ Linked a a' := by
  rcases List.mem_iff_append.1 ha with ⟨before, after, rfl⟩
  have hnext : ∃ a' rest, after ++ [b] = a' :: rest := by
    cases after with
    | nil => exact ⟨b, [], rfl⟩
    | cons a' rest => exact ⟨a', rest ++ [b], rfl⟩
  rcases hnext with ⟨a', rest, hrest⟩
  have hwithin : [a, a'] <:+: before ++ a :: after ++ [b] := by
    refine ⟨before, rest, ?_⟩
    simp [hrest]
  have hpair := List.IsChain.infix hlinked hwithin
  exact ⟨a', hwithin, List.isChain_pair.1 hpair⟩

theorem onChain_append {chain : List Begun} {xs ys : List (Nat × Nat)} :
    onChain chain (xs ++ ys) = onChain chain xs + onChain chain ys := by
  simp [onChain]

/-- Counting an attempt. -/
theorem Ledger.claim (h : Ledger cs claims won next) {counted : List (Nat × Nat)}
    (hrewrites : Rewrites cs cs' fun c c' =>
      c.consumedAt = none ∧ c.attempts < maxAttempts ∧ c' = c.attempt)
    (hcounted : counted = [] ∨ ∃ r, ∃ c ∈ cs, counted = [(r, c.id)] ∧ c.consumedAt = none ∧
      c.attempts < maxAttempts ∧ c.attempt ∈ cs') :
    Ledger cs' (claims ++ counted) won next where
  nodup := by
    rw [hrewrites.ids]
    exact h.nodup
  fresh := by
    intro c' hc'
    rcases hrewrites.mem hc' with ⟨c, hc, rfl | ⟨hbegun, -⟩⟩
    · exact h.fresh _ hc
    · have hid : c'.id = c.id := congrArg Begun.id hbegun
      rw [hid]
      exact h.fresh c hc
  claimed := by
    intro claim hclaim
    rcases List.mem_append.1 hclaim with hclaim | hclaim
    · exact h.claimed claim hclaim
    · rcases hcounted with rfl | ⟨r, c, hc, rfl, -⟩
      · cases hclaim
      · rw [List.mem_singleton.1 hclaim]
        exact h.fresh c hc
  linked := by
    intro user a b hwithin hlinked c' hc' hid
    rw [hrewrites.begunFor] at hwithin
    rcases hrewrites.mem hc' with ⟨c, hc, rfl | ⟨-, -, -, rfl⟩⟩
    · exact h.linked user a b hwithin hlinked _ hc hid
    · exact h.linked user a b hwithin hlinked c hc hid
  last := by
    intro user a hlast hwon c' hc' hid
    rw [hrewrites.begunFor] at hlast
    rcases hrewrites.mem hc' with ⟨c, hc, rfl | ⟨-, -, -, rfl⟩⟩
    · exact h.last user a hlast hwon _ hc hid
    · exact h.last user a hlast hwon c hc hid
  budget := by
    intro user chain b hchain c' hc' hid
    have hold : Chain cs won user (chain ++ [b]) := by
      refine ⟨?_, hchain.linked, hchain.unwon⟩
      rw [← hrewrites.begunFor]
      exact hchain.consecutive
    have hkept : onChain (chain ++ [b]) claims ≤ c'.attempts ∧
        onChain (chain ++ [b]) claims ≤ maxAttempts := by
      rcases hrewrites.mem hc' with ⟨c, hc, rfl | ⟨-, -, -, rfl⟩⟩
      · exact h.budget user chain b hold _ hc hid
      · have hbudget := h.budget user chain b hold c hc hid
        exact ⟨Nat.le_succ_of_le hbudget.1, hbudget.2⟩
    rw [onChain_append]
    rcases hcounted with rfl | ⟨r, c, hc, rfl, hunconsumed, hleft, hattempt⟩
    · exact hkept
    · by_cases hmem : c.id ∈ (chain ++ [b]).map Begun.id
      · -- the challenge counted on is the last: the others are consumed
        have hlast : c.id = b.id := by
          by_contra hne
          have hchainMem : c.id ∈ chain.map Begun.id := by simpa [hne] using hmem
          rcases List.mem_map.1 hchainMem with ⟨a, ha, haid⟩
          rcases exists_successor ha hold.linked with ⟨a', hwithin, hlink⟩
          exact h.linked user a a' (hwithin.trans hold.consecutive) hlink c hc haid.symm hunconsumed
        have hsame : c' = c.attempt := by
          refine Ledger.eq_of_id ?_ hc' hattempt (hid.trans hlast.symm)
          rw [hrewrites.ids]
          exact h.nodup
        have hbudget := h.budget user chain b hold c hc hlast
        have hone : onChain (chain ++ [b]) [(r, c.id)] ≤ 1 := List.countP_le_length
        rw [hsame]
        simp only [Challenge.attempt]
        omega
      · have hzero : onChain (chain ++ [b]) [(r, c.id)] = 0 := by
          simpa [onChain] using hmem
        omega

/-- A slice of `l ++ [b]` is a slice of `l`, or ends in `b` and a suffix of `l` precedes it. -/
theorem infix_snoc {xs l : List Begun} {b : Begun} (h : xs <:+: l ++ [b]) :
    xs <:+: l ∨ ∃ ys, xs = ys ++ [b] ∧ ys <:+ l := by
  rcases List.infix_concat_iff.1 h with hsuffix | hwithin
  · rcases List.suffix_concat_iff.1 hsuffix with rfl | ⟨ys, rfl, hys⟩
    · exact .inl List.nil_infix
    · exact .inr ⟨ys, rfl, hys⟩
  · exact .inl hwithin

theorem getLast?_of_suffix {xs l : List Begun} {a : Begun} (h : xs ++ [a] <:+ l) :
    l.getLast? = some a := by
  rcases h with ⟨before, rfl⟩
  simp [← List.append_assoc]

section Insert

variable {user spent : Nat} {startedAt expiresAt : Time} {cs₁ : List Challenge} {new : Challenge}

theorem begunFor_insert {user' : Nat}
    (hrewrites : Rewrites cs cs₁ fun c c' => c.userId = user ∧ ∃ at', c' = c.consume at') :
    begunFor (cs₁ ++ [new]) user' =
      begunFor cs user' ++ if new.userId = user' then [new.begun] else [] := by
  have hold := hrewrites.begunFor user'
  unfold begunFor at hold ⊢
  rw [List.map_append, List.filter_append, hold]
  congr 1
  by_cases huser : new.userId = user' <;> simp [Challenge.begun, huser]

/-- Beginning a challenge of `user`, with the attempts of those it consumes. -/
theorem Ledger.insert (h : Ledger cs claims won next)
    (hrewrites : Rewrites cs cs₁ fun c c' => c.userId = user ∧ ∃ at', c' = c.consume at')
    (hcarried : ∀ c ∈ cs, outstanding user startedAt c = true →
      c.attempts ≤ spent ∧ ∃ at', c.consume at' ∈ cs₁)
    (hnew : new = ⟨next, user, next + 1, spent, expiresAt, none, startedAt⟩) :
    Ledger (cs₁ ++ [new]) claims won (next + 2) := by
  have hid : ∀ c ∈ cs, c.id ≠ new.id := by
    intro c hc
    have hlt := h.fresh c hc
    rw [hnew]
    exact Nat.ne_of_lt hlt
  have hbegunId : ∀ user' a, a ∈ begunFor cs user' → a.id ≠ new.id := by
    intro user' a ha
    rcases mem_begunFor.1 ha with ⟨c, hc, rfl, -⟩
    exact hid c hc
  have hnodup : ((cs₁ ++ [new]).map Challenge.id).Nodup := by
    rw [List.map_append, hrewrites.ids, List.nodup_append]
    refine ⟨h.nodup, List.nodup_singleton _, ?_⟩
    intro i hi j hj
    rcases List.mem_map.1 hi with ⟨c, hc, rfl⟩
    rw [List.mem_singleton.1 hj]
    exact hid c hc
  -- a challenge with an older challenge's number is that one, perhaps consumed
  have hfind : ∀ a : Begun, a.id ≠ new.id → ∀ c' ∈ cs₁ ++ [new], c'.id = a.id →
      ∃ c ∈ cs, c'.begun = c.begun ∧ c'.attempts = c.attempts ∧
        (c' = c ∨ c.userId = user ∧ c'.consumedAt ≠ none) := by
    intro a ha c' hc' hid'
    rcases List.mem_append.1 hc' with hc' | hc'
    · rcases hrewrites.mem hc' with ⟨c, hc, rfl | ⟨hbegun, huser, at', rfl⟩⟩
      · exact ⟨_, hc, rfl, rfl, .inl rfl⟩
      · exact ⟨c, hc, hbegun, rfl, .inr ⟨huser, by simp [Challenge.consume]⟩⟩
    · rw [List.mem_singleton.1 hc'] at hid'
      exact absurd hid'.symm ha
  -- the last challenge of the user, if it is unconsumed and unexpired, is carried
  have hspent : ∀ a c, (begunFor cs user).getLast? = some a → Linked a new.begun → c ∈ cs →
      c.id = a.id → c.consumedAt = none → c.attempts ≤ spent ∧ ∃ at', c.consume at' ∈ cs₁ := by
    intro a c hlast hlink hc hcid hnone
    rcases mem_begunFor.1 (List.mem_of_getLast? hlast) with ⟨d, hd, rfl, huser⟩
    have hsame : c = d := Ledger.eq_of_id h.nodup hc hd hcid
    subst hsame
    refine hcarried c hc ?_
    have hunexpired : startedAt < c.expiresAt := by simpa [Linked, hnew, Challenge.begun] using hlink
    simp [outstanding, huser, hnone, hunexpired]
  have hnewUser : new.userId = user := by rw [hnew]
  refine ⟨hnodup, ?_, ?_, ?_, ?_, ?_⟩
  · intro c' hc'
    rcases List.mem_append.1 hc' with hc' | hc'
    · rcases hrewrites.mem hc' with ⟨c, hc, rfl | ⟨hbegun, -⟩⟩
      · exact Nat.lt_add_right 2 (h.fresh _ hc)
      · have hsame : c'.id = c.id := congrArg Begun.id hbegun
        rw [hsame]
        exact Nat.lt_add_right 2 (h.fresh c hc)
    · rw [List.mem_singleton.1 hc', hnew]
      exact Nat.lt_add_of_pos_right (by decide)
  · intro claim hclaim
    exact Nat.lt_add_right 2 (h.claimed claim hclaim)
  · intro user' a b hwithin hlink c' hc' hid'
    rw [begunFor_insert hrewrites] at hwithin
    have hcases : [a, b] <:+: begunFor cs user' ∨
        user = user' ∧ b = new.begun ∧ [a] <:+ begunFor cs user' := by
      by_cases huser : new.userId = user'
      · rw [if_pos huser] at hwithin
        rcases infix_snoc hwithin with hold | ⟨ys, heq, hsuffix⟩
        · exact .inl hold
        · have hparts : ys = [a] ∧ new.begun = b := by
            have hsplit : ys ++ [new.begun] = [a] ++ [b] := heq.symm
            simpa using List.append_inj' hsplit rfl
          exact .inr ⟨hnewUser ▸ huser, hparts.2.symm, hparts.1 ▸ hsuffix⟩
      · rw [if_neg huser, List.append_nil] at hwithin
        exact .inl hwithin
    rcases hcases with hold | ⟨rfl, rfl, hsuffix⟩
    · have ha : a ∈ begunFor cs user' := hold.subset List.mem_cons_self
      rcases hfind a (hbegunId user' a ha) c' hc' hid' with
        ⟨c, hc, hbegun, -, rfl | ⟨-, hconsumed⟩⟩
      · exact h.linked user' a b hold hlink _ hc hid'
      · exact hconsumed
    · have ha : a ∈ begunFor cs user := hsuffix.subset List.mem_cons_self
      rcases hfind a (hbegunId user a ha) c' hc' hid' with
        ⟨c, hc, hbegun, -, rfl | ⟨-, hconsumed⟩⟩
      · intro hnone
        have hend : [] ++ [a] <:+ begunFor cs user := hsuffix
        have hlast := getLast?_of_suffix hend
        rcases (hspent a _ hlast hlink hc hid' hnone).2 with ⟨at', hmem⟩
        have hsame := Ledger.eq_of_id hnodup hc' (List.mem_append_left _ hmem) rfl
        rw [hsame] at hnone
        simp [Challenge.consume] at hnone
      · exact hconsumed
  · intro user' a hlast hwon c' hc' hid'
    rw [begunFor_insert hrewrites] at hlast
    by_cases huser : new.userId = user'
    · rw [if_pos huser, List.getLast?_concat] at hlast
      have hlastNew : new.begun = a := by simpa using hlast
      have hsame : c' = new := by
        refine Ledger.eq_of_id hnodup hc' (List.mem_append_right _ List.mem_cons_self) ?_
        rw [hid', ← hlastNew]
        rfl
      rw [hsame, hnew]
    · rw [if_neg huser, List.append_nil] at hlast
      have ha := List.mem_of_getLast? hlast
      rcases hfind a (hbegunId user' a ha) c' hc' hid' with ⟨c, hc, hbegun, -, rfl | ⟨hmine, -⟩⟩
      · exact h.last user' a hlast hwon _ hc hid'
      · -- a challenge of another user is not rewritten
        rcases mem_begunFor.1 ha with ⟨d, hd, rfl, huser'⟩
        have hcd : c.id = d.id := (congrArg Begun.id hbegun).symm.trans hid'
        rw [Ledger.eq_of_id h.nodup hc hd hcd, huser'] at hmine
        exact absurd (hnewUser.trans hmine.symm) huser
  · intro user' chain b hchain c' hc' hid'
    have hcons := hchain.consecutive
    rw [begunFor_insert hrewrites] at hcons
    have hcases : chain ++ [b] <:+: begunFor cs user' ∨
        user = user' ∧ b = new.begun ∧ chain <:+ begunFor cs user' := by
      by_cases huser : new.userId = user'
      · rw [if_pos huser] at hcons
        rcases infix_snoc hcons with hold | ⟨ys, heq, hsuffix⟩
        · exact .inl hold
        · have hparts : chain = ys ∧ b = new.begun := by simpa using List.append_inj' heq rfl
          exact .inr ⟨hnewUser ▸ huser, hparts.2, hparts.1 ▸ hsuffix⟩
      · rw [if_neg huser, List.append_nil] at hcons
        exact .inl hcons
    rcases hcases with hold | ⟨rfl, rfl, hsuffix⟩
    · have hb : b ∈ begunFor cs user' := hold.subset (List.mem_append_right _ List.mem_cons_self)
      rcases hfind b (hbegunId user' b hb) c' hc' hid' with ⟨c, hc, hbegun, hattempts, -⟩
      have hcid : c.id = b.id := (congrArg Begun.id hbegun).symm.trans hid'
      rw [hattempts]
      exact h.budget user' chain b ⟨hold, hchain.linked, hchain.unwon⟩ c hc hcid
    · have hsame : c' = new :=
        Ledger.eq_of_id hnodup hc' (List.mem_append_right _ List.mem_cons_self) hid'
      have hcount : onChain (chain ++ [new.begun]) claims = onChain chain claims := by
        -- no attempt is counted on a challenge before it is there
        refine List.countP_congr fun claim hclaim => ?_
        have hne : claim.2 ≠ new.id := by
          have hlt := h.claimed claim hclaim
          rw [hnew]
          exact Nat.ne_of_lt hlt
        simp [Challenge.begun, hne]
      rw [hcount, hsame, hnew]
      rcases List.eq_nil_or_concat chain with rfl | ⟨chain', p, rfl⟩
      · simp [onChain]
      · rw [List.concat_eq_append] at hchain hsuffix ⊢
        have hlast := getLast?_of_suffix hsuffix
        have hp : p ∈ chain' ++ [p] := List.mem_append_right _ List.mem_cons_self
        rcases mem_begunFor.1 (List.mem_of_getLast? hlast) with ⟨c, hc, hcp, -⟩
        have hcid : c.id = p.id := congrArg Begun.id hcp
        have hunwon : p.id ∉ won := hchain.unwon p (List.mem_append_left _ hp)
        have hlink : Linked p new.begun := by
          have hpair : [p, new.begun] <:+: chain' ++ [p] ++ [new.begun] := ⟨chain', [], by simp⟩
          have hlinked := List.IsChain.infix hchain.linked hpair
          exact List.isChain_pair.1 hlinked
        have hattempts := (hspent p c hlast hlink hc hcid (h.last user p hlast hunwon c hc hcid)).1
        have hold : Chain cs won user (chain' ++ [p]) := by
          have hlinked := List.IsChain.infix hchain.linked
            (List.prefix_append (chain' ++ [p]) [new.begun]).isInfix
          refine ⟨hsuffix.isInfix, hlinked, ?_⟩
          intro a ha
          exact hchain.unwon a (List.mem_append_left _ ha)
        have hbudget := h.budget user chain' p hold c hc hcid
        exact ⟨hbudget.1.trans hattempts, hbudget.2⟩

end Insert

/-! ## Every run -/

/-- Committing rewrites the challenges the request had written, and those only. -/
theorem rewrites_commit (h : Locks budgetLock w) {r : Nat} {request : Request}
    {p : Challenge → Challenge → Prop} (hr : w.requests.get r = some request)
    (hp : ∀ c c', Explains request c c' → c'.begun = c.begun ∧ p c c') :
    Rewrites w.challenges ((w.rows.commit r).map Row.committed) p := by
  unfold Rewrites World.challenges Rows.commit
  rw [List.map_map, List.forall₂_map_left_iff, List.forall₂_map_right_iff, List.forall₂_same]
  intro row hrow
  by_cases hheld : ∃ v, row.held = some (r, v)
  · rcases hheld with ⟨v, hv⟩
    rcases h.held row hrow r v hv with ⟨request', hr', hexplains⟩
    rw [hr] at hr'
    cases hr'
    simp only [Function.comp_apply, Row.commit_of_held hv]
    exact .inr (hp _ _ hexplains)
  · have hfree : ∀ v, row.held ≠ some (r, v) := fun v hv => hheld ⟨v, hv⟩
    simp [Row.commit_of_not_held hfree]

/-- What was known of a held row is committed with it. -/
theorem mem_commit_committed {rows : Rows Nat Challenge} {row : Row Nat Challenge} {r : Nat}
    {v : Challenge} (hrow : row ∈ rows) (hheld : row.held = some (r, v)) :
    v ∈ (rows.commit r).map Row.committed := by
  refine List.mem_map.2 ⟨row.commit r, List.mem_map_of_mem hrow, ?_⟩
  rw [Row.commit_of_held hheld]

theorem Ledger.of_eq (h : Ledger cs claims won next) (hcs : cs' = cs) :
    Ledger cs' claims won next := hcs ▸ h

theorem Ledger.step (h : Ledger w.challenges w.claims w.won w.next) (hlocks : Locks budgetLock w)
    {l : Label} {w' : World} (hst : Guesses.step budgetLock w l = some w') :
    Ledger w'.challenges w'.claims w'.won w'.next := by
  cases l with
  | tick seconds =>
    cases hst
    exact h
  | begin r user =>
    simp only [Guesses.step] at hst
    split at hst
    · cases hst
      exact h
    · cases hst
  | takeKey r =>
    simp only [Guesses.step] at hst
    split at hst
    · split at hst
      · cases hst
        exact h
      · cases hst
    · cases hst
  | carry r =>
    simp only [Guesses.step] at hst
    split at hst
    · split at hst
      · next hupdate =>
        cases hst
        exact h.of_eq (Rows.map_committed_update hupdate)
      · cases hst
    · cases hst
  | insert r expiresAt =>
    simp only [Guesses.step] at hst
    split at hst
    · next user startedAt spent hr =>
      cases hst
      have hrewrites : Rewrites w.challenges ((w.rows.commit r).map Row.committed)
          fun c c' => c.userId = user ∧ ∃ at', c' = c.consume at' := by
        refine rewrites_commit hlocks hr ?_
        rintro c c' ⟨hout, rfl⟩
        simp only [outstanding, Bool.and_eq_true, decide_eq_true_eq] at hout
        exact ⟨rfl, hout.1.1, startedAt, rfl⟩
      have hcarried : ∀ c ∈ w.challenges, outstanding user startedAt c = true →
          c.attempts ≤ spent ∧ ∃ at', c.consume at' ∈ (w.rows.commit r).map Row.committed := by
        intro c hc hout
        rcases List.mem_map.1 hc with ⟨row, hrow, rfl⟩
        have hknown := hlocks.knows r _ hr row hrow hout
        exact ⟨hknown.2, startedAt, mem_commit_committed hrow hknown.1⟩
      have hnew : newChallenge w user startedAt spent expiresAt =
          ⟨w.next, user, w.next + 1, spent, expiresAt, none, startedAt⟩ := rfl
      exact (h.insert hrewrites hcarried hnew).of_eq (by simp [World.challenges])
    · cases hst
  | present r token =>
    simp only [Guesses.step] at hst
    split at hst
    · cases hst
      exact h
    · cases hst
  | claim r =>
    simp only [Guesses.step] at hst
    split at hst
    · split at hst
      · next hupdate =>
        cases hst
        exact h.of_eq (Rows.map_committed_update hupdate)
      · cases hst
    · cases hst
  | commitClaim r =>
    simp only [Guesses.step] at hst
    have hexplained : ∀ challenge c c', Explains (.claimed challenge) c c' →
        c'.begun = c.begun ∧ c.consumedAt = none ∧ c.attempts < maxAttempts ∧ c' = c.attempt := by
      rintro challenge c c' ⟨hnone, hleft, rfl⟩
      exact ⟨rfl, hnone, hleft, rfl⟩
    split at hst
    · next challenge hr =>
      cases hst
      refine h.claim (rewrites_commit hlocks hr (hexplained _)) (.inr ?_)
      rcases hlocks.knows r _ hr with ⟨row, hrow, rfl, hheld⟩
      rcases hlocks.held row hrow r _ hheld with ⟨request, hr', hexplains⟩
      rw [hr] at hr'
      cases hr'
      exact ⟨r, row.committed, List.mem_map_of_mem hrow, rfl, hexplains.1, hexplains.2.1,
        mem_commit_committed hrow hheld⟩
    · next hr =>
      cases hst
      have hclaim := h.claim (rewrites_commit hlocks hr (hexplained _)) (.inl rfl)
      rw [List.append_nil] at hclaim
      exact hclaim
    · cases hst
  | verify r good =>
    simp only [Guesses.step] at hst
    split at hst
    · cases hst
      exact h
    · cases hst
  | win r startedAt =>
    simp only [Guesses.step] at hst
    split at hst
    · split at hst
      · next hupdate =>
        cases hst
        exact h.of_eq (Rows.map_committed_update hupdate)
      · cases hst
    · cases hst
  | commitWin r =>
    simp only [Guesses.step] at hst
    split at hst
    · next challenge hr =>
      cases hst
      refine h.win (rewrites_commit hlocks hr ?_)
      rintro c c' ⟨hid, -, at', rfl⟩
      exact ⟨rfl, hid, at', rfl⟩
    · cases hst
  | fail r =>
    simp only [Guesses.step] at hst
    split at hst
    · cases hst
      have hsame : (w.rows.rollback r).map Row.committed = w.rows.map Row.committed :=
        Rows.map_committed_rollback
      exact h.of_eq hsame
    · cases hst

/-- A request past `_verify`. -/
def Request.answered : Request → Bool
  | .proved _ | .winning _ | .over => true
  | _ => false

/-- Each code that reached `_verify` is one counted attempt. -/
structure Counted (w : World) : Prop where
  nodup : w.verified.Nodup
  counted : ∀ attempt ∈ w.verified, attempt ∈ w.claims
  past : ∀ attempt ∈ w.verified, ∀ request, w.requests.get attempt.1 = some request →
    request.answered = true
  present : ∀ attempt ∈ w.verified, w.requests.get attempt.1 ≠ none
  claimed : ∀ r challenge, w.requests.get r = some (.counted challenge) → (r, challenge) ∈ w.claims

theorem Counted.start : Counted start where
  nodup := List.nodup_nil
  counted := by simp [Guesses.start]
  past := by simp [Guesses.start]
  present := by simp [Guesses.start]
  claimed := by
    intro r challenge hr
    cases hr

/-- A step of a request that has reached no `_verify`, or that is past it and stays so. -/
theorem Counted.put (h : Counted w) {r : Nat} {request : Request} {w' : World}
    (hrequests : w'.requests = (w.put r request).requests) (hclaims : w.claims ⊆ w'.claims)
    (hverified : w'.verified = w.verified)
    (hold : request.answered = true ∨ ∀ old, w.requests.get r = some old → old.answered = false)
    (hnew : ∀ challenge, request = .counted challenge → (r, challenge) ∈ w'.claims) :
    Counted w' := by
  have hget : ∀ r', w'.requests.get r' = if r' = r then some request else w.requests.get r' := by
    intro r'
    rw [hrequests, World.put, Table.get_set]
  refine ⟨hverified ▸ h.nodup, ?_, ?_, ?_, ?_⟩
  · intro attempt hattempt
    rw [hverified] at hattempt
    exact hclaims (h.counted attempt hattempt)
  · intro attempt hattempt request' hr'
    rw [hverified] at hattempt
    rw [hget] at hr'
    split at hr'
    · next heq =>
      cases hr'
      rcases hold with hanswered | hpast
      · exact hanswered
      · rcases hstage : w.requests.get r with _ | old
        · exact absurd (heq ▸ hstage) (h.present attempt hattempt)
        · have hyes := h.past attempt hattempt old (heq ▸ hstage)
          rw [hpast old hstage] at hyes
          cases hyes
    · exact h.past attempt hattempt request' hr'
  · intro attempt hattempt
    rw [hverified] at hattempt
    rw [hget]
    split
    · simp
    · exact h.present attempt hattempt
  · intro r' challenge hr'
    rw [hget] at hr'
    split at hr'
    · next heq =>
      cases hr'
      exact heq ▸ hnew challenge rfl
    · exact hclaims (h.claimed r' challenge hr')

/-- A code reaches `_verify`. -/
theorem Counted.verify (h : Counted w) {r challenge : Nat} {request : Request}
    (hr : w.requests.get r = some (.counted challenge)) (hanswered : request.answered = true) :
    Counted { w.put r request with verified := w.verified ++ [(r, challenge)] } := by
  have hfresh : ∀ attempt ∈ w.verified, attempt.1 ≠ r := by
    intro attempt hattempt heq
    have hpast := h.past attempt hattempt _ (heq ▸ hr)
    cases hpast
  have hget : ∀ r', (w.put r request).requests.get r' =
      if r' = r then some request else w.requests.get r' := by
    intro r'
    rw [World.put, Table.get_set]
  refine ⟨?_, ?_, ?_, ?_, ?_⟩
  · rw [List.nodup_append]
    refine ⟨h.nodup, List.nodup_singleton _, ?_⟩
    intro attempt hattempt attempt' hattempt' heq
    rw [List.mem_singleton.1 hattempt'] at heq
    exact hfresh attempt hattempt (congrArg Prod.fst heq)
  · intro attempt hattempt
    rcases List.mem_append.1 hattempt with hattempt | hattempt
    · exact h.counted attempt hattempt
    · rw [List.mem_singleton.1 hattempt]
      exact h.claimed r challenge hr
  · intro attempt hattempt request' hr'
    simp only [hget] at hr'
    rcases List.mem_append.1 hattempt with hattempt | hattempt
    · rw [if_neg (hfresh attempt hattempt)] at hr'
      exact h.past attempt hattempt request' hr'
    · rw [List.mem_singleton.1 hattempt, if_pos rfl] at hr'
      cases hr'
      exact hanswered
  · intro attempt hattempt
    simp only [hget]
    rcases List.mem_append.1 hattempt with hattempt | hattempt
    · rw [if_neg (hfresh attempt hattempt)]
      exact h.present attempt hattempt
    · rw [List.mem_singleton.1 hattempt, if_pos rfl]
      simp
  · intro r' challenge' hr'
    simp only [hget] at hr'
    split at hr'
    · cases hr'
      cases hanswered
    · exact h.claimed r' challenge' hr'

theorem Counted.step (h : Counted w) {l : Label} {w' : World}
    (hst : Guesses.step budgetLock w l = some w') : Counted w' := by
  -- the request is at a stage before `_verify`
  have hbefore : ∀ {r : Nat} {stage : Request}, w.requests.get r = some stage →
      stage.answered = false → ∀ old, w.requests.get r = some old → old.answered = false := by
    intro r stage hr hstage old hold
    rw [hr] at hold
    cases hold
    exact hstage
  have hnone : ∀ {r : Nat}, w.requests.get r = none →
      ∀ old, w.requests.get r = some old → old.answered = false := by
    intro r hr old hold
    rw [hr] at hold
    cases hold
  cases l with
  | tick seconds =>
    cases hst
    exact ⟨h.nodup, h.counted, h.past, h.present, h.claimed⟩
  | begin r user =>
    simp only [Guesses.step] at hst
    split at hst
    · next hr =>
      cases hst
      exact h.put rfl (List.Subset.refl _) rfl (.inr (hnone hr)) (by simp)
    · cases hst
  | takeKey r =>
    simp only [Guesses.step] at hst
    split at hst
    · next hr =>
      split at hst
      · cases hst
        exact h.put rfl (List.Subset.refl _) rfl (.inr (hbefore hr rfl)) (by simp)
      · cases hst
    · cases hst
  | carry r =>
    simp only [Guesses.step] at hst
    split at hst
    · next hr =>
      split at hst
      · cases hst
        exact h.put rfl (List.Subset.refl _) rfl (.inr (hbefore hr rfl)) (by simp)
      · cases hst
    · cases hst
  | insert r expiresAt =>
    simp only [Guesses.step] at hst
    split at hst
    · cases hst
      exact h.put rfl (List.Subset.refl _) rfl (.inl rfl) (by simp)
    · cases hst
  | present r token =>
    simp only [Guesses.step] at hst
    split at hst
    · next hr =>
      cases hst
      exact h.put rfl (List.Subset.refl _) rfl (.inr (hnone hr)) (by simp)
    · cases hst
  | claim r =>
    simp only [Guesses.step] at hst
    split at hst
    · next hr =>
      split at hst
      · cases hst
        exact h.put rfl (List.Subset.refl _) rfl (.inr (hbefore hr rfl)) (by simp)
      · cases hst
    · cases hst
  | commitClaim r =>
    simp only [Guesses.step] at hst
    split at hst
    · next challenge hr =>
      cases hst
      refine h.put rfl (List.subset_append_left _ _) rfl (.inr (hbefore hr rfl)) ?_
      intro challenge' heq
      cases heq
      exact List.mem_append_right _ List.mem_cons_self
    · cases hst
      exact h.put rfl (List.Subset.refl _) rfl (.inl rfl) (by simp)
    · cases hst
  | verify r good =>
    simp only [Guesses.step] at hst
    split at hst
    · next challenge hr =>
      cases hst
      cases good with
      | false => exact h.verify hr rfl
      | true => exact h.verify hr rfl
    · cases hst
  | win r startedAt =>
    simp only [Guesses.step] at hst
    split at hst
    · split at hst
      · cases hst
        exact h.put rfl (List.Subset.refl _) rfl (.inl rfl) (by simp)
      · cases hst
    · cases hst
  | commitWin r =>
    simp only [Guesses.step] at hst
    split at hst
    · cases hst
      exact h.put rfl (List.Subset.refl _) rfl (.inl rfl) (by simp)
    · cases hst
  | fail r =>
    simp only [Guesses.step] at hst
    split at hst
    · cases hst
      exact h.put rfl (List.Subset.refl _) rfl (.inl rfl) (by simp)
    · cases hst

theorem reach_inv (hw : (machine budgetLock).Reach Machine.anyStep w) :
    Locks budgetLock w ∧ Ledger w.challenges w.claims w.won w.next ∧ Counted w := by
  refine Machine.Reach.invariant (I := fun s : World => Locks budgetLock s ∧
    Ledger s.challenges s.claims s.won s.next ∧ Counted s) ?_ ?_ hw
  · rintro s rfl
    exact ⟨Locks.start, Ledger.start, Counted.start⟩
  · rintro s l t ⟨hlocks, hledger, hcounted⟩ - hst
    exact ⟨hlocks.step hst, hledger.step hlocks hst, hcounted.step hst⟩

/-- Along a chain of challenges, each begun while its predecessor was unexpired and none
answered successfully, at most `MAX_ATTEMPTS` codes reach verification. -/
theorem guesses_bounded (hw : (machine budgetLock).Reach Machine.anyStep w) {user : Nat}
    {chain : List Begun} (hchain : Chain w.challenges w.won user chain) :
    onChain chain w.verified ≤ maxAttempts := by
  rcases reach_inv hw with ⟨-, hledger, hcounted⟩
  have hclaims : onChain chain w.verified ≤ onChain chain w.claims :=
    (List.subperm_of_subset hcounted.nodup hcounted.counted).countP_le _
  rcases List.eq_nil_or_concat chain with rfl | ⟨before, b, rfl⟩
  · simp [onChain]
  · rw [List.concat_eq_append] at hchain hclaims ⊢
    have hb : b ∈ begunFor w.challenges user :=
      hchain.consecutive.subset (List.mem_append_right _ List.mem_cons_self)
    rcases mem_begunFor.1 hb with ⟨c, hc, hcb, -⟩
    have hbudget := hledger.budget user before b hchain c hc (congrArg Begun.id hcb)
    exact hclaims.trans hbudget.2

/-! ## Two challenges and three guesses -/

/-- Two codes on one challenge, and a third on the challenge begun while it was open. -/
def sampleLabels : List Label :=
  [.begin 1 5, .takeKey 1, .carry 1, .insert 1 600,
    .present 2 1, .present 3 1, .claim 2, .commitClaim 2, .claim 3, .begin 4 5, .takeKey 4,
    .commitClaim 3, .carry 4, .verify 2 false, .insert 4 700, .verify 3 false,
    .present 5 3, .claim 5, .commitClaim 5, .verify 5 false]

def sampleWorld : World := ((machine id).run start sampleLabels).getD start

theorem sampleWorld_reach : (machine id).Reach Machine.anyStep sampleWorld := by
  have hrun : (machine id).run start sampleLabels = some sampleWorld := rfl
  exact ⟨start, rfl, Machine.path_of_run_any hrun⟩

theorem guesses_bounded_sample :
    onChain [⟨0, 5, 600, 0⟩, ⟨2, 5, 700, 0⟩] sampleWorld.verified = 3 ∧ 3 ≤ maxAttempts := by
  have hchain : Chain sampleWorld.challenges sampleWorld.won 5 [⟨0, 5, 600, 0⟩, ⟨2, 5, 700, 0⟩] := by
    refine ⟨⟨[], [], rfl⟩, ?_, ?_⟩
    · have hlinked : Linked ⟨0, 5, 600, 0⟩ ⟨2, 5, 700, 0⟩ := by simp [Linked]
      exact List.isChain_pair.2 hlinked
    · intro b hb hwon
      cases hwon
  have hcount : onChain [⟨0, 5, 600, 0⟩, ⟨2, 5, 700, 0⟩] sampleWorld.verified = 3 := rfl
  exact ⟨hcount, hcount ▸ guesses_bounded sampleWorld_reach hchain⟩

end Potocolom.Guesses
