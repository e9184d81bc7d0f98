import Mathlib

/-! # Partial maps laid over one another, and a log of them

`base.overlay update` is the map `update` laid over `base`. What a map held at one
time a later one still holds, but for the keys touched in between; over a log this
is a statement about the entries after an entry. -/

/-- A partial map. -/
abbrev Dict (K V : Type*) := K → Option V

namespace Dict

variable {K V : Type*} {m d update : Dict K V} {touched touched' : K → Prop}

/-- `{**base, **update}`. -/
def overlay (base update : Dict K V) : Dict K V := fun k => (update k).or (base k)

/-- What `m` has, `d` has, but for touched keys. -/
def Kept (m : Dict K V) (touched : K → Prop) (d : Dict K V) : Prop :=
  ∀ k v, m k = some v → d k = some v ∨ touched k

theorem Kept.refl (m : Dict K V) : m.Kept touched m := fun _ _ h => .inl h

theorem Kept.mono (h : m.Kept touched d) (hsub : ∀ k, touched k → touched' k) :
    m.Kept touched' d := by
  intro k v hm
  rcases h k v hm with hd | ht
  · exact .inl hd
  · exact .inr (hsub k ht)

/-- An update touches its own keys only. -/
theorem Kept.overlay (h : m.Kept touched d) (hupdate : ∀ k, (update k).isSome → touched k) :
    m.Kept touched (d.overlay update) := by
  intro k v hm
  cases hk : update k with
  | some w =>
    right
    apply hupdate
    rw [hk]
    rfl
  | none =>
    rcases h k v hm with hd | ht
    · left
      show (update k).or (d k) = some v
      rw [hk, hd]
      rfl
    · exact .inr ht

end Dict

namespace List

variable {α : Type*} {l pre post : List α} {x y : α}

/-- An entry of a log one longer is the new one or an old one. -/
theorem append_cons_eq_concat :
    pre ++ x :: post = l ++ [y] ↔
      (post = [] ∧ pre = l ∧ x = y) ∨ ∃ rest, post = rest ++ [y] ∧ l = pre ++ x :: rest := by
  constructor
  · intro h
    rcases post.eq_nil_or_concat with rfl | ⟨rest, z, hpost⟩
    · have hlast := List.append_inj' h rfl
      exact .inl ⟨rfl, hlast.1, List.singleton_inj.1 hlast.2⟩
    · rw [List.concat_eq_append] at hpost
      subst hpost
      rw [← List.cons_append, ← List.append_assoc] at h
      have hlast := List.append_inj' h rfl
      rw [List.singleton_inj.1 hlast.2]
      exact .inr ⟨rest, rfl, hlast.1.symm⟩
  · rintro (⟨rfl, rfl, rfl⟩ | ⟨rest, rfl, rfl⟩)
    · rfl
    · simp

end List
