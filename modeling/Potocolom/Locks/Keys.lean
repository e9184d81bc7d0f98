import Potocolom.Lib.LockOrder

/-! # The advisory keys

`account_lock.py`: the key an account's transactions take before any row, made of the
first eight bytes of the account's id. The keys of several accounts are taken in the
order of the ids. -/

namespace Potocolom.Locks

abbrev Uuid := Nat

/-- A `users.id`: drawn by `uuid.uuid4()`, so its version nibble is four. -/
structure UserId where
  value : Fin (2 ^ 128)
  version : value.val / 2 ^ 76 % 16 = 4
  deriving DecidableEq

/-- `budget_lock`: the first eight bytes, as a signed number. -/
def budgetLock (u : UserId) : Int :=
  let first : Nat := u.value.val / 2 ^ 64
  if first < 2 ^ 63 then first else (first : Int) - 2 ^ 64

/-- `ROLE_CHANGE_LOCK` and `STATE_CHANGE_LOCK`, the one key of both. -/
def roleChangeLock : Int := 184468

/-- The place of a key in the order of the ids: its bytes without the sign. -/
def place (key : Int) : Int := key % 2 ^ 64

/-- `hold_the_account` for several accounts, in the order of their ids. -/
def keysOf (users : List UserId) : List Int :=
  (users.insertionSort fun u v => u.value.val ≤ v.value.val).map budgetLock

variable {u v : UserId} {users : List UserId}

theorem place_budgetLock (u : UserId) : place (budgetLock u) = (u.value.val / 2 ^ 64 : Nat) := by
  have hlt := u.value.isLt
  simp only [place, budgetLock]
  split <;> omega

theorem budgetLock_inj_place (h : place (budgetLock u) = place (budgetLock v)) :
    budgetLock u = budgetLock v := by
  rw [place_budgetLock, place_budgetLock] at h
  have hfirst : u.value.val / 2 ^ 64 = v.value.val / 2 ^ 64 := Int.ofNat_inj.1 h
  simp only [budgetLock, hfirst]

/-- A later account has the same key or a later one. -/
theorem budgetLock_le (h : u.value.val ≤ v.value.val) :
    budgetLock u = budgetLock v ∨ place (budgetLock u) < place (budgetLock v) := by
  by_cases heq : place (budgetLock u) = place (budgetLock v)
  · exact .inl (budgetLock_inj_place heq)
  · right
    refine lt_of_le_of_ne ?_ heq
    rw [place_budgetLock, place_budgetLock]
    exact Int.ofNat_le.2 (Nat.div_le_div_right h)

/-- The key of the role changes belongs to no account: its own nibble is thirteen. -/
theorem budgetLock_ne_roleChangeLock (u : UserId) : budgetLock u ≠ roleChangeLock := by
  have hlt := u.value.isLt
  have hversion := u.version
  intro h
  simp only [budgetLock, roleChangeLock] at h
  split at h <;> omega

theorem mem_keysOf (h : u ∈ users) : budgetLock u ∈ keysOf users :=
  List.mem_map_of_mem ((List.mem_insertionSort _).2 h)

theorem exists_of_mem_keysOf {key : Int} (h : key ∈ keysOf users) :
    ∃ u ∈ users, key = budgetLock u := by
  rcases List.mem_map.1 h with ⟨u, hu, rfl⟩
  exact ⟨u, (List.mem_insertionSort _).1 hu, rfl⟩

theorem pairwise_keysOf : (keysOf users).Pairwise fun k k' => k = k' ∨ place k < place k' := by
  have htotal : Std.Total fun u v : UserId => u.value.val ≤ v.value.val :=
    ⟨fun u v => Nat.le_total _ _⟩
  have htrans : IsTrans UserId fun u v => u.value.val ≤ v.value.val :=
    ⟨fun _ _ _ => Nat.le_trans⟩
  refine List.pairwise_map.2 ((List.pairwise_insertionSort _ users).imp ?_)
  intro u v h
  exact budgetLock_le h

end Potocolom.Locks
