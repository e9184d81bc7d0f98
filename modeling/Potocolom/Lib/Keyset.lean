import Mathlib

/-! # Keyset paging

The rows in descending order of a key, a page at a time: the next page is asked for with the
last row of the one before, and takes the rows whose key is below that row's. -/

namespace Keyset

variable {α κ ι ε : Type*} [LinearOrder κ] {key : α → κ} {rows l pre post : List α} {a : α}

/-- The rows, greatest key first. -/
def descending (key : α → κ) (rows : List α) : List α :=
  rows.insertionSort fun a b => key b ≤ key a

theorem mem_descending {x : α} : x ∈ descending key rows ↔ x ∈ rows := List.mem_insertionSort _

theorem perm_descending : (descending key rows).Perm rows := List.perm_insertionSort _ _

theorem pairwise_descending : (descending key rows).Pairwise fun a b => key b ≤ key a := by
  have : Std.Total fun a b : α => key b ≤ key a := ⟨fun a b => le_total (key b) (key a)⟩
  have : IsTrans α fun a b => key b ≤ key a := ⟨fun _ _ _ hab hbc => le_trans hbc hab⟩
  exact List.pairwise_insertionSort _ _

/-- Rows of different keys stand in strict order. -/
theorem strict_descending (hkeys : (rows.map key).Nodup) :
    (descending key rows).Pairwise fun a b => key b < key a := by
  have hperm : ((descending key rows).map key).Nodup :=
    ((perm_descending.map key).nodup_iff).2 hkeys
  have hne : (descending key rows).Pairwise fun a b => key a ≠ key b := List.pairwise_map.1 hperm
  exact (pairwise_descending.and hne).imp fun h => lt_of_le_of_ne h.1 h.2.symm

/-- The rows below a row are those that stand behind it. -/
theorem descending_below (hkeys : (rows.map key).Nodup)
    (hsplit : descending key rows = pre ++ a :: post) :
    descending key (rows.filter fun x => key x < key a) = post := by
  have hstrict := strict_descending hkeys
  rw [hsplit] at hstrict
  obtain ⟨-, htail, hcross⟩ := List.pairwise_append.1 hstrict
  obtain ⟨hbelow, hpost⟩ := List.pairwise_cons.1 htail
  have hfilter : (descending key rows).filter (fun x => key x < key a) = post := by
    rw [hsplit, List.filter_append, List.filter_cons_of_neg (by simp)]
    have hpre : pre.filter (fun x => decide (key x < key a)) = [] := by
      rw [List.filter_eq_nil_iff]
      intro x hx
      have habove := hcross x hx a List.mem_cons_self
      simpa using le_of_lt habove
    have hall : post.filter (fun x => decide (key x < key a)) = post := by
      rw [List.filter_eq_self]
      intro x hx
      simpa using hbelow x hx
    rw [hpre, hall, List.nil_append]
  have hperm : (descending key (rows.filter fun x => key x < key a)).Perm post := by
    refine perm_descending.trans ?_
    rw [← hfilter]
    exact (perm_descending.symm.filter _)
  have hnodup : ((rows.filter fun x => key x < key a).map key).Nodup :=
    hkeys.sublist (List.filter_sublist.map key)
  -- two strictly ordered lists of the same rows are one
  refine hperm.eq_of_pairwise ?_ (strict_descending hnodup) hpost
  intro x y _ _ hxy hyx
  exact absurd hxy (lt_asymm hyx)

/-- Ask for the first page, then for the page behind the last row of each, until one is empty;
`none` where that takes more requests than allowed. -/
def follow (request : Option ι → Except ε (List α)) (id : α → ι) :
    Nat → Option ι → Option (Except ε (List α))
  | 0, _ => none
  | fuel + 1, cursor =>
    match request cursor with
    | .error e => some (.error e)
    | .ok page =>
      match page.getLast? with
      | none => some (.ok [])
      | some last =>
        (follow request id fuel (some (id last))).map fun rest => rest.map fun rows => page ++ rows

/-- Following the cursor lists the rows that remain behind it, page by page, and ends. -/
theorem follow_rest {request : Option ι → Except ε (List α)} {id : α → ι} {cap fuel : Nat}
    {cursor : Option ι} (hcap : 1 ≤ cap)
    (hpage : ∀ pre a post, l = pre ++ a :: post → request (some (id a)) = .ok (post.take cap))
    (hl : l = pre ++ post) (hrequest : request cursor = .ok (post.take cap))
    (hfuel : post.length < fuel) : follow request id fuel cursor = some (.ok post) := by
  induction fuel generalizing pre post cursor with
  | zero => omega
  | succ fuel ih =>
    rw [follow, hrequest]
    dsimp only
    cases hlast : (post.take cap).getLast? with
    | none =>
      have hnil : post.take cap = [] := List.getLast?_eq_none_iff.1 hlast
      have hpost : post = [] := by
        rcases List.take_eq_nil_iff.1 hnil with h | h
        · omega
        · exact h
      rw [hpost]
    | some last =>
      obtain ⟨init, hinit⟩ : ∃ init, post.take cap = init ++ [last] :=
        ⟨_, (List.dropLast_append_getLast? last hlast).symm⟩
      have hsplit : post = init ++ last :: post.drop cap := by
        have hboth := List.take_append_drop cap post
        rw [hinit, List.append_assoc, List.singleton_append] at hboth
        exact hboth.symm
      have hshorter : (post.drop cap).length < post.length := by
        have hlength := congrArg List.length hsplit
        rw [List.length_append, List.length_cons] at hlength
        omega
      have hnext : l = (pre ++ init) ++ last :: post.drop cap := by
        rw [hl, List.append_assoc, ← hsplit]
      have hrest := @ih (pre ++ init ++ [last]) (post.drop cap) (some (id last))
        (by rw [hnext, List.append_assoc _ [last], List.singleton_append])
        (hpage _ _ _ hnext) (by omega)
      dsimp only
      rw [hrest, Option.map_some]
      congr 1
      show Except.ok (post.take cap ++ post.drop cap) = Except.ok post
      rw [List.take_append_drop]

/-- Following the cursor from the first page lists every row, in order, and ends. -/
theorem follow_lists {request : Option ι → Except ε (List α)} {id : α → ι} {cap fuel : Nat}
    (hcap : 1 ≤ cap) (hfirst : request none = .ok (l.take cap))
    (hpage : ∀ pre a post, l = pre ++ a :: post → request (some (id a)) = .ok (post.take cap))
    (hfuel : l.length < fuel) : follow request id fuel none = some (.ok l) :=
  follow_rest hcap hpage (List.nil_append l).symm hfirst hfuel

end Keyset
