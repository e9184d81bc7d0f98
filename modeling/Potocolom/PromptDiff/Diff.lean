import Potocolom.Lib.Subsequence
import Potocolom.PromptDiff.Words

/-! # The difference of two prompts

`promptWordDiff` fills the table of the longest common subsequences of the prefixes, and
walks back through it; `collapsePromptDiff` keeps the words around each change. The walk
takes every match it meets, and is no longer for it. -/

namespace Potocolom.PromptDiff

open Subsequence

/-! ## The table -/

/-- `table[row]?.[col] ?? 0` -/
def cell (table : List (List Nat)) (row col : Nat) : Nat := (table.getD row []).getD col 0

/-- The inner loop, which fills `current` from the left. -/
def fillRow (leftWord : Text) (prev : List Nat) (right : List Text) : List Nat :=
  right.zipIdx.foldl
    (fun current (rightWord, i) =>
      current ++ [if leftWord = rightWord then prev.getD i 0 + 1
        else max (prev.getD (i + 1) 0) (current.getD i 0)])
    [0]

def fillTable (left right : List Text) : List (List Nat) :=
  left.zipIdx.foldl
    (fun table (leftWord, i) => table ++ [fillRow leftWord (table.getD i []) right])
    [List.replicate (right.length + 1) 0]

variable {left right xs ys : List Text} {a : Text} {prev row : List Nat}

/-- The row of the words `xs`. -/
structure RowOf (xs ys : List Text) (row : List Nat) : Prop where
  length : row.length = ys.length + 1
  longest : ∀ col ≤ ys.length, Longest xs (ys.take col) (row.getD col 0)

theorem getD_concat {α : Type} (l : List α) (x d : α) (i : Nat) :
    (l ++ [x]).getD i d = if i < l.length then l.getD i d else if i = l.length then x else d := by
  simp only [List.getD_eq_getElem?_getD, List.getElem?_append]
  split
  · rfl
  · next hlt =>
    split
    · next heq => simp [heq]
    · next hne =>
      rw [List.getElem?_eq_none (by simp; omega)]
      rfl

theorem rowOf_zero (ys : List Text) : RowOf [] ys (List.replicate (ys.length + 1) 0) where
  length := List.length_replicate
  longest col hcol := by
    rw [List.getD_eq_getElem?_getD, List.getElem?_replicate_of_lt (by omega)]
    exact longest_nil_left _

theorem fillRow_concat (leftWord : Text) (prev : List Nat) (right : List Text) (b : Text) :
    fillRow leftWord prev (right ++ [b]) = fillRow leftWord prev right ++
      [if leftWord = b then prev.getD right.length 0 + 1
        else max (prev.getD (right.length + 1) 0)
          ((fillRow leftWord prev right).getD right.length 0)] := by
  unfold fillRow
  rw [List.zipIdx_append, List.foldl_append]
  simp

/-- A row follows from the one above it. -/
theorem fillRow_spec (hprev : ∀ col ≤ ys.length, Longest xs (ys.take col) (prev.getD col 0)) :
    RowOf (xs ++ [a]) ys (fillRow a prev ys) := by
  induction ys using List.reverseRecOn with
  | nil =>
    refine ⟨rfl, ?_⟩
    intro col _
    rw [List.take_nil]
    have hzero : (fillRow a prev []).getD col 0 = 0 := by
      cases col <;> rfl
    rw [hzero]
    exact longest_nil_right _
  | append_singleton front b ih =>
    have hfront : RowOf (xs ++ [a]) front (fillRow a prev front) := by
      apply ih
      intro col hcol
      have h := hprev col (by simp; omega)
      rwa [List.take_append_of_le_length hcol] at h
    rw [fillRow_concat]
    constructor
    · simp [hfront.length]
    · intro col hcol
      rw [getD_concat, hfront.length]
      rw [List.length_append, List.length_singleton] at hcol
      by_cases hlt : col < front.length + 1
      · rw [if_pos hlt, List.take_append_of_le_length (by omega)]
        exact hfront.longest col (by omega)
      · -- the last cell: the words are equal, or the better neighbour counts
        obtain rfl : col = front.length + 1 := by omega
        rw [if_neg hlt, if_pos rfl, List.take_of_length_le (by simp)]
        have hdiagonal := hprev front.length (by simp)
        have habove := hprev (front.length + 1) (by simp)
        have hbefore := hfront.longest front.length (Nat.le_refl _)
        rw [List.take_append_of_le_length (Nat.le_refl _), List.take_length] at hdiagonal
        rw [List.take_of_length_le (by simp)] at habove
        rw [List.take_length] at hbefore
        split
        · next heq =>
          rw [heq]
          exact hdiagonal.concat_same
        · next hne => exact habove.concat_ne hne hbefore

theorem fillTable_concat (left right : List Text) (a : Text) :
    fillTable (left ++ [a]) right = fillTable left right ++
      [fillRow a ((fillTable left right).getD left.length []) right] := by
  unfold fillTable
  rw [List.zipIdx_append, List.foldl_append]
  simp

theorem fillTable_spec (left right : List Text) :
    (fillTable left right).length = left.length + 1 ∧
      ∀ row ≤ left.length, RowOf (left.take row) right ((fillTable left right).getD row []) := by
  induction left using List.reverseRecOn with
  | nil =>
    refine ⟨rfl, ?_⟩
    intro row hrow
    obtain rfl : row = 0 := by simpa using hrow
    exact rowOf_zero right
  | append_singleton front a ih =>
    obtain ⟨hlength, hrows⟩ := ih
    rw [fillTable_concat]
    constructor
    · simp [hlength]
    · intro row hrow
      rw [getD_concat, hlength]
      rw [List.length_append, List.length_singleton] at hrow
      by_cases hlt : row < front.length + 1
      · rw [if_pos hlt, List.take_append_of_le_length (by omega)]
        exact hrows row (by omega)
      · obtain rfl : row = front.length + 1 := by omega
        rw [if_neg hlt, if_pos rfl, List.take_of_length_le (by simp)]
        have hlast := hrows front.length (Nat.le_refl _)
        rw [List.take_length] at hlast
        exact fillRow_spec hlast.longest

theorem cell_spec (left right : List Text) {row col : Nat} (hrow : row ≤ left.length) (hcol : col ≤ right.length) :
    Longest (left.take row) (right.take col) (cell (fillTable left right) row col) :=
  ((fillTable_spec left right).2 row hrow).longest col hcol

/-! ## The walk back -/

/-- One of the two last loops: what is left of one prompt, from the end. -/
def drain (kind : Kind) (text : List Text) (n : Nat) : List Token :=
  (List.range n).reverse.filterMap fun i => text[i]?.map fun word => ⟨kind, word⟩

def drainBoth (left right : List Text) (row col : Nat) : List Token :=
  drain .removed left row ++ drain .added right col

/-- The tokens in the order in which they are pushed. -/
def backtrack (left right : List Text) (table : List (List Nat)) (row col : Nat) : List Token :=
  match row, col with
  | r + 1, c + 1 =>
    let up := cell table r (c + 1)
    let side := cell table (r + 1) c
    match left[r]?, right[c]? with
    | some leftWord, some rightWord =>
      if leftWord = rightWord then ⟨.same, leftWord⟩ :: backtrack left right table r c
      else if side < up then ⟨.removed, leftWord⟩ :: backtrack left right table r (c + 1)
      else ⟨.added, rightWord⟩ :: backtrack left right table (r + 1) c
    | some leftWord, none =>
      if side < up then ⟨.removed, leftWord⟩ :: backtrack left right table r (c + 1)
      else drainBoth left right (r + 1) (c + 1)
    | none, some rightWord => ⟨.added, rightWord⟩ :: backtrack left right table (r + 1) c
    | none, none => drainBoth left right (r + 1) (c + 1)
  | row, col => drainBoth left right row col
termination_by row + col

def promptWordDiff (parent child : Text) : List Token :=
  let left := words parent
  let right := words child
  merge (backtrack left right (fillTable left right) left.length right.length).reverse

/-- The words of the kinds that `keep` has. -/
def textsOf (keep : Kind → Bool) (tokens : List Token) : List Text :=
  (tokens.filter fun token => keep token.kind).map Token.text

def sameWords (tokens : List Token) : Nat := tokens.countP fun token => token.kind = .same

def inParent (kind : Kind) : Bool := kind ≠ .added

def inChild (kind : Kind) : Bool := kind ≠ .removed

theorem textsOf_concat (keep : Kind → Bool) (tokens : List Token) (token : Token) :
    textsOf keep (tokens ++ [token]) =
      textsOf keep tokens ++ if keep token.kind = true then [token.text] else [] := by
  unfold textsOf
  rw [List.filter_append, List.map_append]
  by_cases h : keep token.kind = true <;> simp [h]

/-- The tokens of a stretch of both prompts. -/
structure Aligns (xs ys : List Text) (tokens : List Token) : Prop where
  parent : textsOf inParent tokens = xs
  child : textsOf inChild tokens = ys
  minimal : Longest xs ys (sameWords tokens)

theorem Aligns.same {tokens : List Token} (h : Aligns xs ys tokens) (word : Text) :
    Aligns (xs ++ [word]) (ys ++ [word]) (tokens ++ [⟨.same, word⟩]) where
  parent := by
    rw [textsOf_concat, h.parent]
    rfl
  child := by
    rw [textsOf_concat, h.child]
    rfl
  minimal := by
    have hcount : sameWords (tokens ++ [⟨.same, word⟩]) = sameWords tokens + 1 := by
      simp [sameWords]
    rw [hcount]
    exact h.minimal.concat_same

/-- Where a word of the parent is taken off, nothing is lost. -/
theorem Aligns.removed {tokens : List Token} (h : Aligns xs ys tokens) (word : Text)
    (hlongest : Longest (xs ++ [word]) ys (sameWords tokens)) :
    Aligns (xs ++ [word]) ys (tokens ++ [⟨.removed, word⟩]) where
  parent := by
    rw [textsOf_concat, h.parent]
    rfl
  child := by
    rw [textsOf_concat, h.child]
    exact List.append_nil ys
  minimal := by
    have hcount : sameWords (tokens ++ [⟨.removed, word⟩]) = sameWords tokens := by
      simp [sameWords]
    rw [hcount]
    exact hlongest

theorem Aligns.added {tokens : List Token} (h : Aligns xs ys tokens) (word : Text)
    (hlongest : Longest xs (ys ++ [word]) (sameWords tokens)) :
    Aligns xs (ys ++ [word]) (tokens ++ [⟨.added, word⟩]) where
  parent := by
    rw [textsOf_concat, h.parent]
    exact List.append_nil xs
  child := by
    rw [textsOf_concat, h.child]
    rfl
  minimal := by
    have hcount : sameWords (tokens ++ [⟨.added, word⟩]) = sameWords tokens := by
      simp [sameWords]
    rw [hcount]
    exact hlongest

theorem drain_succ (kind : Kind) {text : List Text} {n : Nat} {word : Text}
    (h : text[n]? = some word) : drain kind text (n + 1) = ⟨kind, word⟩ :: drain kind text n := by
  unfold drain
  rw [List.range_succ, List.reverse_append]
  simp [h]

theorem take_succ_eq {text : List Text} {n : Nat} {word : Text} (h : text[n]? = some word) :
    text.take (n + 1) = text.take n ++ [word] := by
  rw [List.take_add_one, h]
  rfl

theorem aligns_drain_parent {row : Nat} (hrow : row ≤ left.length) :
    Aligns (left.take row) [] (drain .removed left row).reverse := by
  induction row with
  | zero => exact ⟨rfl, rfl, longest_nil_right _⟩
  | succ n ih =>
    obtain ⟨word, hword⟩ : ∃ word, left[n]? = some word :=
      ⟨left[n], List.getElem?_eq_getElem (by omega)⟩
    have hrest := ih (by omega)
    have hzero := hrest.minimal.unique (longest_nil_right _)
    rw [drain_succ _ hword, List.reverse_cons, take_succ_eq hword]
    apply hrest.removed
    rw [hzero]
    exact longest_nil_right _

theorem aligns_drain_child {col : Nat} (hcol : col ≤ right.length) :
    Aligns [] (right.take col) (drain .added right col).reverse := by
  induction col with
  | zero => exact ⟨rfl, rfl, longest_nil_right _⟩
  | succ n ih =>
    obtain ⟨word, hword⟩ : ∃ word, right[n]? = some word :=
      ⟨right[n], List.getElem?_eq_getElem (by omega)⟩
    have hrest := ih (by omega)
    have hzero := hrest.minimal.unique (longest_nil_left _)
    rw [drain_succ _ hword, List.reverse_cons, take_succ_eq hword]
    apply hrest.added
    rw [hzero]
    exact longest_nil_left _

/-- The walk from a cell explains the prefixes of that cell. -/
theorem aligns_backtrack (row col : Nat) (hrow : row ≤ left.length) (hcol : col ≤ right.length) :
    Aligns (left.take row) (right.take col)
      (backtrack left right (fillTable left right) row col).reverse := by
  induction hn : row + col using Nat.strong_induction_on generalizing row col with
  | _ n ih =>
  cases row with
  | zero =>
    have hstop : backtrack left right (fillTable left right) 0 col = drain .added right col := by
      rw [backtrack]
      · exact List.nil_append _
      · intro r c hr
        cases hr
    rw [hstop]
    exact aligns_drain_child hcol
  | succ r =>
    cases col with
    | zero =>
      have hstop : backtrack left right (fillTable left right) (r + 1) 0 =
          drain .removed left (r + 1) := by
        rw [backtrack]
        · exact List.append_nil _
        · intro r' c' _ hc
          cases hc
      rw [hstop]
      exact aligns_drain_parent hrow
    | succ c =>
      obtain ⟨leftWord, hleft⟩ : ∃ word, left[r]? = some word :=
        ⟨left[r], List.getElem?_eq_getElem (by omega)⟩
      obtain ⟨rightWord, hright⟩ : ∃ word, right[c]? = some word :=
        ⟨right[c], List.getElem?_eq_getElem (by omega)⟩
      have hup : Longest (left.take r) (right.take (c + 1))
          (cell (fillTable left right) r (c + 1)) := cell_spec left right (by omega) hcol
      have hside : Longest (left.take (r + 1)) (right.take c)
          (cell (fillTable left right) (r + 1) c) := cell_spec left right hrow (by omega)
      rw [backtrack, hleft, hright]
      dsimp only
      rw [take_succ_eq hright] at hup ⊢
      rw [take_succ_eq hleft] at hside ⊢
      split
      · next heq =>
        rw [List.reverse_cons, heq]
        exact (ih (r + c) (by omega) r c (by omega) (by omega) rfl).same rightWord
      · next hne =>
        have hbest := hup.concat_ne hne hside
        split
        · next hlt =>
          -- the cell above is the better one, so it is the best
          have hrest := ih (r + (c + 1)) (by omega) r (c + 1) (by omega) hcol rfl
          rw [take_succ_eq hright] at hrest
          rw [List.reverse_cons]
          apply hrest.removed
          rw [hrest.minimal.unique hup]
          rwa [Nat.max_eq_left (Nat.le_of_lt hlt)] at hbest
        · next hle =>
          have hrest := ih (r + 1 + c) (by omega) (r + 1) c hrow (by omega) rfl
          rw [take_succ_eq hleft] at hrest
          rw [List.reverse_cons]
          apply hrest.added
          rw [hrest.minimal.unique hside]
          rwa [Nat.max_eq_right (Nat.le_of_not_lt hle)] at hbest

/-- The tokens of the walk, before `merge`, in the order of the prompts. -/
def walked (parent child : Text) : List Token :=
  (backtrack (words parent) (words child) (fillTable (words parent) (words child))
    (words parent).length (words child).length).reverse

theorem aligns_walked (parent child : Text) :
    Aligns (words parent) (words child) (walked parent child) := by
  have h := aligns_backtrack (words parent).length (words child).length
    (Nat.le_refl (words parent).length) (Nat.le_refl (words child).length)
  rwa [List.take_length, List.take_length] at h

/-- Each token of the walk is a word of one of the prompts. -/
theorem isWord_walked {parent child : Text} {token : Token} (h : token ∈ walked parent child) :
    IsWord token.text := by
  have haligns := aligns_walked parent child
  have hparent : inParent token.kind = true → token.text ∈ words parent := by
    intro hkind
    rw [← haligns.parent]
    exact List.mem_map_of_mem (List.mem_filter.2 ⟨h, hkind⟩)
  have hchild : inChild token.kind = true → token.text ∈ words child := by
    intro hkind
    rw [← haligns.child]
    exact List.mem_map_of_mem (List.mem_filter.2 ⟨h, hkind⟩)
  cases hkind : token.kind with
  | same => exact isWord_of_mem (hparent (by rw [hkind]; rfl))
  | removed => exact isWord_of_mem (hparent (by rw [hkind]; rfl))
  | added => exact isWord_of_mem (hchild (by rw [hkind]; rfl))

theorem explode_promptWordDiff (parent child : Text) :
    explode (promptWordDiff parent child) = walked parent child := by
  have hmerge : explode (promptWordDiff parent child) = explode (walked parent child) :=
    explode_merge _
  rw [hmerge]
  exact explode_of_words fun token h => isWord_walked h

end Potocolom.PromptDiff
