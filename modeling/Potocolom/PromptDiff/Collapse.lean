import Potocolom.PromptDiff.Diff

/-! # What is kept around the changes

`collapsePromptDiff` takes the tokens apart into words, keeps the words within `context`
of a change, and merges what it keeps. -/

namespace Potocolom.PromptDiff

/-- The words at a distance of at most `context` from `index`. -/
def neighbours (context length index : Nat) : List Nat :=
  (List.range (2 * context + 1)).filterMap fun (k : Nat) =>
    let neighbour : Int := index + ((k : Int) - context)
    if 0 ≤ neighbour ∧ neighbour < length then some neighbour.toNat else none

/-- `keep` -/
def keptIndexes (context : Nat) (exploded : List Token) : List Nat :=
  exploded.zipIdx.flatMap fun (token, index) =>
    if token.kind = .same then [] else neighbours context exploded.length index ++ [index]

structure Collapsed where
  tokens : List Token
  truncated : Bool
deriving DecidableEq, Repr

def collapsePromptDiff (tokens : List Token) (context : Nat) : Collapsed :=
  let exploded := explode tokens
  if (exploded.all fun token => token.kind = .same) = true ∨ exploded.length = 0 then
    ⟨tokens, false⟩
  else
    let keep := keptIndexes context exploded
    ⟨merge ((exploded.zipIdx.filter fun (_, index) => index ∈ keep).map Prod.fst),
      exploded.zipIdx.any fun (_, index) => index ∉ keep⟩

/-- The words at the indexes that `keep` has. -/
def chosen (exploded : List Token) (keep : Nat → Bool) : List Token :=
  (exploded.zipIdx.filter fun (_, index) => keep index).map Prod.fst

/-- A change stands within `context` words of the word at `index`. -/
def isNear (exploded : List Token) (context index : Nat) : Bool :=
  exploded.zipIdx.any fun (token, change) =>
    token.kind ≠ .same ∧ change ≤ index + context ∧ index ≤ change + context

variable {tokens exploded : List Token} {context length index : Nat} {keep : Nat → Bool}

theorem mem_neighbours {neighbour : Nat} :
    neighbour ∈ neighbours context length index ↔
      neighbour < length ∧ neighbour ≤ index + context ∧ index ≤ neighbour + context := by
  unfold neighbours
  rw [List.mem_filterMap]
  constructor
  · rintro ⟨k, hk, hsome⟩
    rw [List.mem_range] at hk
    dsimp only at hsome
    split at hsome
    · next hin =>
      obtain rfl := Option.some.inj hsome
      omega
    · cases hsome
  · rintro ⟨hlength, hright, hleft⟩
    refine ⟨neighbour + context - index, ?_, ?_⟩
    · rw [List.mem_range]
      omega
    · have heq : (index : Int) + (((neighbour + context - index : Nat) : Int) - context) =
          neighbour := by omega
      dsimp only
      rw [heq, if_pos (by omega)]
      rfl

theorem isNear_iff : isNear exploded context index = true ↔
    ∃ change token, exploded[change]? = some token ∧ token.kind ≠ .same ∧
      change ≤ index + context ∧ index ≤ change + context := by
  unfold isNear
  rw [List.any_eq_true]
  constructor
  · rintro ⟨⟨token, change⟩, hmem, hnear⟩
    exact ⟨change, token, List.mem_zipIdx_iff_getElem?.1 hmem, of_decide_eq_true hnear⟩
  · rintro ⟨change, token, hget, hnear⟩
    exact ⟨(token, change), List.mem_zipIdx_iff_getElem?.2 hget, decide_eq_true hnear⟩

/-- What is kept are the words near a change. -/
theorem mem_keptIndexes (hindex : index < exploded.length) :
    index ∈ keptIndexes context exploded ↔ isNear exploded context index = true := by
  unfold keptIndexes
  rw [List.mem_flatMap, isNear_iff]
  constructor
  · rintro ⟨⟨token, change⟩, hmem, hin⟩
    have hget : exploded[change]? = some token := List.mem_zipIdx_iff_getElem?.1 hmem
    dsimp only at hin
    split at hin
    · cases hin
    · next hkind =>
      rcases List.mem_append.1 hin with hin | hin
      · obtain ⟨-, hright, hleft⟩ := mem_neighbours.1 hin
        exact ⟨change, token, hget, hkind, by omega, by omega⟩
      · rw [List.mem_singleton.1 hin]
        exact ⟨change, token, hget, hkind, by omega, by omega⟩
  · rintro ⟨change, token, hget, hkind, hleft, hright⟩
    refine ⟨(token, change), List.mem_zipIdx_iff_getElem?.2 hget, ?_⟩
    dsimp only
    rw [if_neg hkind]
    exact List.mem_append_left _ (mem_neighbours.2 ⟨hindex, by omega, by omega⟩)

/-! ## A choice of words -/

theorem chosen_sublist (exploded : List Token) (keep : Nat → Bool) :
    (chosen exploded keep).Sublist exploded := by
  have h := (List.filter_sublist (p := fun x : Token × Nat => keep x.2)
    (l := exploded.zipIdx)).map Prod.fst
  rwa [List.zipIdx_map_fst] at h

theorem lt_of_mem_zipIdx {x : Token × Nat} (h : x ∈ exploded.zipIdx) :
    x.2 < exploded.length := by
  obtain ⟨hlt, -⟩ := List.getElem?_eq_some_iff.1 (List.mem_zipIdx_iff_getElem?.1 h)
  exact hlt

theorem chosen_congr {keep' : Nat → Bool} (h : ∀ i < exploded.length, keep i = keep' i) :
    chosen exploded keep = chosen exploded keep' := by
  unfold chosen
  rw [List.filter_congr fun x hx => h x.2 (lt_of_mem_zipIdx hx)]

/-- Words that are chosen wherever they stand are chosen in order. -/
theorem filter_chosen (p : Token → Bool)
    (h : ∀ i token, exploded[i]? = some token → p token = true → keep i = true) :
    (chosen exploded keep).filter p = exploded.filter p := by
  have hsame : exploded.zipIdx.filter (fun x => p x.1 && keep x.2) =
      exploded.zipIdx.filter fun x => p x.1 := by
    apply List.filter_congr
    rintro ⟨token, i⟩ hx
    have hget := List.mem_zipIdx_iff_getElem?.1 hx
    cases hp : p token with
    | false => simp [hp]
    | true => simp [hp, h i token hget hp]
  have hmap : ∀ l : List (Token × Nat),
      (l.map Prod.fst).filter p = (l.filter fun x => p x.1).map Prod.fst := by
    intro l
    rw [List.filter_map]
    rfl
  have hall := hmap exploded.zipIdx
  rw [List.zipIdx_map_fst] at hall
  rw [chosen, hmap, List.filter_filter, hsame, ← hall]

theorem length_chosen_lt_iff :
    (chosen exploded keep).length < exploded.length ↔ ∃ i < exploded.length, keep i = false := by
  have hlength : exploded.length = exploded.zipIdx.length := List.length_zipIdx.symm
  unfold chosen
  rw [List.length_map]
  constructor
  · intro hlt
    by_contra hall
    push Not at hall
    have hfilter : exploded.zipIdx.filter (fun x => keep x.2) = exploded.zipIdx := by
      rw [List.filter_eq_self]
      intro x hx
      have h := hall x.2 (lt_of_mem_zipIdx hx)
      simpa using h
    have hlt' : (exploded.zipIdx.filter fun x => keep x.2).length < exploded.length := hlt
    rw [hfilter, ← hlength] at hlt'
    exact Nat.lt_irrefl _ hlt'
  · rintro ⟨i, hi, hkeep⟩
    have hmem : (exploded[i], i) ∈ exploded.zipIdx := by
      rw [List.mem_zipIdx_iff_getElem?]
      exact List.getElem?_eq_getElem hi
    rw [hlength]
    exact List.length_filter_lt_length_iff_exists.2 ⟨_, hmem, by simp [hkeep]⟩

/-! ## What collapsing keeps -/

/-- What `collapsePromptDiff` makes of `tokens`. -/
structure Keeps (tokens : List Token) (context : Nat) (collapsed : Collapsed) : Prop where
  /-- Every added and removed word, in order. -/
  changes : (explode collapsed.tokens).filter (fun token => token.kind ≠ .same) =
    (explode tokens).filter fun token => token.kind ≠ .same
  /-- Only words of the difference, in order. -/
  words : (explode collapsed.tokens).Sublist (explode tokens)
  /-- Where something has changed, the words near a change and no others. -/
  near : (∃ token ∈ explode tokens, token.kind ≠ .same) →
    explode collapsed.tokens = chosen (explode tokens) (isNear (explode tokens) context)
  truncated : collapsed.truncated = true ↔
    (explode collapsed.tokens).length < (explode tokens).length

theorem isWord_explode {token : Token} (h : token ∈ explode tokens) : IsWord token.text := by
  unfold explode at h
  obtain ⟨t, -, hin⟩ := List.mem_flatMap.1 h
  obtain ⟨word, hword, rfl⟩ := List.mem_map.1 hin
  exact isWord_of_mem hword

theorem explode_chosen (tokens : List Token) (keep : Nat → Bool) :
    explode (merge (chosen (explode tokens) keep)) = chosen (explode tokens) keep := by
  rw [explode_merge]
  apply explode_of_words
  intro token htoken
  exact isWord_explode ((chosen_sublist _ _).mem htoken)

theorem keeps_collapsePromptDiff (tokens : List Token) (context : Nat) :
    Keeps tokens context (collapsePromptDiff tokens context) := by
  unfold collapsePromptDiff
  dsimp only
  split
  · next hsame =>
    -- nothing has changed, and nothing is dropped
    have hall : ∀ token ∈ explode tokens, token.kind = .same := by
      rcases hsame with hsame | hnil
      · intro token htoken
        exact of_decide_eq_true (List.all_eq_true.1 hsame token htoken)
      · rw [List.length_eq_zero_iff.1 hnil]
        simp
    refine ⟨rfl, List.Sublist.refl _, ?_, by simp⟩
    rintro ⟨token, htoken, hkind⟩
    exact absurd (hall token htoken) hkind
  · have hkept : chosen (explode tokens)
          (fun index => decide (index ∈ keptIndexes context (explode tokens))) =
        chosen (explode tokens) (isNear (explode tokens) context) := by
      apply chosen_congr
      intro i hi
      rw [Bool.eq_iff_iff, decide_eq_true_eq]
      exact mem_keptIndexes hi
    have hexplode : explode (merge (chosen (explode tokens)
          (fun index => decide (index ∈ keptIndexes context (explode tokens))))) =
        chosen (explode tokens) (isNear (explode tokens) context) := by
      rw [explode_chosen, hkept]
    constructor
    · refine Eq.trans (congrArg (List.filter _) hexplode) (filter_chosen _ ?_)
      intro i token hget hkind
      -- a change is near itself
      exact isNear_iff.2 ⟨i, token, hget, of_decide_eq_true hkind, by omega, by omega⟩
    · refine List.Sublist.trans ?_ (chosen_sublist _ (isNear (explode tokens) context))
      exact hexplode ▸ List.Sublist.refl _
    · exact fun _ => hexplode
    · refine Iff.trans ?_ (Iff.of_eq (congrArg (fun l : List Token => l.length < _) hexplode)).symm
      rw [length_chosen_lt_iff, List.any_eq_true]
      constructor
      · rintro ⟨x, hx, hnot⟩
        have hlt := lt_of_mem_zipIdx hx
        refine ⟨x.2, hlt, ?_⟩
        have hnear := mt (mem_keptIndexes hlt).2 (of_decide_eq_true hnot)
        simpa using hnear
      · rintro ⟨i, hi, hnot⟩
        refine ⟨((explode tokens)[i], i), ?_, ?_⟩
        · rw [List.mem_zipIdx_iff_getElem?]
          exact List.getElem?_eq_getElem hi
        · apply decide_eq_true
          intro hin
          rw [(mem_keptIndexes hi).1 hin] at hnot
          cases hnot

/-- What the difference says of the two prompts. -/
structure Faithful (parent child : Text) (tokens : List Token) : Prop where
  ofParent : textsOf inParent (explode tokens) = words parent
  ofChild : textsOf inChild (explode tokens) = words child
  minimal : Subsequence.Longest (words parent) (words child) (sameWords (explode tokens))
  alternates : Alternates tokens

theorem prompt_diff_faithful (parent child : Text) :
    Faithful parent child (promptWordDiff parent child) ∧
      ∀ context, Keeps (promptWordDiff parent child) context
        (collapsePromptDiff (promptWordDiff parent child) context) := by
  have haligns := aligns_walked parent child
  constructor
  · constructor
    · rw [explode_promptWordDiff]
      exact haligns.parent
    · rw [explode_promptWordDiff]
      exact haligns.child
    · rw [explode_promptWordDiff]
      exact haligns.minimal
    · exact alternates_merge _
  · exact keeps_collapsePromptDiff _

end Potocolom.PromptDiff
