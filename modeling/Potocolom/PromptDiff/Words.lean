import Mathlib

/-! # The words of a prompt

A text is the list of its UTF-16 code units. `words` takes it apart at whitespace, and
`merge` joins neighbouring tokens of one kind with a space; what `merge` makes falls
apart into the words it was made of. -/

namespace Potocolom.PromptDiff

/-- The code units of a string. -/
abbrev Text := List UInt16

/-- What `\s` matches and `trim` takes off: white space and line terminators. -/
def isSpace (c : UInt16) : Bool :=
  decide (9 ≤ c ∧ c ≤ 13) || c == 32 || c == 160 || c == 5760 ||
    decide (8192 ≤ c ∧ c ≤ 8202) || c == 8232 || c == 8233 || c == 8239 || c == 8287 ||
    c == 12288 || c == 65279

/-- The space that joins two words. -/
def blank : UInt16 := 32

theorem isSpace_blank : isSpace blank = true := by decide

def trim (value : Text) : Text := (value.dropWhile isSpace).rdropWhile isSpace

/-- `split(/\s+/)`, from within a run of whitespace or behind the units of `part`. -/
def splitRuns (inRun : Bool) (part : Text) : Text → List Text
  | [] => [part.reverse]
  | c :: rest =>
    if isSpace c = true then
      if inRun = true then splitRuns true part rest else part.reverse :: splitRuns true [] rest
    else splitRuns false (c :: part) rest

def words (value : Text) : List Text :=
  (splitRuns false [] (trim value)).filter fun word => word ≠ []

/-- What `words` makes of a text without `trim`. -/
def parts (inRun : Bool) (part value : Text) : List Text :=
  (splitRuns inRun part value).filter fun word => word ≠ []

variable {a b value : Text} {c : UInt16}

/-! ## Whitespace -/

/-- A run of whitespace ends where the next word begins. -/
theorem parts_run (value : Text) : parts true [] value = parts false [] value := by
  cases value with
  | nil => rfl
  | cons c rest =>
    unfold parts splitRuns
    by_cases hc : isSpace c = true
    · simp [hc]
    · simp [hc]

theorem parts_space (part : Text) (hc : isSpace c = true) (rest : Text) :
    parts false part (c :: rest) = parts false part [] ++ parts false [] rest := by
  rw [← parts_run rest]
  unfold parts
  rw [splitRuns, splitRuns]
  simp only [hc, if_true, Bool.false_eq_true, if_false]
  rw [← List.singleton_append, List.filter_append]

/-- The words on both sides of a space do not meet. -/
theorem parts_append_space (part a : Text) (hc : isSpace c = true) (b : Text) :
    parts false part (a ++ c :: b) = parts false part a ++ parts false [] b := by
  induction a generalizing part with
  | nil => exact parts_space part hc b
  | cons d rest ih =>
    rw [List.cons_append]
    by_cases hd : isSpace d = true
    · rw [parts_space part hd, parts_space part hd, ih, List.append_assoc]
    · have hstep : ∀ tail, parts false part (d :: tail) = parts false (d :: part) tail := by
        intro tail
        unfold parts
        rw [splitRuns, if_neg hd]
      rw [hstep, hstep, ih]

theorem parts_dropWhile (value : Text) :
    parts false [] (value.dropWhile isSpace) = parts false [] value := by
  induction value with
  | nil => rfl
  | cons c rest ih =>
    by_cases hc : isSpace c = true
    · rw [List.dropWhile_cons_of_pos hc, ih, parts_space [] hc]
      rfl
    · rw [List.dropWhile_cons_of_neg hc]

theorem parts_rdropWhile (value : Text) :
    parts false [] (value.rdropWhile isSpace) = parts false [] value := by
  induction value using List.reverseRecOn with
  | nil => rfl
  | append_singleton front c ih =>
    by_cases hc : isSpace c = true
    · rw [List.rdropWhile_concat_pos _ _ _ hc, ih, parts_append_space [] front hc []]
      exact (List.append_nil _).symm
    · rw [List.rdropWhile_concat_neg _ _ _ hc]

theorem words_eq (value : Text) : words value = parts false [] value := by
  rw [← parts_dropWhile, ← parts_rdropWhile]
  rfl

theorem words_append_blank (a b : Text) : words (a ++ blank :: b) = words a ++ words b := by
  rw [words_eq, words_eq, words_eq]
  exact parts_append_space [] a isSpace_blank b

/-! ## Words -/

/-- It is one word. -/
def IsWord (word : Text) : Prop := word ≠ [] ∧ ∀ c ∈ word, isSpace c = false

theorem parts_of_word (part word : Text) (hword : ∀ c ∈ word, isSpace c = false) :
    parts false part word = parts false (word.reverse ++ part) [] := by
  induction word generalizing part with
  | nil => rfl
  | cons c rest ih =>
    have hc : ¬ isSpace c = true := by simp [hword c List.mem_cons_self]
    have hstep : parts false part (c :: rest) = parts false (c :: part) rest := by
      unfold parts
      rw [splitRuns, if_neg hc]
    rw [hstep, ih _ fun d hd => hword d (List.mem_cons_of_mem c hd)]
    simp

theorem words_of_word (hword : IsWord value) : words value = [value] := by
  rw [words_eq, parts_of_word [] value hword.2]
  simp [parts, splitRuns, hword.1]

/-- What `words` returns are words. -/
theorem isWord_of_mem {word : Text} (h : word ∈ words value) : IsWord word := by
  have hruns : ∀ (inRun : Bool) (part rest : Text), (∀ c ∈ part, isSpace c = false) →
      ∀ word ∈ splitRuns inRun part rest, ∀ c ∈ word, isSpace c = false := by
    intro inRun part rest
    induction rest generalizing inRun part with
    | nil =>
      intro hpart word hword c hc
      rw [splitRuns, List.mem_singleton] at hword
      rw [hword, List.mem_reverse] at hc
      exact hpart c hc
    | cons d rest ih =>
      intro hpart word hword
      rw [splitRuns] at hword
      split at hword
      · split at hword
        · exact ih _ _ hpart word hword
        · rcases List.mem_cons.1 hword with rfl | hword
          · intro c hc
            exact hpart c (List.mem_reverse.1 hc)
          · exact ih _ _ (by simp) word hword
      · next hd =>
        refine ih _ _ ?_ word hword
        intro c hc
        rcases List.mem_cons.1 hc with rfl | hc
        · simpa using hd
        · exact hpart c hc
  obtain ⟨hmem, hne⟩ := List.mem_filter.1 h
  exact ⟨by simpa using hne, hruns _ _ _ (by simp) word hmem⟩

/-! ## Tokens -/

inductive Kind where
  | same
  | added
  | removed
deriving DecidableEq, Repr

/-- `PromptDiffToken`. -/
structure Token where
  kind : Kind
  text : Text
deriving DecidableEq, Repr

/-- One turn of the loop of `merge`. -/
def mergeNext (merged : List Token) (token : Token) : List Token :=
  match merged.getLast? with
  | some last =>
    if last.kind = token.kind then
      merged.dropLast ++ [{ last with text := last.text ++ blank :: token.text }]
    else merged ++ [token]
  | none => merged ++ [token]

def merge (tokens : List Token) : List Token := tokens.foldl mergeNext []

/-- The words of the tokens, each with its kind: `exploded`. -/
def explode (tokens : List Token) : List Token :=
  tokens.flatMap fun token => (words token.text).map fun text => ⟨token.kind, text⟩

theorem explode_append (front back : List Token) :
    explode (front ++ back) = explode front ++ explode back :=
  List.flatMap_append

/-- A token of words of its own. -/
theorem explode_of_words {tokens : List Token} (h : ∀ token ∈ tokens, IsWord token.text) :
    explode tokens = tokens := by
  induction tokens with
  | nil => rfl
  | cons token rest ih =>
    have hrest := ih fun t ht => h t (List.mem_cons_of_mem token ht)
    have htoken := words_of_word (h token List.mem_cons_self)
    rw [← List.singleton_append, explode_append, hrest]
    simp [explode, htoken]

theorem explode_mergeNext (merged : List Token) (token : Token) :
    explode (mergeNext merged token) = explode merged ++ explode [token] := by
  unfold mergeNext
  split
  · next last hlast =>
    split
    · next hkind =>
      obtain ⟨front, rfl⟩ : ∃ front, merged = front ++ [last] :=
        ⟨merged.dropLast, (List.dropLast_append_getLast? last hlast).symm⟩
      rw [List.dropLast_concat, explode_append, explode_append, List.append_assoc]
      simp [explode, words_append_blank, hkind]
    · exact explode_append _ _
  · exact explode_append _ _

theorem explode_merge (tokens : List Token) : explode (merge tokens) = explode tokens := by
  have hfold : ∀ merged, explode (tokens.foldl mergeNext merged) =
      explode merged ++ explode tokens := by
    induction tokens with
    | nil =>
      intro merged
      simp [explode]
    | cons token rest ih =>
      intro merged
      rw [List.foldl_cons, ih, explode_mergeNext, List.append_assoc, ← explode_append,
        List.singleton_append]
  rw [merge, hfold]
  rfl

/-- Neighbouring tokens differ in kind. -/
def Alternates (tokens : List Token) : Prop := tokens.IsChain fun a b => a.kind ≠ b.kind

theorem alternates_merge (tokens : List Token) : Alternates (merge tokens) := by
  have hnext : ∀ merged token, Alternates merged → Alternates (mergeNext merged token) := by
    intro merged token hmerged
    unfold mergeNext
    split
    · next last hlast =>
      obtain ⟨front, rfl⟩ : ∃ front, merged = front ++ [last] :=
        ⟨merged.dropLast, (List.dropLast_append_getLast? last hlast).symm⟩
      split
      · -- the last token keeps its kind
        rw [List.dropLast_concat]
        unfold Alternates at hmerged ⊢
        rw [List.isChain_append] at hmerged ⊢
        refine ⟨hmerged.1, List.isChain_singleton _, ?_⟩
        intro x hx y hy
        have hy' : y.kind = last.kind := by
          rw [← Option.mem_some_iff.1 hy]
        rw [hy']
        exact hmerged.2.2 x hx last rfl
      · next hkind =>
        unfold Alternates at hmerged ⊢
        rw [List.isChain_append]
        refine ⟨hmerged, List.isChain_singleton _, ?_⟩
        intro x hx y hy
        rw [List.getLast?_concat] at hx
        rw [← Option.mem_some_iff.1 hx, ← Option.mem_some_iff.1 hy]
        exact hkind
    · next hnone =>
      rw [List.getLast?_eq_none_iff.1 hnone]
      exact List.isChain_singleton _
  unfold merge
  have hfold : ∀ merged, Alternates merged → Alternates (tokens.foldl mergeNext merged) := by
    induction tokens with
    | nil => exact fun _ h => h
    | cons token rest ih => exact fun merged h => ih _ (hnext merged token h)
  exact hfold [] List.isChain_nil

end Potocolom.PromptDiff
