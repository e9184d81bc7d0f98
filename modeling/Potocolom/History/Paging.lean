import Potocolom.Lib.Machine
import Potocolom.Lib.Runs

/-! # The pages of the history

`fetchRecentHistory` replaces the list, or merges the newest page over an extended list;
`loadOlderHistory` appends the page behind the last generation listed when it asked. The
server lists the generations newest first and goes on creating them. The list is a run of
what the server lists, as long as a newest page reaches it and an older page still fits. -/

namespace Potocolom.History

open Runs

/-- `HISTORY_LIMIT` -/
def historyLimit : Nat := 50

/-- `fetchRecentHistory` under way: once the server has answered, its page and how many
generations there were. -/
structure RecentRequest (α : Type) where
  answer : Option (List α × Nat)

/-- `loadOlderHistory` under way: what it read of the list, and the page. -/
structure OlderRequest (α : Type) where
  oldest : α
  existing : List α
  answer : Option (List α)

/-- The generations of the server, newest first, and what `studio` holds of them. -/
structure World (α : Type) where
  server : List α
  history : List α
  historyRecent : List α
  historyRecentFull : Bool
  historyHasMore : Bool
  historyExtended : Bool
  recents : Nat → Option (RecentRequest α)
  older : Option (OlderRequest α)

inductive Label (α : Type) where
  /-- The server creates a generation. -/
  | creates (id : α)
  | sendsRecent (n : Nat)
  | answersRecent (n : Nat)
  | receivesRecent (n : Nat)
  /-- The response is not one, or never comes. -/
  | failsRecent (n : Nat)
  | sendsOlder
  | answersOlder
  | receivesOlder
  | failsOlder
  | resets

variable {α : Type} [DecidableEq α]

/-- The newest page is there. -/
def receiveRecent (w : World α) (n : Nat) (page : List α) : World α :=
  let recentFull := decide (page.length = historyLimit)
  let w := { w with recents := Function.update w.recents n none, historyRecent := page,
                    historyRecentFull := recentFull }
  if w.historyExtended = true then
    { w with history := page ++ w.history.filter fun id => id ∉ page }
  else { w with history := page, historyHasMore := recentFull }

/-- The older page is there. -/
def receiveOlder (w : World α) (existing page : List α) : World α :=
  let unique := page.filter fun id => id ∉ existing
  let w := { w with older := none }
  if unique = [] then { w with historyHasMore := false }
  else
    let history := w.history ++ unique
    { w with history := history, historyHasMore := decide (page.length = historyLimit),
             historyExtended := decide (w.historyRecent.length < history.length) }

def step (w : World α) : Label α → Option (World α)
  | .creates id => if id ∈ w.server then none else some { w with server := id :: w.server }
  | .sendsRecent n =>
    if (w.recents n).isSome = true then none
    else some { w with recents := Function.update w.recents n (some ⟨none⟩) }
  | .answersRecent n =>
    match w.recents n with
    | some ⟨none⟩ =>
      some { w with recents := Function.update w.recents n
                      (some ⟨some (w.server.take historyLimit, w.server.length)⟩) }
    | _ => none
  | .receivesRecent n =>
    match w.recents n with
    | some ⟨some (page, _)⟩ => some (receiveRecent w n page)
    | _ => none
  | .failsRecent n =>
    if (w.recents n).isSome = true then
      some { w with recents := Function.update w.recents n none }
    else none
  | .sendsOlder =>
    if w.older.isSome = true ∨ w.historyHasMore = false then none
    else
      match w.history.getLast? with
      | none => none
      | some oldest => some { w with older := some ⟨oldest, w.history, none⟩ }
  | .answersOlder =>
    match w.older with
    | some ⟨oldest, existing, none⟩ =>
      some { w with older := some ⟨oldest, existing,
                      some ((after oldest w.server).take historyLimit)⟩ }
    | _ => none
  | .receivesOlder =>
    match w.older with
    | some ⟨_, existing, some page⟩ => some (receiveOlder w existing page)
    | _ => none
  | .failsOlder => if w.older.isSome = true then some { w with older := none } else none
  | .resets =>
    some { w with history := w.historyRecent, historyExtended := false,
                  historyHasMore := w.historyRecentFull }

/-- Nothing is listed yet, and nothing is under way. -/
structure Start (w : World α) : Prop where
  server : w.server.Nodup
  history : w.history = []
  historyRecent : w.historyRecent = []
  recents : ∀ n, w.recents n = none
  older : w.older = none

def machine (α : Type) [DecidableEq α] : Machine (World α) (Label α) := ⟨Start, step⟩

/-! ## When a page fits -/

/-- A page of the first `size` generations reaches the list: the newest listed generation
was one of them, and not more than a page of them were newer. -/
def Reaches (w : World α) (size : Nat) : Prop :=
  match w.history.head? with
  | none => True
  | some newest =>
    let older := w.server.reverse.idxOf newest
    older < size ∧ size ≤ older + 1 + historyLimit

/-- A newest page that is merged over an extended list reaches it, and an older page with
anything new is appended to a list that still ends where it was asked for. -/
def InOrder (w : World α) : Label α → Prop
  | .receivesRecent n =>
    match w.recents n with
    | some ⟨some (_, size)⟩ => w.historyExtended = true → Reaches w size
    | _ => True
  | .receivesOlder =>
    match w.older with
    | some ⟨oldest, existing, some page⟩ =>
      (page.filter fun id => id ∉ existing) ≠ [] → w.history.getLast? = some oldest
    | _ => True
  | _ => True

instance (w : World α) (size : Nat) : Decidable (Reaches w size) := by
  unfold Reaches
  split <;> infer_instance

instance (w : World α) (l : Label α) : Decidable (InOrder w l) := by
  unfold InOrder
  split
  · split <;> infer_instance
  · split <;> infer_instance
  · infer_instance

variable {w after' : World α} {n : Nat} {page : List α} {size : Nat}

/-! ## What holds of the requests -/

/-- A page of the server's first `size` generations. -/
def PageOf (server : List α) (page : List α) (size : Nat) : Prop :=
  ∃ front old, server = front ++ old ∧ old.length = size ∧ page = old.take historyLimit

/-- The page behind `oldest`, of which `existing` lists nothing. -/
structure Behind (server existing : List α) (oldest : α) : Prop where
  last : existing.getLast? = some oldest
  run : existing <:+: server

structure Contiguous (w : World α) : Prop where
  nodup : w.server.Nodup
  history : w.history <:+: w.server
  historyRecent : w.historyRecent <:+: w.server
  recent : ∀ n page size, w.recents n = some ⟨some (page, size)⟩ → PageOf w.server page size
  older : ∀ oldest existing answer, w.older = some ⟨oldest, existing, answer⟩ →
    Behind w.server existing oldest
  page : ∀ oldest existing page, w.older = some ⟨oldest, existing, some page⟩ →
    page = (after oldest w.server).take historyLimit

omit [DecidableEq α] in
theorem PageOf.listed {server : List α} (h : PageOf server page size) : page <:+: server := by
  obtain ⟨front, old, rfl, -, rfl⟩ := h
  exact ((List.take_prefix historyLimit old).isInfix).trans (List.suffix_append front old).isInfix

omit [DecidableEq α] in
theorem PageOf.create {server : List α} (h : PageOf server page size) (id : α) :
    PageOf (id :: server) page size := by
  obtain ⟨front, old, rfl, hsize, rfl⟩ := h
  exact ⟨id :: front, old, rfl, hsize, rfl⟩

omit [DecidableEq α] in
theorem Behind.create {server existing : List α} {oldest : α} (h : Behind server existing oldest)
    (id : α) : Behind (id :: server) existing oldest :=
  ⟨h.last, h.run.trans (List.suffix_cons id server).isInfix⟩

/-- What stands behind a listed generation does not change. -/
theorem after_create {server : List α} {oldest id : α} (holdest : oldest ∈ server)
    (hid : id ∉ server) : after oldest (id :: server) = after oldest server := by
  have hne : id ≠ oldest := fun heq => hid (heq ▸ holdest)
  unfold after
  rw [List.dropWhile_cons_of_pos (by simpa using hne)]

omit [DecidableEq α] in
theorem Behind.mem {server existing : List α} {oldest : α} (h : Behind server existing oldest) :
    oldest ∈ server := h.run.subset (List.mem_of_getLast? h.last)

/-- The page that was asked for behind the last listed generation is what follows. -/
theorem Behind.next {server existing : List α} {oldest : α} (h : Behind server existing oldest)
    (hnodup : server.Nodup) (k : Nat) :
    ((after oldest server).take k).filter (fun id => id ∉ existing) =
      (after oldest server).take k := by
  obtain ⟨a, b, rfl⟩ := h.run
  rw [after_run hnodup h.last, List.filter_eq_self]
  intro id hid
  have hnot : id ∉ existing := by
    intro hin
    exact (List.nodup_append.1 hnodup).2.2 id (List.mem_append_right _ hin) id
      (List.mem_of_mem_take hid) rfl
  simpa using hnot

/-! ## What each step keeps -/

theorem Contiguous.creates (h : Contiguous w) {id : α} (hid : id ∉ w.server) :
    Contiguous { w with server := id :: w.server } := by
  have hsuffix : w.server <:+: id :: w.server := (List.suffix_cons id w.server).isInfix
  constructor
  · exact List.nodup_cons.2 ⟨hid, h.nodup⟩
  · exact h.history.trans hsuffix
  · exact h.historyRecent.trans hsuffix
  · intro n page size hn
    exact (h.recent n page size hn).create id
  · intro oldest existing answer holder
    exact (h.older oldest existing answer holder).create id
  · intro oldest existing page holder
    have hbehind := h.older oldest existing (some page) holder
    show page = (after oldest (id :: w.server)).take historyLimit
    rw [after_create hbehind.mem hid]
    exact h.page oldest existing page holder

/-- The requests for the newest page are one another's business. -/
theorem Contiguous.setRecent (h : Contiguous w) (n : Nat) {request : Option (RecentRequest α)}
    (hrequest : ∀ page size, request = some ⟨some (page, size)⟩ → PageOf w.server page size) :
    Contiguous { w with recents := Function.update w.recents n request } := by
  constructor
  · exact h.nodup
  · exact h.history
  · exact h.historyRecent
  · intro m page size hm
    have hupdate : Function.update w.recents n request m = some ⟨some (page, size)⟩ := hm
    by_cases heq : m = n
    · rw [heq, Function.update_self] at hupdate
      exact hrequest page size hupdate
    · rw [Function.update_of_ne heq] at hupdate
      exact h.recent m page size hupdate
  · exact h.older
  · exact h.page

theorem Contiguous.dropOlder (h : Contiguous w) : Contiguous { w with older := none } := by
  refine ⟨h.nodup, h.history, h.historyRecent, h.recent, ?_, ?_⟩
  · intro oldest existing answer hsome
    cases hsome
  · intro oldest existing page hsome
    cases hsome

/-- A page that reaches the extended list is merged into a run. -/
theorem Reaches.merged (hreaches : Reaches w size) (hnodup : w.server.Nodup)
    (hhistory : w.history <:+: w.server) (hpage : PageOf w.server page size) :
    (page ++ w.history.filter fun id => id ∉ page) <:+: w.server := by
  cases hlist : w.history with
  | nil =>
    rw [List.filter_nil, List.append_nil]
    exact hpage.listed
  | cons newest rest =>
    unfold Reaches at hreaches
    rw [hlist] at hhistory hreaches
    obtain ⟨a, b, hserver⟩ := hhistory
    obtain ⟨front, old, hold, hsize, rfl⟩ := hpage
    -- the newest listed generation has the rest of the list and what follows behind it
    have holder : w.server.reverse.idxOf newest = rest.length + b.length := by
      have hreverse : w.server.reverse = (b.reverse ++ rest.reverse) ++ newest :: a.reverse := by
        rw [← hserver]
        simp
      have hreverseNodup := List.nodup_reverse.2 hnodup
      rw [hreverse] at hreverseNodup ⊢
      have hnot : newest ∉ b.reverse ++ rest.reverse := fun hin =>
        (List.nodup_append.1 hreverseNodup).2.2 newest hin newest List.mem_cons_self rfl
      rw [List.idxOf_append_of_notMem hnot, List.idxOf_cons_self]
      simp [Nat.add_comm]
    simp only [List.head?_cons] at hreaches
    rw [holder] at hreaches
    obtain ⟨hlt, hle⟩ := hreaches
    have hlength : front.length + size = a.length + (rest.length + 1) + b.length := by
      have hcount := congrArg List.length (hserver.trans hold)
      simp only [List.length_append, List.length_cons] at hcount
      omega
    -- so the page begins at or above it
    obtain ⟨above, rfl⟩ : ∃ above, a = front ++ above := by
      have heq : a ++ (newest :: rest ++ b) = front ++ old := by
        rw [← hold, ← hserver, List.append_assoc]
      rcases List.append_eq_append_iff.1 heq with ⟨c, hfront, -⟩ | ⟨c, ha, -⟩
      · have hc := congrArg List.length hfront
        rw [List.length_append] at hc
        have hnil : c = [] := List.length_eq_zero_iff.1 (by omega)
        exact ⟨[], by rw [hfront, hnil, List.append_nil, List.append_nil]⟩
      · exact ⟨c, ha⟩
    have holdEq : old = above ++ (newest :: rest) ++ b := by
      have heq : front ++ (above ++ (newest :: rest) ++ b) = front ++ old := by
        rw [← hold, ← hserver]
        simp
      exact (List.append_cancel_left heq).symm
    have holdNodup : (above ++ (newest :: rest) ++ b).Nodup := by
      rw [← holdEq]
      rw [hold] at hnodup
      exact (List.nodup_append.1 hnodup).2.1
    have habove : above.length ≤ historyLimit := by
      rw [List.length_append] at hlength
      omega
    rw [holdEq]
    refine (merged_run holdNodup habove).trans ?_
    rw [hold, holdEq]
    exact (List.suffix_append front _).isInfix

theorem Contiguous.receiveRecent (h : Contiguous w) (hpage : PageOf w.server page size)
    (hreaches : w.historyExtended = true → Reaches w size) (n : Nat) :
    Contiguous (receiveRecent w n page) := by
  have hdropped : Contiguous { w with recents := Function.update w.recents n none } :=
    h.setRecent n fun _ _ hnone => by cases hnone
  unfold History.receiveRecent
  dsimp only
  split
  · next hextended =>
    exact ⟨h.nodup, (hreaches hextended).merged h.nodup h.history hpage, hpage.listed,
      hdropped.recent, h.older, h.page⟩
  · exact ⟨h.nodup, hpage.listed, hpage.listed, hdropped.recent, h.older, h.page⟩

theorem Contiguous.receiveOlder (h : Contiguous w) {oldest : α} {existing page : List α}
    (holder : w.older = some ⟨oldest, existing, some page⟩)
    (hfits : (page.filter fun id => id ∉ existing) ≠ [] → w.history.getLast? = some oldest) :
    Contiguous (receiveOlder w existing page) := by
  have hbehind := h.older oldest existing (some page) holder
  have hpage := h.page oldest existing page holder
  have hdropped := h.dropOlder
  unfold History.receiveOlder
  dsimp only
  split
  · exact ⟨h.nodup, h.history, h.historyRecent, h.recent, hdropped.older, hdropped.page⟩
  · next hunique =>
    refine ⟨h.nodup, ?_, h.historyRecent, h.recent, hdropped.older, hdropped.page⟩
    show (w.history ++ page.filter fun id => id ∉ existing) <:+: w.server
    have hlast := hfits hunique
    obtain ⟨a, b, hserver⟩ := h.history
    have hnodup := h.nodup
    rw [hpage, hbehind.next h.nodup, ← hserver]
    rw [← hserver] at hnodup
    rw [after_run hnodup hlast]
    refine ⟨a, b.drop historyLimit, ?_⟩
    rw [List.append_assoc, List.append_assoc, List.take_append_drop, List.append_assoc]

theorem step_contiguous {l : Label α} (h : Contiguous w) (hin : InOrder w l)
    (hstep : step w l = some after') : Contiguous after' := by
  cases l with
  | creates id =>
    simp only [step] at hstep
    split at hstep
    · cases hstep
    · next hid =>
      cases hstep
      exact h.creates hid
  | sendsRecent n =>
    simp only [step] at hstep
    split at hstep
    · cases hstep
    · cases hstep
      exact h.setRecent n fun _ _ hsome => by cases hsome
  | answersRecent n =>
    simp only [step] at hstep
    split at hstep
    · cases hstep
      apply h.setRecent n
      intro page size hsome
      cases hsome
      exact ⟨[], w.server, rfl, rfl, rfl⟩
    · cases hstep
  | receivesRecent n =>
    simp only [step] at hstep
    split at hstep
    · next page size hn =>
      cases hstep
      simp only [InOrder, hn] at hin
      exact h.receiveRecent (h.recent n page size hn) hin n
    · cases hstep
  | failsRecent n =>
    simp only [step] at hstep
    split at hstep
    · cases hstep
      exact h.setRecent n fun _ _ hsome => by cases hsome
    · cases hstep
  | sendsOlder =>
    simp only [step] at hstep
    split at hstep
    · cases hstep
    · split at hstep
      · cases hstep
      · next oldest holdest =>
        cases hstep
        refine ⟨h.nodup, h.history, h.historyRecent, h.recent, ?_, ?_⟩
        · intro oldest' existing answer hsome
          cases hsome
          exact ⟨holdest, h.history⟩
        · intro oldest' existing page hsome
          cases hsome
  | answersOlder =>
    simp only [step] at hstep
    split at hstep
    · next oldest existing holder =>
      cases hstep
      refine ⟨h.nodup, h.history, h.historyRecent, h.recent, ?_, ?_⟩
      · intro oldest' existing' answer hsome
        cases hsome
        exact h.older _ _ _ holder
      · intro oldest' existing' page hsome
        cases hsome
        rfl
    · cases hstep
  | receivesOlder =>
    simp only [step] at hstep
    split at hstep
    · next oldest existing page holder =>
      cases hstep
      simp only [InOrder, holder] at hin
      exact h.receiveOlder holder hin
    · cases hstep
  | failsOlder =>
    simp only [step] at hstep
    split at hstep
    · cases hstep
      exact h.dropOlder
    · cases hstep
  | resets =>
    cases hstep
    exact ⟨h.nodup, h.historyRecent, h.historyRecent, h.recent, h.older, h.page⟩

theorem start_contiguous (h : Start w) : Contiguous w := by
  constructor
  · exact h.server
  · rw [h.history]
    exact List.nil_infix
  · rw [h.historyRecent]
    exact List.nil_infix
  · intro n page size hn
    rw [h.recents n] at hn
    cases hn
  · intro oldest existing answer holder
    rw [h.older] at holder
    cases holder
  · intro oldest existing page holder
    rw [h.older] at holder
    cases holder

/-- The list is a run of distinct generations, in the order of the server. -/
structure Listed (w : World α) : Prop where
  distinct : w.history.Nodup
  run : w.history <:+: w.server

theorem history_listed (h : (machine α).Reach InOrder w) : Listed w := by
  have hcontiguous : Contiguous w := by
    apply h.invariant
    · exact fun s hs => start_contiguous hs
    · intro s l t hs hin hstep
      exact step_contiguous hs hin hstep
  exact ⟨hcontiguous.nodup.sublist hcontiguous.history.sublist, hcontiguous.history⟩

/-! ## One generation more than a page -/

section Sample

def fiftyOne : World Nat where
  server := (List.range 51).reverse
  history := []
  historyRecent := []
  historyRecentFull := false
  historyHasMore := false
  historyExtended := false
  recents _ := none
  older := none

theorem fiftyOne_start : Start fiftyOne := by
  refine ⟨?_, rfl, rfl, fun _ => rfl, rfl⟩
  exact List.nodup_reverse.2 List.nodup_range

/-- The newest page, and then the older one. -/
def refreshes : List (Label Nat) := [.sendsRecent 0, .answersRecent 0, .receivesRecent 0]

def pagesBack : List (Label Nat) := refreshes ++ [.sendsOlder, .answersOlder, .receivesOlder]

def pagedBack : World Nat := ((machine Nat).run fiftyOne pagesBack).getD fiftyOne

theorem history_listed_sample : Listed pagedBack := by
  have hrun : (machine Nat).run fiftyOne pagesBack = some pagedBack := rfl
  have hin : (machine Nat).RunOk InOrder fiftyOne pagesBack := by decide +kernel
  exact history_listed ((Machine.Reach.of_init fiftyOne_start).path
    (Machine.path_of_run hrun hin))

/-- While the older page is under way, a generation is created and the list refreshed. -/
def refreshedBetween : List (Label Nat) :=
  refreshes ++ [.sendsOlder, .creates 51] ++ refreshes ++ [.answersOlder, .receivesOlder]

def torn : World Nat := ((machine Nat).run fiftyOne refreshedBetween).getD fiftyOne

theorem history_torn : ¬ ∀ w : World Nat, (machine Nat).Reach Machine.anyStep w → Listed w := by
  intro hall
  have hrun : (machine Nat).run fiftyOne refreshedBetween = some torn := rfl
  have hlisted := hall torn ((Machine.Reach.of_init fiftyOne_start).path
    (Machine.path_of_run_any hrun))
  have hnot : ¬ torn.history <:+: torn.server := by decide +kernel
  exact hnot hlisted.run

end Sample

end Potocolom.History
