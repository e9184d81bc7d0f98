import Potocolom.Protocol.Catalogue

/-! # What the single checks raise

Almost every check raises `Protocol6Error` or nothing. The exceptions are the
operations that a JSON value of an unexpected shape can break: asking a set for
a list or a dict, converting a huge integer to a float, and looking up a field
that no row requires. Each lemma below says exactly when a check is safe. -/

namespace Potocolom.Protocol

open Guard

variable {platform : Platform} {members : Members} {kind : Text} {worker : Option String}
  {incarnation : Option Uuid}

/-- The error the parser is meant to raise. -/
def IsProtocol6 (why : Raised) : Prop := ∃ message, why = .protocol6 message

@[simp] theorem isProtocol6_protocol6 (message : String) : IsProtocol6 (.protocol6 message) :=
  ⟨message, rfl⟩

theorem not_isProtocol6_typeError : ¬ IsProtocol6 .typeError := by
  rintro ⟨_, h⟩
  cases h

theorem not_isProtocol6_keyError : ¬ IsProtocol6 .keyError := by
  rintro ⟨_, h⟩
  cases h

theorem not_isProtocol6_overflowError : ¬ IsProtocol6 .overflowError := by
  rintro ⟨_, h⟩
  cases h

/-- `x` raises `Protocol6Error` or nothing. -/
abbrev FailsClosed {α : Type} (x : Except Raised α) : Prop := RaisesOnly IsProtocol6 x

theorem require_closed {c : Prop} [Decidable c] {message : String} :
    FailsClosed (require c (.protocol6 message)) :=
  raisesOnly_require (isProtocol6_protocol6 message)

theorem demand_closed {α : Type} {x : Option α} {message : String} :
    FailsClosed (demand x (.protocol6 message)) :=
  raisesOnly_demand.2 fun _ => isProtocol6_protocol6 message

/-! ## JSON -/

theorem checkText_closed (depth : Nat) (text : Text) : FailsClosed (checkText depth text) := by
  unfold checkText
  refine raisesOnly_bind.2 ⟨require_closed, ?_⟩
  rintro ⟨⟩ _
  cases text <;> simp

mutual

theorem checkJson_closed (depth : Nat) (v : Json) : FailsClosed (checkJson depth v) := by
  cases v with
  | null => exact require_closed
  | bool _ => exact require_closed
  | int _ => exact require_closed
  | float bits => exact raisesOnly_bind.2 ⟨require_closed, fun _ _ => require_closed⟩
  | str text => exact checkText_closed depth text
  | arr items =>
    exact raisesOnly_bind.2 ⟨require_closed, fun _ _ => checkItems_closed (depth + 1) items⟩
  | obj members =>
    exact raisesOnly_bind.2 ⟨require_closed, fun _ _ => checkMembers_closed (depth + 1) members⟩

theorem checkItems_closed (depth : Nat) (items : List Json) :
    FailsClosed (checkItems depth items) := by
  match items with
  | [] => exact raisesOnly_pure ()
  | v :: items =>
    exact raisesOnly_bind.2 ⟨checkJson_closed depth v, fun _ _ => checkItems_closed depth items⟩

theorem checkMembers_closed (depth : Nat) (members : List (Text × Json)) :
    FailsClosed (checkMembers depth members) := by
  match members with
  | [] => exact raisesOnly_pure ()
  | (key, v) :: members =>
    refine raisesOnly_bind.2 ⟨checkText_closed depth key, fun _ _ => ?_⟩
    exact raisesOnly_bind.2
      ⟨checkJson_closed depth v, fun _ _ => checkMembers_closed depth members⟩

end

theorem canonicalHash_closed (v : Json) : FailsClosed (canonicalHash platform v) := by
  unfold canonicalHash canonicalBytes
  refine raisesOnly_bind.2 ⟨?_, fun _ _ => raisesOnly_pure _⟩
  refine raisesOnly_bind.2 ⟨checkJson_closed 0 v, fun _ _ => ?_⟩
  exact raisesOnly_bind.2 ⟨demand_closed, fun _ _ => raisesOnly_pure _⟩

/-! ## Decoding -/

/-- What the scanner raises is the two exceptions its caller catches, or an
error of its hooks. -/
def IsScan (why : Raised) : Prop :=
  IsProtocol6 why ∨ why = .valueError ∨ why = .recursionError

theorem isScan_valueError : IsScan .valueError := .inr (.inl rfl)

theorem require_scan {c : Prop} [Decidable c] {message : String} :
    RaisesOnly IsScan (require c (.protocol6 message)) :=
  raisesOnly_require (.inl (isProtocol6_protocol6 message))

theorem throw_scan {α : Type} : RaisesOnly IsScan (throw .valueError : Except Raised α) :=
  raisesOnly_throw.2 isScan_valueError

/-- A loop that carries a value raises what its steps raise. -/
theorem raisesOnly_foldlM {ε α β : Type} {P : ε → Prop} {f : β → α → Except ε β}
    (h : ∀ b a, RaisesOnly P (f b a)) (xs : List α) (b : β) :
    RaisesOnly P (xs.foldlM f b) := by
  induction xs generalizing b with
  | nil => exact raisesOnly_pure b
  | cons x xs ih =>
    rw [List.foldlM_cons]
    exact raisesOnly_bind.2 ⟨h b x, fun b' _ => ih b'⟩

theorem pairs_scan (members : Members) : RaisesOnly IsScan (pairs members) := by
  refine raisesOnly_foldlM (fun result member => ?_) members []
  exact raisesOnly_bind.2 ⟨require_scan, fun _ _ => raisesOnly_pure _⟩

theorem place_scan (v : Json) (frames : List Frame) : RaisesOnly IsScan (place v frames) := by
  unfold place
  split
  · exact raisesOnly_pure _
  · exact raisesOnly_pure _
  · exact raisesOnly_pure _
  · exact throw_scan

theorem enter_scan (frames : List Frame) (frame : Frame) (want : Want) :
    RaisesOnly IsScan (enter platform frames frame want) := by
  unfold enter
  refine raisesOnly_bind.2 ⟨?_, fun _ _ => raisesOnly_pure _⟩
  exact raisesOnly_require (.inr (.inr rfl))

theorem readValue_scan (frames : List Frame) (token : Token) :
    RaisesOnly IsScan (readValue platform frames token) := by
  unfold readValue
  split
  · exact place_scan _ _
  · exact enter_scan _ _ _
  · exact enter_scan _ _ _
  · exact raisesOnly_throw.2 (.inl (isProtocol6_protocol6 _))
  · exact throw_scan

theorem closeArray_scan (frames : List Frame) : RaisesOnly IsScan (closeArray frames) := by
  unfold closeArray
  split
  · exact place_scan _ _
  · exact throw_scan

theorem closeObject_scan (frames : List Frame) : RaisesOnly IsScan (closeObject frames) := by
  unfold closeObject
  split
  · exact raisesOnly_bind.2 ⟨pairs_scan _, fun _ _ => place_scan _ _⟩
  · exact throw_scan

theorem readKey_scan (frames : List Frame) (token : Token) :
    RaisesOnly IsScan (readKey frames token) := by
  unfold readKey
  split
  · exact raisesOnly_pure _
  · exact throw_scan

theorem readComma_scan (frames : List Frame) (token : Token) :
    RaisesOnly IsScan (readComma frames token) := by
  unfold readComma
  split
  · exact raisesOnly_pure _
  · exact raisesOnly_pure _
  · exact closeArray_scan _
  · exact closeObject_scan _
  · exact throw_scan

theorem read_scan (reader : Reader) (token : Token) :
    RaisesOnly IsScan (read platform reader token) := by
  unfold read
  split
  · exact closeArray_scan _
  · exact readValue_scan _ _
  · exact readValue_scan _ _
  · exact closeObject_scan _
  · exact readKey_scan _ _
  · exact readKey_scan _ _
  · exact raisesOnly_pure _
  · exact readComma_scan _ _
  · exact throw_scan

theorem loads_scan (text : String) : RaisesOnly IsScan (loads platform text) := by
  unfold loads
  refine raisesOnly_bind.2 ⟨raisesOnly_foldlM (fun reader token => read_scan reader token) _ _, ?_⟩
  intro reader _
  split
  · exact raisesOnly_pure _
  · exact throw_scan

theorem malformed_closed {α : Type} {x : Except Raised α} (h : RaisesOnly IsScan x) :
    FailsClosed (malformed x) := by
  unfold malformed
  split
  · simp
  · simp
  · next hvalue hrecursion =>
    intro why hwhy
    rcases h why hwhy with hclosed | rfl | rfl
    · exact hclosed
    · exact absurd hwhy hvalue
    · exact absurd hwhy hrecursion

theorem decodeText_closed (raw : Raw) : FailsClosed (decodeText raw) := by
  unfold decodeText
  split
  · exact raisesOnly_bind.2 ⟨demand_closed, fun _ _ => raisesOnly_pure _⟩
  · exact raisesOnly_pure _
  · simp

theorem readControl_closed (raw : Raw) : FailsClosed (readControl platform raw) := by
  unfold readControl
  refine raisesOnly_bind.2 ⟨decodeText_closed raw, fun decoded _ => ?_⟩
  refine raisesOnly_bind.2 ⟨require_closed, fun _ _ => ?_⟩
  refine raisesOnly_bind.2 ⟨malformed_closed (loads_scan _), fun control _ => ?_⟩
  split
  · exact raisesOnly_bind.2 ⟨checkJson_closed _ _, fun _ _ => raisesOnly_pure _⟩
  · simp

/-! ## Sets -/

/-- A set can be asked for a hashable value only. -/
theorem inSet_closed_iff {v : Json} {names : List String} :
    FailsClosed (v.inSet names) ↔ v.hashable = true := by
  unfold Json.inSet
  refine raisesOnly_bind.trans ?_
  constructor
  · rintro ⟨h, -⟩
    by_contra hnot
    refine not_isProtocol6_typeError (h .typeError ?_)
    unfold require
    rw [if_neg hnot]
  · intro h
    unfold require
    rw [if_pos h]
    exact ⟨raisesOnly_ok (), fun _ _ => raisesOnly_pure _⟩

theorem inSet_eq_ok {v : Json} {names : List String} {b : Bool} :
    v.inSet names = .ok b ↔ v.hashable = true ∧ v.strWith names.contains = b := by
  simp [Json.inSet]

theorem messageLimit_closed_iff :
    FailsClosed (messageLimit members) ↔ (value members "type").hashable = true := by
  unfold messageLimit
  refine raisesOnly_bind.trans ?_
  constructor
  · rintro ⟨h, -⟩
    exact inSet_closed_iff.1 h
  · intro h
    refine ⟨inSet_closed_iff.2 h, fun large _ => ?_⟩
    exact raisesOnly_bind.2 ⟨inSet_closed_iff.2 h, fun _ _ => raisesOnly_pure _⟩

/-- Decoding escapes on a control whose type is a list or a dict. -/
theorem decodeControl_closed_iff {raw : Raw} :
    FailsClosed (decodeControl platform raw) ↔
      ∀ members size, readControl platform raw = .ok (members, size) →
        (value members "type").hashable = true := by
  unfold decodeControl
  refine raisesOnly_bind.trans ?_
  constructor
  · rintro ⟨-, h⟩ members size hread
    exact messageLimit_closed_iff.1 (raisesOnly_bind.1 (h (members, size) hread)).1
  · intro h
    refine ⟨readControl_closed raw, ?_⟩
    rintro ⟨members, size⟩ hread
    refine raisesOnly_bind.2 ⟨messageLimit_closed_iff.2 (h members size hread), fun _ _ => ?_⟩
    exact raisesOnly_bind.2 ⟨require_closed, fun _ _ => raisesOnly_pure _⟩

/-! ## Fields -/

/-- The fields that are measured against a float. -/
def scoreFields : List String := ["category_score", "progress"]

theorem mathIsFinite_closed_iff {v : Json} (hnumber : v.isNumber = true) :
    FailsClosed (mathIsFinite v) ↔ v.overflows = false := by
  cases v with
  | int n =>
    refine raisesOnly_bind.trans ?_
    unfold require
    constructor
    · rintro ⟨hclosed, -⟩
      by_contra hover
      rw [if_neg hover] at hclosed
      exact not_isProtocol6_overflowError (raisesOnly_error.1 hclosed)
    · intro hfits
      rw [if_pos hfits]
      exact ⟨raisesOnly_ok (), fun _ _ => raisesOnly_pure true⟩
  | float bits => exact ⟨fun _ => rfl, fun _ => raisesOnly_pure _⟩
  | null => cases hnumber
  | bool b => cases hnumber
  | str text => cases hnumber
  | arr items => cases hnumber
  | obj members => cases hnumber

theorem isNumber_of_overflows {v : Json} (h : v.overflows = true) : v.isNumber = true := by
  cases v with
  | int n => rfl
  | float bits => rfl
  | null => cases h
  | bool b => cases h
  | str text => cases h
  | arr items => cases h
  | obj members => cases h

/-- Measuring a number escapes on an integer no float holds. -/
theorem checkNumber_closed_iff {admits : Json → Bool} {message : String} {v : Json} :
    FailsClosed (checkNumber admits message v) ↔ v.overflows = false := by
  unfold checkNumber
  refine raisesOnly_bind.trans ?_
  constructor
  · rintro ⟨-, h⟩
    by_contra hover
    have hover : v.overflows = true := by simpa using hover
    have hnumber := isNumber_of_overflows hover
    have hfinite := (raisesOnly_bind.1 (h () (require_eq_ok.2 hnumber))).1
    rw [(mathIsFinite_closed_iff hnumber).1 hfinite] at hover
    cases hover
  · intro hover
    refine ⟨require_closed, fun _ hok => ?_⟩
    have hnumber := require_eq_ok.1 hok
    exact raisesOnly_bind.2
      ⟨(mathIsFinite_closed_iff hnumber).2 hover, fun _ _ => require_closed⟩

theorem Text.isIn_of_subset {text : Text} {names names' : List String} (hsub : names ⊆ names')
    (h : text.isIn names = true) : text.isIn names' = true := by
  obtain ⟨s, hs, htext⟩ := Text.isIn_iff.1 h
  exact Text.isIn_iff.2 ⟨s, hsub hs, htext⟩

/-- A score outside the other lists goes through their checks unseen. -/
theorem checkField_score {key : Text} {v : Json} (hkey : key.isIn scoreFields = true)
    (hover : v.overflows = true) : checkField key v = .error .overflowError := by
  have hnumber : v.isNumber = true := isNumber_of_overflows hover
  have hnan : mathIsFinite v = .error .overflowError := by
    cases v with
    | int n => simp [mathIsFinite, hover, require, bind, Except.bind]
    | float bits => cases hover
    | null => cases hover
    | bool b => cases hover
    | str text => cases hover
    | arr items => cases hover
    | obj members => cases hover
  have hcheck : ∀ message, checkNumber Json.inUnit message v = .error .overflowError := by
    intro message
    simp [checkNumber, require, hnumber, hnan, bind, Except.bind]
  obtain ⟨s, hs, rfl⟩ := Text.isIn_iff.1 hkey
  simp only [scoreFields, List.mem_cons, List.not_mem_nil, or_false] at hs
  rcases hs with rfl | rfl
  all_goals
    simp [checkField, Text.isIn, uuidFields, positive, nonnegative, hashFields, stringFields,
      workLimitFields, require, onlyIf, hcheck, bind, Except.bind]

/-- A field check escapes on a score that is too large an integer. -/
theorem checkField_closed_iff {key : Text} {v : Json} :
    FailsClosed (checkField key v) ↔ ¬ (key.isIn scoreFields = true ∧ v.overflows = true) := by
  constructor
  · rintro h ⟨hkey, hover⟩
    exact not_isProtocol6_overflowError (h _ (checkField_score hkey hover))
  · intro hnot
    have hscore : ∀ names, names ⊆ scoreFields → ∀ message,
        FailsClosed (onlyIf (key.isIn names = true) (checkNumber Json.inUnit message v)) := by
      intro names hsub message
      refine raisesOnly_onlyIf.2 fun hkey => checkNumber_closed_iff.2 ?_
      by_contra hover
      exact hnot ⟨Text.isIn_of_subset hsub hkey, by simpa using hover⟩
    unfold checkField
    refine raisesOnly_bind.2 ⟨require_closed, fun _ _ => ?_⟩
    refine raisesOnly_bind.2 ⟨require_closed, fun _ _ => ?_⟩
    refine raisesOnly_bind.2 ⟨require_closed, fun _ _ => ?_⟩
    refine raisesOnly_bind.2 ⟨require_closed, fun _ _ => ?_⟩
    refine raisesOnly_bind.2 ⟨require_closed, fun _ _ => ?_⟩
    refine raisesOnly_bind.2 ⟨require_closed, fun _ _ => ?_⟩
    refine raisesOnly_bind.2 ⟨require_closed, fun _ _ => ?_⟩
    refine raisesOnly_bind.2 ⟨require_closed, fun _ _ => ?_⟩
    refine raisesOnly_bind.2 ⟨hscore ["category_score"] (by simp [scoreFields]) _, fun _ _ => ?_⟩
    refine raisesOnly_bind.2 ⟨hscore ["progress"] (by simp [scoreFields]) _, fun _ _ => ?_⟩
    exact require_closed

/-! ## The walk -/

theorem forM_append {ε α : Type} (f : α → Except ε Unit) (xs ys : List α) :
    (xs ++ ys).forM f = xs.forM f >>= fun _ => ys.forM f := by
  induction xs with
  | nil => rfl
  | cons x xs ih =>
    rw [List.cons_append, forM_cons, forM_cons, ih]
    cases f x <;> rfl

theorem forM_singleton {ε α : Type} (f : α → Except ε Unit) (x : α) : [x].forM f = f x := by
  rw [forM_cons]
  cases f x <;> rfl

mutual

/-- The walk is one loop over the fields it visits. -/
theorem validateTypes_eq_forM (key : Text) (v : Json) :
    validateTypes key v = (visits key v).forM checkVisit := by
  cases v with
  | obj members =>
    rw [validateTypes, visits, forM_cons]
    cases hkey : key.isIn nestedFields with
    | true =>
      rw [onlyIf, if_pos rfl, if_pos rfl, validateMembers_eq_forM members]
      rfl
    | false =>
      rw [onlyIf, if_neg (by simp), if_neg (by simp)]
      rfl
  | null | bool _ | int _ | float _ | str _ | arr _ =>
    rw [validateTypes, visits, forM_singleton]
    · rfl
    all_goals
      intro members h
      cases h

theorem validateMembers_eq_forM (members : List (Text × Json)) :
    validateMembers members = (memberVisits members).forM checkVisit := by
  match members with
  | [] => rfl
  | (key, child) :: members =>
    rw [validateMembers, memberVisits, forM_append, validateTypes_eq_forM key child,
      validateMembers_eq_forM members]

end

/-- Some score in the walk is too large an integer, and every field before it is
as it should be. -/
def OverflowsFirst (fields : List (Text × Json)) : Prop :=
  ∃ before key score after, fields = before ++ (key, score) :: after ∧
    (∀ visit ∈ before, checkVisit visit = .ok ()) ∧
    key.isIn scoreFields = true ∧ score.overflows = true

theorem validateTypes_closed_iff {key : Text} {v : Json} :
    FailsClosed (validateTypes key v) ↔ ¬ OverflowsFirst (visits key v) := by
  rw [validateTypes_eq_forM]
  refine raisesOnly_forM.trans ?_
  constructor
  · rintro h ⟨before, key, score, after, hfields, hbefore, hkey, hover⟩
    exact checkField_closed_iff.1 (h before (key, score) after hfields hbefore) ⟨hkey, hover⟩
  · rintro h before ⟨key, score⟩ after hfields hbefore
    refine checkField_closed_iff.2 ?_
    rintro ⟨hkey, hover⟩
    exact h ⟨before, key, score, after, hfields, hbefore, hkey, hover⟩

end Potocolom.Protocol
