import Potocolom.Protocol.FailClosed
import Potocolom.Protocol.Lexemes

/-! # Reading a canonical text back

`canonical_bytes` sorts the members of every object; `json.loads` on what it wrote builds
the sorted value. The reader is followed container by container: what it has built so far
stands in its frames, and the text of one value puts that value in its place. -/

namespace Potocolom.Protocol

open Guard

/-! ## Sorted values -/

def keyText : Text → String
  | .scalars s => s
  | .surrogates _ _ => ""

/-- The order in which the members are written. -/
def keyLe (a b : Text × Json) : Bool := decide (keyText a.1 ≤ keyText b.1)

mutual

/-- The value with the members of every object in the order of their keys. -/
def Json.sorted : Json → Json
  | .null => .null
  | .bool b => .bool b
  | .int n => .int n
  | .float bits => .float bits
  | .str text => .str text
  | .arr items => .arr (sortedItems items)
  | .obj members => .obj ((sortedMembers members).mergeSort keyLe)

def sortedItems : List Json → List Json
  | [] => []
  | item :: items => item.sorted :: sortedItems items

def sortedMembers : Members → Members
  | [] => []
  | (key, item) :: members => (key, item.sorted) :: sortedMembers members

end

mutual

/-- The keys of every dict are distinct. -/
def Json.Dicts : Json → Prop
  | .arr items => ItemsDicts items
  | .obj members => (keys members).Nodup ∧ MembersDicts members
  | _ => True

def ItemsDicts : List Json → Prop
  | [] => True
  | item :: items => item.Dicts ∧ ItemsDicts items

def MembersDicts : Members → Prop
  | [] => True
  | (_, item) :: members => item.Dicts ∧ MembersDicts members

end

theorem sortedItems_eq (items : List Json) : sortedItems items = items.map Json.sorted := by
  induction items with
  | nil => rfl
  | cons item items ih => rw [sortedItems, ih, List.map_cons]

theorem sortedMembers_eq (members : Members) :
    sortedMembers members = members.map fun m => (m.1, m.2.sorted) := by
  induction members with
  | nil => rfl
  | cons m members ih => rw [sortedMembers, ih, List.map_cons]

theorem itemsDicts_iff {items : List Json} : ItemsDicts items ↔ ∀ item ∈ items, item.Dicts := by
  induction items with
  | nil => simp [ItemsDicts]
  | cons item items ih => simp [ItemsDicts, ih]

theorem membersDicts_iff {members : Members} : MembersDicts members ↔ ∀ m ∈ members, m.2.Dicts := by
  induction members with
  | nil => simp [MembersDicts]
  | cons m members ih => simp [MembersDicts, ih]

/-- The members of a sorted object: those of the object in order, each value sorted. -/
theorem sorted_obj (members : Members) :
    (Json.obj members).sorted =
      .obj ((members.mergeSort keyLe).map fun m => (m.1, m.2.sorted)) := by
  rw [Json.sorted, sortedMembers_eq, List.map_mergeSort]
  intro a _ b _
  rfl

/-- What holds of the leaves and passes from the parts to the whole holds of all values. -/
theorem Json.induct {P : Json → Prop} (hnull : P .null) (hbool : ∀ b, P (.bool b))
    (hint : ∀ n, P (.int n)) (hfloat : ∀ bits, P (.float bits)) (hstr : ∀ text, P (.str text))
    (harr : ∀ items, (∀ item ∈ items, P item) → P (.arr items))
    (hobj : ∀ members : Members, (∀ m ∈ members, P m.2) → P (.obj members)) (value : Json) :
    P value := by
  refine @Json.rec P (fun items => ∀ item ∈ items, P item) (fun members => ∀ m ∈ members, P m.2)
    (fun m => P m.2) hnull hbool hint hfloat hstr harr hobj ?_ ?_ ?_ ?_ ?_ value
  · intro item hitem
    cases hitem
  · intro head tail hhead htail item hitem
    rcases List.mem_cons.1 hitem with heq | hrest
    · rw [heq]
      exact hhead
    · exact htail item hrest
  · intro m hm
    cases hm
  · intro head tail hhead htail m hm
    rcases List.mem_cons.1 hm with heq | hrest
    · rw [heq]
      exact hhead
    · exact htail m hrest
  · intro key item hitem
    exact hitem

/-! ## Encoded values -/

/-- The text of a value that can be encoded. -/
def textOf (platform : Platform) (value : Json) : String := (dumps platform value).getD ""

theorem textOf_eq {platform : Platform} {value : Json} {text : String}
    (h : dumps platform value = some text) : textOf platform value = text := by
  rw [textOf, h]
  rfl

variable {platform : Platform}

theorem dumpsItems_eq {items : List Json} {texts : List String}
    (h : dumpsItems platform items = some texts) :
    texts = items.map (textOf platform) ∧
      ∀ item ∈ items, dumps platform item = some (textOf platform item) := by
  induction items generalizing texts with
  | nil =>
    rw [dumpsItems] at h
    cases h
    exact ⟨rfl, by simp⟩
  | cons item items ih =>
    simp only [dumpsItems, Option.bind_eq_bind, Option.bind_eq_some_iff, Option.pure_def,
      Option.some.injEq] at h
    obtain ⟨text, htext, rest, hrest, rfl⟩ := h
    obtain ⟨heq, hall⟩ := ih hrest
    refine ⟨?_, ?_⟩
    · rw [List.map_cons, textOf_eq htext, heq]
    · intro x hx
      rcases List.mem_cons.1 hx with rfl | hx
      · rw [textOf_eq htext, htext]
      · exact hall x hx

theorem dumpsMembers_eq {members : Members} {texts : List (String × String)}
    (h : dumpsMembers platform members = some texts) :
    texts = members.map (fun m => (keyText m.1, textOf platform m.2)) ∧
      ∀ m ∈ members, m.1 = .scalars (keyText m.1) ∧
        dumps platform m.2 = some (textOf platform m.2) := by
  induction members generalizing texts with
  | nil =>
    rw [dumpsMembers] at h
    cases h
    exact ⟨rfl, by simp⟩
  | cons m members ih =>
    obtain ⟨key, item⟩ := m
    cases key with
    | surrogates points lone => cases h
    | scalars key =>
      simp only [dumpsMembers, Option.bind_eq_bind, Option.bind_eq_some_iff, Option.pure_def,
        Option.some.injEq] at h
      obtain ⟨text, htext, rest, hrest, rfl⟩ := h
      obtain ⟨heq, hall⟩ := ih hrest
      refine ⟨?_, ?_⟩
      · rw [List.map_cons, textOf_eq htext, heq]
        rfl
      · intro x hx
        rcases List.mem_cons.1 hx with rfl | hx
        · exact ⟨rfl, by rw [textOf_eq htext, htext]⟩
        · exact hall x hx

/-- The text of an object: its members in order, each key quoted. -/
theorem dumpsObject_toList (members : Members) :
    (dumpsObject (members.map fun m => (keyText m.1, textOf platform m.2))).toList =
      '{' :: (List.intercalate [','] ((members.mergeSort keyLe).map fun m =>
        (quote (keyText m.1)).toList ++ ':' :: (textOf platform m.2).toList) ++ ['}']) := by
  have hsort : (members.map fun m => (keyText m.1, textOf platform m.2)).mergeSort
      (fun a b => decide (a.1 ≤ b.1)) =
        (members.mergeSort keyLe).map fun m => (keyText m.1, textOf platform m.2) := by
    rw [List.map_mergeSort]
    intro a _ b _
    rfl
  have hopen : "\x7b".toList = ['{'] := by decide
  have hclose : "\x7d".toList = ['}'] := by decide
  have hcomma : ",".toList = [','] := by decide
  have hcolon : ":".toList = [':'] := by decide
  have hmember : (fun m : Text × Json =>
      (quote (keyText m.1) ++ ":" ++ textOf platform m.2).toList) =
        fun m => (quote (keyText m.1)).toList ++ ':' :: (textOf platform m.2).toList := by
    funext m
    rw [String.toList_append, String.toList_append, hcolon, List.append_assoc]
    rw [List.singleton_append]
  unfold dumpsObject
  dsimp only
  rw [hsort, String.toList_append, String.toList_append, String.toList_intercalate, hopen, hclose,
    hcomma, List.map_map, List.map_map, List.append_assoc, List.singleton_append, ← hmember]
  rfl

/-- A check that answers nothing, and what comes after it. -/
theorem check_then_eq_ok {β : Type} {check : Except Raised Unit} {next : Unit → Except Raised β}
    {b : β} : (check >>= next) = .ok b ↔ check = .ok () ∧ next () = .ok b := by
  rw [bind_eq_ok]
  constructor
  · rintro ⟨⟨⟩, hcheck, hnext⟩
    exact ⟨hcheck, hnext⟩
  · rintro ⟨hcheck, hnext⟩
    exact ⟨(), hcheck, hnext⟩

theorem checkItems_eq_ok {depth : Nat} {items : List Json} :
    checkItems depth items = .ok () ↔ ∀ item ∈ items, checkJson depth item = .ok () := by
  induction items with
  | nil => simp [checkItems, pure, Except.pure]
  | cons item items ih => rw [checkItems, check_then_eq_ok, List.forall_mem_cons, ← ih]

theorem checkMembers_eq_ok {depth : Nat} {members : Members} :
    checkMembers depth members = .ok () ↔
      ∀ m ∈ members, checkText depth m.1 = .ok () ∧ checkJson depth m.2 = .ok () := by
  induction members with
  | nil => simp [checkMembers, pure, Except.pure]
  | cons m members ih =>
    rw [checkMembers, check_then_eq_ok, check_then_eq_ok, List.forall_mem_cons, ← ih, and_assoc]

/-- A container is admissible at a depth when the depth is and its parts are one deeper. -/
theorem checkJson_arr {depth : Nat} {items : List Json} :
    checkJson depth (.arr items) = .ok () ↔
      depth ≤ 64 ∧ ∀ item ∈ items, checkJson (depth + 1) item = .ok () := by
  rw [checkJson, check_then_eq_ok, require_eq_ok, checkItems_eq_ok]

theorem checkJson_obj {depth : Nat} {members : Members} :
    checkJson depth (.obj members) = .ok () ↔
      depth ≤ 64 ∧ ∀ m ∈ members, checkText (depth + 1) m.1 = .ok () ∧
        checkJson (depth + 1) m.2 = .ok () := by
  rw [checkJson, check_then_eq_ok, require_eq_ok, checkMembers_eq_ok]

/-- Sorting keeps what `_check_json` admits. -/
theorem checkJson_sorted {value : Json} :
    ∀ {depth : Nat}, checkJson depth value = .ok () → checkJson depth value.sorted = .ok () := by
  induction value using Json.induct with
  | hnull => exact id
  | hbool b => exact id
  | hint n => exact id
  | hfloat bits => exact id
  | hstr text => exact id
  | harr items ih =>
    intro depth h
    rw [checkJson_arr] at h
    rw [Json.sorted, sortedItems_eq, checkJson_arr]
    refine ⟨h.1, ?_⟩
    intro item hitem
    obtain ⟨x, hx, rfl⟩ := List.mem_map.1 hitem
    exact ih x hx (h.2 x hx)
  | hobj members ih =>
    intro depth h
    rw [checkJson_obj] at h
    rw [sorted_obj, checkJson_obj]
    refine ⟨h.1, ?_⟩
    intro m hm
    obtain ⟨x, hx, rfl⟩ := List.mem_map.1 hm
    have hmem : x ∈ members := List.mem_mergeSort.1 hx
    exact ⟨(h.2 x hmem).1, ih x hmem (h.2 x hmem).2⟩

/-! ## The reader -/

/-- The reader at this depth of containers, on what follows a value. -/
def readRest (platform : Platform) (rest : List Char) (reader : Reader) : Except Raised Reader :=
  (tokens platform 0 rest).foldlM (read platform) reader

/-- Wherever a value is due, `text` puts `value` in its place. -/
def ReadsAs (platform : Platform) (depth : Nat) (text : List Char) (value : Json) : Prop :=
  ∀ frames want rest, frames.length = depth → want = .value ∨ want = .item → Stops rest →
    readRest platform (text ++ rest) ⟨frames, want⟩ = place value frames >>= readRest platform rest

theorem readRest_cons {text rest : List Char} {token : Token} {reader : Reader}
    (h : tokens platform 0 text = token :: tokens platform 0 rest) :
    readRest platform text reader = read platform reader token >>= readRest platform rest := by
  unfold readRest
  rw [h, List.foldlM_cons]

/-- A value that is one token. -/
theorem readsAs_value {depth : Nat} {text : List Char} {value : Json}
    (h : ∀ rest, Stops rest →
      tokens platform 0 (text ++ rest) = .value value :: tokens platform 0 rest) :
    ReadsAs platform depth text value := by
  intro frames want rest _ hwant hrest
  rw [readRest_cons (h rest hrest)]
  rcases hwant with rfl | rfl <;> rfl

theorem tokens_closeArray (rest : List Char) :
    tokens platform 0 (']' :: rest) = .closeArray :: tokens platform 0 rest :=
  tokens_char (by decide) (fun _ => rfl) rest

theorem tokens_closeObject (rest : List Char) :
    tokens platform 0 ('}' :: rest) = .closeObject :: tokens platform 0 rest :=
  tokens_char (by decide) (fun _ => rfl) rest

theorem tokens_comma (rest : List Char) :
    tokens platform 0 (',' :: rest) = .comma :: tokens platform 0 rest :=
  tokens_char (by decide) (fun _ => rfl) rest

theorem tokens_colon (rest : List Char) :
    tokens platform 0 (':' :: rest) = .colon :: tokens platform 0 rest :=
  tokens_char (by decide) (fun _ => rfl) rest

theorem tokens_openArray (rest : List Char) :
    tokens platform 0 ('[' :: rest) = .openArray :: tokens platform 0 rest :=
  tokens_char (by decide) (fun _ => rfl) rest

theorem tokens_openObject (rest : List Char) :
    tokens platform 0 ('{' :: rest) = .openObject :: tokens platform 0 rest :=
  tokens_char (by decide) (fun _ => rfl) rest

/-- The items of an array, up to its end. -/
theorem readRest_items {depth : Nat} {frames : List Frame} (hdepth : frames.length = depth)
    {item : Json} {items : List Json}
    (h : ∀ x ∈ item :: items, ReadsAs platform (depth + 1) (textOf platform x).toList x.sorted) :
    ∀ acc want rest, want = .value ∨ want = .item →
      readRest platform
          (List.intercalate [','] ((item :: items).map fun x => (textOf platform x).toList) ++
            ']' :: rest) ⟨.array acc :: frames, want⟩ =
        place (.arr (acc.reverse ++ (item :: items).map Json.sorted)) frames >>=
          readRest platform rest := by
  have hlength : ∀ acc : List Json, (Frame.array acc :: frames).length = depth + 1 := by
    intro acc
    rw [List.length_cons, hdepth]
  induction items generalizing item with
  | nil =>
    intro acc want rest hwant
    have hitem := h item List.mem_cons_self (.array acc :: frames) want (']' :: rest)
      (hlength acc) hwant (.inr (.inl rfl))
    rw [List.map_singleton, List.intercalate_singleton, hitem]
    -- the item stands in its array, and the array ends
    show readRest platform (']' :: rest) ⟨.array (item.sorted :: acc) :: frames, .comma⟩ = _
    rw [readRest_cons (tokens_closeArray rest)]
    show place (.arr (item.sorted :: acc).reverse) frames >>= readRest platform rest = _
    rw [List.reverse_cons, List.map_singleton]
  | cons next items ih =>
    intro acc want rest hwant
    have hitem := h item List.mem_cons_self (.array acc :: frames) want
      (',' :: (List.intercalate [','] ((next :: items).map fun x => (textOf platform x).toList) ++
        ']' :: rest)) (hlength acc) hwant (.inl rfl)
    have hrest := ih (fun x hx => h x (List.mem_cons_of_mem _ hx)) (item.sorted :: acc) .value rest
      (.inl rfl)
    have htext : List.intercalate [','] ((item :: next :: items).map fun x =>
        (textOf platform x).toList) ++ ']' :: rest = (textOf platform item).toList ++
          ',' :: (List.intercalate [','] ((next :: items).map fun x => (textOf platform x).toList) ++
            ']' :: rest) := by
      rw [List.map_cons, List.map_cons, List.intercalate_cons_cons, List.append_assoc,
        List.append_assoc]
      rfl
    rw [htext, hitem]
    show readRest platform (',' :: _) ⟨.array (item.sorted :: acc) :: frames, .comma⟩ = _
    rw [readRest_cons (tokens_comma _)]
    show readRest platform _ ⟨.array (item.sorted :: acc) :: frames, .value⟩ = _
    rw [hrest, List.reverse_cons, List.append_assoc]
    rfl

/-- A member as it stands in the text. -/
def memberText (platform : Platform) (m : Text × Json) : List Char :=
  (quote (keyText m.1)).toList ++ ':' :: (textOf platform m.2).toList

/-- A member, up to the comma or the end after it. -/
theorem readRest_member {depth : Nat} {frames : List Frame} (hdepth : frames.length = depth)
    {m : Text × Json} (hkey : m.1 = .scalars (keyText m.1))
    (h : ReadsAs platform (depth + 1) (textOf platform m.2).toList m.2.sorted)
    (acc : Members) {want : Want} (hwant : want = .key ∨ want = .firstKey) (rest : List Char)
    (hrest : Stops rest) :
    readRest platform (memberText platform m ++ rest) ⟨.object acc :: frames, want⟩ =
      readRest platform rest ⟨.object ((m.1, m.2.sorted) :: acc) :: frames, .comma⟩ := by
  have htext : memberText platform m ++ rest =
      (quote (keyText m.1)).toList ++ (':' :: ((textOf platform m.2).toList ++ rest)) := by
    rw [memberText, List.append_assoc, List.cons_append]
  have hvalue := h (.member acc (.scalars (keyText m.1)) :: frames) .value rest
    (by rw [List.length_cons, hdepth]) (.inl rfl) hrest
  have hread : read platform ⟨.object acc :: frames, want⟩
      (.value (.str (.scalars (keyText m.1)))) =
        .ok ⟨.member acc (.scalars (keyText m.1)) :: frames, .colon⟩ := by
    rcases hwant with rfl | rfl <;> rfl
  rw [htext, readRest_cons (tokens_quote _ _), hread]
  show readRest platform (':' :: _) ⟨.member acc (.scalars (keyText m.1)) :: frames, .colon⟩ = _
  rw [readRest_cons (tokens_colon _)]
  show readRest platform _ ⟨.member acc (.scalars (keyText m.1)) :: frames, .value⟩ = _
  rw [hvalue, hkey]
  rfl

/-- No key comes twice, so `_pairs` keeps every member. -/
theorem pairs_eq_ok {members : Members} (h : (keys members).Nodup) :
    pairs members = .ok members := by
  have hfold : ∀ (rest done : Members), (keys (done ++ rest)).Nodup →
      rest.foldlM (fun result member => do
        require (member.1 ∉ keys result) (.protocol6 "duplicate JSON object key")
        pure (result ++ [member])) done = (.ok (done ++ rest) : Except Raised Members) := by
    intro rest
    induction rest with
    | nil =>
      intro done _
      rw [List.append_nil]
      rfl
    | cons m rest ih =>
      intro done hdone
      have hnew : m.1 ∉ keys done := by
        intro hmem
        unfold keys at hdone hmem
        rw [List.map_append, List.map_cons, List.nodup_append] at hdone
        exact hdone.2.2 m.1 hmem m.1 List.mem_cons_self rfl
      have hnext : (keys ((done ++ [m]) ++ rest)).Nodup := by
        rw [List.append_assoc]
        exact hdone
      rw [List.foldlM_cons, require, if_pos hnew]
      show rest.foldlM _ (done ++ [m]) = _
      rw [ih _ hnext, List.append_assoc]
      rfl
  exact hfold members [] h

/-- The members of an object, up to its end. -/
theorem readRest_members {depth : Nat} {frames : List Frame} (hdepth : frames.length = depth)
    {m : Text × Json} {members : Members}
    (hkeys : ∀ x ∈ m :: members, x.1 = .scalars (keyText x.1))
    (h : ∀ x ∈ m :: members,
      ReadsAs platform (depth + 1) (textOf platform x.2).toList x.2.sorted) :
    ∀ acc want rest, want = .key ∨ want = .firstKey →
      (keys (acc.reverse ++ (m :: members).map fun x => (x.1, x.2.sorted))).Nodup →
      readRest platform
          (List.intercalate [','] ((m :: members).map (memberText platform)) ++ '}' :: rest)
          ⟨.object acc :: frames, want⟩ =
        place (.obj (acc.reverse ++ (m :: members).map fun x => (x.1, x.2.sorted))) frames >>=
          readRest platform rest := by
  induction members generalizing m with
  | nil =>
    intro acc want rest hwant hnodup
    have hmember := readRest_member hdepth (hkeys m List.mem_cons_self) (h m List.mem_cons_self)
      acc hwant ('}' :: rest) (.inr (.inr rfl))
    rw [List.map_singleton, List.intercalate_singleton, hmember,
      readRest_cons (tokens_closeObject rest)]
    have hpairs : pairs ((m.1, m.2.sorted) :: acc).reverse =
        .ok (acc.reverse ++ [m].map fun x => (x.1, x.2.sorted)) := by
      rw [List.reverse_cons]
      exact pairs_eq_ok hnodup
    show (pairs ((m.1, m.2.sorted) :: acc).reverse >>= fun built => place (.obj built) frames) >>=
      readRest platform rest = _
    rw [hpairs]
    rfl
  | cons next members ih =>
    intro acc want rest hwant hnodup
    have hmember := readRest_member hdepth (hkeys m List.mem_cons_self) (h m List.mem_cons_self)
      acc hwant (',' :: (List.intercalate [','] ((next :: members).map
        (memberText platform)) ++ '}' :: rest)) (.inl rfl)
    have htext : List.intercalate [','] ((m :: next :: members).map (memberText platform)) ++
        '}' :: rest = memberText platform m ++ ',' :: (List.intercalate [','] ((next :: members).map
          (memberText platform)) ++ '}' :: rest) := by
      rw [List.map_cons, List.map_cons, List.intercalate_cons_cons, List.append_assoc,
        List.append_assoc]
      rfl
    have hsame : ((m.1, m.2.sorted) :: acc).reverse ++
        (next :: members).map (fun x => (x.1, x.2.sorted)) =
          acc.reverse ++ (m :: next :: members).map fun x => (x.1, x.2.sorted) := by
      rw [List.reverse_cons, List.append_assoc]
      rfl
    have hrest := ih (fun x hx => hkeys x (List.mem_cons_of_mem _ hx))
      (fun x hx => h x (List.mem_cons_of_mem _ hx)) ((m.1, m.2.sorted) :: acc) .key rest (.inl rfl)
      (by rw [hsame]; exact hnodup)
    rw [htext, hmember, readRest_cons (tokens_comma _)]
    show readRest platform _ ⟨.object ((m.1, m.2.sorted) :: acc) :: frames, .key⟩ = _
    rw [hrest, hsame]

/-! ## The whole text -/

/-- `repr` of a float: a JSON number with a point or an exponent, which `float` reads back. -/
structure FloatRepr (platform : Platform) : Prop where
  text : ∀ bits, isFinite bits = true → IsFloatText (platform.floatRepr bits).toList
  back : ∀ bits, isFinite bits = true → platform.toFloat (platform.floatRepr bits) = bits

/-- A container is entered where the nesting leaves room. -/
theorem enter_eq_ok {frames : List Frame} (h : frames.length ≤ 64)
    (hdepth : 64 < platform.recursionLimit) (frame : Frame) (want : Want) :
    enter platform frames frame want = .ok ⟨frame :: frames, want⟩ := by
  have hroom : frames.length < platform.recursionLimit := by omega
  unfold enter require
  rw [if_pos hroom]
  rfl

theorem readsAs_arr (hlimit : 64 < platform.recursionLimit) {depth : Nat} (hdepth : depth ≤ 64)
    {items : List Json}
    (h : ∀ x ∈ items, ReadsAs platform (depth + 1) (textOf platform x).toList x.sorted) :
    ReadsAs platform depth
      ('[' :: (List.intercalate [','] (items.map fun x => (textOf platform x).toList) ++ [']']))
      (.arr (items.map Json.sorted)) := by
  intro frames want rest hframes hwant hrest
  have henter : enter platform frames (.array []) .item = .ok ⟨.array [] :: frames, .item⟩ :=
    enter_eq_ok (by omega) hlimit _ _
  have hopen : read platform ⟨frames, want⟩ .openArray = .ok ⟨.array [] :: frames, .item⟩ := by
    rcases hwant with rfl | rfl <;> exact henter
  rw [List.cons_append, readRest_cons (tokens_openArray _), hopen, List.append_assoc,
    List.singleton_append]
  show readRest platform _ ⟨.array [] :: frames, .item⟩ = _
  cases items with
  | nil =>
    rw [List.map_nil, List.intercalate_nil, List.nil_append,
      readRest_cons (tokens_closeArray rest)]
    rfl
  | cons item items =>
    rw [readRest_items hframes h [] .item rest (.inr rfl)]
    rfl

theorem readsAs_obj (hlimit : 64 < platform.recursionLimit) {depth : Nat} (hdepth : depth ≤ 64)
    {members : Members} (hkeys : ∀ x ∈ members, x.1 = .scalars (keyText x.1))
    (hnodup : (keys members).Nodup)
    (h : ∀ x ∈ members, ReadsAs platform (depth + 1) (textOf platform x.2).toList x.2.sorted) :
    ReadsAs platform depth
      ('{' :: (List.intercalate [','] (members.map (memberText platform)) ++ ['}']))
      (.obj (members.map fun x => (x.1, x.2.sorted))) := by
  intro frames want rest hframes hwant hrest
  have henter : enter platform frames (.object []) .firstKey =
      .ok ⟨.object [] :: frames, .firstKey⟩ :=
    enter_eq_ok (by omega) hlimit _ _
  have hopen : read platform ⟨frames, want⟩ .openObject = .ok ⟨.object [] :: frames, .firstKey⟩ := by
    rcases hwant with rfl | rfl <;> exact henter
  rw [List.cons_append, readRest_cons (tokens_openObject _), hopen, List.append_assoc,
    List.singleton_append]
  show readRest platform _ ⟨.object [] :: frames, .firstKey⟩ = _
  cases members with
  | nil =>
    rw [List.map_nil, List.intercalate_nil, List.nil_append,
      readRest_cons (tokens_closeObject rest)]
    rfl
  | cons m members =>
    have hsorted : (keys ([].reverse ++ (m :: members).map fun x => (x.1, x.2.sorted))).Nodup := by
      have hsame : keys ([].reverse ++ (m :: members).map fun x => (x.1, x.2.sorted)) =
          keys (m :: members) := by
        unfold keys
        rw [List.reverse_nil, List.nil_append, List.map_map]
        rfl
      rw [hsame]
      exact hnodup
    rw [readRest_members hframes hkeys h [] .firstKey rest (.inr rfl) hsorted]
    rfl

/-- The text of a value is read as the sorted value. -/
theorem reads_dumps (hfloat : FloatRepr platform) (hlimit : 64 < platform.recursionLimit)
    (value : Json) :
    ∀ depth text, dumps platform value = some text → checkJson depth value = .ok () →
      value.Dicts → ReadsAs platform depth text.toList value.sorted := by
  induction value using Json.induct with
  | hnull =>
    intro depth text htext _ _
    rw [dumps] at htext
    cases htext
    exact readsAs_value fun rest _ => tokens_null rest
  | hbool b =>
    intro depth text htext _ _
    rw [dumps] at htext
    cases htext
    exact readsAs_value fun rest _ => tokens_bool b rest
  | hint n =>
    intro depth text htext _ _
    rw [dumps] at htext
    split at htext
    · next hsize =>
      cases htext
      exact readsAs_value fun rest hrest => tokens_int hsize hrest
    · cases htext
  | hfloat bits =>
    intro depth text htext _ _
    rw [dumps] at htext
    split at htext
    · next hfinite =>
      cases htext
      refine readsAs_value fun rest hrest => ?_
      rw [tokens_float (hfloat.text bits hfinite) hrest, String.ofList_toList,
        hfloat.back bits hfinite]
      rfl
    · cases htext
  | hstr t =>
    intro depth text htext _ _
    cases t with
    | scalars s =>
      rw [dumps] at htext
      cases htext
      exact readsAs_value fun rest _ => tokens_quote s rest
    | surrogates points lone =>
      rw [dumps] at htext
      cases htext
  | harr items ih =>
    intro depth text htext hcheck hdicts
    rw [checkJson_arr] at hcheck
    rw [Json.Dicts, itemsDicts_iff] at hdicts
    simp only [dumps, Option.bind_eq_bind, Option.bind_eq_some_iff, Option.pure_def,
      Option.some.injEq] at htext
    obtain ⟨texts, htexts, rfl⟩ := htext
    obtain ⟨rfl, hall⟩ := dumpsItems_eq htexts
    have hitems : ∀ x ∈ items,
        ReadsAs platform (depth + 1) (textOf platform x).toList x.sorted := by
      intro x hx
      exact ih x hx (depth + 1) _ (hall x hx) (hcheck.2 x hx) (hdicts x hx)
    have htoList : ("[" ++ ",".intercalate (items.map (textOf platform)) ++ "]").toList =
        '[' :: (List.intercalate [','] (items.map fun x => (textOf platform x).toList) ++ [']']) := by
      have hopen : "[".toList = ['['] := by decide
      have hclose : "]".toList = [']'] := by decide
      have hcomma : ",".toList = [','] := by decide
      rw [String.toList_append, String.toList_append, String.toList_intercalate, hopen, hclose,
        hcomma, List.map_map, List.append_assoc, List.singleton_append]
      rfl
    rw [htoList, Json.sorted, sortedItems_eq]
    exact readsAs_arr hlimit hcheck.1 hitems
  | hobj members ih =>
    intro depth text htext hcheck hdicts
    rw [checkJson_obj] at hcheck
    rw [Json.Dicts, membersDicts_iff] at hdicts
    simp only [dumps, Option.bind_eq_bind, Option.bind_eq_some_iff, Option.pure_def,
      Option.some.injEq] at htext
    obtain ⟨texts, htexts, rfl⟩ := htext
    obtain ⟨rfl, hall⟩ := dumpsMembers_eq htexts
    have hperm : (members.mergeSort keyLe).Perm members := List.mergeSort_perm _ _
    have hnodup : (keys (members.mergeSort keyLe)).Nodup := by
      have hkeys : (keys (members.mergeSort keyLe)).Perm (keys members) := hperm.map _
      exact hkeys.nodup_iff.2 hdicts.1
    have hmembers : ∀ x ∈ members.mergeSort keyLe,
        ReadsAs platform (depth + 1) (textOf platform x.2).toList x.2.sorted := by
      intro x hx
      have hmem := hperm.mem_iff.1 hx
      exact ih x hmem (depth + 1) _ (hall x hmem).2 (hcheck.2 x hmem).2 (hdicts.2 x hmem)
    rw [dumpsObject_toList, sorted_obj]
    exact readsAs_obj hlimit hcheck.1 (fun x hx => (hall x (hperm.mem_iff.1 hx)).1) hnodup hmembers

/-- `json.loads` on the text of a value builds the sorted value. -/
theorem loads_dumps (hfloat : FloatRepr platform) (hlimit : 64 < platform.recursionLimit)
    {value : Json} {text : String} (htext : dumps platform value = some text)
    (hcheck : checkJson 0 value = .ok ()) (hdicts : value.Dicts) :
    loads platform text = .ok value.sorted := by
  have hread := reads_dumps hfloat hlimit value 0 text htext hcheck hdicts [] .value [] rfl
    (.inl rfl) trivial
  rw [List.append_nil] at hread
  have hdone : (tokens platform 0 text.toList).foldlM (read platform) ⟨[], .value⟩ =
      .ok ⟨[], .done value.sorted⟩ := hread
  unfold loads
  rw [hdone]
  rfl

end Potocolom.Protocol
