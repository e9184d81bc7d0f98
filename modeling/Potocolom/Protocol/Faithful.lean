import Potocolom.Protocol.Catalogue
import Potocolom.Protocol.Reading

/-! # The canonical encoding is faithful

What `canonical_bytes` wrote, `decode_control` reads back as the same dict, so two
values with the same canonical bytes are equal, and with a hash without collisions
so are two messages with the same digest. -/

namespace Potocolom.Protocol

open Guard

variable {platform : Platform} {members : Members}

/-! ## Equality of values -/

mutual

/-- `==` on what `json.loads` builds: the order of a dict's keys does not count. -/
def Json.Same (v w : Json) : Prop :=
  match v with
  | .arr items => ∃ others, w = .arr others ∧ SameItems items others
  | .obj members =>
    ∃ others, w = .obj others ∧ members.length = others.length ∧ SameMembers members others
  | v => v = w

def SameItems (items others : List Json) : Prop :=
  match items with
  | [] => others = []
  | item :: items => ∃ other rest, others = other :: rest ∧ item.Same other ∧ SameItems items rest

def SameMembers (members others : Members) : Prop :=
  match members with
  | [] => True
  | (key, item) :: members =>
    (∃ other, (key, other) ∈ others ∧ item.Same other) ∧ SameMembers members others

end

theorem sameItems_iff {items others : List Json} :
    SameItems items others ↔ List.Forall₂ Json.Same items others := by
  induction items generalizing others with
  | nil => rw [SameItems, List.forall₂_nil_left_iff]
  | cons item items ih =>
    rw [SameItems, List.forall₂_cons_left_iff]
    constructor
    · rintro ⟨other, rest, rfl, hitem, hitems⟩
      exact ⟨other, rest, hitem, ih.1 hitems, rfl⟩
    · rintro ⟨other, rest, hitem, hitems, rfl⟩
      exact ⟨other, rest, rfl, hitem, ih.2 hitems⟩

theorem sameMembers_iff {members others : Members} :
    SameMembers members others ↔
      ∀ m ∈ members, ∃ other, (m.1, other) ∈ others ∧ m.2.Same other := by
  induction members with
  | nil => simp [SameMembers]
  | cons m members ih => rw [SameMembers, List.forall_mem_cons, ih]

theorem same_obj {members others : Members} :
    (Json.obj members).Same (.obj others) ↔ members.length = others.length ∧
      ∀ m ∈ members, ∃ other, (m.1, other) ∈ others ∧ m.2.Same other := by
  rw [Json.Same, ← sameMembers_iff]
  constructor
  · rintro ⟨others', heq, hlength, hmembers⟩
    cases heq
    exact ⟨hlength, hmembers⟩
  · rintro ⟨hlength, hmembers⟩
    exact ⟨others, rfl, hlength, hmembers⟩

theorem same_of_sortedItems {items others : List Json}
    (ih : ∀ item ∈ items, ∀ other : Json, item.sorted = other.sorted → item.Same other)
    (h : items.map Json.sorted = others.map Json.sorted) :
    List.Forall₂ Json.Same items others := by
  induction items generalizing others with
  | nil =>
    cases others with
    | nil => exact .nil
    | cons other others => cases h
  | cons item items ihitems =>
    cases others with
    | nil => cases h
    | cons other others =>
      rw [List.map_cons, List.map_cons, List.cons.injEq] at h
      refine .cons (ih item List.mem_cons_self other h.1) ?_
      exact ihitems (fun x hx => ih x (List.mem_cons_of_mem _ hx)) h.2

/-- Values that sort to the same value are equal. -/
theorem same_of_sorted (v : Json) : ∀ w : Json, v.sorted = w.sorted → v.Same w := by
  induction v using Json.induct with
  | hnull =>
    intro w h
    cases w <;> simp_all [Json.sorted, Json.Same]
  | hbool b =>
    intro w h
    cases w <;> simp_all [Json.sorted, Json.Same]
  | hint n =>
    intro w h
    cases w <;> simp_all [Json.sorted, Json.Same]
  | hfloat bits =>
    intro w h
    cases w <;> simp_all [Json.sorted, Json.Same]
  | hstr text =>
    intro w h
    cases w <;> simp_all [Json.sorted, Json.Same]
  | harr items ih =>
    intro w h
    cases w with
    | arr others =>
      rw [Json.sorted, Json.sorted, sortedItems_eq, sortedItems_eq, Json.arr.injEq] at h
      exact ⟨others, rfl, sameItems_iff.2 (same_of_sortedItems ih h)⟩
    | _ => simp [Json.sorted] at h
  | hobj members ih =>
    intro w h
    cases w with
    | obj others =>
      rw [sorted_obj, sorted_obj, Json.obj.injEq] at h
      rw [same_obj]
      have hlength := congrArg List.length h
      rw [List.length_map, List.length_map, List.length_mergeSort, List.length_mergeSort] at hlength
      refine ⟨hlength, ?_⟩
      intro m hm
      have hmem : (m.1, m.2.sorted) ∈ (others.mergeSort keyLe).map fun m => (m.1, m.2.sorted) := by
        rw [← h]
        exact List.mem_map.2 ⟨m, List.mem_mergeSort.2 hm, rfl⟩
      obtain ⟨other, hother, heq⟩ := List.mem_map.1 hmem
      rw [Prod.mk.injEq] at heq
      refine ⟨other.2, ?_, ih m hm other.2 heq.2.symm⟩
      rw [← heq.1]
      exact List.mem_mergeSort.1 hother
    | _ => simp [Json.sorted] at h

theorem same_refl (v : Json) : v.Same v := same_of_sorted v v rfl

/-- A value equals the sorted one. -/
theorem same_sorted (v : Json) : v.Same v.sorted := by
  induction v using Json.induct with
  | hnull => rfl
  | hbool b => rfl
  | hint n => rfl
  | hfloat bits => rfl
  | hstr text => rfl
  | harr items ih =>
    rw [Json.sorted, sortedItems_eq]
    refine ⟨_, rfl, sameItems_iff.2 ?_⟩
    induction items with
    | nil => exact .nil
    | cons item items ihitems =>
      refine .cons (ih item List.mem_cons_self) ?_
      exact ihitems fun x hx => ih x (List.mem_cons_of_mem _ hx)
  | hobj members ih =>
    rw [sorted_obj, same_obj, List.length_map, List.length_mergeSort]
    refine ⟨rfl, ?_⟩
    intro m hm
    refine ⟨m.2.sorted, ?_, ih m hm⟩
    exact List.mem_map.2 ⟨m, List.mem_mergeSort.2 hm, rfl⟩

/-! ## The fields of a sorted object -/

/-- A key of a dict has one value. -/
theorem get?_eq_some (h : (keys members).Nodup) {name : String} {v : Json} :
    get? members name = some v ↔ (Text.scalars name, v) ∈ members := by
  refine ⟨mem_of_get?, ?_⟩
  intro hmem
  cases hget : get? members name with
  | none =>
    have hhas : has members name = true := has_iff.2 (List.mem_map.2 ⟨_, hmem, rfl⟩)
    rw [has, hget] at hhas
    cases hhas
  | some w =>
    have hw := mem_of_get? hget
    have hsame := List.inj_on_of_nodup_map h hw hmem rfl
    rw [Prod.mk.injEq] at hsame
    rw [hsame.2]

theorem keys_sorted :
    keys ((members.mergeSort keyLe).map fun m => (m.1, m.2.sorted)) =
      keys (members.mergeSort keyLe) := by
  unfold keys
  rw [List.map_map]
  rfl

theorem keys_sorted_nodup (h : (keys members).Nodup) :
    (keys ((members.mergeSort keyLe).map fun m => (m.1, m.2.sorted))).Nodup := by
  have hperm : (keys (members.mergeSort keyLe)).Perm (keys members) :=
    (List.mergeSort_perm members keyLe).map _
  rw [keys_sorted]
  exact hperm.nodup_iff.2 h

/-- A field of the sorted object is the sorted field. -/
theorem value_sorted (h : (keys members).Nodup) (name : String) :
    value ((members.mergeSort keyLe).map fun m => (m.1, m.2.sorted)) name =
      (value members name).sorted := by
  unfold value
  cases hget : get? members name with
  | some v =>
    have hmem := (get?_eq_some h).1 hget
    have hsorted : (Text.scalars name, v.sorted) ∈
        (members.mergeSort keyLe).map fun m => (m.1, m.2.sorted) :=
      List.mem_map.2 ⟨_, List.mem_mergeSort.2 hmem, rfl⟩
    rw [(get?_eq_some (keys_sorted_nodup h)).2 hsorted]
    rfl
  | none =>
    have hnone : get? ((members.mergeSort keyLe).map fun m => (m.1, m.2.sorted)) name = none := by
      by_contra hsome
      obtain ⟨w, hw⟩ := Option.ne_none_iff_exists'.1 hsome
      obtain ⟨m, hm, heq⟩ := List.mem_map.1 (mem_of_get? hw)
      rw [Prod.mk.injEq] at heq
      have hhas : has members name = true := by
        rw [has_iff, ← heq.1]
        exact List.mem_map.2 ⟨m, List.mem_mergeSort.1 hm, rfl⟩
      rw [has, hget] at hhas
      cases hhas
    rw [hnone]
    rfl

theorem inSet_sorted (v : Json) (names : List String) : v.sorted.inSet names = v.inSet names := by
  cases v <;> simp [Json.sorted, Json.inSet, Json.hashable, Json.strWith]

/-- The limit goes by the type, which sorting keeps. -/
theorem messageLimit_sorted (h : (keys members).Nodup) :
    messageLimit ((members.mergeSort keyLe).map fun m => (m.1, m.2.sorted)) =
      messageLimit members := by
  unfold messageLimit
  dsimp only
  rw [value_sorted h, inSet_sorted, inSet_sorted]

/-! ## The round trip -/

theorem canonicalBytes_eq_ok {value : Json} {body : ByteArray} :
    canonicalBytes platform value = .ok body ↔
      checkJson 0 value = .ok () ∧ ∃ text, dumps platform value = some text ∧
        text.toUTF8 = body := by
  unfold canonicalBytes
  rw [check_then_eq_ok]
  simp only [bind_eq_ok, demand_eq_ok, pure_eq_ok]

/-- The bytes of a text decode to the text. -/
theorem fromUTF8?_toUTF8 (text : String) : String.fromUTF8? text.toUTF8 = some text := by
  have hvalid : text.toUTF8.IsValidUTF8 := text.isValidUTF8
  unfold String.fromUTF8?
  rw [dif_pos hvalid]
  rfl

theorem decodeText_toUTF8 (text : String) :
    decodeText (.bytes text.toUTF8) = .ok (text, text.toUTF8.size) := by
  rw [decodeText, fromUTF8?_toUTF8]
  rfl

theorem messageLimit_le {limit : Nat} (h : messageLimit members = .ok limit) :
    limit ≤ maxHelloBytes := by
  unfold messageLimit at h
  obtain ⟨large, _, h⟩ := bind_eq_ok.1 h
  obtain ⟨medium, _, h⟩ := bind_eq_ok.1 h
  rw [pure_eq_ok] at h
  rw [← h]
  cases large <;> cases medium <;> decide

/-- No text without characters is read. -/
theorem loads_empty : loads platform "" = .error .valueError := by
  rfl

/-- The bytes of a dict within the limit of its type are read as the sorted dict. -/
theorem decode_canonical (hfloat : FloatRepr platform) (hdepth : 64 < platform.recursionLimit)
    (hdicts : (Json.obj members).Dicts) {body : ByteArray} {limit : Nat}
    (hbody : canonicalBytes platform (.obj members) = .ok body)
    (hlimit : messageLimit members = .ok limit) (hsize : body.size ≤ limit) :
    decodeControl platform (.bytes body) =
      .ok ((members.mergeSort keyLe).map fun m => (m.1, m.2.sorted)) := by
  obtain ⟨hcheck, text, htext, rfl⟩ := canonicalBytes_eq_ok.1 hbody
  have hloads := loads_dumps hfloat hdepth htext hcheck hdicts
  have hsorted := checkJson_sorted hcheck
  rw [sorted_obj] at hloads hsorted
  have hnonempty : text.toUTF8.size ≠ 0 := by
    intro hzero
    have hempty : text = "" := String.utf8ByteSize_eq_zero_iff.1 hzero
    rw [hempty, loads_empty] at hloads
    cases hloads
  have hhello := messageLimit_le hlimit
  have hread : readControl platform (.bytes text.toUTF8) =
      .ok ((members.mergeSort keyLe).map fun m => (m.1, m.2.sorted), text.toUTF8.size) := by
    unfold readControl
    refine bind_eq_ok.2 ⟨_, decodeText_toUTF8 text, ?_⟩
    refine bind_eq_ok.2 ⟨(), require_eq_ok.2 ⟨hnonempty, by omega⟩, ?_⟩
    refine bind_eq_ok.2 ⟨_, by rw [hloads]; rfl, ?_⟩
    exact bind_eq_ok.2 ⟨(), hsorted, rfl⟩
  unfold decodeControl
  refine bind_eq_ok.2 ⟨_, hread, ?_⟩
  rw [Json.Dicts] at hdicts
  refine bind_eq_ok.2 ⟨limit, by rw [messageLimit_sorted hdicts.1, hlimit], ?_⟩
  exact bind_eq_ok.2 ⟨(), require_eq_ok.2 hsize, rfl⟩

/-! ## One text, one value -/

theorem toUTF8_injective : Function.Injective String.toUTF8 := by
  intro s t h
  have hread := fromUTF8?_toUTF8 s
  rw [h, fromUTF8?_toUTF8 t] at hread
  exact (Option.some.inj hread).symm

/-- Values with the same canonical bytes are equal. -/
theorem canonicalBytes_injective (hfloat : FloatRepr platform)
    (hdepth : 64 < platform.recursionLimit) {v w : Json} (hv : v.Dicts) (hw : w.Dicts)
    {body : ByteArray} (hbody : canonicalBytes platform v = .ok body)
    (hbody' : canonicalBytes platform w = .ok body) : v.Same w := by
  obtain ⟨hcheck, text, htext, rfl⟩ := canonicalBytes_eq_ok.1 hbody
  obtain ⟨hcheck', text', htext', heq⟩ := canonicalBytes_eq_ok.1 hbody'
  cases toUTF8_injective heq
  have hread := loads_dumps hfloat hdepth htext hcheck hv
  rw [loads_dumps hfloat hdepth htext' hcheck' hw, Except.ok.injEq] at hread
  exact same_of_sorted v w hread.symm

/-! ## One digest, one message -/

theorem mem_without {field : String} {m : Text × Json} :
    m ∈ without field members ↔ m ∈ members ∧ m.1 ≠ .scalars field := by
  simp [without]

theorem dicts_without {field : String} (h : (Json.obj members).Dicts) :
    (Json.obj (without field members)).Dicts := by
  rw [Json.Dicts, membersDicts_iff] at h ⊢
  constructor
  · exact h.1.sublist (List.filter_sublist.map _)
  · intro m hm
    exact h.2 m (mem_without.1 hm).1

/-- A dict has a field once. -/
theorem length_without {field : String} {v : Json} (h : (keys members).Nodup)
    (hv : (Text.scalars field, v) ∈ members) :
    (without field members).length + 1 = members.length := by
  induction members with
  | nil => cases hv
  | cons m members ih =>
    unfold keys at h
    rw [List.map_cons, List.nodup_cons] at h
    rw [List.length_cons]
    by_cases hkey : m.1 = .scalars field
    · -- the field stands here, so nothing after it has its name
      have hrest : without field members = members := by
        refine List.filter_eq_self.2 fun x hx => ?_
        have hne : x.1 ≠ .scalars field := by
          intro heq
          exact h.1 (hkey ▸ heq ▸ List.mem_map_of_mem hx)
        simpa using hne
      have hskip : without field (m :: members) = without field members := by
        simp [without, hkey]
      rw [hskip, hrest]
    · have hmem : (Text.scalars field, v) ∈ members := by
        rcases List.mem_cons.1 hv with heq | hmem
        · exact absurd (congrArg Prod.fst heq).symm hkey
        · exact hmem
      have hkeep : without field (m :: members) = m :: without field members := by
        simp [without, hkey]
      rw [hkeep, List.length_cons, ih h.2 hmem]

theorem mem_of_value {name : String} {text : Text} (h : value members name = .str text) :
    (Text.scalars name, Json.str text) ∈ members := by
  unfold value at h
  cases hget : get? members name with
  | none =>
    rw [hget] at h
    cases h
  | some v =>
    rw [hget, Option.getD_some] at h
    rw [← h]
    exact mem_of_get? hget

/-- Two messages with one digest, each that of its other fields, are equal. -/
theorem digested_same (hfloat : FloatRepr platform) (hdepth : 64 < platform.recursionLimit)
    (hsha : Function.Injective platform.sha256) {others : Members} {field : String}
    (hm : (Json.obj members).Dicts) (ho : (Json.obj others).Dicts)
    (hdigest : Digested platform members field) (hdigest' : Digested platform others field)
    (heq : value members field = value others field) :
    (Json.obj members).Same (.obj others) := by
  obtain ⟨bytes, hbytes, hvalue⟩ := hdigest
  obtain ⟨bytes', hbytes', hvalue'⟩ := hdigest'
  have hmem := mem_of_value hvalue
  have hmem' := mem_of_value hvalue'
  have hhash : platform.sha256 bytes = platform.sha256 bytes' := by
    rw [hvalue, hvalue'] at heq
    simpa using heq
  rw [hsha hhash] at hbytes hmem
  have hrest := canonicalBytes_injective hfloat hdepth (dicts_without hm) (dicts_without ho) hbytes
    hbytes'
  rw [same_obj] at hrest ⊢
  rw [Json.Dicts] at hm ho
  have hlength := length_without hm.1 hmem
  have hlength' := length_without ho.1 hmem'
  refine ⟨by omega, ?_⟩
  intro m hin
  by_cases hkey : m.1 = .scalars field
  · -- the digest itself
    have hsame : m.2 = .str (.scalars (platform.sha256 bytes')) := by
      have hpair := List.inj_on_of_nodup_map hm.1 hin hmem hkey
      rw [hpair]
    rw [hkey, hsame]
    exact ⟨_, hmem', same_refl _⟩
  · obtain ⟨other, hother, hitem⟩ := hrest.2 m (mem_without.2 ⟨hin, hkey⟩)
    exact ⟨other, (mem_without.1 hother).1, hitem⟩

/-- The digests `validate_message` recomputes, with the kinds that carry them. -/
def digests : List (String × List String) :=
  [("body_hash", bodyHashKinds), ("report_hash", reportHashKinds)]

/-- A message of one of the kinds was accepted: its digest is that of its other fields. -/
def AcceptedAs (platform : Platform) (kinds : List String) (members : Members) : Prop :=
  ∃ kind ∈ kinds, kindOf? members = some (.scalars kind) ∧
    ∃ worker incarnation, validateMessage platform (.obj members) worker incarnation = .ok ()

theorem AcceptedAs.digested {field : String} {kinds : List String}
    (h : AcceptedAs platform kinds members) (hin : (field, kinds) ∈ digests) :
    Digested platform members field := by
  obtain ⟨kind, hkinds, hkind, worker, incarnation, hvalid⟩ := h
  obtain ⟨kind', hkind', henvelope⟩ := envelope_of_accepted hvalid
  rw [hkind, Option.some.injEq] at hkind'
  subst hkind'
  obtain ⟨-, -, -, -, -, hbody, hreport⟩ := checkEnvelope_eq_ok.1 henvelope
  rcases List.mem_cons.1 hin with heq | hin
  · rw [Prod.mk.injEq] at heq
    rw [heq.1]
    exact hbody (Text.isIn_iff.2 ⟨kind, heq.2 ▸ hkinds, rfl⟩)
  · rw [List.mem_singleton, Prod.mk.injEq] at hin
    rw [hin.1]
    exact hreport (Text.isIn_iff.2 ⟨kind, hin.2 ▸ hkinds, rfl⟩)

/-- The canonical encoding is faithful: what was written within the limit of its type
is read back as an equal dict; values with the same bytes are equal; and with a hash
without collisions, accepted messages of the kinds with a digest of their own are
equal when their digests are. -/
theorem canonical_faithful (platform : Platform) (hfloat : FloatRepr platform)
    (hdepth : 64 < platform.recursionLimit) :
    (∀ members body limit, (Json.obj members).Dicts →
        canonicalBytes platform (.obj members) = .ok body → messageLimit members = .ok limit →
        body.size ≤ limit →
        ∃ decoded, decodeControl platform (.bytes body) = .ok decoded ∧
          (Json.obj members).Same (.obj decoded)) ∧
      (∀ v w body, v.Dicts → w.Dicts → canonicalBytes platform v = .ok body →
        canonicalBytes platform w = .ok body → v.Same w) ∧
      (Function.Injective platform.sha256 → ∀ field kinds, (field, kinds) ∈ digests →
        ∀ members others, (Json.obj members).Dicts → (Json.obj others).Dicts →
          AcceptedAs platform kinds members → AcceptedAs platform kinds others →
          value members field = value others field → (Json.obj members).Same (.obj others)) := by
  refine ⟨?_, ?_, ?_⟩
  · intro members body limit hdicts hbody hlimit hsize
    refine ⟨_, decode_canonical hfloat hdepth hdicts hbody hlimit hsize, ?_⟩
    have hsame := same_sorted (.obj members)
    rw [sorted_obj] at hsame
    exact hsame
  · intro v w body hv hw hbody hbody'
    exact canonicalBytes_injective hfloat hdepth hv hw hbody hbody'
  · intro hsha field kinds hin members others hm ho haccepted haccepted' heq
    exact digested_same hfloat hdepth hsha hm ho (haccepted.digested hin) (haccepted'.digested hin)
      heq

/-! ## A drain and its acknowledgement -/

/-- The fields of a drain, but the digest. -/
def drainFields : Members :=
  [(.scalars "command_id", .str (.scalars "00000000-0000-4000-8000-000000000004")),
   (.scalars "command_sequence", .int 1),
   (.scalars "grant_nonce", .str (.scalars "00000000-0000-4000-8000-000000000002")),
   (.scalars "incarnation", .str (.scalars "00000000-0000-4000-8000-000000000001")),
   (.scalars "lease_expires_at", .str (.scalars "2026-01-01T00:00:00Z")),
   (.scalars "lease_id", .str (.scalars "00000000-0000-4000-8000-000000000003")),
   (.scalars "owner_epoch", .int 1),
   (.scalars "region", .str (.scalars "region")),
   (.scalars "type", .str (.scalars "drain_worker")),
   (.scalars "worker_id", .str (.scalars "worker"))]

def drainText : String :=
  "\x7b\"command_id\":\"00000000-0000-4000-8000-000000000004\",\"command_sequence\":1," ++
  "\"grant_nonce\":\"00000000-0000-4000-8000-000000000002\"," ++
  "\"incarnation\":\"00000000-0000-4000-8000-000000000001\"," ++
  "\"lease_expires_at\":\"2026-01-01T00:00:00Z\"," ++
  "\"lease_id\":\"00000000-0000-4000-8000-000000000003\",\"owner_epoch\":1," ++
  "\"region\":\"region\",\"type\":\"drain_worker\",\"worker_id\":\"worker\"\x7d"

/-- The SHA-256 of the text. -/
def drainHash : String := "56fe08965653a787cf597b700bc4c3f375f027d46f008e88691c9f940221af25"

def drainCommand : Members := (.scalars "body_hash", .str (.scalars drainHash)) :: drainFields

/-- The same command as another writer might order it. -/
def drainCommandLast : Members := drainFields ++ [(.scalars "body_hash", .str (.scalars drainHash))]

/-- SHA-256 on the text of the drain, and no collisions. -/
def drainSha (bytes : ByteArray) : String :=
  if bytes = drainText.toUTF8 then drainHash
  else String.ofList ('x' :: bytes.data.toList.map fun b => Char.ofNat b.toNat)

/-- A platform that writes a float as the number of its bits. -/
def drainPlatform : Platform where
  sha256 := drainSha
  toFloat text := BitVec.ofNat 64 (natOf (text.toList.takeWhile isDigit))
  floatRepr bits := String.ofList (Nat.toDigits 10 bits.toNat ++ ['.', '0'])
  recursionLimit := 1000

theorem drainPlatform_floatRepr : FloatRepr drainPlatform := by
  constructor
  · intro bits _
    show IsFloatText (String.ofList (Nat.toDigits 10 bits.toNat ++ ['.', '0'])).toList
    rw [String.toList_ofList]
    have hfraction : IsDigits ['0'] := ⟨by simp, by simp [isDigit]⟩
    refine ⟨[], Nat.toDigits 10 bits.toNat, ['.', '0'], [], by simp, .inl rfl, toDigits_isIntegral _,
      .inr ⟨['0'], hfraction, rfl⟩, .inl rfl, .inl (by decide)⟩
  · intro bits _
    show BitVec.ofNat 64 (natOf ((String.ofList (Nat.toDigits 10 bits.toNat ++
      ['.', '0'])).toList.takeWhile isDigit)) = bits
    have hends : EndsDigits ['.', '0'] := by
      intro c hc
      cases hc
      decide
    rw [String.toList_ofList, takeWhile_digits (toDigits_isDigits _).2 hends, natOf_toDigits]
    simp

theorem drainSha_text : drainSha drainText.toUTF8 = drainHash := by
  rw [drainSha, if_pos (Eq.refl _)]

theorem drainSha_injective : Function.Injective drainSha := by
  have hother : ∀ bytes : List UInt8,
      drainHash ≠ String.ofList ('x' :: bytes.map fun b => Char.ofNat b.toNat) := by
    intro bytes heq
    have hlist := congrArg (fun s : String => s.toList.head?) heq
    rw [String.toList_ofList] at hlist
    have hhead : drainHash.toList.head? = some '5' := by decide
    rw [hhead] at hlist
    cases hlist
  have hcode : ∀ n < 256, (Char.ofNat n).toNat = n := by decide +kernel
  have hchar : Function.Injective fun b : UInt8 => Char.ofNat b.toNat := by
    intro x y hxy
    have hnat := congrArg Char.toNat hxy
    dsimp only at hnat
    rw [hcode _ x.toNat_lt, hcode _ y.toNat_lt] at hnat
    exact UInt8.toNat_inj.1 hnat
  intro a b h
  unfold drainSha at h
  split_ifs at h with ha hb hb
  · rw [ha, hb]
  · exact absurd h (hother _)
  · exact absurd h.symm (hother _)
  · rw [String.ofList_inj, List.cons.injEq] at h
    have hlist := hchar.list_map h.2
    exact ByteArray.ext (Array.toList_inj.1 hlist)

theorem dumps_drain : dumps platform (.obj drainFields) = some drainText := by
  have hmembers : dumpsMembers platform drainFields =
      some [("command_id", quote "00000000-0000-4000-8000-000000000004"),
        ("command_sequence", "1"), ("grant_nonce", quote "00000000-0000-4000-8000-000000000002"),
        ("incarnation", quote "00000000-0000-4000-8000-000000000001"),
        ("lease_expires_at", quote "2026-01-01T00:00:00Z"),
        ("lease_id", quote "00000000-0000-4000-8000-000000000003"), ("owner_epoch", "1"),
        ("region", quote "region"), ("type", quote "drain_worker"),
        ("worker_id", quote "worker")] := by
    rfl
  rw [dumps, hmembers, Option.bind_eq_bind, Option.bind_some]
  -- the members stand in the order of their keys already
  unfold dumpsObject
  rw [List.mergeSort_of_pairwise (by decide +kernel)]
  decide +kernel

theorem canonicalBytes_drain :
    canonicalBytes platform (.obj drainFields) = .ok drainText.toUTF8 :=
  canonicalBytes_eq_ok.2 ⟨rfl, drainText, dumps_drain, rfl⟩

theorem drain_digested {members : Members} (hrest : without "body_hash" members = drainFields)
    (hhash : value members "body_hash" = .str (.scalars drainHash)) :
    Digested drainPlatform members "body_hash" := by
  refine ⟨drainText.toUTF8, ?_, ?_⟩
  · rw [hrest]
    exact canonicalBytes_drain
  · have hsha : drainPlatform.sha256 = drainSha := rfl
    rw [hhash, hsha, drainSha_text]

/-- The command is valid in any order of its fields. -/
theorem drain_validated {members : Members} (hrest : without "body_hash" members = drainFields)
    (hhash : value members "body_hash" = .str (.scalars drainHash))
    (hjson : checkJson 0 (.obj members) = .ok ())
    (hshape : checkShape (.scalars "drain_worker") members = .ok ())
    (htypes : validateTypes (.scalars "") (.obj members) = .ok ())
    (hkind : kindOf? members = some (.scalars "drain_worker")) :
    validateMessage drainPlatform (.obj members) none none = .ok () := by
  have henvelope : checkEnvelope drainPlatform (.scalars "drain_worker") members none none =
      .ok () := by
    refine checkEnvelope_eq_ok.2 ⟨hjson, hshape, htypes, ?_, rfl, ?_, ?_⟩
    · intro h
      exact absurd h (by decide)
    · intro _
      exact drain_digested hrest hhash
    · intro h
      exact absurd h (by decide)
  rw [validateMessage, hkind]
  simp [demand, henvelope, onlyIf, Text.isIn]

theorem drainCommand_validated :
    validateMessage drainPlatform (.obj drainCommand) none none = .ok () := by
  refine drain_validated rfl rfl rfl ?_ (by decide +kernel) rfl
  exact checkShape_of_row 7 rfl rfl (by decide +kernel)

theorem drainCommandLast_validated :
    validateMessage drainPlatform (.obj drainCommandLast) none none = .ok () := by
  refine drain_validated rfl rfl rfl ?_ (by decide +kernel) rfl
  exact checkShape_of_row 7 rfl rfl (by decide +kernel)

/-- The drain is read back, and equals the same drain with its fields in another order. -/
theorem canonical_faithful_sample :
    (∃ decoded, decodeControl drainPlatform (.bytes drainText.toUTF8) = .ok decoded ∧
        (Json.obj drainFields).Same (.obj decoded)) ∧
      (Json.obj drainCommand).Same (.obj drainCommandLast) := by
  have hfaithful := canonical_faithful drainPlatform drainPlatform_floatRepr (by decide)
  have hnodup : (keys drainFields).Nodup := by decide
  constructor
  · refine hfaithful.1 drainFields _ maxWorkerControlBytes ?_ canonicalBytes_drain rfl
      (by decide +kernel)
    exact ⟨hnodup, by simp [drainFields, MembersDicts, Json.Dicts]⟩
  · refine hfaithful.2.2 drainSha_injective "body_hash" bodyHashKinds (by simp [digests]) _ _ ?_ ?_
      ⟨"drain_worker", by decide, rfl, none, none, drainCommand_validated⟩
      ⟨"drain_worker", by decide, rfl, none, none, drainCommandLast_validated⟩ rfl
    · exact ⟨by decide, by simp [drainCommand, drainFields, MembersDicts, Json.Dicts]⟩
    · exact ⟨by decide, by simp [drainCommandLast, drainFields, MembersDicts, Json.Dicts]⟩

/-- Accepted messages that carry one `body_hash` need not be equal: an acknowledgement
carries the hash of the command it answers. -/
theorem ack_shares_hash :
    ¬ ∀ platform : Platform, FloatRepr platform → 64 < platform.recursionLimit →
      Function.Injective platform.sha256 → ∀ members others worker incarnation,
        (Json.obj members).Dicts → (Json.obj others).Dicts →
        validateMessage platform (.obj members) worker incarnation = .ok () →
        validateMessage platform (.obj others) worker incarnation = .ok () →
        has members "body_hash" = true → value members "body_hash" = value others "body_hash" →
        (Json.obj members).Same (.obj others) := by
  intro hall
  have hack : validateMessage drainPlatform (.obj (drainAck drainHash)) none none = .ok () :=
    drainAck_accepted_of (by decide +kernel)
  have hsame := hall drainPlatform drainPlatform_floatRepr (by decide) drainSha_injective _ _ none
    none
    ⟨by decide, by simp [drainCommand, drainFields, MembersDicts, Json.Dicts]⟩
    ⟨by decide +kernel, by simp [drainAck, MembersDicts, Json.Dicts]⟩ drainCommand_validated hack
    rfl rfl
  rw [same_obj] at hsame
  exact absurd hsame.1 (by decide)

end Potocolom.Protocol
