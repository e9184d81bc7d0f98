import Potocolom.Stored.Bytes

/-! # The walk through a PNG

`_png_dimensions` of `storage.py`, the loop as the turns of a `Walk.Loop`. -/

namespace Potocolom.Stored.Png

open Guard

def signature : List UInt8 := [0x89, 0x50, 0x4E, 0x47, 0x0D, 0x0A, 0x1A, 0x0A]

def ihdr : List UInt8 := [0x49, 0x48, 0x44, 0x52]
def idat : List UInt8 := [0x49, 0x44, 0x41, 0x54]
def iend : List UInt8 := [0x49, 0x45, 0x4E, 0x44]

/-- `_PNG_DEPTHS` -/
def pngDepths : List (UInt8 × List UInt8) :=
  [(0, [1, 2, 4, 8, 16]), (2, [8, 16]), (3, [1, 2, 4, 8]), (4, [8, 16]), (6, [8, 16])]

/-- The colour type allows the bit depth. -/
def LegalDepth (colour depth : UInt8) : Prop :=
  ∃ depths, pngDepths.lookup colour = some depths ∧ depth ∈ depths

instance (colour depth : UInt8) : Decidable (LegalDepth colour depth) :=
  match h : pngDepths.lookup colour with
  | none => isFalse (by simp [LegalDepth, h])
  | some depths => decidable_of_iff (depth ∈ depths) (by simp [LegalDepth, h])

/-- The locals of the loop. -/
structure State where
  position : Nat
  width : Nat
  height : Nat
  chunks : Nat
  sawIdat : Bool
deriving DecidableEq, Repr

/-- A chunk at a position that leaves room for one: its kind and its length. -/
def chunkAt (data : List UInt8) (position : Nat) : Except Failure (List UInt8 × Nat) := do
  let length ← big data position (position + 4)
  let stop := position + 12 + length
  require (stop ≤ data.length) (.valueError "stored object has a truncated PNG chunk")
  let kind ← view data (position + 4) (position + 8)
  let body ← view data (position + 8) (position + 8 + length)
  let checksum := crc32 body (crc32 kind 0)
  let stored ← big data (stop - 4) stop
  require (checksum.toNat = stored) (.valueError "stored object has a corrupt PNG chunk")
  return (kind, length)

/-- What the header says: width and height. -/
def readHeader (header : List UInt8) : Except Failure (Nat × Nat) := do
  let width ← big header 0 4
  let height ← big header 4 8
  match (header.drop 8).take 5 with
  | [depth, colour, compression, filtering, interlace] =>
    require (LegalDepth colour depth)
      (.valueError "stored PNG has an illegal colour type or bit depth")
    require (compression = 0 ∧ filtering = 0 ∧ (interlace = 0 ∨ interlace = 1))
      (.valueError "stored PNG declares an unknown encoding")
    return (width, height)
  | _ => throw (.valueError "not enough values to unpack")

/-- A turn of the loop: on with the next chunk, or out at the `break`. -/
def turn (data : List UInt8) (s : State) : Except Failure (State ⊕ State) :=
  if s.position + 12 ≤ data.length then do
    let chunks := s.chunks + 1
    require (chunks ≤ maxPngChunks) (.valueError "stored PNG has too many chunks")
    let (kind, length) ← chunkAt data s.position
    let stop := s.position + 12 + length
    if chunks = 1 then do
      require (kind = ihdr ∧ length = 13)
        (.valueError "stored object does not start with a PNG header")
      let header ← view data (s.position + 8) (s.position + 21)
      let (width, height) ← readHeader header
      return .inl { s with position := stop, width, height, chunks }
    else if kind = ihdr then throw (.valueError "stored PNG repeats its header")
    else if kind = idat then return .inl { s with position := stop, chunks, sawIdat := true }
    else if kind = iend then do
      require (length = 0 ∧ stop = data.length)
        (.valueError "stored PNG does not end at its IEND")
      return .inr { s with chunks }
    else return .inl { s with position := stop, chunks }
  else throw (.valueError "stored object is not a complete PNG")

theorem turn_progress {data : List UInt8} {s s' : State} (h : turn data s = .ok (.inl s')) :
    data.length - s'.position < data.length - s.position := by
  unfold turn at h
  split at h
  · rename_i hroom
    have hstop : ∃ length, s'.position = s.position + 12 + length := by
      simp only [bind_eq_ok] at h
      obtain ⟨-, -, ⟨kind, length⟩, -, h⟩ := h
      refine ⟨length, ?_⟩
      split at h
      · simp only [bind_eq_ok, pure_eq_ok] at h
        obtain ⟨-, -, header, -, size, -, h⟩ := h
        cases h
        rfl
      · split_ifs at h <;> simp at h
        · rw [← h]
        · rw [← h]
    omega
  · simp at h

/-- The `while` loop. -/
def loop (data : List UInt8) : Walk.Loop Failure State State where
  turn := turn data
  measure s := data.length - s.position
  progress _ _ := turn_progress

/-- `_png_dimensions` -/
def pngDimensions (data : List UInt8) : Except Failure (Nat × Nat) := do
  require (45 ≤ data.length ∧ data.take 8 = signature)
    (.valueError "stored object is not a PNG")
  let s ← (loop data).run ⟨8, 0, 0, 0, false⟩
  require (s.sawIdat = true) (.valueError "stored PNG carries no image data")
  require (s.width ≠ 0 ∧ s.height ≠ 0) (.valueError "stored PNG has empty dimensions")
  require (s.width ≤ maxImageEdge ∧ s.height ≤ maxImageEdge)
    (.valueError "stored PNG dimensions are implausible")
  return (s.width, s.height)

/-! ## The grammar -/

/-- A chunk, as far as its fields fit the format. -/
structure Chunk where
  kind : List UInt8
  body : List UInt8
  kind_length : kind.length = 4
  body_length : body.length < 256 ^ 4

/-- Length, kind, body and checksum. -/
def Chunk.encode (c : Chunk) : List UInt8 :=
  BigEndian.toBytes 4 c.body.length ++ (c.kind ++ (c.body ++
    BigEndian.toBytes 4 (crc32 (c.kind ++ c.body) 0).toNat))

@[simp] theorem Chunk.length_encode (c : Chunk) : c.encode.length = 12 + c.body.length := by
  simp only [encode, List.length_append, BigEndian.length_toBytes, c.kind_length]
  omega

/-- A 13 byte header with a legal depth, colour and encoding. -/
def IsHeader (c : Chunk) (width height : Nat) : Prop :=
  c.kind = ihdr ∧ width < 256 ^ 4 ∧ height < 256 ^ 4 ∧ ∃ depth colour interlace,
    c.body = BigEndian.toBytes 4 width ++ (BigEndian.toBytes 4 height ++
      [depth, colour, 0, 0, interlace]) ∧
    LegalDepth colour depth ∧ (interlace = 0 ∨ interlace = 1)

/-- A PNG of this size: its header, chunks of which one has image data and none is a header or
an end, and an empty end that is the last. -/
def IsPng (data : List UInt8) (width height : Nat) : Prop :=
  (1 ≤ width ∧ width ≤ maxImageEdge) ∧ (1 ≤ height ∧ height ≤ maxImageEdge) ∧
    ∃ (first : Chunk) (middle : List Chunk) (last : Chunk),
      data = signature ++ (first :: middle ++ [last]).flatMap Chunk.encode ∧
      (first :: middle ++ [last]).length ≤ maxPngChunks ∧ IsHeader first width height ∧
      (∀ c ∈ middle, c.kind ≠ ihdr ∧ c.kind ≠ iend) ∧ (∃ c ∈ middle, c.kind = idat) ∧
      last.kind = iend ∧ last.body = []

/-! ## Reading a chunk -/

section Chunks

variable {data pre rest : List UInt8} {position : Nat} {c : Chunk}

/-- The body of a chunk. -/
theorem slice_body (hpre : pre.length = position) (c : Chunk) (more : List UInt8) :
    Slice.slice? (pre ++ (c.encode ++ more)) (position + 8) (position + 8 + c.body.length) =
      some c.body := by
  refine Slice.slice?_part hpre ⟨_, (List.append_assoc _ c.kind _).symm⟩ ?_ rfl
  rw [List.length_append, BigEndian.length_toBytes, c.kind_length]

/-- The walk takes a chunk from a position exactly where one is encoded. -/
theorem chunkAt_eq_ok (hpre : pre.length = position) {kind : List UInt8} {length : Nat} :
    chunkAt (pre ++ rest) position = .ok (kind, length) ↔
      ∃ (c : Chunk) (more : List UInt8), rest = c.encode ++ more ∧ c.kind = kind ∧
        c.body.length = length := by
  have hbig : ∀ n, big (pre ++ rest) position (position + 4) = .ok n ↔ n < 256 ^ 4 ∧
      Slice.slice? (pre ++ rest) position (position + 4) = some (BigEndian.toBytes 4 n) :=
    fun n => big_eq_ok rfl
  have hlast : ∀ length n, big (pre ++ rest) (position + 12 + length - 4)
      (position + 12 + length) = .ok n ↔ n < 256 ^ 4 ∧ Slice.slice? (pre ++ rest)
        (position + 8 + length) (position + 12 + length) = some (BigEndian.toBytes 4 n) := by
    intro length n
    have hstart : position + 12 + length - 4 = position + 8 + length := by omega
    rw [hstart]
    exact big_eq_ok (by omega)
  simp only [chunkAt, bind_eq_ok, pure_eq_ok, require_eq_ok, Prod.mk.injEq, hbig, hlast, view_eq_ok]
  constructor
  · rintro ⟨n, ⟨hfits, hlength⟩, -, -, bytes, hkind, body, hbody, _, ⟨-, hstored⟩, -, rfl, rfl, rfl⟩
    -- the four slices meet
    have hwhole := Slice.slice?_append hlength
      (Slice.slice?_append hkind (Slice.slice?_append hbody hstored))
    rw [Nat.add_assoc, Slice.slice?_behind hpre] at hwhole
    obtain ⟨more, rfl, -⟩ := hwhole
    have hkindLength := Slice.length_of_slice? hkind
    have hbodyLength : body.length = n := by
      rw [Slice.length_of_slice? hbody]
      omega
    subst hbodyLength
    refine ⟨⟨bytes, body, by omega, hfits⟩, more, ?_, rfl, rfl⟩
    rw [Chunk.encode, crc32_append]
  · rintro ⟨c, more, rfl, rfl, rfl⟩
    have hlengths : ∀ n, (BigEndian.toBytes 4 n).length = 4 := BigEndian.length_toBytes 4
    have hkindLength := c.kind_length
    have hlength : Slice.slice? (pre ++ (c.encode ++ more)) position (position + 4) =
        some (BigEndian.toBytes 4 c.body.length) := by
      refine Slice.slice?_part hpre ⟨_, (List.nil_append c.encode).symm⟩ rfl ?_
      rw [hlengths]
    have hkind : Slice.slice? (pre ++ (c.encode ++ more)) (position + 4) (position + 8) =
        some c.kind := by
      refine Slice.slice?_part hpre ⟨_, rfl⟩ ?_ (by omega)
      rw [hlengths]
    have hstored : Slice.slice? (pre ++ (c.encode ++ more)) (position + 8 + c.body.length)
        (position + 12 + c.body.length) =
          some (BigEndian.toBytes 4 (crc32 (c.kind ++ c.body) 0).toNat) := by
      have hwhole : c.encode = (BigEndian.toBytes 4 c.body.length ++ (c.kind ++ c.body)) ++
          (BigEndian.toBytes 4 (crc32 (c.kind ++ c.body) 0).toNat ++ []) := by
        simp only [Chunk.encode, List.append_assoc, List.append_nil]
      refine Slice.slice?_part hpre ⟨[], hwhole⟩ ?_ ?_
      · rw [List.length_append, List.length_append, hlengths, hkindLength]
        omega
      · rw [hlengths]
        omega
    have hcrc : (crc32 (c.kind ++ c.body) 0).toNat < 256 ^ 4 := UInt32.toNat_lt _
    refine ⟨_, ⟨c.body_length, hlength⟩, (), ?_, _, hkind, _, slice_body hpre c more, _,
      ⟨hcrc, hstored⟩, (), ?_, rfl, rfl⟩
    · simp only [List.length_append, Chunk.length_encode, hpre]
      omega
    · rw [crc32_append]

/-- The 13 bytes of a header are read exactly where they say a size and a legal encoding. -/
theorem readHeader_eq_ok {header : List UInt8} (hlength : header.length = 13)
    {width height : Nat} :
    readHeader header = .ok (width, height) ↔
      width < 256 ^ 4 ∧ height < 256 ^ 4 ∧ ∃ depth colour interlace,
        header = BigEndian.toBytes 4 width ++ (BigEndian.toBytes 4 height ++
          [depth, colour, 0, 0, interlace]) ∧
        LegalDepth colour depth ∧ (interlace = 0 ∨ interlace = 1) := by
  have hfirst : ∀ n, big header 0 4 = .ok n ↔ n < 256 ^ 4 ∧
      Slice.slice? header 0 4 = some (BigEndian.toBytes 4 n) := fun n => big_eq_ok rfl
  have hsecond : ∀ n, big header 4 8 = .ok n ↔ n < 256 ^ 4 ∧
      Slice.slice? header 4 8 = some (BigEndian.toBytes 4 n) := fun n => big_eq_ok rfl
  have htail : ∀ bytes : List UInt8, bytes.length = 5 →
      ∃ a b c d e, bytes = [a, b, c, d, e] := by
    intro bytes hbytes
    match bytes, hbytes with
    | [a, b, c, d, e], _ => exact ⟨a, b, c, d, e, rfl⟩
  simp only [readHeader, bind_eq_ok, hfirst, hsecond]
  constructor
  · rintro ⟨w, ⟨hw, hslice⟩, h, ⟨hh, hslice'⟩, hrest⟩
    obtain ⟨post, hpost, -⟩ := Slice.slice?_zero.1 (Slice.slice?_append hslice hslice')
    have hpostLength : post.length = 5 := by
      rw [hpost, List.length_append, List.length_append, BigEndian.length_toBytes,
        BigEndian.length_toBytes] at hlength
      omega
    have hdrop : (header.drop 8).take 5 = post := by
      rw [hpost, List.drop_left' (by simp), List.take_of_length_le (by omega)]
    obtain ⟨depth, colour, compression, filtering, interlace, rfl⟩ := htail post hpostLength
    rw [hdrop] at hrest
    simp only [bind_eq_ok, require_eq_ok, pure_eq_ok, Prod.mk.injEq] at hrest
    obtain ⟨-, hdepth, -, ⟨rfl, rfl, hinterlace⟩, rfl, rfl⟩ := hrest
    exact ⟨hw, hh, depth, colour, interlace, by rw [hpost, List.append_assoc], hdepth, hinterlace⟩
  · rintro ⟨hw, hh, depth, colour, interlace, rfl, hdepth, hinterlace⟩
    refine ⟨width, ⟨hw, Slice.slice?_zero.2 ⟨_, rfl, by simp⟩⟩, height, ⟨hh, ?_⟩, ?_⟩
    · exact Slice.slice?_eq_some.2 ⟨_, _, rfl, by simp, by simp⟩
    · have hdrop : ((BigEndian.toBytes 4 width ++ (BigEndian.toBytes 4 height ++
          [depth, colour, 0, 0, interlace])).drop 8).take 5 = [depth, colour, 0, 0, interlace] := by
        rw [← List.append_assoc, List.drop_left' (by simp)]
        rfl
      rw [hdrop]
      simp [hdepth, hinterlace]

/-! ## The walk over chunks -/

/-- The state behind a chunk. -/
def State.next (s : State) (c : Chunk) : State :=
  { s with position := s.position + c.encode.length, chunks := s.chunks + 1 }

/-- The walk goes on over a chunk: the header first, then neither a header nor an end. -/
def Takes (s : State) (c : Chunk) (s' : State) : Prop :=
  s.chunks < maxPngChunks ∧
    ((s.chunks = 0 ∧ ∃ width height, IsHeader c width height ∧
        s' = { s.next c with width := width, height := height }) ∨
      (s.chunks ≠ 0 ∧ c.kind ≠ ihdr ∧ c.kind ≠ iend ∧
        s' = { s.next c with sawIdat := s.sawIdat || c.kind = idat }))

/-- The walk breaks at an empty end which is all that is left. -/
def Ends (s : State) (rest : List UInt8) (final : State) : Prop :=
  s.chunks < maxPngChunks ∧ s.chunks ≠ 0 ∧
    (∃ c : Chunk, rest = c.encode ∧ c.kind = iend ∧ c.body = []) ∧
    final = { s with chunks := s.chunks + 1 }

/-- What is left of the input at a state. -/
def Left (data : List UInt8) (s : State) (rest : List UInt8) : Prop :=
  ∃ pre, data = pre ++ rest ∧ pre.length = s.position

/-- A turn needs a chunk and room for it in the count. -/
theorem chunk_of_turn {s : State} {r : State ⊕ State} (hleft : Left data s rest)
    (h : turn data s = .ok r) :
    ∃ (c : Chunk) (more : List UInt8), rest = c.encode ++ more ∧ s.chunks < maxPngChunks := by
  obtain ⟨pre, rfl, hpre⟩ := hleft
  unfold turn at h
  split at h
  · simp only [bind_eq_ok, require_eq_ok] at h
    obtain ⟨-, hchunks, ⟨kind, length⟩, hchunk, -⟩ := h
    obtain ⟨c, more, hrest, -⟩ := (chunkAt_eq_ok hpre).1 hchunk
    exact ⟨c, more, hrest, hchunks⟩
  · simp at h

/-- What a turn does at a chunk. -/
theorem turn_eq_ok {s : State} {more : List UInt8} {r : State ⊕ State}
    (hleft : Left data s (c.encode ++ more)) :
    turn data s = .ok r ↔ s.chunks < maxPngChunks ∧
      ((s.chunks = 0 ∧ ∃ width height, IsHeader c width height ∧
          r = .inl { s.next c with width := width, height := height }) ∨
        (s.chunks ≠ 0 ∧ c.kind ≠ ihdr ∧ c.kind ≠ iend ∧
          r = .inl { s.next c with sawIdat := s.sawIdat || c.kind = idat }) ∨
        (s.chunks ≠ 0 ∧ c.kind = iend ∧ c.body = [] ∧ more = [] ∧
          r = .inr { s with chunks := s.chunks + 1 })) := by
  obtain ⟨pre, rfl, hpre⟩ := hleft
  have hlength : (pre ++ (c.encode ++ more)).length =
      s.position + (12 + c.body.length) + more.length := by
    simp only [List.length_append, Chunk.length_encode, hpre]
    omega
  have hchunk : chunkAt (pre ++ (c.encode ++ more)) s.position = .ok (c.kind, c.body.length) :=
    (chunkAt_eq_ok hpre).2 ⟨c, more, rfl, rfl, rfl⟩
  have hend : (s.position + 12 + c.body.length = (pre ++ (c.encode ++ more)).length) ↔
      more = [] := by
    rw [hlength, ← List.length_eq_zero_iff]
    omega
  have hnext : s.position + 12 + c.body.length = s.position + c.encode.length := by
    rw [Chunk.length_encode]
    omega
  have hroom : s.position + 12 ≤ (pre ++ (c.encode ++ more)).length := by omega
  have hcount : s.chunks + 1 ≤ maxPngChunks ↔ s.chunks < maxPngChunks := Iff.rfl
  rw [turn, if_pos hroom]
  simp only [hchunk, bind_eq_ok, require_eq_ok, Except.ok.injEq, exists_eq_left', hcount, hnext,
    exists_const]
  refine and_congr_right fun _ => ?_
  by_cases hfirst : s.chunks = 0
  · have hone : s.chunks + 1 = 1 := by omega
    have hbody : c.body.length = 13 →
        view (pre ++ (c.encode ++ more)) (s.position + 8) (s.position + 21) = .ok c.body := by
      intro h13
      have hslice := slice_body hpre c more
      rw [h13] at hslice
      exact view_eq_ok.2 hslice
    rw [if_pos hone]
    simp only [bind_eq_ok, require_eq_ok, exists_const]
    constructor
    · rintro ⟨⟨hkind, h13⟩, header, hview, ⟨width, height⟩, hread, hr⟩
      rw [hbody h13] at hview
      cases hview
      obtain ⟨hwidth, hheight, hencoding⟩ := (readHeader_eq_ok h13).1 hread
      exact .inl ⟨hfirst, width, height, ⟨hkind, hwidth, hheight, hencoding⟩,
        (pure_eq_ok.1 hr).symm⟩
    · rintro (⟨-, width, height, ⟨hkind, hwidth, hheight, hencoding⟩, rfl⟩ | ⟨hne, -⟩ | ⟨hne, -⟩)
      · have h13 : c.body.length = 13 := by
          obtain ⟨depth, colour, interlace, hc, -⟩ := hencoding
          simp [hc]
        exact ⟨⟨hkind, h13⟩, c.body, hbody h13, (width, height),
          (readHeader_eq_ok h13).2 ⟨hwidth, hheight, hencoding⟩, rfl⟩
      · exact absurd hfirst hne
      · exact absurd hfirst hne
  · have hone : ¬ s.chunks + 1 = 1 := by omega
    rw [if_neg hone]
    simp only [hfirst, false_and, ne_eq, not_false_eq_true, true_and, false_or]
    -- the three kinds that the walk knows, and all others
    by_cases hihdr : c.kind = ihdr
    · have hiend : ihdr ≠ iend := by decide
      simp [hihdr, hiend]
    by_cases hidat : c.kind = idat
    · have hihdr' : idat ≠ ihdr := by decide
      have hiend : idat ≠ iend := by decide
      simp [hidat, hihdr', hiend, @eq_comm _ r, State.next]
    by_cases hiend : c.kind = iend
    · have hihdr' : iend ≠ ihdr := by decide
      have hidat' : iend ≠ idat := by decide
      rw [hnext] at hend
      simp only [hiend, hihdr', hidat', if_false, if_true, bind_eq_ok, require_eq_ok, exists_const,
        hend, pure_eq_ok, List.length_eq_zero_iff, @eq_comm _ r, not_true, false_and, and_false,
        false_or, true_and, and_assoc]
    · simp [hihdr, hidat, hiend, @eq_comm _ r, State.next]

end Chunks

theorem reads (data : List UInt8) :
    Walk.Reads (loop data) Chunk.encode (Left data) Takes Ends where
  go {s s' rest} hleft := by
    constructor
    · intro hturn
      obtain ⟨c, more, rfl, -⟩ := chunk_of_turn hleft hturn
      rcases (turn_eq_ok hleft).1 hturn with ⟨hchunks, hheader | hmiddle | hlast⟩
      · obtain ⟨hfirst, width, height, hheader, hs⟩ := hheader
        exact ⟨c, more, rfl, hchunks, .inl ⟨hfirst, width, height, hheader, Sum.inl.inj hs⟩⟩
      · obtain ⟨hfirst, hihdr, hiend, hs⟩ := hmiddle
        exact ⟨c, more, rfl, hchunks, .inr ⟨hfirst, hihdr, hiend, Sum.inl.inj hs⟩⟩
      · exact absurd hlast.2.2.2.2 (by simp)
    · rintro ⟨c, more, rfl, hchunks, ⟨hfirst, width, height, hheader, rfl⟩ |
        ⟨hfirst, hihdr, hiend, rfl⟩⟩
      · exact (turn_eq_ok hleft).2 ⟨hchunks, .inl ⟨hfirst, width, height, hheader, rfl⟩⟩
      · exact (turn_eq_ok hleft).2 ⟨hchunks, .inr (.inl ⟨hfirst, hihdr, hiend, rfl⟩)⟩
  left {s s' c rest} hleft htakes := by
    obtain ⟨pre, rfl, hpre⟩ := hleft
    have hposition : s'.position = s.position + c.encode.length := by
      rcases htakes with ⟨-, ⟨-, width, height, -, rfl⟩ | ⟨-, -, -, rfl⟩⟩ <;> rfl
    refine ⟨pre ++ c.encode, by rw [List.append_assoc], ?_⟩
    rw [List.length_append, hposition, hpre]
  leave {s rest final} hleft := by
    constructor
    · intro hturn
      obtain ⟨c, more, rfl, -⟩ := chunk_of_turn hleft hturn
      rcases (turn_eq_ok hleft).1 hturn with ⟨hchunks, hheader | hmiddle | hlast⟩
      · obtain ⟨-, width, height, -, hs⟩ := hheader
        cases hs
      · exact absurd hmiddle.2.2.2 (by simp)
      · obtain ⟨hfirst, hkind, hbody, rfl, hs⟩ := hlast
        exact ⟨hchunks, hfirst, ⟨c, List.append_nil _, hkind, hbody⟩, Sum.inr.inj hs⟩
    · rintro ⟨hchunks, hfirst, ⟨c, rfl, hkind, hbody⟩, rfl⟩
      have hleft' : Left data s (c.encode ++ []) := by rwa [List.append_nil]
      exact (turn_eq_ok hleft').2 ⟨hchunks, .inr (.inr ⟨hfirst, hkind, hbody, rfl, rfl⟩)⟩

/-- The state behind chunks none of which is a header or an end. -/
def State.over (s : State) (cs : List Chunk) : State :=
  { s with
    position := s.position + (cs.flatMap Chunk.encode).length
    chunks := s.chunks + cs.length
    sawIdat := s.sawIdat || cs.any fun c => c.kind = idat }

theorem chain_iff {s s' : State} {cs : List Chunk} (hfirst : s.chunks ≠ 0)
    (hmax : s.chunks ≤ maxPngChunks) :
    Walk.Chain Takes s cs s' ↔
      (∀ c ∈ cs, c.kind ≠ ihdr ∧ c.kind ≠ iend) ∧ s.chunks + cs.length ≤ maxPngChunks ∧
        s' = s.over cs := by
  induction cs generalizing s with
  | nil => simp [Walk.chain_nil, State.over, hmax]
  | cons c cs ih =>
    have hover : ∀ t : State, t = { s.next c with sawIdat := s.sawIdat || c.kind = idat } →
        t.over cs = s.over (c :: cs) := by
      rintro t rfl
      simp [State.over, State.next, Nat.add_assoc, Nat.add_comm 1, Bool.or_assoc]
    rw [Walk.chain_cons]
    constructor
    · rintro ⟨t, ⟨hchunks, ⟨hzero, -⟩ | ⟨-, hihdr, hiend, ht⟩⟩, htail⟩
      · exact absurd hzero hfirst
      · have hcount : t.chunks = s.chunks + 1 := by rw [ht]; rfl
        obtain ⟨hkinds, hbound, rfl⟩ := (ih (by omega) (by omega)).1 htail
        refine ⟨?_, ?_, hover t ht⟩
        · rintro x (_ | ⟨_, hx⟩)
          · exact ⟨hihdr, hiend⟩
          · exact hkinds x hx
        · rw [List.length_cons]
          omega
    · rintro ⟨hkinds, hbound, rfl⟩
      rw [List.length_cons] at hbound
      obtain ⟨hihdr, hiend⟩ := hkinds c List.mem_cons_self
      refine ⟨_, ⟨by omega, .inr ⟨hfirst, hihdr, hiend, rfl⟩⟩, ?_⟩
      refine (ih (Nat.succ_ne_zero _) ?_).2 ⟨fun x hx => hkinds x (List.mem_cons_of_mem _ hx), ?_,
        (hover _ rfl).symm⟩
      · change s.chunks + 1 ≤ _
        omega
      · change s.chunks + 1 + cs.length ≤ _
        omega

/-- The state at the `break` behind a header and the chunks after it. -/
def broken (first : Chunk) (middle : List Chunk) (width height : Nat) : State :=
  ⟨8 + first.encode.length + (middle.flatMap Chunk.encode).length, width, height,
    1 + middle.length + 1, middle.any fun c => c.kind = idat⟩

/-- The loop leaves behind a signature exactly where chunks of the grammar fill the rest. -/
theorem run_iff {rest : List UInt8} {final : State} :
    (loop (signature ++ rest)).run ⟨8, 0, 0, 0, false⟩ = .ok final ↔
      ∃ (first : Chunk) (middle : List Chunk) (last : Chunk) (width height : Nat),
        rest = (first :: middle ++ [last]).flatMap Chunk.encode ∧
        (first :: middle ++ [last]).length ≤ maxPngChunks ∧ IsHeader first width height ∧
        (∀ c ∈ middle, c.kind ≠ ihdr ∧ c.kind ≠ iend) ∧ last.kind = iend ∧ last.body = [] ∧
        final = broken first middle width height := by
  have hleft : Left (signature ++ rest) ⟨8, 0, 0, 0, false⟩ rest := ⟨signature, rfl, rfl⟩
  have hone : (1 : Nat) ≤ maxPngChunks := by decide
  rw [(reads _).run_iff hleft]
  constructor
  · rintro ⟨cs, tail, s, rfl, hchain, hchunks, hfirst, ⟨last, rfl, hkind, hbody⟩, rfl⟩
    cases hchain with
    | nil => exact absurd rfl hfirst
    | @cons _ t _ first middle head chain =>
      rcases head with ⟨-, ⟨-, width, height, hheader, rfl⟩ | ⟨hne, -⟩⟩
      · obtain ⟨hkinds, hbound, rfl⟩ := (chain_iff (Nat.succ_ne_zero _) hone).1 chain
        refine ⟨first, middle, last, width, height, by simp, ?_, hheader, hkinds, hkind, hbody, ?_⟩
        · simp only [State.over, State.next] at hchunks
          simp only [List.length_append, List.length_cons, List.length_nil]
          omega
        · simp [State.over, State.next, broken]
      · exact absurd rfl hne
  · rintro ⟨first, middle, last, width, height, rfl, hbound, hheader, hkinds, hkind, hbody, rfl⟩
    simp only [List.length_append, List.length_cons, List.length_nil] at hbound
    refine ⟨first :: middle, last.encode, State.over { State.next ⟨8, 0, 0, 0, false⟩ first with
      width := width, height := height } middle, by simp, ?_, ?_, ?_, ⟨last, rfl, hkind, hbody⟩, ?_⟩
    · refine .cons ⟨by decide, .inl ⟨rfl, width, height, hheader, rfl⟩⟩ ?_
      refine (chain_iff (Nat.succ_ne_zero _) hone).2 ⟨hkinds, ?_, rfl⟩
      change 0 + 1 + middle.length ≤ _
      omega
    · change 0 + 1 + middle.length < _
      omega
    · change 0 + 1 + middle.length ≠ 0
      omega
    · simp [State.over, State.next, broken]

theorem encode_length_le {c : Chunk} {cs : List Chunk} (h : c ∈ cs) :
    c.encode.length ≤ (cs.flatMap Chunk.encode).length := by
  obtain ⟨front, back, rfl⟩ := List.append_of_mem h
  rw [List.flatMap_append, List.flatMap_cons, List.length_append, List.length_append]
  omega

/-- `_png_dimensions` returns a size exactly for a PNG of this size. -/
theorem pngDimensions_eq_ok {data : List UInt8} {width height : Nat} :
    pngDimensions data = .ok (width, height) ↔ IsPng data width height := by
  simp only [pngDimensions, bind_eq_ok, require_eq_ok, pure_eq_ok, Prod.mk.injEq, exists_const]
  constructor
  · rintro ⟨⟨-, hsignature⟩, s, hrun, hidat, ⟨hwidth, hheight⟩, ⟨hwidth', hheight'⟩, rfl, rfl⟩
    have hdata : data = signature ++ data.drop 8 := by
      rw [← hsignature, List.take_append_drop]
    rw [hdata] at hrun
    obtain ⟨first, middle, last, width, height, hrest, hbound, hheader, hkinds, hkind, hbody, rfl⟩ :=
      run_iff.1 hrun
    refine ⟨⟨Nat.pos_of_ne_zero hwidth, hwidth'⟩, ⟨Nat.pos_of_ne_zero hheight, hheight'⟩, first,
      middle, last, by rw [← hrest, ← hdata], hbound, hheader, hkinds, ?_, hkind, hbody⟩
    simpa [broken] using hidat
  · rintro ⟨⟨hwidth, hwidth'⟩, ⟨hheight, hheight'⟩, first, middle, last, rfl, hbound, hheader,
      hkinds, hidat, hkind, hbody⟩
    refine ⟨⟨?_, rfl⟩, broken first middle width height, run_iff.2 ⟨first, middle, last, width,
      height, rfl, hbound, hheader, hkinds, hkind, hbody, rfl⟩, ?_, ⟨?_, ?_⟩, ⟨hwidth', hheight'⟩,
      rfl, rfl⟩
    · -- a header of 25 bytes, image data of 12 and an end of 12 behind the signature
      obtain ⟨c, hc, -⟩ := hidat
      have hmiddle := encode_length_le hc
      obtain ⟨-, -, -, depth, colour, interlace, hfirst, -⟩ := hheader
      simp only [List.cons_append, List.flatMap_cons, List.flatMap_append, List.length_append,
        Chunk.length_encode, hfirst, BigEndian.length_toBytes, List.length_cons, List.length_nil,
        signature, List.flatMap_nil] at hmiddle ⊢
      omega
    · simpa [broken] using hidat
    · exact Nat.ne_of_gt hwidth
    · exact Nat.ne_of_gt hheight

/-! ## What it raises -/

theorem chunkAt_raises {data : List UInt8} {position : Nat}
    (hroom : position + 12 ≤ data.length) : RaisesOnly IsValueError (chunkAt data position) := by
  simp only [chunkAt, raisesOnly_bind, require_eq_ok]
  refine ⟨big_raises (by omega), fun length _ => ⟨require_raises, fun _ hstop =>
    ⟨view_raises (by omega), fun kind _ => ⟨view_raises (by omega), fun body _ =>
      ⟨big_raises (by omega), fun stored _ => ⟨require_raises, fun _ _ =>
        raisesOnly_pure _⟩⟩⟩⟩⟩⟩

theorem readHeader_raises {header : List UInt8} (hlength : 13 ≤ header.length) :
    RaisesOnly IsValueError (readHeader header) := by
  simp only [readHeader, raisesOnly_bind]
  refine ⟨big_raises (by omega), fun width _ => ⟨big_raises (by omega), fun height _ => ?_⟩⟩
  split
  · simp only [raisesOnly_bind]
    exact ⟨require_raises, fun _ _ => ⟨require_raises, fun _ _ =>
      raisesOnly_pure _⟩⟩
  · exact throw_raises

theorem turn_raises (data : List UInt8) (s : State) : RaisesOnly IsValueError (turn data s) := by
  unfold turn
  split
  · rename_i hroom
    simp only [raisesOnly_bind]
    refine ⟨require_raises, fun _ _ => ⟨chunkAt_raises hroom, ?_⟩⟩
    rintro ⟨kind, length⟩ hchunk
    have hstop : s.position + 12 + length ≤ data.length := by
      simp only [chunkAt, bind_eq_ok, require_eq_ok, pure_eq_ok, Prod.mk.injEq] at hchunk
      obtain ⟨n, -, -, hstop, _, -, _, -, _, -, -, -, -, rfl⟩ := hchunk
      exact hstop
    dsimp only
    split
    · simp only [raisesOnly_bind, require_eq_ok]
      refine ⟨require_raises, fun _ hheader => ⟨view_raises (by omega), ?_⟩⟩
      intro header hview
      have hlength := Slice.length_of_slice? (view_eq_ok.1 hview)
      exact ⟨readHeader_raises (by omega), fun _ _ => raisesOnly_pure _⟩
    · split_ifs
      · exact throw_raises
      · exact raisesOnly_pure _
      · simp only [raisesOnly_bind]
        exact ⟨require_raises, fun _ _ => raisesOnly_pure _⟩
      · exact raisesOnly_pure _
  · exact throw_raises

/-- `_png_dimensions` raises nothing but `ValueError`, on any bytes. -/
theorem pngDimensions_raises (data : List UInt8) :
    RaisesOnly IsValueError (pngDimensions data) := by
  simp only [pngDimensions, raisesOnly_bind]
  refine ⟨require_raises, fun _ _ => ⟨?_, fun s _ =>
    ⟨require_raises, fun _ _ => ⟨require_raises, fun _ _ =>
      ⟨require_raises, fun _ _ => raisesOnly_pure _⟩⟩⟩⟩⟩
  exact @Walk.run_raises _ _ _ (loop data) _ (fun _ => True) (fun s _ => turn_raises data s)
    (fun _ _ _ _ => trivial) _ trivial

end Potocolom.Stored.Png
