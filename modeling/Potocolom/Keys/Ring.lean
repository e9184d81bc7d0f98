import Potocolom.Lib.BigEndian
import Potocolom.Lib.Guard

/-! # The root key ring

A ring holds versioned root keys, the one it writes with first. A blob starts with
the version it was sealed under, then its nonce, then what AES-GCM made of the
plaintext; it is bound to a purpose and to a context that its caller names. -/

namespace Potocolom.Keys

open Guard

abbrev Bytes := List UInt8

/-- `text.encode()`. -/
def utf8 (text : String) : Bytes := text.toUTF8.data.toList

/-- `_KEY_BYTES`. -/
def keyBytes : Nat := 32
/-- `_VERSION_BYTES`. -/
def versionBytes : Nat := 2
/-- `_NONCE_BYTES`. -/
def nonceBytes : Nat := 12
/-- `_TAG_BYTES`. -/
def tagBytes : Nat := 16
/-- `_MAX_VERSION`. -/
def maxVersion : Nat := 32767

/-- What `os.urandom(_NONCE_BYTES)` returns. -/
abbrev Nonce := { bytes : Bytes // bytes.length = nonceBytes }

/-- The cryptography library: HKDF, and AES-GCM with a tag of sixteen bytes, which
opens what was sealed with the same key, nonce and associated data. -/
structure Crypto where
  hkdf : (root info : Bytes) → Bytes
  aesEncrypt : (key nonce plaintext aad : Bytes) → Bytes
  /-- `none` is `InvalidTag`. -/
  aesDecrypt : (key nonce ciphertext aad : Bytes) → Option Bytes
  length_encrypt : ∀ key nonce plaintext aad,
    (aesEncrypt key nonce plaintext aad).length = plaintext.length + tagBytes
  decrypt_encrypt : ∀ key nonce plaintext aad,
    aesDecrypt key nonce (aesEncrypt key nonce plaintext aad) aad = some plaintext

structure KeyRingError where
  message : String
  deriving DecidableEq

/-- A root key under its version. -/
abbrev Entry := Nat × Bytes

/-- What `KeyRing.__init__` admits. -/
structure KeyRing where
  active : Entry
  others : List Entry
  bounded : ∀ e ∈ active :: others, 1 ≤ e.1 ∧ e.1 ≤ maxVersion
  sized : ∀ e ∈ active :: others, e.2.length = keyBytes
  versions_nodup : ((active :: others).map Prod.fst).Nodup
  keys_nodup : ((active :: others).map Prod.snd).Nodup

namespace KeyRing

variable (ring : KeyRing) (crypto : Crypto)

def entries : List Entry := ring.active :: ring.others

def activeVersion : Nat := ring.active.1

def versions : List Nat := ring.entries.map Prod.fst

/-- `_root`. -/
def root (version : Nat) : Except KeyRingError Bytes :=
  demand ((ring.entries.find? fun e => e.1 = version).map Prod.snd)
    ⟨"root key version is not in the ring"⟩

end KeyRing

/-- `_associated_data`. -/
def associatedData (purpose : String) (aad : Bytes) : Bytes :=
  BigEndian.toBytes 4 (utf8 purpose).length ++ utf8 purpose ++ aad

/-- The key of a purpose, from a root. -/
def purposeKey (crypto : Crypto) (root : Bytes) (purpose : String) : Bytes :=
  crypto.hkdf root (utf8 "potocolom root key ring v1" ++ utf8 "|" ++ utf8 purpose)

/-- What `encrypt` writes with a version and its root. -/
def sealUnder (crypto : Crypto) (entry : Entry) (purpose : String) (plaintext aad : Bytes)
    (nonce : Nonce) : Bytes :=
  BigEndian.toBytes versionBytes entry.1 ++ nonce.1 ++
    crypto.aesEncrypt (purposeKey crypto entry.2 purpose) nonce.1 plaintext (associatedData purpose aad)

namespace KeyRing

variable (ring : KeyRing) (crypto : Crypto)

/-- `derive`. -/
def derive (purpose : String) (version : Nat) : Except KeyRingError Bytes := do
  let root ← ring.root version
  pure (purposeKey crypto root purpose)

/-- `encrypt`. -/
def encrypt (purpose : String) (plaintext aad : Bytes) (nonce : Nonce) : Bytes :=
  sealUnder crypto ring.active purpose plaintext aad nonce

end KeyRing

/-- `version_of`. -/
def versionOf (blob : Bytes) : Except KeyRingError Nat := do
  require (versionBytes + nonceBytes + tagBytes ≤ blob.length)
    ⟨"blob is too short to hold a version, a nonce and a tag"⟩
  pure (BigEndian.fromBytes (blob.take versionBytes))

namespace KeyRing

variable (ring : KeyRing) (crypto : Crypto)

/-- `decrypt`. -/
def decrypt (purpose : String) (blob aad : Bytes) : Except KeyRingError Bytes := do
  let version ← versionOf blob
  let key ← ring.derive crypto purpose version
  demand
    (crypto.aesDecrypt key ((blob.drop versionBytes).take nonceBytes)
      (blob.drop (versionBytes + nonceBytes)) (associatedData purpose aad))
    ⟨"blob does not verify under this purpose, aad and version"⟩

/-- `reencrypt`. -/
def reencrypt (purpose : String) (blob aad : Bytes) (nonce : Nonce) :
    Except KeyRingError Bytes := do
  let plaintext ← ring.decrypt crypto purpose blob aad
  pure (ring.encrypt crypto purpose plaintext aad nonce)

/-- The ring once every older key is removed from it. -/
def activeOnly : KeyRing where
  active := ring.active
  others := []
  bounded := by
    intro e he
    rw [List.mem_singleton.1 he]
    exact ring.bounded _ List.mem_cons_self
  sized := by
    intro e he
    rw [List.mem_singleton.1 he]
    exact ring.sized _ List.mem_cons_self
  versions_nodup := by simp
  keys_nodup := by simp

end KeyRing

/-! ## Reading back what was sealed -/

variable {ring : KeyRing} {crypto : Crypto} {entry : Entry} {purpose : String}
  {plaintext aad : Bytes} {nonce : Nonce}

/-- The version prefix is the version. -/
theorem versionOf_sealUnder (hversion : entry.1 ≤ maxVersion) :
    versionOf (sealUnder crypto entry purpose plaintext aad nonce) = .ok entry.1 := by
  have hlength : versionBytes + nonceBytes + tagBytes ≤
      (sealUnder crypto entry purpose plaintext aad nonce).length := by
    have hnonce := nonce.2
    simp only [sealUnder, List.length_append, BigEndian.length_toBytes, hnonce,
      crypto.length_encrypt]
    omega
  have hprefix : (sealUnder crypto entry purpose plaintext aad nonce).take versionBytes =
      BigEndian.toBytes versionBytes entry.1 := by
    rw [sealUnder, List.append_assoc]
    exact List.take_left' (BigEndian.length_toBytes _ _)
  have hfits : entry.1 < 256 ^ versionBytes := by
    have hmax : maxVersion < 256 ^ versionBytes := by decide
    omega
  rw [versionOf, hprefix, BigEndian.fromBytes_toBytes hfits, require, if_pos hlength]
  rfl

/-- A blob opens with the root it was sealed under, and with no version that the ring
does not hold. -/
theorem decrypt_sealUnder (hversion : entry.1 ≤ maxVersion) :
    ring.decrypt crypto purpose (sealUnder crypto entry purpose plaintext aad nonce) aad = (do
      let root ← ring.root entry.1
      demand
        (crypto.aesDecrypt (purposeKey crypto root purpose) nonce.1
          (crypto.aesEncrypt (purposeKey crypto entry.2 purpose) nonce.1 plaintext
            (associatedData purpose aad))
          (associatedData purpose aad))
        ⟨"blob does not verify under this purpose, aad and version"⟩) := by
  have hrest : (sealUnder crypto entry purpose plaintext aad nonce).drop versionBytes =
      nonce.1 ++ crypto.aesEncrypt (purposeKey crypto entry.2 purpose) nonce.1 plaintext
        (associatedData purpose aad) := by
    rw [sealUnder, List.append_assoc]
    exact List.drop_left' (BigEndian.length_toBytes _ _)
  have hnonce : ((sealUnder crypto entry purpose plaintext aad nonce).drop versionBytes).take
      nonceBytes = nonce.1 := by
    rw [hrest]
    exact List.take_left' nonce.2
  have hbody : (sealUnder crypto entry purpose plaintext aad nonce).drop
      (versionBytes + nonceBytes) = crypto.aesEncrypt (purposeKey crypto entry.2 purpose) nonce.1
        plaintext (associatedData purpose aad) := by
    rw [← List.drop_drop, hrest]
    exact List.drop_left' nonce.2
  simp only [KeyRing.decrypt, KeyRing.derive, versionOf_sealUnder hversion, hnonce, hbody]
  cases h : ring.root entry.1 with
  | error why => simp [h, bind, Except.bind]
  | ok root => simp [h, bind, Except.bind, pure, Except.pure]

theorem decrypt_sealed (hversion : entry.1 ≤ maxVersion) (hroot : ring.root entry.1 = .ok entry.2) :
    ring.decrypt crypto purpose (sealUnder crypto entry purpose plaintext aad nonce) aad =
      .ok plaintext := by
  rw [decrypt_sealUnder hversion, hroot]
  simp [crypto.decrypt_encrypt, demand, bind, Except.bind]

theorem decrypt_ok_version (hversion : entry.1 ≤ maxVersion) {opened : Bytes}
    (h : ring.decrypt crypto purpose (sealUnder crypto entry purpose plaintext aad nonce) aad =
      .ok opened) : entry.1 ∈ ring.versions := by
  rw [decrypt_sealUnder hversion, bind_eq_ok] at h
  rcases h with ⟨root, hroot, -⟩
  rw [KeyRing.root, demand_eq_ok, Option.map_eq_some_iff] at hroot
  rcases hroot with ⟨e, he, -⟩
  have hkey : e.1 = entry.1 := by simpa using List.find?_some he
  rw [← hkey]
  exact List.mem_map_of_mem (List.mem_of_find?_eq_some he)

end Potocolom.Keys
