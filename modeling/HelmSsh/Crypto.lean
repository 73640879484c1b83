/-
# The encrypted workspace file

`src-tauri/src/crypto.rs`: the binary format of a workspace (a header of 70 bytes that is
authenticated with the ciphertext), the keys and the encryption of the data.

The cipher, the key derivation and the JSON of the data come from other crates and enter
as `Crates`.  `Crates.Lawful` is what the source relies on: what is encrypted is decrypted
again, 16 bytes longer, and what is serialized is read back.

* `decodeVault_encodeVault` — the format is read back.
* `encryptWithSession_decrypts` — what a session encrypts, its key decrypts.
* `decryptWithPassword_ok` — a password that opens a workspace gives the session that
  goes on with it.
-/

import HelmSsh.Config.Validate
import HelmSsh.LittleEndian
import Mathlib.Data.Vector.Basic

namespace HelmSsh
namespace Crypto

open Config

/-- `VAULT_FORMAT_VERSION`. -/
def vaultFormatVersion : ℕ := 2

/-- `BINARY_MAGIC`, `RPVAULT\0`. -/
def binaryMagic : List UInt8 := [0x52, 0x50, 0x56, 0x41, 0x55, 0x4c, 0x54, 0x00]

/-- `BINARY_HEADER_LEN`. -/
def binaryHeaderLen : ℕ := 70

/-- A salt, of `SALT_LEN` bytes. -/
abbrev Salt := List.Vector UInt8 16

/-- A nonce, of `NONCE_LEN` bytes. -/
abbrev Nonce := List.Vector UInt8 24

/-- A key, of `KEY_LEN` bytes. -/
abbrev Key := List.Vector UInt8 32

/-- `MIN_MASTER_PASSWORD_LEN`. -/
def minMasterPasswordLen : ℕ := 6

/-- `KdfParams`. -/
structure KdfParams where
  mCostKib : UInt32
  tCost : UInt32
  parallelism : UInt32
  deriving DecidableEq

/-- `KDF_PARAMS_CURRENT`. -/
def kdfParamsCurrent : KdfParams :=
  { mCostKib := 64 * 1024, tCost := 3, parallelism := 1 }

/-- `KDF_PARAMS_FAST`. -/
def kdfParamsFast : KdfParams :=
  { mCostKib := 1024, tCost := 1, parallelism := 1 }

/-- `EncryptedVault`. -/
structure EncryptedVault where
  params : KdfParams
  salt : Salt
  nonce : Nonce
  ciphertext : List UInt8
  deriving DecidableEq

/-- `CryptoSession`. -/
structure CryptoSession where
  key : Key
  salt : Salt
  /-- Later writes use the same parameters, or the next unlock would derive another key. -/
  params : KdfParams
  deriving DecidableEq

/-- What `ZipArchive` makes of a backup package. -/
inductive Unzipped where
  | invalid (error : String)
  | missing
  | unreadable (error : String)
  | payload (content : List UInt8)

/-- What comes from other crates: `argon2::Params::new` and `hash_password_into`, the
`encrypt` and `decrypt` of `XChaCha20Poly1305`, `serde_json::to_vec` and `from_slice` on
the data of a workspace, and the entry of the zip archive. -/
structure Crates where
  paramsNew : KdfParams → Except String Unit
  hashPasswordInto : KdfParams → String → Salt → Except String Key
  encrypt : Key → Nonce → (msg aad : List UInt8) → Option (List UInt8)
  decrypt : Key → Nonce → (ciphertext aad : List UInt8) → Option (List UInt8)
  toVec : VaultData → Except String (List UInt8)
  fromSlice : List UInt8 → Option VaultData
  unzip : List UInt8 → Unzipped

/-- What the source relies on: the cipher and the serialization can be undone, and the
cipher adds a tag of 16 bytes. -/
structure Crates.Lawful (C : Crates) : Prop where
  decrypt_encrypt : ∀ key nonce msg aad ciphertext,
    C.encrypt key nonce msg aad = some ciphertext → C.decrypt key nonce ciphertext aad = some msg
  length_encrypt : ∀ key nonce msg aad ciphertext,
    C.encrypt key nonce msg aad = some ciphertext → ciphertext.length = msg.length + 16
  fromSlice_toVec : ∀ data content, C.toVec data = .ok content → C.fromSlice content = some data

/-- The random bytes of an encryption, and the failures it meets. -/
structure EncryptIo where
  salt : Salt
  nonce : Nonce
  serialize : Option String := none
  encrypt : Bool := false

variable (C : Crates)

/-- `KdfParams::argon2`. -/
def KdfParams.argon2 (params : KdfParams) : AppResult Unit := do
  refuse (params.mCostKib > 256 * 1024 ∨ params.tCost > 10 ∨ params.parallelism > 16)
    (.crypto "Argon2 参数超出支持范围")
  (C.paramsNew params).mapError fun error => .crypto s!"Argon2 参数无效: {error}"

/-- `CryptoSession::is_slow`. -/
def CryptoSession.isSlow (session : CryptoSession) : Bool :=
  session.params.mCostKib > kdfParamsFast.mCostKib * 2 ||
    session.params.tCost > kdfParamsFast.tCost * 2

/-- `validate_master_password`. -/
def validateMasterPassword (masterPassword : String) : AppResult Unit :=
  refuse (Text.charCount masterPassword < minMasterPasswordLen)
    (.invalidInput s!"主密码长度至少 {minMasterPasswordLen} 个字符")

/-- `derive_key`. -/
def deriveKey (masterPassword : String) (salt : Salt) (params : KdfParams) : AppResult Key := do
  params.argon2 C
  (C.hashPasswordInto params masterPassword salt).mapError fun error =>
    .crypto s!"派生加密密钥失败: {error}"

/-- `binary_header`. -/
def binaryHeader (encrypted : EncryptedVault) (ciphertextLen : ℕ) : List UInt8 :=
  binaryMagic ++ (LittleEndian.bytes 2 vaultFormatVersion ++
    (LittleEndian.bytes 4 encrypted.params.mCostKib.toNat ++
      (LittleEndian.bytes 4 encrypted.params.tCost.toNat ++
        (LittleEndian.bytes 4 encrypted.params.parallelism.toNat ++
          (encrypted.salt.toList ++
            (encrypted.nonce.toList ++ LittleEndian.bytes 8 ciphertextLen))))))

/-- `encode_vault`. -/
def encodeVault (encrypted : EncryptedVault) : List UInt8 :=
  binaryHeader encrypted encrypted.ciphertext.length ++ encrypted.ciphertext

/-- The bytes of `bytes[start..stop]`. -/
def slice (bytes : List UInt8) (start stop : ℕ) : List UInt8 :=
  (bytes.drop start).take (stop - start)

theorem length_slice {bytes : List UInt8} {start stop : ℕ} (hle : start ≤ stop)
    (h : stop ≤ bytes.length) : (slice bytes start stop).length = stop - start := by
  rw [slice, List.length_take, List.length_drop]
  omega

/-- The bytes are too few, or of another version. -/
def Malformed (bytes : List UInt8) : Prop :=
  bytes.length < binaryHeaderLen + 16 ∨
    LittleEndian.value (slice bytes 8 10) ≠ vaultFormatVersion

instance (bytes : List UInt8) : Decidable (Malformed bytes) :=
  inferInstanceAs (Decidable (_ ∨ _))

/-- The number of four bytes. -/
def readU32 (bytes : List UInt8) (start : ℕ) : UInt32 :=
  .ofNat (LittleEndian.value (slice bytes start (start + 4)))

/-- The fields of a file that is not malformed. -/
def readFields (bytes : List UInt8) (h : ¬Malformed bytes) : EncryptedVault where
  params :=
    { mCostKib := readU32 bytes 10, tCost := readU32 bytes 14, parallelism := readU32 bytes 18 }
  salt :=
    ⟨slice bytes 22 38, length_slice (by omega) (by
      have hlen := Nat.le_of_not_lt fun hlt => h (.inl hlt)
      rw [binaryHeaderLen] at hlen
      omega)⟩
  nonce :=
    ⟨slice bytes 38 62, length_slice (by omega) (by
      have hlen := Nat.le_of_not_lt fun hlt => h (.inl hlt)
      rw [binaryHeaderLen] at hlen
      omega)⟩
  ciphertext := bytes.drop binaryHeaderLen

/-- `decode_vault`. -/
def decodeVault (bytes : List UInt8) : AppResult EncryptedVault := do
  refuse (¬binaryMagic <+: bytes) (.crypto "仅支持二进制 v2 工作区，请使用已迁移的数据文件")
  if h : Malformed bytes then .error (.crypto "二进制工作区版本无效或数据不完整")
  else do
    let encrypted := readFields bytes h
    encrypted.params.argon2 C
    refuse (LittleEndian.value (slice bytes 62 70) ≠ (bytes.length - binaryHeaderLen) % 2 ^ 64)
      (.crypto "二进制工作区长度不匹配")
    return encrypted

/-- `encrypt_with_session`. -/
def encryptWithSession (rng : EncryptIo) (session : CryptoSession) (data : VaultData) :
    AppResult EncryptedVault := do
  let plaintext ← (rng.serialize.elim (C.toVec data) .error).mapError AppError.serde
  let encrypted : EncryptedVault :=
    { params := session.params, salt := session.salt, nonce := rng.nonce, ciphertext := [] }
  let header := binaryHeader encrypted (plaintext.length + 16)
  let ciphertext := if rng.encrypt then none else C.encrypt session.key rng.nonce plaintext header
  ciphertext.elim (.error (.crypto "加密本机数据失败")) fun ciphertext =>
    .ok { encrypted with ciphertext := ciphertext }

/-- `encrypt_with_password` and `encrypt_with_password_fast`, which differ in the
parameters. -/
def encryptWithParams (params : KdfParams) (rng : EncryptIo) (masterPassword : String)
    (data : VaultData) : AppResult (EncryptedVault × CryptoSession) := do
  validateMasterPassword masterPassword
  let key ← deriveKey C masterPassword rng.salt params
  let session : CryptoSession := { key := key, salt := rng.salt, params := params }
  let encrypted ← encryptWithSession C rng session data
  return (encrypted, session)

/-- `encrypt_with_password`. -/
def encryptWithPassword : EncryptIo → String → VaultData →
    AppResult (EncryptedVault × CryptoSession) :=
  encryptWithParams C kdfParamsCurrent

/-- `encrypt_with_password_fast`. -/
def encryptWithPasswordFast : EncryptIo → String → VaultData →
    AppResult (EncryptedVault × CryptoSession) :=
  encryptWithParams C kdfParamsFast

/-- `decrypt_with_key`. -/
def decryptWithKey (key : Key) (encrypted : EncryptedVault) : AppResult VaultData :=
  let aad := binaryHeader encrypted encrypted.ciphertext.length
  ((C.decrypt key encrypted.nonce encrypted.ciphertext aad).bind C.fromSlice).elim
    (.error .invalidMasterPassword) .ok

/-- `decrypt_with_password`. -/
def decryptWithPassword (masterPassword : String) (encrypted : EncryptedVault) :
    AppResult (VaultData × CryptoSession) := do
  let key ← deriveKey C masterPassword encrypted.salt encrypted.params
  let data ← decryptWithKey C key encrypted
  return (data, { key := key, salt := encrypted.salt, params := encrypted.params })

/-- The cipher refuses the key for what is encrypted: it finds it changed. -/
def Refuses (key : Key) (encrypted : EncryptedVault) : Prop :=
  C.decrypt key encrypted.nonce encrypted.ciphertext
    (binaryHeader encrypted encrypted.ciphertext.length) = none

variable {encrypted : EncryptedVault} {data : VaultData} {session : CryptoSession}
  {masterPassword : String}

theorem Refuses.decryptWithKey {key : Key} (h : Refuses C key encrypted) :
    decryptWithKey C key encrypted = .error .invalidMasterPassword := by
  rw [Crypto.decryptWithKey, show C.decrypt _ _ _ _ = none from h]
  rfl

/-! ### The format -/

@[simp] theorem length_binaryMagic : binaryMagic.length = 8 := rfl

@[simp] theorem length_binaryHeader (encrypted : EncryptedVault) (ciphertextLen : ℕ) :
    (binaryHeader encrypted ciphertextLen).length = binaryHeaderLen := by
  simp [binaryHeader, binaryHeaderLen]

theorem slice_field {before field after : List UInt8} {start stop : ℕ}
    (hstart : before.length = start) (hstop : start + field.length = stop) :
    slice (before ++ (field ++ after)) start stop = field := by
  rw [slice, ← hstart, List.drop_left, ← hstop, hstart, Nat.add_sub_cancel_left, List.take_left]

/-- A file is its header and the ciphertext, and the header its fields. -/
theorem encodeVault_eq (encrypted : EncryptedVault) :
    encodeVault encrypted =
      binaryMagic ++ (LittleEndian.bytes 2 vaultFormatVersion ++
        (LittleEndian.bytes 4 encrypted.params.mCostKib.toNat ++
          (LittleEndian.bytes 4 encrypted.params.tCost.toNat ++
            (LittleEndian.bytes 4 encrypted.params.parallelism.toNat ++
              (encrypted.salt.toList ++ (encrypted.nonce.toList ++
                (LittleEndian.bytes 8 encrypted.ciphertext.length ++
                  encrypted.ciphertext))))))) := by
  simp only [encodeVault, binaryHeader, List.append_assoc]

/-- The fields behind the magic bytes are where `decode_vault` reads them. -/
theorem slice_encodeVault (encrypted : EncryptedVault) :
    slice (encodeVault encrypted) 8 10 = LittleEndian.bytes 2 vaultFormatVersion ∧
      slice (encodeVault encrypted) 10 14 =
        LittleEndian.bytes 4 encrypted.params.mCostKib.toNat ∧
      slice (encodeVault encrypted) 14 18 = LittleEndian.bytes 4 encrypted.params.tCost.toNat ∧
      slice (encodeVault encrypted) 18 22 =
        LittleEndian.bytes 4 encrypted.params.parallelism.toNat ∧
      slice (encodeVault encrypted) 22 38 = encrypted.salt.toList ∧
      slice (encodeVault encrypted) 38 62 = encrypted.nonce.toList ∧
      slice (encodeVault encrypted) 62 70 =
        LittleEndian.bytes 8 encrypted.ciphertext.length := by
  rw [encodeVault_eq]
  refine ⟨?_, ?_, ?_, ?_, ?_, ?_, ?_⟩
  · exact slice_field (by simp) (by simp)
  · rw [← List.append_assoc binaryMagic]
    exact slice_field (by simp) (by simp)
  · rw [← List.append_assoc binaryMagic, ← List.append_assoc]
    exact slice_field (by simp) (by simp)
  · iterate 3 rw [← List.append_assoc]
    exact slice_field (by simp) (by simp)
  · iterate 4 rw [← List.append_assoc]
    exact slice_field (by simp) (by simp)
  · iterate 5 rw [← List.append_assoc]
    exact slice_field (by simp) (by simp)
  · iterate 6 rw [← List.append_assoc]
    exact slice_field (by simp) (by simp)

theorem not_malformed_encodeVault
    (h : 16 ≤ encrypted.ciphertext.length) : ¬Malformed (encodeVault encrypted) := by
  rintro (hlen | hversion)
  · rw [encodeVault, List.length_append, length_binaryHeader] at hlen
    omega
  · rw [(slice_encodeVault encrypted).1] at hversion
    exact hversion (LittleEndian.value_bytes (by decide))

theorem readU32_eq {bytes : List UInt8} {start : ℕ} {n : UInt32}
    (h : slice bytes start (start + 4) = LittleEndian.bytes 4 n.toNat) :
    readU32 bytes start = n := by
  have hlt : n.toNat < 256 ^ 4 := n.toNat_lt
  rw [readU32, h, LittleEndian.value_bytes hlt, UInt32.ofNat_toNat]

theorem readFields_encodeVault (encrypted : EncryptedVault)
    (h : ¬Malformed (encodeVault encrypted)) :
    readFields (encodeVault encrypted) h = encrypted := by
  obtain ⟨_, hm, ht, hp, hsalt, hnonce, _⟩ := slice_encodeVault encrypted
  have hparams : (readFields (encodeVault encrypted) h).params = encrypted.params := by
    rw [readFields]
    dsimp only
    rw [readU32_eq hm, readU32_eq ht, readU32_eq hp]
  have hcipher : (readFields (encodeVault encrypted) h).ciphertext = encrypted.ciphertext := by
    show (encodeVault encrypted).drop binaryHeaderLen = encrypted.ciphertext
    rw [encodeVault, ← length_binaryHeader encrypted encrypted.ciphertext.length, List.drop_left]
  have hsalt' : (readFields (encodeVault encrypted) h).salt = encrypted.salt := Subtype.ext hsalt
  have hnonce' : (readFields (encodeVault encrypted) h).nonce = encrypted.nonce :=
    Subtype.ext hnonce
  calc readFields (encodeVault encrypted) h
      = ⟨(readFields (encodeVault encrypted) h).params, (readFields (encodeVault encrypted) h).salt,
          (readFields (encodeVault encrypted) h).nonce,
          (readFields (encodeVault encrypted) h).ciphertext⟩ := rfl
    _ = encrypted := by rw [hparams, hcipher, hsalt', hnonce']

variable {C}

/-- **The format is read back**: a file with a whole tag and parameters that are supported
decodes to what was encoded. -/
theorem decodeVault_encodeVault
    (hparams : encrypted.params.argon2 C = .ok ()) (hlen : 16 ≤ encrypted.ciphertext.length) :
    decodeVault C (encodeVault encrypted) = .ok encrypted := by
  have hmagic : binaryMagic <+: encodeVault encrypted := by
    rw [encodeVault_eq]
    exact List.prefix_append _ _
  have hform := not_malformed_encodeVault hlen
  have hvalue : LittleEndian.value (slice (encodeVault encrypted) 62 70) =
      ((encodeVault encrypted).length - binaryHeaderLen) % 2 ^ 64 := by
    obtain ⟨_, _, _, _, _, _, hlength⟩ := slice_encodeVault encrypted
    rw [hlength, LittleEndian.value_bytes_mod, encodeVault, List.length_append,
      length_binaryHeader, Nat.add_sub_cancel_left]
    rfl
  rw [decodeVault, refuse, if_neg (not_not.mpr hmagic), dif_neg hform,
    readFields_encodeVault encrypted hform, refuse, if_neg (not_not.mpr hvalue)]
  show (encrypted.params.argon2 C >>= fun _ => Except.ok encrypted) = _
  rw [hparams]
  rfl

/-! ### The encryption -/

theorem mapError_ok {ε β : Type} {x : Except ε β} {f : ε → AppError} {b : β}
    (h : x.mapError f = .ok b) : x = .ok b := by
  cases x with
  | error e => cases h
  | ok a => rw [Except.ok.inj h]

theorem elim_ok {β γ : Type} {x : Option β} {e : AppError} {f : β → AppResult γ} {c : γ}
    (h : x.elim (.error e) f = .ok c) : ∃ b, x = some b ∧ f b = .ok c := by
  cases x with
  | none => cases h
  | some b => exact ⟨b, rfl, h⟩

/-- What a session encrypts is the data under its key, with the header of the file. -/
theorem encryptWithSession_seal (hC : C.Lawful) {rng : EncryptIo}
    (h : encryptWithSession C rng session data = .ok encrypted) :
    ∃ plaintext, C.toVec data = .ok plaintext ∧
      encrypted.ciphertext.length = plaintext.length + 16 ∧
      C.encrypt session.key encrypted.nonce plaintext
        (binaryHeader encrypted encrypted.ciphertext.length) = some encrypted.ciphertext := by
  obtain ⟨plaintext, hplain, h⟩ := bind_ok h
  obtain ⟨ciphertext, hcipher, h⟩ := elim_ok h
  obtain rfl := Except.ok.inj h
  have hserialized : C.toVec data = .ok plaintext := by
    have hserialize := mapError_ok hplain
    cases hfault : rng.serialize with
    | none => rwa [hfault] at hserialize
    | some text =>
      rw [hfault] at hserialize
      cases hserialize
  have hsealed : C.encrypt session.key rng.nonce plaintext
      (binaryHeader ⟨session.params, session.salt, rng.nonce, []⟩ (plaintext.length + 16)) =
        some ciphertext := by
    split_ifs at hcipher
    exact hcipher
  have hlength := hC.length_encrypt _ _ _ _ _ hsealed
  have haad : binaryHeader ⟨session.params, session.salt, rng.nonce, ciphertext⟩
      ciphertext.length =
        binaryHeader ⟨session.params, session.salt, rng.nonce, []⟩ (plaintext.length + 16) := by
    rw [hlength]
    rfl
  refine ⟨plaintext, hserialized, hlength, ?_⟩
  show C.encrypt session.key rng.nonce plaintext _ = some ciphertext
  rw [haad]
  exact hsealed

/-- What a session encrypts has its salt and parameters. -/
theorem encryptWithSession_header {rng : EncryptIo}
    (h : encryptWithSession C rng session data = .ok encrypted) :
    encrypted.salt = session.salt ∧ encrypted.params = session.params := by
  obtain ⟨plaintext, _, h⟩ := bind_ok h
  obtain ⟨ciphertext, _, h⟩ := elim_ok h
  obtain rfl := Except.ok.inj h
  exact ⟨rfl, rfl⟩

/-- **What a session encrypts, its key decrypts**, and the file has the parameters of the
session and a whole tag. -/
theorem encryptWithSession_decrypts (hC : C.Lawful) {rng : EncryptIo}
    (h : encryptWithSession C rng session data = .ok encrypted) :
    encrypted.params = session.params ∧ 16 ≤ encrypted.ciphertext.length ∧
      decryptWithKey C session.key encrypted = .ok data := by
  obtain ⟨plaintext, hserialized, hlength, hsealed⟩ := encryptWithSession_seal hC h
  refine ⟨(encryptWithSession_header h).2, ?_, ?_⟩
  · rw [hlength]
    exact Nat.le_add_left _ _
  · have hopened := hC.decrypt_encrypt _ _ _ _ _ hsealed
    rw [decryptWithKey, hopened, Option.bind_some, hC.fromSlice_toVec _ _ hserialized]
    rfl

theorem deriveKey_ok {salt : Salt} {params : KdfParams} {key : Key}
    (h : deriveKey C masterPassword salt params = .ok key) : params.argon2 C = .ok () := by
  obtain ⟨_, hparams, _⟩ := bind_ok h
  exact hparams

/-- What is decoded has supported parameters. -/
theorem decodeVault_params {bytes : List UInt8}
    (h : decodeVault C bytes = .ok encrypted) : encrypted.params.argon2 C = .ok () := by
  obtain ⟨_, _, h⟩ := bind_ok h
  split at h
  · cases h
  · obtain ⟨_, hparams, h⟩ := bind_ok h
    obtain ⟨_, _, h⟩ := bind_ok h
    obtain rfl := Except.ok.inj h
    exact hparams

/-- **A password that opens a workspace gives its session**: with the parameters of the
file, which are supported, and a key that decrypts it. -/
theorem decryptWithPassword_ok
    (h : decryptWithPassword C masterPassword encrypted = .ok (data, session)) :
    session.params.argon2 C = .ok () ∧ decryptWithKey C session.key encrypted = .ok data := by
  obtain ⟨key, hkey, h⟩ := bind_ok h
  obtain ⟨data', hdata, h⟩ := bind_ok h
  obtain ⟨rfl, rfl⟩ := Prod.mk.inj (Except.ok.inj h)
  exact ⟨deriveKey_ok hkey, hdata⟩

/-- The key of the session comes from the password, by its own salt and parameters. -/
def KeyOf (C : Crates) (masterPassword : String) (session : CryptoSession) : Prop :=
  deriveKey C masterPassword session.salt session.params = .ok session.key

/-- A session that a password opens has its key from it, and the salt and the parameters of the
file. -/
theorem decryptWithPassword_session
    (h : decryptWithPassword C masterPassword encrypted = .ok (data, session)) :
    KeyOf C masterPassword session ∧ session.salt = encrypted.salt ∧
      session.params = encrypted.params := by
  obtain ⟨key, hkey, h⟩ := bind_ok h
  obtain ⟨data', _, h⟩ := bind_ok h
  obtain ⟨rfl, rfl⟩ := Prod.mk.inj (Except.ok.inj h)
  exact ⟨hkey, rfl, rfl⟩

/-- A new session has its key from the password, and encrypts what it was made for. -/
theorem encryptWithParams_session {params : KdfParams} {rng : EncryptIo}
      {encrypted : EncryptedVault × CryptoSession}
    (h : encryptWithParams C params rng masterPassword data = .ok encrypted) :
    KeyOf C masterPassword encrypted.2 ∧ encrypted.2.params = params ∧
      encrypted.2.salt = rng.salt ∧
        encryptWithSession C rng encrypted.2 data = .ok encrypted.1 := by
  obtain ⟨_, _, h⟩ := bind_ok h
  obtain ⟨key, hkey, h⟩ := bind_ok h
  obtain ⟨encrypted', hencrypted, h⟩ := bind_ok h
  obtain rfl := Except.ok.inj h
  exact ⟨hkey, rfl, rfl, hencrypted⟩

/-- The password of the key opens a file with the header of the session. -/
theorem decryptWithPassword_of_key (hkey : KeyOf C masterPassword session)
    (hsalt : encrypted.salt = session.salt) (hparams : encrypted.params = session.params)
    (hdata : decryptWithKey C session.key encrypted = .ok data) :
    decryptWithPassword C masterPassword encrypted = .ok (data, session) := by
  have hderive : deriveKey C masterPassword encrypted.salt encrypted.params = .ok session.key := by
    rw [hsalt, hparams]
    exact hkey
  rw [decryptWithPassword, hderive]
  show (decryptWithKey C session.key encrypted >>= _) = _
  rw [hdata]
  show Except.ok (data, CryptoSession.mk session.key encrypted.salt encrypted.params) = _
  rw [hsalt, hparams]

/-! ### What a file holds -/

/-- A file that decodes, and decrypts under the key of the session to the data. -/
def FileHolds (C : Crates) (session : CryptoSession) (data : VaultData)
    (content : Option (List UInt8)) : Prop :=
  ∃ bytes encrypted, content = some bytes ∧ decodeVault C bytes = .ok encrypted ∧
    decryptWithKey C session.key encrypted = .ok data

/-- What was encrypted under supported parameters, a file holds. -/
theorem fileHolds_encodeVault (hsession : session.params.argon2 C = .ok ())
    (hparams : encrypted.params = session.params) (hlen : 16 ≤ encrypted.ciphertext.length)
    (hdata : decryptWithKey C session.key encrypted = .ok data) :
    FileHolds C session data (some (encodeVault encrypted)) := by
  refine ⟨_, encrypted, rfl, decodeVault_encodeVault ?_ hlen, hdata⟩
  rw [hparams]
  exact hsession

end Crypto
end HelmSsh
