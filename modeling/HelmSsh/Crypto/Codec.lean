/-
# The workspace file is read as it is written

The two sides of the format in `src-tauri/src/crypto.rs`, `binary_header` with `encode_vault` and
`decode_vault`, agree on every offset and limit: what is encoded is decoded again, and a file that
decodes is the encoding of what it decodes to (`encodeVault_of_decodeVault`).  So the header that
`decrypt_with_key` encodes again, for the cipher to authenticate, is the one that was read
(`binaryHeader_of_decodeVault`).

`decode_vault` indexes into its input.  `decodeVaultChecked` does so with slices that panic when
they are out of range, in the order of the source, and never panics (`decodeVaultChecked_eq`).

`vaultCodec_exact` is the three together.
-/

import HelmSsh.Crypto

namespace HelmSsh
namespace Crypto

open Config

/-! ### Slices that panic -/

/-- `bytes[start..stop]`, which panics out of range. -/
def sliceChecked (bytes : List UInt8) (start stop : ℕ) : Option (List UInt8) :=
  if start ≤ stop ∧ stop ≤ bytes.length then some (slice bytes start stop) else none

/-- `bytes[start..stop].try_into().unwrap()`, to an array of a length. -/
def arrayChecked (n : ℕ) (bytes : List UInt8) (start stop : ℕ) : Option (List.Vector UInt8 n) :=
  (sliceChecked bytes start stop).bind fun content =>
    if h : content.length = n then some ⟨content, h⟩ else none

/-- `read_u32` of `decode_vault`. -/
def readU32Checked (bytes : List UInt8) (start : ℕ) : Option UInt32 :=
  (arrayChecked 4 bytes start (start + 4)).map fun content =>
    .ofNat (LittleEndian.value content.toList)

/-- `bytes.len() - BINARY_HEADER_LEN`, which panics below zero. -/
def contentLenChecked (bytes : List UInt8) : Option ℕ :=
  if binaryHeaderLen ≤ bytes.length then some (bytes.length - binaryHeaderLen) else none

/-- The second check of `decode_vault`, where the version is read only when there are enough
bytes. -/
def malformedChecked (bytes : List UInt8) : Option Bool :=
  if bytes.length < binaryHeaderLen + 16 then some true
  else (arrayChecked 2 bytes 8 10).map fun version =>
    decide (LittleEndian.value version.toList ≠ vaultFormatVersion)

/-- The `params` of `decode_vault`. -/
def paramsChecked (bytes : List UInt8) : Option KdfParams := do
  let mCostKib ← readU32Checked bytes 10
  let tCost ← readU32Checked bytes 14
  let parallelism ← readU32Checked bytes 18
  return { mCostKib := mCostKib, tCost := tCost, parallelism := parallelism }

/-- What `decode_vault` compares and reads once the parameters are accepted. -/
def fieldsChecked (bytes : List UInt8) (params : KdfParams) :
    Option (AppResult EncryptedVault) := do
  let length ← arrayChecked 8 bytes 62 70
  let contentLen ← contentLenChecked bytes
  if LittleEndian.value length.toList ≠ contentLen % 2 ^ 64 then
    return .error (.crypto "二进制工作区长度不匹配")
  else do
    let salt ← arrayChecked 16 bytes 22 38
    let nonce ← arrayChecked 24 bytes 38 62
    let ciphertext ← sliceChecked bytes binaryHeaderLen bytes.length
    return .ok { params := params, salt := salt, nonce := nonce, ciphertext := ciphertext }

variable (C : Crates)

/-- `decode_vault`, or none when it panics. -/
def decodeVaultChecked (bytes : List UInt8) : Option (AppResult EncryptedVault) :=
  if ¬binaryMagic <+: bytes then
    some (.error (.crypto "仅支持二进制 v2 工作区，请使用已迁移的数据文件"))
  else
    (malformedChecked bytes).bind fun malformed =>
      if malformed then some (.error (.crypto "二进制工作区版本无效或数据不完整"))
      else (paramsChecked bytes).bind fun params =>
        match params.argon2 C with
        | .error error => some (.error error)
        | .ok () => fieldsChecked bytes params

variable {bytes : List UInt8}

theorem arrayChecked_eq {n : ℕ} {start stop : ℕ} (hle : start ≤ stop)
    (hstop : stop ≤ bytes.length) (hn : stop - start = n) :
    arrayChecked n bytes start stop =
      some ⟨slice bytes start stop, (length_slice hle hstop).trans hn⟩ := by
  have hlength := (length_slice hle hstop).trans hn
  rw [arrayChecked, sliceChecked, if_pos ⟨hle, hstop⟩, Option.bind_some, dif_pos hlength]

theorem readU32Checked_eq {start : ℕ} (hstop : start + 4 ≤ bytes.length) :
    readU32Checked bytes start = some (readU32 bytes start) := by
  rw [readU32Checked, arrayChecked_eq (Nat.le_add_right _ _) hstop (Nat.add_sub_cancel_left _ _)]
  rfl

theorem sliceChecked_rest (hle : binaryHeaderLen ≤ bytes.length) :
    sliceChecked bytes binaryHeaderLen bytes.length = some (bytes.drop binaryHeaderLen) := by
  rw [sliceChecked, if_pos ⟨hle, Nat.le_refl _⟩, slice, ← List.length_drop, List.take_length]

theorem headerLen_le_of_not_malformed (h : ¬Malformed bytes) :
    70 ≤ bytes.length := by
  have hlen := Nat.le_of_not_lt fun hlt => h (.inl hlt)
  rw [binaryHeaderLen] at hlen
  omega

/-- The version is read only from a file with a whole header. -/
theorem malformedChecked_eq (bytes : List UInt8) :
    malformedChecked bytes = some (decide (Malformed bytes)) := by
  by_cases hshort : bytes.length < binaryHeaderLen + 16
  · have hform : Malformed bytes := .inl hshort
    rw [malformedChecked, if_pos hshort, decide_eq_true hform]
  · have hstop : 10 ≤ bytes.length := by
      rw [binaryHeaderLen] at hshort
      omega
    have hform : Malformed bytes ↔ LittleEndian.value (slice bytes 8 10) ≠ vaultFormatVersion :=
      or_iff_right hshort
    rw [malformedChecked, if_neg hshort,
      arrayChecked_eq (show 8 ≤ 10 by omega) hstop (Nat.add_sub_cancel_left 8 2),
      decide_eq_decide.mpr hform]
    rfl

theorem paramsChecked_eq (h : ¬Malformed bytes) :
    paramsChecked bytes = some (readFields bytes h).params := by
  have hlen := headerLen_le_of_not_malformed h
  rw [paramsChecked, readU32Checked_eq (by omega), readU32Checked_eq (by omega),
    readU32Checked_eq (by omega)]
  rfl

/-- The other fields are inside of a file that is not malformed. -/
theorem fieldsChecked_eq (h : ¬Malformed bytes) :
    fieldsChecked bytes (readFields bytes h).params =
      some (if LittleEndian.value (slice bytes 62 70) ≠
          (bytes.length - binaryHeaderLen) % 2 ^ 64 then
        .error (.crypto "二进制工作区长度不匹配")
      else .ok (readFields bytes h)) := by
  have hlen := headerLen_le_of_not_malformed h
  have hheader : binaryHeaderLen ≤ bytes.length := hlen
  have hcontent : contentLenChecked bytes = some (bytes.length - binaryHeaderLen) := by
    rw [contentLenChecked, if_pos hheader]
  have hlength := arrayChecked_eq (show 62 ≤ 70 by omega) hlen (Nat.add_sub_cancel_left 62 8)
  have hsalt := arrayChecked_eq (show 22 ≤ 38 by omega) (show 38 ≤ bytes.length by omega)
    (Nat.add_sub_cancel_left 22 16)
  have hnonce := arrayChecked_eq (show 38 ≤ 62 by omega) (show 62 ≤ bytes.length by omega)
    (Nat.add_sub_cancel_left 38 24)
  rw [fieldsChecked, hlength, hcontent, hsalt, hnonce, sliceChecked_rest hheader]
  show (if LittleEndian.value (slice bytes 62 70) ≠ (bytes.length - binaryHeaderLen) % 2 ^ 64 then
    _ else _) = _
  split_ifs
  · rfl
  · rfl

/-- **`decode_vault` never reads out of range**, on any bytes. -/
theorem decodeVaultChecked_eq (bytes : List UInt8) :
    decodeVaultChecked C bytes = some (decodeVault C bytes) := by
  rw [decodeVaultChecked, decodeVault, refuse, malformedChecked_eq]
  by_cases hmagic : binaryMagic <+: bytes
  · rw [if_neg (not_not.mpr hmagic), if_neg (not_not.mpr hmagic), Option.bind_some]
    by_cases hform : Malformed bytes
    · rw [dif_pos hform, if_pos (decide_eq_true hform)]
      rfl
    · rw [dif_neg hform, if_neg (fun h => hform (of_decide_eq_true h)), paramsChecked_eq hform,
        Option.bind_some]
      show _ = some ((readFields bytes hform).params.argon2 C >>= _)
      rcases hparams : (readFields bytes hform).params.argon2 C with error | ⟨⟩
      · rfl
      · show fieldsChecked bytes (readFields bytes hform).params = _
        rw [fieldsChecked_eq hform, refuse]
        split_ifs
        · rfl
        · rfl
  · rw [if_pos hmagic, if_pos hmagic]
    rfl

/-! ### What decodes is written back -/

theorem slice_append_drop {start stop : ℕ} (hle : start ≤ stop) :
    slice bytes start stop ++ bytes.drop stop = bytes.drop start := by
  have hstop : stop = start + (stop - start) := by omega
  rw [slice, hstop, ← List.drop_drop, Nat.add_sub_cancel_left, List.take_append_drop]

/-- The bytes of a number that was read are those of the file. -/
theorem bytes_readU32 {start : ℕ} (hstop : start + 4 ≤ bytes.length) :
    LittleEndian.bytes 4 (readU32 bytes start).toNat = slice bytes start (start + 4) := by
  have hlength : (slice bytes start (start + 4)).length = 4 := by
    rw [length_slice (Nat.le_add_right _ _) hstop, Nat.add_sub_cancel_left]
  have hlt := LittleEndian.value_lt (slice bytes start (start + 4))
  rw [hlength] at hlt
  have hvalue : (readU32 bytes start).toNat = LittleEndian.value (slice bytes start (start + 4)) :=
    UInt32.toNat_ofNat_of_lt' hlt
  have hbytes := LittleEndian.bytes_value (slice bytes start (start + 4))
  rw [hlength] at hbytes
  rw [hvalue, hbytes]

variable {C}

/-- What `decode_vault` checked in a file that decodes. -/
theorem decodeVault_ok {encrypted : EncryptedVault} (h : decodeVault C bytes = .ok encrypted) :
    binaryMagic <+: bytes ∧ ∃ hform : ¬Malformed bytes, encrypted = readFields bytes hform ∧
      encrypted.params.argon2 C = .ok () ∧
        LittleEndian.value (slice bytes 62 70) = (bytes.length - binaryHeaderLen) % 2 ^ 64 := by
  obtain ⟨_, hmagic, h⟩ := bind_ok h
  by_cases hform : Malformed bytes
  · rw [dif_pos hform] at h
    cases h
  · rw [dif_neg hform] at h
    obtain ⟨⟨⟩, hparams, h⟩ := bind_ok h
    obtain ⟨_, hlength, h⟩ := bind_ok h
    obtain rfl := Except.ok.inj h
    exact ⟨not_not.mp (refuse_ok hmagic), hform, rfl, hparams, not_not.mp (refuse_ok hlength)⟩

/-- **A file that decodes is the encoding of what it decodes to.** -/
theorem encodeVault_of_decodeVault {encrypted : EncryptedVault}
    (h : decodeVault C bytes = .ok encrypted) : encodeVault encrypted = bytes := by
  obtain ⟨hmagic, hform, rfl, _, hlength⟩ := decodeVault_ok h
  have hlen := headerLen_le_of_not_malformed hform
  have hversion : LittleEndian.bytes 2 vaultFormatVersion = slice bytes 8 10 := by
    have hvalue : LittleEndian.value (slice bytes 8 10) = vaultFormatVersion :=
      not_not.mp fun hne => hform (.inr hne)
    refine LittleEndian.eq_of_value ?_ ?_
    · rw [LittleEndian.length_bytes, length_slice (by omega) (by omega)]
    · rw [hvalue]
      exact LittleEndian.value_bytes (by decide)
  have hcontent : LittleEndian.bytes 8 (readFields bytes hform).ciphertext.length =
      slice bytes 62 70 := by
    refine LittleEndian.eq_of_value ?_ ?_
    · rw [LittleEndian.length_bytes, length_slice (by omega) hlen]
    · rw [LittleEndian.value_bytes_mod, hlength]
      show (bytes.drop binaryHeaderLen).length % 256 ^ 8 = _
      rw [List.length_drop]
      rfl
  have hm : LittleEndian.bytes 4 (readFields bytes hform).params.mCostKib.toNat =
      slice bytes 10 14 := bytes_readU32 (by omega)
  have ht : LittleEndian.bytes 4 (readFields bytes hform).params.tCost.toNat =
      slice bytes 14 18 := bytes_readU32 (by omega)
  have hp : LittleEndian.bytes 4 (readFields bytes hform).params.parallelism.toNat =
      slice bytes 18 22 := bytes_readU32 (by omega)
  have hsalt : (readFields bytes hform).salt.toList = slice bytes 22 38 := rfl
  have hnonce : (readFields bytes hform).nonce.toList = slice bytes 38 62 := rfl
  have hcipher : (readFields bytes hform).ciphertext = bytes.drop 70 := rfl
  obtain ⟨rest, hrest⟩ := hmagic
  have hbehind : bytes.drop 8 = rest := by rw [← hrest, ← length_binaryMagic, List.drop_left]
  -- Each field goes on with the file behind it, from the last one on.
  rw [encodeVault_eq, hversion, hm, ht, hp, hsalt, hnonce, hcontent, hcipher,
    slice_append_drop (by omega), slice_append_drop (by omega), slice_append_drop (by omega),
    slice_append_drop (by omega), slice_append_drop (by omega), slice_append_drop (by omega),
    slice_append_drop (by omega), hbehind, hrest]

/-- **The header that is encoded again is the one that was read.** -/
theorem binaryHeader_of_decodeVault {encrypted : EncryptedVault}
    (h : decodeVault C bytes = .ok encrypted) :
    binaryHeader encrypted encrypted.ciphertext.length = bytes.take binaryHeaderLen := by
  have hbytes := encodeVault_of_decodeVault h
  rw [← hbytes, encodeVault, ← length_binaryHeader encrypted encrypted.ciphertext.length,
    List.take_left]

/-- What decodes is what was read of a file with a whole tag. -/
theorem ciphertext_of_decodeVault {encrypted : EncryptedVault}
    (h : decodeVault C bytes = .ok encrypted) :
    encrypted.ciphertext = bytes.drop binaryHeaderLen ∧ 16 ≤ encrypted.ciphertext.length := by
  obtain ⟨_, hform, rfl, _, _⟩ := decodeVault_ok h
  have hlen := Nat.le_of_not_lt fun hlt => hform (.inl hlt)
  refine ⟨rfl, ?_⟩
  show 16 ≤ (bytes.drop binaryHeaderLen).length
  rw [List.length_drop]
  omega

variable (C)

/-- **The codec of a workspace file is exact.**  What has parameters that are accepted and a whole
tag is read back; a file that decodes is written back, so the cipher authenticates its own first 70
bytes, whatever key decrypts it; and no bytes make `decode_vault` read out of range. -/
theorem vaultCodec_exact :
    (∀ encrypted : EncryptedVault, encrypted.params.argon2 C = .ok () →
      16 ≤ encrypted.ciphertext.length → decodeVault C (encodeVault encrypted) = .ok encrypted) ∧
    (∀ bytes encrypted, decodeVault C bytes = .ok encrypted →
      encodeVault encrypted = bytes ∧
        ∀ key, decryptWithKey C key encrypted =
          ((C.decrypt key encrypted.nonce (bytes.drop binaryHeaderLen)
            (bytes.take binaryHeaderLen)).bind C.fromSlice).elim
              (.error .invalidMasterPassword) .ok) ∧
    (∀ bytes, decodeVaultChecked C bytes = some (decodeVault C bytes)) := by
  refine ⟨fun _ hparams hlen => decodeVault_encodeVault hparams hlen, ?_,
    decodeVaultChecked_eq C⟩
  intro bytes encrypted h
  refine ⟨encodeVault_of_decodeVault h, fun key => ?_⟩
  rw [decryptWithKey, binaryHeader_of_decodeVault h, (ciphertext_of_decodeVault h).1]

end Crypto
end HelmSsh
