import Kaspad.Lib.LittleEndian
import Kaspad.TransactionValidator.InIsolation

/-! # The payload of a coinbase transaction

`payload.go` of `domain/consensus/processes/coinbasemanager`: blue score, subsidy, version and length of the
script public key, the script and extra data.
-/

namespace Kaspad
open Lib List LittleEndian

structure DomainCoinbaseData where
  scriptPublicKey : ScriptPublicKey
  extraData : List UInt8
  deriving DecidableEq, Repr

/-- The last three are the run-time errors of index expressions. -/
inductive CoinbaseError
  | rule (error : RuleError)
  | notFound (blockHash : DomainHash)
  /-- `blockAcceptanceData.BlockHash is expected to be %s but got %s` -/
  | unexpectedBlockHash (expected got : DomainHash)
  | nilDereference
  | indexOutOfRange
  | sliceBounds (low high : ℕ)
  deriving DecidableEq, Repr

/-- `minLength`: 8 bytes of blue score, 8 of subsidy, 2 of version, 1 of length. -/
def coinbasePayloadMinLength : ℕ := 8 + 8 + 2 + 1

def serializeCoinbasePayload (coinbasePayloadScriptPublicKeyMaxLength blueScore : ℕ)
    (coinbaseData : DomainCoinbaseData) (subsidy : ℕ) : Except CoinbaseError (List UInt8) :=
  let script := coinbaseData.scriptPublicKey.script
  if script.length > coinbasePayloadScriptPublicKeyMaxLength then
    .error (.rule (.rule .badCoinbasePayloadLen
      s!"coinbase's payload script public key is longer than the max allowed length of {coinbasePayloadScriptPublicKeyMaxLength}"))
  else
    .ok (LittleEndian.encode 8 blueScore ++ LittleEndian.encode 8 subsidy ++
      LittleEndian.encode 2 coinbaseData.scriptPublicKey.version ++ [UInt8.ofNat script.length] ++ script ++
      coinbaseData.extraData)

/-- The upper bound of the script is computed in 8 bits. -/
def extractCoinbaseDataBlueScoreAndSubsidy (coinbasePayloadScriptPublicKeyMaxLength : ℕ) (payload : List UInt8) :
    Except CoinbaseError (ℕ × DomainCoinbaseData × ℕ) :=
  if payload.length < coinbasePayloadMinLength then
    .error (.rule (.rule .badCoinbasePayloadLen
      s!"coinbase payload is less than the minimum length of {coinbasePayloadMinLength}"))
  else
    let blueScore := LittleEndian.decode (payload.take 8)
    let subsidy := LittleEndian.decode ((payload.drop 8).take 8)
    let scriptPubKeyVersion := LittleEndian.decode ((payload.drop 16).take 2)
    let scriptPubKeyScriptLength := LittleEndian.decode ((payload.drop 18).take 1)
    if scriptPubKeyScriptLength > coinbasePayloadScriptPublicKeyMaxLength then
      .error (.rule (.rule .badCoinbasePayloadLen
        s!"coinbase's payload script public key is longer than the max allowed length of {coinbasePayloadScriptPublicKeyMaxLength}"))
    else if payload.length < coinbasePayloadMinLength + scriptPubKeyScriptLength then
      .error (.rule (.rule .badCoinbasePayloadLen
        s!"coinbase payload doesn't have enough bytes to contain a script public key of {scriptPubKeyScriptLength} bytes"))
    else
      let scriptEnd := (coinbasePayloadMinLength + scriptPubKeyScriptLength) % 2 ^ 8
      if scriptEnd < coinbasePayloadMinLength then .error (.sliceBounds coinbasePayloadMinLength scriptEnd)
      else
        let script := (payload.take scriptEnd).drop coinbasePayloadMinLength
        .ok (blueScore, ⟨⟨script, scriptPubKeyVersion⟩, payload.drop scriptEnd⟩, subsidy)

def writeAt (payload : List UInt8) (offset : ℕ) (bytes : List UInt8) : List UInt8 :=
  payload.take offset ++ bytes ++ payload.drop (offset + bytes.length)

def modifyCoinbasePayload (payload : List UInt8) (coinbaseData : DomainCoinbaseData)
    (coinbasePayloadScriptPublicKeyMaxLength : ℕ) : Except CoinbaseError (List UInt8) :=
  let script := coinbaseData.scriptPublicKey.script
  let newPayloadLen := coinbasePayloadMinLength + script.length + coinbaseData.extraData.length
  if script.length > coinbasePayloadScriptPublicKeyMaxLength then
    .error (.rule (.rule .badCoinbasePayloadLen
      s!"coinbase's payload script public key is longer than the max allowed length of {coinbasePayloadScriptPublicKeyMaxLength}"))
  else if payload.length ≠ newPayloadLen ∧ payload.length < 16 then .error (.sliceBounds 0 16)
  else
    let payload := if payload.length ≠ newPayloadLen then
      payload.take 16 ++ List.replicate (newPayloadLen - 16) 0 else payload
    let payload := writeAt payload 16 (LittleEndian.encode 2 coinbaseData.scriptPublicKey.version)
    let payload := writeAt payload 18 [UInt8.ofNat script.length]
    let payload := writeAt payload 19 script
    .ok (writeAt payload (19 + script.length) coinbaseData.extraData)

variable {payload : List UInt8}

theorem blueScore_of_serialize {maxLength blueScore subsidy : ℕ} {data : DomainCoinbaseData}
    (hscore : blueScore < 2 ^ 64) (h : serializeCoinbasePayload maxLength blueScore data subsidy = .ok payload) :
    LittleEndian.decode (payload.take 8) = blueScore := by
  simp only [serializeCoinbasePayload] at h
  split_ifs at h
  cases h
  simp only [append_assoc]
  rw [take_append_of_le_length (by simp), take_of_length_le (by simp)]
  exact decode_encode_of_lt hscore

theorem writeAt_writeAt {a b : List UInt8} {offset next : ℕ} (h : offset ≤ payload.length)
    (hnext : next = offset + a.length) :
    writeAt (writeAt payload offset a) next b = writeAt payload offset (a ++ b) := by
  have hlength : (payload.take offset ++ a).length = next := by simp [h, hnext]
  unfold writeAt
  rw [take_left' hlength, ← hnext, ← drop_drop, drop_left' hlength, drop_drop, length_append,
    hnext, Nat.add_assoc, append_assoc (payload.take offset)]

def DomainCoinbaseData.bytes (data : DomainCoinbaseData) : List UInt8 :=
  LittleEndian.encode 2 data.scriptPublicKey.version ++
    ([UInt8.ofNat data.scriptPublicKey.script.length] ++ (data.scriptPublicKey.script ++ data.extraData))

section
variable {maxLength blueScore subsidy : ℕ} {data : DomainCoinbaseData}
  (h : data.scriptPublicKey.script.length ≤ maxLength)

include h

theorem serializeCoinbasePayload_eq : serializeCoinbasePayload maxLength blueScore data subsidy =
      .ok (LittleEndian.encode 8 blueScore ++ LittleEndian.encode 8 subsidy ++ data.bytes) := by
  simp [serializeCoinbasePayload, Nat.not_lt.mpr h, DomainCoinbaseData.bytes]

theorem modifyCoinbasePayload_eq {payload : List UInt8} (hpayload : 16 ≤ payload.length) :
    modifyCoinbasePayload payload data maxLength = .ok (payload.take 16 ++ data.bytes) := by
  -- The four writes follow one another and end where the payload ends.
  have hwrites : ∀ l : List UInt8, l.length =
      coinbasePayloadMinLength + data.scriptPublicKey.script.length + data.extraData.length →
      writeAt (writeAt (writeAt (writeAt l 16 (LittleEndian.encode 2 data.scriptPublicKey.version)) 18
        [UInt8.ofNat data.scriptPublicKey.script.length]) 19 data.scriptPublicKey.script)
          (19 + data.scriptPublicKey.script.length) data.extraData = l.take 16 ++ data.bytes := by
    intro l hl
    have hle : 16 ≤ l.length := by simp only [coinbasePayloadMinLength] at hl; omega
    rw [writeAt_writeAt hle (by simp), writeAt_writeAt hle (by simp), writeAt_writeAt hle (by simp; omega), writeAt,
      drop_of_length_le (by simp [coinbasePayloadMinLength] at hl ⊢; omega)]
    simp [DomainCoinbaseData.bytes]
  unfold modifyCoinbasePayload
  dsimp only
  rw [if_neg (by omega), if_neg (by omega)]
  congr 1
  split_ifs with hlength
  · rw [hwrites _ (by simp [coinbasePayloadMinLength, hpayload]; omega), take_left' (by simp [hpayload])]
  · exact hwrites _ (not_not.mp hlength)

omit h

theorem extractCoinbaseData_eq (hmax : maxLength ≤ 236) (hscore : blueScore < 2 ^ 64) (hsubsidy : subsidy < 2 ^ 64)
    (hversion : data.scriptPublicKey.version < 2 ^ 16) (hscript : data.scriptPublicKey.script.length ≤ maxLength) :
    extractCoinbaseDataBlueScoreAndSubsidy maxLength
      (LittleEndian.encode 8 blueScore ++ LittleEndian.encode 8 subsidy ++ data.bytes) = .ok (blueScore, data, subsidy) := by
  generalize hpayload : LittleEndian.encode 8 blueScore ++ LittleEndian.encode 8 subsidy ++ data.bytes = payload
  have hlength : payload.length = 19 + (data.scriptPublicKey.script.length + data.extraData.length) := by
    simp [← hpayload, DomainCoinbaseData.bytes]
    omega
  have h8 : payload.take 8 = LittleEndian.encode 8 blueScore := by
    rw [← hpayload, append_assoc, take_left' (by simp)]
  have hd8 : payload.drop 8 = LittleEndian.encode 8 subsidy ++ data.bytes := by
    rw [← hpayload, append_assoc, drop_left' (by simp)]
  have hd16 : payload.drop 16 = data.bytes := by rw [← hpayload, drop_left' (by simp)]
  have hd18 : payload.drop 18 = [UInt8.ofNat data.scriptPublicKey.script.length] ++
      (data.scriptPublicKey.script ++ data.extraData) := by
    rw [← drop_drop (i := 2) (j := 16), hd16, DomainCoinbaseData.bytes, drop_left' (by simp)]
  have hd19 : payload.drop 19 = data.scriptPublicKey.script ++ data.extraData := by
    rw [← drop_drop (i := 1) (j := 18), hd18, drop_left' (by simp)]
  have hlow : LittleEndian.decode [UInt8.ofNat data.scriptPublicKey.script.length] =
      data.scriptPublicKey.script.length := by simp [LittleEndian.decode]; omega
  simp only [extractCoinbaseDataBlueScoreAndSubsidy, coinbasePayloadMinLength, h8, hd8, hd16, hd18,
    DomainCoinbaseData.bytes, take_left' (length_encode _ _), take_left' (length_singleton)]
  rw [hlow, decode_encode_of_lt (show blueScore < 256 ^ 8 from hscore),
    decode_encode_of_lt (show subsidy < 256 ^ 8 from hsubsidy),
    decode_encode_of_lt (show data.scriptPublicKey.version < 256 ^ 2 from hversion), if_neg (by omega), if_neg (by omega), if_neg (by omega),
    Nat.mod_eq_of_lt (by omega), if_neg (by omega), drop_take, hd19, ← drop_drop, hd19,
    Nat.add_sub_cancel_left, take_left, drop_left]

end

/-- Payloads are read as they were written; reading any bytes returns a value or a rule error. -/
theorem coinbasePayload_inverts (maxLength blueScore subsidy : ℕ) (data : DomainCoinbaseData)
    (hmax : maxLength ≤ 236) (hscore : blueScore < 2 ^ 64) (hsubsidy : subsidy < 2 ^ 64)
    (hversion : data.scriptPublicKey.version < 2 ^ 16) (hscript : data.scriptPublicKey.script.length ≤ maxLength) :
    (∃ payload, serializeCoinbasePayload maxLength blueScore data subsidy = .ok payload ∧
      extractCoinbaseDataBlueScoreAndSubsidy maxLength payload = .ok (blueScore, data, subsidy) ∧
      ∀ data' : DomainCoinbaseData, data'.scriptPublicKey.script.length ≤ maxLength →
        modifyCoinbasePayload payload data' maxLength = serializeCoinbasePayload maxLength blueScore data' subsidy) ∧
      ∀ payload e, extractCoinbaseDataBlueScoreAndSubsidy maxLength payload = .error e →
        ∃ message, e = .rule (.rule .badCoinbasePayloadLen message) := by
  refine ⟨⟨_, serializeCoinbasePayload_eq hscript, ?_, fun data' hscript' => ?_⟩, fun payload e h => ?_⟩
  · exact extractCoinbaseData_eq hmax hscore hsubsidy hversion hscript
  · rw [modifyCoinbasePayload_eq hscript' (by simp; omega), serializeCoinbasePayload_eq hscript',
      take_left' (by simp)]
  unfold extractCoinbaseDataBlueScoreAndSubsidy at h
  dsimp only at h
  split_ifs at h with hshort hlong hmissing hwrap
  · exact ⟨_, (Except.error.inj h).symm⟩
  · exact ⟨_, (Except.error.inj h).symm⟩
  · exact ⟨_, (Except.error.inj h).symm⟩
  simp only [coinbasePayloadMinLength] at hwrap
  omega

theorem coinbasePayload_inverts_sample :
    ∃ payload, serializeCoinbasePayload 150 7 ⟨⟨[32, 172], 0⟩, [1]⟩ 5 = .ok payload ∧
      extractCoinbaseDataBlueScoreAndSubsidy 150 payload = .ok (7, ⟨⟨[32, 172], 0⟩, [1]⟩, 5) := by
  obtain ⟨payload, hpayload, hextract, -⟩ := (coinbasePayload_inverts 150 7 5 ⟨⟨[32, 172], 0⟩, [1]⟩ (by decide)
    (by decide) (by decide) (by decide) (by decide)).1
  exact ⟨payload, hpayload, hextract⟩

end Kaspad
