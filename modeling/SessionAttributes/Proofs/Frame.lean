import SessionAttributes.Proofs.Crc32
import SessionAttributes.Proofs.Json.RoundTrip

namespace SessionAttributes.Frame

open Polynomial

/-- A byte string after some of its bytes changed, all of them among the four from `start` on. -/
structure Spoilt (start : Nat) (bytes rotten : Bytes) : Prop where
  length : rotten.length = bytes.length
  changed : rotten ≠ bytes
  within : ∀ i, rotten[i]? ≠ bytes[i]? → start ≤ i ∧ i < start + 4

variable {start : Nat} {bytes rotten payload : Bytes}

theorem Spoilt.getElem? (h : Spoilt start bytes rotten) {i : Nat} (hi : i < start ∨ start + 4 ≤ i) :
    rotten[i]? = bytes[i]? := by
  by_contra hne
  have hwithin := h.within i hne
  omega

theorem Spoilt.take (h : Spoilt start bytes rotten) {count : Nat} (hcount : count ≤ start) :
    rotten.take count = bytes.take count := by
  refine List.ext_getElem? fun i => ?_
  simp only [List.getElem?_take]
  split_ifs with hi
  · exact h.getElem? (.inl (hi.trans_le hcount))
  · rfl

theorem Spoilt.drop (h : Spoilt start bytes rotten) {count : Nat} (hcount : start + 4 ≤ count) :
    rotten.drop count = bytes.drop count := by
  refine List.ext_getElem? fun i => ?_
  simp only [List.getElem?_drop]
  exact h.getElem? (.inr (hcount.trans (Nat.le_add_right count i)))

/-- The bytes before, those that may have changed and those after. -/
theorem window (start : Nat) (bytes : Bytes) :
    bytes.take start ++ (bytes.drop start).take 4 ++ bytes.drop (start + 4) = bytes := by
  rw [List.append_assoc, ← List.drop_drop, List.take_append_drop, List.take_append_drop]

/-- The checksum tells a spoilt byte string from the one it was. -/
theorem Spoilt.checksum_ne (h : Spoilt start bytes rotten) :
    Crc32.checksum bytes ≠ Crc32.checksum rotten := by
  have hlength : ((bytes.drop start).take 4).length = ((rotten.drop start).take 4).length := by
    simp only [List.length_take, List.length_drop, h.length]
  have hne : (bytes.drop start).take 4 ≠ (rotten.drop start).take 4 := by
    intro hsame
    apply h.changed
    rw [← window start rotten, h.take le_rfl, h.drop le_rfl, ← hsame, window]
  have hchecksum := Crc32.checksum_ne (bytes.take start) (bytes.drop (start + 4)) hlength
    (List.length_take_le _ _) hne
  rwa [window, ← h.take le_rfl, ← h.drop le_rfl, window] at hchecksum

/-- A frame with another checksum than its payload has is refused before the payload is read. -/
theorem readWith_append {α : Type} (read : Bytes → Except Json.Refusal α) {head payload : Bytes}
    (hhead : head.length = checksumLength)
    (h : UInt32.ofNat (Bytes.littleEndian head) ≠ Crc32.checksum payload) :
    readWith read (head ++ payload) = .error (.decode (Fault.checksum
      (UInt32.ofNat (Bytes.littleEndian head)) (Crc32.checksum payload)).message) := by
  simp only [readWith, unwrap_append hhead, if_neg h]

/-- No other four bytes stand for the checksum of the payload. -/
theorem header_unique {head : Bytes} (hhead : head.length = checksumLength)
    (h : UInt32.ofNat (Bytes.littleEndian head) = Crc32.checksum payload) :
    head = header payload := by
  have hlt := Bytes.littleEndian_lt head
  have hheader := Bytes.littleEndian_lt (header payload)
  rw [hhead] at hlt
  rw [length_header] at hheader
  have hsame := congrArg UInt32.toNat (h.trans (stored_header payload).symm)
  rw [UInt32.toNat_ofNat_of_lt' hlt, UInt32.toNat_ofNat_of_lt' hheader] at hsame
  exact Bytes.littleEndian_injective (hhead.trans (length_header payload).symm) hsame

/-- A payload is spoilt where its frame is. -/
theorem Spoilt.of_wrap (h : Spoilt start (wrap payload) rotten) (hstart : checksumLength ≤ start) :
    rotten.take checksumLength = header payload ∧
      Spoilt (start - checksumLength) payload (rotten.drop checksumLength) := by
  have htake : rotten.take checksumLength = header payload :=
    (h.take hstart).trans (List.take_left' (length_header payload))
  have hdrop : (wrap payload).drop checksumLength = payload :=
    List.drop_left' (length_header payload)
  refine ⟨htake, ?_, ?_, ?_⟩
  · rw [List.length_drop, h.length, ← List.length_drop, hdrop]
  · intro hsame
    apply h.changed
    rw [← List.take_append_drop checksumLength rotten, htake, hsame, wrap]
  · intro i hi
    rw [← hdrop, List.getElem?_drop, List.getElem?_drop] at hi
    have hwithin := h.within _ hi
    omega

/-- A frame is the CRC-32 of its payload, least significant byte first, and the payload. Whatever
the payload is read as, it is refused with a message about the two checksums once up to four
neighbouring bytes changed, be it in the payload or in front of it. -/
theorem spoilt_frame_refused (payload : Bytes) :
    wrap payload = Bytes.ofLittleEndian 4 (Crc32.checksum payload).toNat ++ payload ∧
    Crc32.poly 32 (Crc32.checksum payload ^^^ 0xFFFFFFFF).toNat =
      (X ^ 32 * Crc32.message payload + X ^ (8 * payload.length) * Crc32.poly 32 0xFFFFFFFF) %ₘ
        Crc32.modulus ∧
    ∀ {α : Type} (read : Bytes → Except Json.Refusal α) {start : Nat} {rotten : Bytes},
      start = 0 ∨ 4 ≤ start → Spoilt start (wrap payload) rotten →
        ∃ stored computed, stored ≠ computed ∧
          readWith read rotten =
            .error (.decode (Fault.checksum stored computed).message) := by
  refine ⟨rfl, Crc32.checksum_remainder payload, fun read start rotten hstart hspoilt => ?_⟩
  have hlength : (rotten.take checksumLength).length = checksumLength := by
    rw [List.length_take, hspoilt.length, wrap, List.length_append, length_header]
    exact Nat.min_eq_left (Nat.le_add_right _ _)
  have hne : UInt32.ofNat (Bytes.littleEndian (rotten.take checksumLength)) ≠
      Crc32.checksum (rotten.drop checksumLength) := by
    obtain rfl | hstart := hstart
    · -- The payload is as it was, so only the old checksum would fit it.
      have hdrop : rotten.drop checksumLength = payload :=
        (hspoilt.drop le_rfl).trans (List.drop_left' (length_header payload))
      intro hsame
      have hhead := header_unique hlength (hdrop ▸ hsame)
      apply hspoilt.changed
      rw [← List.take_append_drop checksumLength rotten, hhead, hdrop, wrap]
    · -- The checksum is as it was, but the payload has another one now.
      obtain ⟨htake, hrest⟩ := hspoilt.of_wrap hstart
      rw [htake, stored_header]
      exact hrest.checksum_ne
  refine ⟨_, _, hne, ?_⟩
  rw [← readWith_append read hlength hne, List.take_append_drop]

/-- A byte that was replaced by another. -/
theorem spoilt_set {i : Nat} {byte : UInt8} (hi : bytes[i]? ≠ some byte) (hlt : i < bytes.length)
    (hwithin : start ≤ i ∧ i < start + 4) : Spoilt start bytes (bytes.set i byte) where
  length := List.length_set
  changed hsame := hi (by rw [← hsame, List.getElem?_set_self hlt])
  within j hj := by
    have hji : i = j := by
      by_contra hne
      exact hj (List.getElem?_set_ne hne)
    exact hji ▸ hwithin

/-- The text `[7]` with its digit replaced, read as a value of any shape. -/
theorem spoilt_frame_refused_digit :
    let v := Json.array [.number (.natural 7)]
    let rotten := (wrap v.write).set 5 0x38
    marshaller.write v = .ok (wrap v.write) ∧
      wrap v.write = [0x3e, 0x95, 0x75, 0x1a, 0x5b, 0x37, 0x5d] ∧
      Spoilt 4 (wrap v.write) rotten ∧
      ∃ stored computed, stored ≠ computed ∧
        marshaller.read rotten = .error (.decode (Fault.checksum stored computed).message) := by
  intro v rotten
  have hframe : wrap v.write = [0x3e, 0x95, 0x75, 0x1a, 0x5b, 0x37, 0x5d] := by decide +kernel
  have hspoilt : Spoilt 4 (wrap v.write) rotten := by
    apply spoilt_set
    · rw [hframe]
      decide
    · rw [hframe]
      decide
    · decide
  exact ⟨rfl, hframe, hspoilt,
    (spoilt_frame_refused v.write).2.2 Json.read (.inr le_rfl) hspoilt⟩

end SessionAttributes.Frame
