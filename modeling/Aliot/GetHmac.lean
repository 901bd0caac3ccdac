import Aliot.HmacSha256
import Aliot.Signing

set_option autoImplicit false

namespace Aliot

-- strlen as an int argument.
def strlenInt (text : Bytes) : Int := (text.length : Int).bmod (2 ^ 32)

-- get_hmac with the secret key of the configuration; `hmac` is what the stack holds.
def get_hmac (hmac : HmacSha256) : GetHmac := fun secretKey message =>
  let hmac := hmacSha256Initialize hmac secretKey (strlenInt secretKey)
  let hmac := hmacSha256Update hmac message (strlenInt message)
  let hmac := hmacSha256Finalize hmac [] 0
  printDigest hmac.digest

section Pieces

variable (sha : Sha256)

def updatePieces (pieces : List Bytes) : Sha256 :=
  pieces.foldl (fun sha piece => sha256Update sha piece (UInt32.ofNat piece.length)) sha

theorem length_exact (n : Nat) (small : n < 2 ^ 32) : (UInt32.ofNat n).toNat = n := by
  rw [UInt32.toNat_ofNat']
  exact Nat.mod_eq_of_lt small

theorem update_whole_holds (message piece : Bytes) (holds : ShaHolds sha message message.length) (small : piece.length < 2 ^ 32) :
    ShaHolds (sha256Update sha piece (UInt32.ofNat piece.length)) (message ++ piece) (message ++ piece).length := by
  have exact := length_exact piece.length small
  have updated := sha256_update_holds sha message piece (UInt32.ofNat piece.length) holds (Nat.le_of_eq exact)
  rw [exact, List.take_length] at updated
  exact updated

theorem finalize_whole_hash (message last : Bytes) (holds : ShaHolds sha message message.length) (small : last.length < 2 ^ 32) :
    (sha256Finalize sha last (UInt32.ofNat last.length)).hash = Fips180.sha256 (message ++ last) := by
  have exact := length_exact last.length small
  have final := sha256_finalize_hash sha message last (UInt32.ofNat last.length) holds (Nat.le_of_eq exact)
  rw [exact, List.take_length] at final
  exact final

theorem update_pieces_holds (message : Bytes) (pieces : List Bytes) (holds : ShaHolds sha message message.length)
    (small : ∀ piece ∈ pieces, piece.length < 2 ^ 32) :
    ShaHolds (updatePieces sha pieces) (message ++ pieces.flatten) (message ++ pieces.flatten).length := by
  induction pieces generalizing sha message with
  | nil =>
      rw [List.flatten_nil, List.append_nil]
      exact holds
  | cons piece pieces ih =>
      have first := update_whole_holds sha message piece holds (small piece List.mem_cons_self)
      have rest := ih _ (message ++ piece) first (fun other listed => small other (List.mem_cons_of_mem _ listed))
      rw [List.append_assoc] at rest
      exact rest

theorem sha256_of_pieces (pieces : List Bytes) (last : Bytes) (small : ∀ piece ∈ pieces, piece.length < 2 ^ 32)
    (short : last.length < 2 ^ 32) :
    (sha256Finalize (updatePieces (sha256Initialize sha) pieces) last (UInt32.ofNat last.length)).hash =
      Fips180.sha256 (pieces.flatten ++ last) :=
  finalize_whole_hash _ pieces.flatten last (update_pieces_holds _ [] pieces (initialize_holds sha) small) short

end Pieces

def strayHmac : HmacSha256 := ⟨[], [], ⟨[], fun _ => 9, ⟨8, 7, 6, 5, 4, 3, 2, 1⟩, []⟩⟩

theorem abc_in_pieces :
    (sha256Finalize (updatePieces (sha256Initialize strayHmac.sha) [ascii "a", ascii "b"]) (ascii "c")
      (UInt32.ofNat (ascii "c").length)).hash = Fips180.sha256 ([ascii "a", ascii "b"].flatten ++ ascii "c") :=
  sha256_of_pieces strayHmac.sha [ascii "a", ascii "b"] (ascii "c") (by decide) (by decide)

-- The vector of FIPS 180-2 for three bytes.
example : printDigest (sha256Get strayHmac.sha (ascii "abc") 3) =
    ascii "ba7816bf8f01cfea414140de5dae2223b00361a396177a9cb410ff61f20015ad" := by decide +kernel

theorem as_uint32_nat (n : Nat) (small : n < 2 ^ 31) : asUint32 n = UInt32.ofNat n := by
  unfold asUint32
  congr 1
  omega

theorem strlen_int_small (text : Bytes) (small : text.length < 2 ^ 31) : strlenInt text = text.length := by
  unfold strlenInt
  rw [Int.bmod_def]
  omega

-- A longer message is read as far as its length modulo 2^32 goes.
theorem as_uint32_strlen (text : Bytes) : (asUint32 (strlenInt text)).toNat = text.length % 2 ^ 32 := by
  unfold asUint32 strlenInt
  rw [UInt32.toNat_ofNat', Int.bmod_def]
  omega

section Keyed

variable (hmac : HmacSha256)

def innerKey (key : Bytes) : Bytes := (Hmac.keyBlock Fips180.sha256 64 key).map (fun byte => byte ^^^ UInt8.ofNat 0x36)

def outerKey (key : Bytes) : Bytes := (Hmac.keyBlock Fips180.sha256 64 key).map (fun byte => byte ^^^ UInt8.ofNat 0x5c)

theorem sha256_length (message : Bytes) : (Fips180.sha256 message).length = 32 := rfl

theorem key_block_length (key : Bytes) : (Hmac.keyBlock Fips180.sha256 64 key).length = 64 := by
  simp only [Hmac.keyBlock, List.length_append, List.length_replicate]
  split
  · omega
  · rw [sha256_length]

theorem padded_key (front : Bytes) (count : Nat) :
    front.map (fun byte => byte ^^^ UInt8.ofNat 0x36) ++ List.replicate count (UInt8.ofNat 0x36) =
      (front ++ List.replicate count (UInt8.ofNat 0)).map (fun byte => byte ^^^ UInt8.ofNat 0x36) := by
  rw [List.map_append, List.map_replicate]
  rfl

theorem initialize_key (key : Bytes) (small : key.length < 2 ^ 31) :
    (hmacSha256Initialize hmac key key.length).key = innerKey key ∧
      ShaHolds (hmacSha256Initialize hmac key key.length).sha (innerKey key) (innerKey key).length := by
  have size : (innerKey key).length = 64 := by rw [innerKey, List.length_map, key_block_length]
  have started := fun sha => update_whole_holds (sha256Initialize sha) [] (innerKey key) (initialize_holds sha) (by rw [size]; decide)
  rw [List.nil_append, size] at started
  by_cases short : key.length ≤ 64
  · have keyed : (key.take (key.length : Int).toNat).map (fun byte => byte ^^^ UInt8.ofNat 0x36) ++
        List.replicate (64 - (key.length : Int).toNat) (UInt8.ofNat 0x36) = innerKey key := by
      rw [Int.toNat_natCast, List.take_length, padded_key, innerKey, Hmac.keyBlock, if_pos short]
    simp only [hmacSha256Initialize, if_pos (show (key.length : Int) ≤ 64 by omega), keyed]
    rw [size]
    exact ⟨trivial, started hmac.sha⟩
  · have hashed := finalize_whole_hash (sha256Initialize hmac.sha) [] key (initialize_holds hmac.sha) (by omega)
    have keyed : (Fips180.sha256 key).map (fun byte => byte ^^^ UInt8.ofNat 0x36) ++ List.replicate 32 (UInt8.ofNat 0x36) =
        innerKey key := by
      rw [padded_key, innerKey, Hmac.keyBlock, if_neg short, sha256_length]
    simp only [hmacSha256Initialize, if_neg (show ¬ (key.length : Int) ≤ 64 by omega), as_uint32_nat key.length small, hashed,
      List.nil_append, keyed]
    rw [size]
    exact ⟨trivial, started _⟩

theorem finalize_digest (key message last : Bytes) (keyed : hmac.key = innerKey key)
    (holds : ShaHolds hmac.sha (innerKey key ++ message) (innerKey key ++ message).length) (small : last.length < 2 ^ 31) :
    (hmacSha256Finalize hmac last last.length).digest = Hmac.hmac Fips180.sha256 64 key (message ++ last) := by
  have inner := finalize_whole_hash hmac.sha (innerKey key ++ message) last holds (by omega)
  have outer : hmac.key.map (fun byte => byte ^^^ UInt8.ofNat (0x36 ^^^ 0x5c)) = outerKey key := by
    rw [keyed, innerKey, outerKey, List.map_map]
    refine List.map_congr_left (fun byte _ => ?_)
    exact UInt8.xor_assoc _ _ _
  have size : (outerKey key).length = 64 := by rw [outerKey, List.length_map, key_block_length]
  have started := fun sha => update_whole_holds (sha256Initialize sha) [] (outerKey key) (initialize_holds sha) (by rw [size]; decide)
  rw [List.nil_append] at started
  have law : Hmac.hmac Fips180.sha256 64 key (message ++ last) =
      Fips180.sha256 (outerKey key ++ Fips180.sha256 (innerKey key ++ (message ++ last))) := rfl
  have closed := finalize_whole_hash _ (outerKey key) (Fips180.sha256 (innerKey key ++ message ++ last))
    (started (sha256Finalize hmac.sha last (UInt32.ofNat last.length))) (by rw [sha256_length]; decide)
  rw [sha256_length, size] at closed
  simp only [hmacSha256Finalize, as_uint32_nat last.length small, inner, outer]
  rw [law, ← List.append_assoc (innerKey key)]
  exact closed

-- hmac_sha256_initialize, any calls of hmac_sha256_update and hmac_sha256_finalize come to the code of all they were given.
theorem hmac_of_pieces (key : Bytes) (pieces : List Bytes) (last : Bytes) (keySmall : key.length < 2 ^ 31)
    (small : ∀ piece ∈ pieces, piece.length < 2 ^ 31) (short : last.length < 2 ^ 31) :
    (hmacSha256Finalize (pieces.foldl (fun hmac piece => hmacSha256Update hmac piece piece.length)
      (hmacSha256Initialize hmac key key.length)) last last.length).digest =
        Hmac.hmac Fips180.sha256 64 key (pieces.flatten ++ last) := by
  obtain ⟨keyed, holds⟩ := initialize_key hmac key keySmall
  generalize hmacSha256Initialize hmac key key.length = begun at keyed holds ⊢
  have updated : ∀ begun : HmacSha256, pieces.foldl (fun hmac piece => hmacSha256Update hmac piece piece.length) begun =
      { begun with sha := updatePieces begun.sha pieces } := by
    induction pieces with
    | nil => exact fun _ => rfl
    | cons piece pieces ih =>
        intro begun
        have one : hmacSha256Update begun piece piece.length =
            { begun with sha := sha256Update begun.sha piece (UInt32.ofNat piece.length) } := by
          rw [hmacSha256Update, as_uint32_nat piece.length (small piece List.mem_cons_self)]
        rw [List.foldl_cons, one, ih (fun other listed => small other (List.mem_cons_of_mem _ listed))]
        rfl
  rw [updated]
  exact finalize_digest _ key pieces.flatten last keyed
    (update_pieces_holds begun.sha (innerKey key) pieces holds (fun piece listed => Nat.lt_trans (small piece listed) (by decide))) short

-- The three calls of get_hmac, with the lengths that strlen gives them.
theorem get_hmac_code (secretKey message : Bytes) (small : secretKey.length < 2 ^ 31) :
    (hmacSha256Finalize (hmacSha256Update (hmacSha256Initialize hmac secretKey (strlenInt secretKey)) message (strlenInt message))
      [] 0).digest = Hmac.hmac Fips180.sha256 64 secretKey (message.take (message.length % 2 ^ 32)) := by
  obtain ⟨keyed, holds⟩ := initialize_key hmac secretKey small
  have exact := as_uint32_strlen message
  rw [strlen_int_small secretKey small]
  generalize hmacSha256Initialize hmac secretKey secretKey.length = begun at keyed holds ⊢
  have updated := sha256_update_holds begun.sha (innerKey secretKey) message (asUint32 (strlenInt message)) holds
    (by rw [exact]; exact Nat.mod_le _ _)
  rw [exact] at updated
  generalize message.take (message.length % 2 ^ 32) = text at updated ⊢
  rw [hmacSha256Update]
  generalize sha256Update begun.sha message (asUint32 (strlenInt message)) = sha at updated ⊢
  have digest := finalize_digest { begun with sha := sha } secretKey text [] keyed updated (Nat.two_pow_pos 31)
  rw [List.append_nil] at digest
  exact digest

theorem get_hmac_whole (secretKey message : Bytes) (keySmall : secretKey.length < 2 ^ 31) (small : message.length < 2 ^ 32) :
    get_hmac hmac secretKey message = printDigest (Hmac.hmac Fips180.sha256 64 secretKey message) := by
  rw [get_hmac, get_hmac_code hmac secretKey message keySmall, Nat.mod_eq_of_lt small, List.take_length]

theorem get_hmac_digest (secretKey message : Bytes) (small : secretKey.length < 2 ^ 31) :
    get_hmac hmac secretKey message =
      printDigest (Hmac.hmac Fips180.sha256 64 secretKey (message.take (message.length % 2 ^ 32))) := by
  rw [get_hmac, get_hmac_code hmac secretKey message small]

end Keyed

theorem long_key_in_pieces :
    (hmacSha256Finalize ([ascii "a", ascii "b"].foldl (fun hmac piece => hmacSha256Update hmac piece piece.length)
      (hmacSha256Initialize strayHmac (List.replicate 100 97) (List.replicate 100 97 : Bytes).length)) [] ([] : Bytes).length).digest =
        Hmac.hmac Fips180.sha256 64 (List.replicate 100 97) ([ascii "a", ascii "b"].flatten ++ []) :=
  hmac_of_pieces strayHmac (List.replicate 100 97) [ascii "a", ascii "b"] [] (by decide) (by decide) (by decide)

theorem event_hash_printed : get_hmac strayHmac (ascii "secret") (ascii "event") =
    printDigest (Hmac.hmac Fips180.sha256 64 (ascii "secret") ((ascii "event").take ((ascii "event").length % 2 ^ 32))) :=
  get_hmac_digest strayHmac (ascii "secret") (ascii "event") (by decide)

end Aliot
