import HttpPlan.Text

/-! Percent-encoded text consists of unreserved characters and of triplets, and decodes to the
bytes that it was made from. -/
namespace HttpPlan.Percent

/-- The characters that a part of a URL may hold as they are (RFC 3986, section 2.3). -/
def Unreserved (c : Char) : Prop := c.isAlphanum ∨ c ∈ ['-', '.', '_', '~']

instance (c : Char) : Decidable (Unreserved c) := inferInstanceAs (Decidable (_ ∨ _))

/-- Hexadecimal digits in upper case. -/
def UpperHex (c : Char) : Prop := c ∈ "0123456789ABCDEF".toList

instance (c : Char) : Decidable (UpperHex c) := inferInstanceAs (Decidable (_ ∈ _))

/-- Text of unreserved characters and of triplets with upper-case digits. -/
inductive Encoded : List Char → Prop
  | nil : Encoded []
  | unreserved {c : Char} {rest : List Char} (kept : Unreserved c) (tail : Encoded rest) :
      Encoded (c :: rest)
  | triplet {high low : Char} {rest : List Char} (first : UpperHex high) (second : UpperHex low)
      (tail : Encoded rest) : Encoded ('%' :: high :: low :: rest)

/-- A triplet, with digits of either case, stands for a byte, and any other character for its own
UTF-8 bytes. -/
def decode : List Char → List UInt8
  | '%' :: first :: second :: rest =>
    match Radix.digit? 16 first, Radix.digit? 16 second with
    | some high, some low => UInt8.ofNat (16 * high + low) :: decode rest
    | _, _ => 37 :: decode (first :: second :: rest)
  | c :: rest => String.utf8EncodeChar c ++ decode rest
  | [] => []

theorem digit?_hexDigit : ∀ n < 16, Radix.digit? 16 (hexDigit n) = some n := by decide +kernel

theorem upperHex_hexDigit : ∀ n < 16, UpperHex (hexDigit n) := by decide +kernel

theorem UpperHex.unreserved {c : Char} (digit : UpperHex c) : Unreserved c := by
  have each : "0123456789ABCDEF".toList.all (fun d => decide (Unreserved d)) := by decide
  exact of_decide_eq_true (List.all_eq_true.mp each c digit)

theorem unreserved_byte : ∀ n < 256, isUnreserved (UInt8.ofNat n) →
    Unreserved (Char.ofNat n) ∧ Char.ofNat n ≠ '%' ∧
      String.utf8EncodeChar (Char.ofNat n) = [UInt8.ofNat n] := by decide +kernel

theorem decode_cons {c : Char} {rest : List Char} (plain : c ≠ '%') :
    decode (c :: rest) = String.utf8EncodeChar c ++ decode rest := by
  rw [decode.eq_def]
  split <;> simp_all

theorem encoded_encodeByte {b : UInt8} {rest : List Char} (tail : Encoded rest) :
    Encoded (encodeByte b ++ rest) := by
  have small : b.toNat < 256 := b.toNat_lt
  unfold encodeByte
  split
  · next kept =>
    have byte := unreserved_byte b.toNat small (by simpa using kept)
    exact .unreserved byte.1 tail
  · exact .triplet (upperHex_hexDigit _ (by omega)) (upperHex_hexDigit _ (by omega)) tail

theorem decode_encodeByte {b : UInt8} {rest : List Char} :
    decode (encodeByte b ++ rest) = b :: decode rest := by
  have small : b.toNat < 256 := b.toNat_lt
  unfold encodeByte
  split
  · next kept =>
    obtain ⟨-, plain, bytes⟩ := unreserved_byte b.toNat small (by simpa using kept)
    rw [List.singleton_append, decode_cons plain, bytes]
    simp
  · have whole : 16 * (b.toNat / 16) + b.toNat % 16 = b.toNat := by omega
    simp only [List.cons_append, List.nil_append, decode]
    rw [digit?_hexDigit _ (by omega), digit?_hexDigit _ (by omega)]
    simp [whole]

theorem encoded_encode (s : String) : Encoded (encode s).toList := by
  rw [encode, String.toList_ofList]
  induction s.toUTF8.toList with
  | nil => exact .nil
  | cons b bytes ih => exact encoded_encodeByte ih

theorem decode_encode (s : String) : decode (encode s).toList = s.toUTF8.toList := by
  rw [encode, String.toList_ofList]
  induction s.toUTF8.toList with
  | nil => rfl
  | cons b bytes ih =>
    rw [encodeBytes, List.flatMap_cons, decode_encodeByte]
    exact congrArg (b :: ·) ih

theorem toList_loop (bytes : ByteArray) (i : Nat) (read : List UInt8) :
    ByteArray.toList.loop bytes i read = read.reverse ++ bytes.data.toList.drop i := by
  induction i, read using ByteArray.toList.loop.induct bytes with
  | case1 i read inside ih =>
    have here : i < bytes.data.size := inside
    have found : bytes.get! i = bytes.data[i] := getElem!_pos bytes.data i here
    rw [ByteArray.toList.loop, if_pos inside, ih, found,
      List.drop_eq_getElem_cons (show i < bytes.data.toList.length from here)]
    simp
  | case2 i read done =>
    rw [ByteArray.toList.loop, if_neg done, List.drop_eq_nil_of_le (by simpa using done),
      List.append_nil]

/-- The text with the decoded bytes, where they are those of a text. -/
def decodeText? (cs : List Char) : Option String := String.fromUTF8? ⟨(decode cs).toArray⟩

theorem decodeText?_encode (s : String) : decodeText? (encode s).toList = some s := by
  have bytes : (⟨s.toUTF8.toList.toArray⟩ : ByteArray) = s.toUTF8 :=
    ByteArray.ext (Array.toList_inj.mp (toList_loop s.toUTF8 0 []))
  rw [decodeText?, decode_encode, bytes, String.fromUTF8?]
  exact (dif_pos s.isValidUTF8).trans rfl

/-- Texts that are encoded alike are alike. -/
theorem encode_injective : Function.Injective encode := by
  intro s t same
  have texts := decodeText?_encode s
  rw [same, decodeText?_encode t] at texts
  exact (Option.some.inj texts).symm

theorem Encoded.mem {cs : List Char} {c : Char} (encoded : Encoded cs) (member : c ∈ cs) :
    c = '%' ∨ Unreserved c := by
  induction encoded with
  | nil => cases member
  | unreserved kept _ ih =>
    rcases List.mem_cons.mp member with rfl | member
    · exact Or.inr kept
    · exact ih member
  | triplet first second _ ih =>
    simp only [List.mem_cons] at member
    rcases member with rfl | rfl | rfl | member
    · exact Or.inl rfl
    · exact Or.inr first.unreserved
    · exact Or.inr second.unreserved
    · exact ih member

/-- No character that divides a URL is in encoded text, and no space. -/
theorem Encoded.not_mem_of_divides {cs : List Char} {c : Char} (encoded : Encoded cs)
    (divides : c ∈ ['/', '?', '#', ' ']) : c ∉ cs := by
  intro member
  have kept := encoded.mem member
  simp only [List.mem_cons, List.not_mem_nil, or_false] at divides
  rcases divides with rfl | rfl | rfl | rfl <;> exact absurd kept (by decide)

theorem encode_empty : encode "" = "" := by decide +kernel

example : encode "a/ü" = "a%2F%C3%BC" := by decide +kernel

end HttpPlan.Percent
