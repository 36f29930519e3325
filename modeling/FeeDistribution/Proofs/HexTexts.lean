import FeeDistribution.Account.Hex
import FeeDistribution.Proofs.JsonRecords
import FeeDistribution.Rewards.Json

/-!
# Accounts and ratios are read from the digits that they write

Both stand in hexadecimal, and are read by different rules.  An account is read from the bytes of its
text, two digits to the byte; a ratio from its characters, after the mark, where an odd number of
digits counts as well as an even one.
-/

namespace FeeDistribution

namespace Text.Hex

theorem value?_digit {value : Nat} (hvalue : value < 16) :
    value? (digit value).toNat = some value := by
  revert value
  decide

theorem value?_digitChar {value : Nat} (hvalue : value < 16) :
    value? (Nat.digitChar value).toNat = some value := by
  revert value
  decide

/-! ## Bytes -/

theorem decode?_cons {high low h l : Nat} (hhigh : value? high = some h)
    (hlow : value? low = some l) (rest : List Nat) :
    decode? (high :: low :: rest) =
      (decode? rest).map fun bytes => UInt8.ofNat (16 * h + l) :: bytes := by
  rw [decode?, hhigh, hlow]
  cases decode? rest <;> rfl

theorem encode_cons (byte : UInt8) (bytes : List UInt8) :
    encode (byte :: bytes) =
      digit (byte.toNat / 16) :: digit (byte.toNat % 16) :: encode bytes :=
  rfl

theorem decode?_encode (bytes : List UInt8) :
    decode? ((encode bytes).map Char.toNat) = some bytes := by
  induction bytes with
  | nil => rfl
  | cons byte bytes ih =>
      have hbyte : byte.toNat < 256 := byte.toNat_lt
      have hsplit : 16 * (byte.toNat / 16) + byte.toNat % 16 = byte.toNat := Nat.div_add_mod _ _
      have hhigh : value? (digit (byte.toNat / 16)).toNat = some (byte.toNat / 16) :=
        value?_digit (by omega)
      have hlow : value? (digit (byte.toNat % 16)).toNat = some (byte.toNat % 16) :=
        value?_digit (by omega)
      rw [encode_cons, List.map_cons, List.map_cons, decode?_cons hhigh hlow, ih, hsplit,
        UInt8.ofNat_toNat]
      rfl

theorem length_encode (bytes : List UInt8) : (encode bytes).length = 2 * bytes.length := by
  induction bytes with
  | nil => rfl
  | cons byte bytes ih =>
      rw [encode_cons, List.length_cons, List.length_cons, ih, List.length_cons]
      omega

/-- A hexadecimal digit of either case. -/
def IsDigit (c : Char) : Prop :=
  ('0' ≤ c ∧ c ≤ '9') ∨ ('a' ≤ c ∧ c ≤ 'f') ∨ ('A' ≤ c ∧ c ≤ 'F')

instance (c : Char) : Decidable (IsDigit c) :=
  inferInstanceAs (Decidable (_ ∨ _ ∨ _))

theorem isDigit_iff_toNat {c : Char} :
    IsDigit c ↔ (48 ≤ c.toNat ∧ c.toNat ≤ 57) ∨ (97 ≤ c.toNat ∧ c.toNat ≤ 102) ∨
      (65 ≤ c.toNat ∧ c.toNat ≤ 70) :=
  Iff.rfl

theorem isSome_value?_iff {c : Char} : (value? c.toNat).isSome ↔ IsDigit c := by
  rw [isDigit_iff_toNat]
  unfold value?
  split
  · simp [*]
  · split
    · simp [*]
    · split <;> simp [*]

theorem isDigit_digit {value : Nat} (hvalue : value < 16) : IsDigit (digit value) := by
  revert value
  decide

theorem isDigit_of_mem_encode {bytes : List UInt8} {c : Char} (hc : c ∈ encode bytes) :
    IsDigit c := by
  obtain ⟨byte, _, hdigit⟩ := List.mem_flatMap.mp hc
  have hbyte : byte.toNat < 256 := byte.toNat_lt
  simp only [ofByte, List.mem_cons, List.not_mem_nil, or_false] at hdigit
  rcases hdigit with rfl | rfl
  · exact isDigit_digit (by omega)
  · exact isDigit_digit (by omega)

/-! ## Numbers -/

/-- The digits of a number have values that spell it. -/
theorem ofNat_eq_map (n : Nat) :
    ∃ values, ofNat n = values.map Nat.digitChar ∧ (∀ value ∈ values, value < 16) ∧
      toNat values = n := by
  induction n using Nat.strongRecOn with
  | ind n ih =>
      unfold ofNat at ih ⊢
      rw [Nat.toDigits_eq_if (by decide)]
      split
      · rename_i hsmall
        exact ⟨[n], rfl, by simpa using hsmall, by simp [toNat]⟩
      · rename_i hlarge
        obtain ⟨values, hdigits, hvalues, hspell⟩ := ih (n / 16) (by omega)
        refine ⟨values ++ [n % 16], ?_, ?_, ?_⟩
        · rw [hdigits, List.map_append]
          rfl
        · intro value hvalue
          rcases List.mem_append.mp hvalue with hvalue | hvalue
          · exact hvalues value hvalue
          · rw [List.mem_singleton.mp hvalue]
            omega
        · unfold toNat at hspell ⊢
          rw [List.foldl_append, hspell]
          exact Nat.div_add_mod n 16

end Text.Hex

namespace Text.HexNumber

theorem isBlank_digitChar {value : Nat} (hvalue : value < 16) :
    isBlank (Nat.digitChar value) = false := by
  revert value
  decide

/-- All digits count, if the text has nothing else. -/
theorem complete_self {length : Nat} (hlength : 0 < length) : complete length length = length := by
  unfold complete
  split <;> omega

theorem read?_render {n : Nat} (hn : n ≤ Quantity.maxRatio) : read? (render n) = some n := by
  obtain ⟨values, hdigits, hvalues, hspell⟩ := Hex.ofNat_eq_map n
  have hpositive : 0 < values.length := by
    have hsome : 0 < (Hex.ofNat n).length := Nat.length_toDigits_pos
    rwa [hdigits, List.length_map] at hsome
  have hlength : values.length ≤ 64 := by
    have hdigitCount : (Hex.ofNat n).length ≤ 64 :=
      (Nat.length_toDigits_le_iff (by decide) (by decide)).mpr
        (Nat.lt_of_le_of_lt hn (by decide))
    rwa [hdigits, List.length_map] at hdigitCount
  have hblanks : (values.map Nat.digitChar).filter (fun c => !isBlank c) =
      values.map Nat.digitChar := by
    refine List.filter_eq_self.mpr fun c hc => ?_
    obtain ⟨value, hvalue, rfl⟩ := List.mem_map.mp hc
    rw [isBlank_digitChar (hvalues value hvalue)]
    rfl
  have hread : (values.map Nat.digitChar).mapM (fun c => Hex.value? c.toNat) = some values :=
    Json.mapM_map_self fun value hvalue => Hex.value?_digitChar (hvalues value hvalue)
  have hbody : unmarked (render n) = values.map Nat.digitChar := hdigits
  have hbounds : ¬ ((values.map Nat.digitChar).isEmpty ∨
      64 < (values.map Nat.digitChar).length) := by
    simp only [List.length_map, List.isEmpty_iff_length_eq_zero]
    omega
  simp only [read?, hbody, if_neg hbounds, hblanks, hread]
  simp [complete_self hpositive, hspell]

end Text.HexNumber

namespace Account

/-- A text of digits has one byte for each of them. -/
theorem textBytes_of_digits {text : List Char} (hdigits : ∀ c ∈ text, Text.Hex.IsDigit c) :
    textBytes text = text.map Char.toNat := by
  induction text with
  | nil => rfl
  | cons c text ih =>
      obtain ⟨hdigit, hrest⟩ := List.forall_mem_cons.mp hdigits
      have htext := ih hrest
      have hbyte : (String.utf8EncodeChar c).map UInt8.toNat = [c.toNat] := by
        have hascii : c.toNat ≤ 127 := by
          rw [Text.Hex.isDigit_iff_toNat] at hdigit
          omega
        have hcode : c.toNat % 256 = c.toNat := Nat.mod_eq_of_lt (by omega)
        rw [String.utf8EncodeChar_eq_singleton (Char.utf8Size_eq_one_iff.mpr hascii)]
        exact congrArg (fun code => [code]) hcode
      unfold textBytes at htext ⊢
      rw [List.flatMap_cons, List.map_append, htext, hbyte]
      rfl

theorem firstBadDigit?_eq_none {codes : List Nat} :
    firstBadDigit? codes = none ↔ ∀ code ∈ codes, (Text.Hex.value? code).isSome := by
  have hfind : firstBadDigit? codes = none ↔
      ∀ entry ∈ codes.zipIdx, (Text.Hex.value? entry.1).isSome := by
    simp [firstBadDigit?, List.find?_eq_none, Option.isSome_iff_ne_none]
  have hentries := List.forall_mem_map (l := codes.zipIdx) (f := Prod.fst)
    (P := fun code => (Text.Hex.value? code).isSome)
  rw [hfind, ← hentries, List.zipIdx_map_fst]

theorem ofHex?_hex (account : Account) : ofHex? account.hex = some account := by
  have hdigits : ∀ c ∈ account.hexDigits, Text.Hex.IsDigit c :=
    fun c => Text.Hex.isDigit_of_mem_encode
  have hlength : (account.hexDigits.map Char.toNat).length = 64 := by
    rw [List.length_map, hexDigits, Text.Hex.length_encode, account.length_bytes]
  have hgood : firstBadDigit? (account.hexDigits.map Char.toNat) = none := by
    rw [firstBadDigit?_eq_none, List.forall_mem_map]
    exact fun c hc => Text.Hex.isSome_value?_iff.mpr (hdigits c hc)
  have hbytes : ofBytes? account.bytes = some account := dif_pos account.length_bytes
  have hdecode : Text.Hex.decode? (account.hexDigits.map Char.toNat) = some account.bytes :=
    Text.Hex.decode?_encode account.bytes
  unfold ofHex? ofHexDigits hex
  rw [String.toList_ofList, textBytes_of_digits hdigits]
  simp [hlength, hgood, hdecode, hbytes, Except.toOption]

theorem survives (account : Account) : Json.Survives toJson ofJson? account where
  plain := rfl
  read_write := account.ofHex?_hex

end Account

end FeeDistribution
