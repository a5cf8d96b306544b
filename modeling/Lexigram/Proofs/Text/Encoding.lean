import Lexigram.Proofs.Pattern.Language
import Lexigram.Text.Utf8

/-!
Lossy decoding undoes encoding: the bytes of a text are decoded to the text
(`Text.lossy_bytesOf`), so nothing is lost of bytes that encode some text. And
no other bytes are read as a character than those that encode it
(`Text.charAtFront?_eq_some_iff`).
-/

namespace Lexigram

/-! ## The bytes of a text -/

theorem toList_loop_eq (bytes : ByteArray) (i : Nat) (read : List UInt8) :
    ByteArray.toList.loop bytes i read
      = read.reverse ++ bytes.data.toList.drop i := by
  fun_induction ByteArray.toList.loop bytes i read with
  | case1 i read more ih =>
    have inside : i < bytes.data.toList.length := by simpa using more
    rw [ih, List.drop_eq_getElem_cons inside]
    simp [ByteArray.get!, more]
  | case2 i read done =>
    rw [List.drop_eq_nil_of_le (by simpa using Nat.le_of_not_lt done),
      List.append_nil]

namespace Text

/-- A text is encoded one character after the other. -/
theorem bytesOf_eq (s : String) :
    bytesOf s = s.toList.flatMap String.utf8EncodeChar := by
  have encoded :
      s.toUTF8 = (s.toList.flatMap String.utf8EncodeChar).toByteArray := by
    have encoded := String.toByteArray_ofList (l := s.toList)
    rwa [String.ofList_toList] at encoded
  rw [bytesOf, encoded, ByteArray.toList, toList_loop_eq]
  simp

/-! ## The bytes of a character -/

theorem fitting_of_forall₂ {intervals : List (UInt8 × UInt8)}
    {bytes : List UInt8} (inside : List.Forall₂
      (fun interval b => interval.1 ≤ b ∧ b ≤ interval.2) intervals bytes) :
    fitting intervals bytes = intervals.length := by
  induction inside with
  | nil => rfl
  | cons here _ ih => rw [fitting, if_pos here, ih, List.length_cons]

/-- A lead byte with the bytes that may follow it is a character. -/
theorem charAtFront?_of_followers {lead : UInt8}
    {intervals : List (UInt8 × UInt8)} {rest : List UInt8}
    {v : Nat} (leads : followers lead = some intervals) (inside : List.Forall₂
      (fun interval b => interval.1 ≤ b ∧ b ≤ interval.2) intervals rest)
    (point : codePoint lead rest = v) :
    charAtFront? (lead :: rest) = some (Char.ofNat v, rest.length + 1) := by
  refine charAtFront?_cons_eq_some.mpr
    ⟨intervals, leads, fitting_of_forall₂ inside, ?_, ?_⟩
  · rw [inside.length_eq]
  · rw [inside.length_eq, List.take_length, point]

theorem toNat_ofNat_of_lt {n : Nat} (small : n < 256) :
    (UInt8.ofNat n).toNat = n := by
  simpa using small

theorem followers_one {n : Nat} (small : n < 128) :
    followers (UInt8.ofNat n) = some [] := by
  revert n
  decide

theorem followers_two {n : Nat} (small : n < 32) (long : 2 ≤ n) :
    followers (UInt8.ofNat (n + 192)) = some [(0x80, 0xBF)] := by
  revert n
  decide

/-- The second of three bytes is kept from shorter forms and from surrogates. -/
theorem followers_three {n : Nat} (small : n < 16) :
    followers (UInt8.ofNat (n + 224))
      = some [(if n = 0 then 0xA0 else 0x80, if n = 13 then 0x9F else 0xBF),
        (0x80, 0xBF)] := by
  revert n
  decide

/-- The second of four bytes is kept from shorter forms and from points above
the last. -/
theorem followers_four {n : Nat} (small : n < 5) :
    followers (UInt8.ofNat (n + 240))
      = some [(if n = 0 then 0x90 else 0x80, if n = 4 then 0x8F else 0xBF),
        (0x80, 0xBF), (0x80, 0xBF)] := by
  revert n
  decide

section Points

variable {v : Nat}

theorem charAtFront?_one (high : v ≤ 127) :
    charAtFront? [UInt8.ofNat v] = some (Char.ofNat v, 1) :=
  charAtFront?_of_followers (followers_one (Nat.lt_succ_of_le high)) .nil
    (toNat_ofNat_of_lt (by omega))

theorem charAtFront?_two (low : 127 < v) (high : v ≤ 2047) :
    charAtFront? [UInt8.ofNat (v / 64 % 32 + 192), UInt8.ofNat (v % 64 + 128)]
      = some (Char.ofNat v, 2) := by
  have lead := toNat_ofNat_of_lt (show v / 64 % 32 + 192 < 256 by omega)
  have last := toNat_ofNat_of_lt (show v % 64 + 128 < 256 by omega)
  refine charAtFront?_of_followers (followers_two (by omega) (by omega)) ?_ ?_
  · simp only [List.forall₂_cons, List.forall₂_nil_left_iff,
      UInt8.le_iff_toNat_le, last]
    refine ⟨⟨?_, ?_⟩, trivial⟩ <;> simp
    omega
  · simp only [codePoint, List.length_cons, List.length_nil, List.foldl_cons,
      List.foldl_nil, lead, last]
    omega

theorem charAtFront?_three (low : 2047 < v) (high : v ≤ 65535)
    (scalar : v < 55296 ∨ 57343 < v) :
    charAtFront? [UInt8.ofNat (v / 4096 % 16 + 224),
      UInt8.ofNat (v / 64 % 64 + 128), UInt8.ofNat (v % 64 + 128)]
      = some (Char.ofNat v, 3) := by
  have lead := toNat_ofNat_of_lt (show v / 4096 % 16 + 224 < 256 by omega)
  have next := toNat_ofNat_of_lt (show v / 64 % 64 + 128 < 256 by omega)
  have last := toNat_ofNat_of_lt (show v % 64 + 128 < 256 by omega)
  refine charAtFront?_of_followers (followers_three (by omega)) ?_ ?_
  · simp only [List.forall₂_cons, List.forall₂_nil_left_iff,
      UInt8.le_iff_toNat_le, next, last]
    refine ⟨⟨?_, ?_⟩, ⟨?_, ?_⟩, trivial⟩
    · split <;> simp
      omega
    · split <;> simp <;> omega
    · simp
    · simp
      omega
  · simp only [codePoint, List.length_cons, List.length_nil, List.foldl_cons,
      List.foldl_nil, lead, next, last]
    omega

theorem charAtFront?_four (low : 65535 < v) (high : v < 1114112) :
    charAtFront? [UInt8.ofNat (v / 262144 % 8 + 240),
        UInt8.ofNat (v / 4096 % 64 + 128), UInt8.ofNat (v / 64 % 64 + 128),
        UInt8.ofNat (v % 64 + 128)]
      = some (Char.ofNat v, 4) := by
  have lead := toNat_ofNat_of_lt (show v / 262144 % 8 + 240 < 256 by omega)
  have next := toNat_ofNat_of_lt (show v / 4096 % 64 + 128 < 256 by omega)
  have third := toNat_ofNat_of_lt (show v / 64 % 64 + 128 < 256 by omega)
  have last := toNat_ofNat_of_lt (show v % 64 + 128 < 256 by omega)
  refine charAtFront?_of_followers (followers_four (by omega)) ?_ ?_
  · simp only [List.forall₂_cons, List.forall₂_nil_left_iff,
      UInt8.le_iff_toNat_le, next, third, last]
    refine ⟨⟨?_, ?_⟩, ⟨?_, ?_⟩, ⟨?_, ?_⟩, trivial⟩
    · split <;> simp
      omega
    · split <;> simp <;> omega
    · simp
    · simp
      omega
    · simp
    · simp
      omega
  · simp only [codePoint, List.length_cons, List.length_nil, List.foldl_cons,
      List.foldl_nil, lead, next, third, last]
    omega

end Points

/-- The bytes of a character are read as the character. -/
theorem charAtFront?_utf8EncodeChar (c : Char) :
    charAtFront? (String.utf8EncodeChar c)
      = some (c, (String.utf8EncodeChar c).length) := by
  have scalar : c.val.toNat < 55296
    ∨ 57343 < c.val.toNat ∧ c.val.toNat < 1114112 := c.valid
  have back : Char.ofNat c.val.toNat = c := Char.ofNat_toNat c
  simp only [String.utf8EncodeChar]
  split
  · next one => rw [charAtFront?_one one, back]; rfl
  · split
    · next more two => rw [charAtFront?_two (by omega) two, back]; rfl
    · split
      · next more three =>
          rw [charAtFront?_three (by omega) three (by omega), back]; rfl
      · rw [charAtFront?_four (by omega) (by omega), back]; rfl

/-! ## Every character has its bytes -/

theorem toNat_val_ofNat {v : Nat} (valid : v.isValidChar) :
    (Char.ofNat v).val.toNat = v := by
  rw [Char.ofNat, dif_pos valid]
  rfl

section Digits

variable {k i j m : Nat}

theorem exists_encoding_one (small : k < 128) :
    ∃ c, String.utf8EncodeChar c = [UInt8.ofNat k] := by
  have valid : k.isValidChar := .inl (by omega)
  refine ⟨Char.ofNat k, ?_⟩
  simp only [String.utf8EncodeChar, toNat_val_ofNat valid]
  rw [if_pos (by omega)]

theorem exists_encoding_two (small₁ : k < 32) (small₂ : i < 64) (long : 2 ≤ k) :
    ∃ c, String.utf8EncodeChar c =
      [UInt8.ofNat (k + 192), UInt8.ofNat (i + 128)] := by
  have valid : (64 * k + i).isValidChar := .inl (by omega)
  have top : (64 * k + i) / 64 % 32 = k := by omega
  have low : (64 * k + i) % 64 = i := by omega
  refine ⟨Char.ofNat (64 * k + i), ?_⟩
  simp only [String.utf8EncodeChar, toNat_val_ofNat valid]
  rw [if_neg (by omega), if_pos (by omega), top, low]

theorem exists_encoding_three (small₁ : k < 16) (small₂ : i < 64)
    (small₃ : j < 64) (long : k = 0 → 32 ≤ i) (scalar : k = 13 → i < 32) :
    ∃ c, String.utf8EncodeChar c = [UInt8.ofNat (k + 224),
      UInt8.ofNat (i + 128), UInt8.ofNat (j + 128)] := by
  have valid : (4096 * k + 64 * i + j).isValidChar := by
    simp only [Nat.isValidChar]
    omega
  have top : (4096 * k + 64 * i + j) / 4096 % 16 = k := by omega
  have middle : (4096 * k + 64 * i + j) / 64 % 64 = i := by omega
  have low : (4096 * k + 64 * i + j) % 64 = j := by omega
  refine ⟨Char.ofNat (4096 * k + 64 * i + j), ?_⟩
  simp only [String.utf8EncodeChar, toNat_val_ofNat valid]
  rw [if_neg (by omega), if_neg (by omega), if_pos (by omega), top, middle, low]

theorem exists_encoding_four (small₁ : k < 5) (small₂ : i < 64)
    (small₃ : j < 64) (small₄ : m < 64) (long : k = 0 → 16 ≤ i)
    (scalar : k = 4 → i < 16) :
    ∃ c, String.utf8EncodeChar c = [UInt8.ofNat (k + 240),
      UInt8.ofNat (i + 128), UInt8.ofNat (j + 128), UInt8.ofNat (m + 128)] := by
  have valid : (262144 * k + 4096 * i + 64 * j + m).isValidChar := by
    simp only [Nat.isValidChar]
    omega
  have top : (262144 * k + 4096 * i + 64 * j + m) / 262144 % 8 = k := by omega
  have second : (262144 * k + 4096 * i + 64 * j + m) / 4096 % 64 = i := by omega
  have third : (262144 * k + 4096 * i + 64 * j + m) / 64 % 64 = j := by omega
  have low : (262144 * k + 4096 * i + 64 * j + m) % 64 = m := by omega
  refine ⟨Char.ofNat (262144 * k + 4096 * i + 64 * j + m), ?_⟩
  simp only [String.utf8EncodeChar, toNat_val_ofNat valid]
  rw [if_neg (by omega), if_neg (by omega), if_neg (by omega), top, second,
    third, low]

end Digits

/-- Where the lead bytes are, by the number of bytes that follow. -/
theorem lead_of_followers {lead : UInt8} {intervals : List (UInt8 × UInt8)}
    (leads : followers lead = some intervals) :
    lead.toNat < 128 ∨ (194 ≤ lead.toNat ∧ lead.toNat < 224)
      ∨ (224 ≤ lead.toNat ∧ lead.toNat < 240)
      ∨ 240 ≤ lead.toNat ∧ lead.toNat < 245 := by
  simp only [followers, UInt8.le_iff_toNat_le, UInt8.lt_iff_toNat_lt,
    ← UInt8.toNat_inj] at leads
  simp at leads
  repeat' split at leads
  all_goals first | omega | cases leads

theorem exists_ofNat {b : UInt8} {base : Nat} (low : base ≤ b.toNat) :
    ∃ k, k + base = b.toNat ∧ b = UInt8.ofNat (k + base) :=
  ⟨b.toNat - base, Nat.sub_add_cancel low,
    by rw [Nat.sub_add_cancel low, UInt8.ofNat_toNat]⟩

/-- A byte that can follow, by the six bits it holds. -/
theorem exists_of_inside {low high b : UInt8} (inside : low ≤ b ∧ b ≤ high)
    (from128 : 128 ≤ low.toNat) :
    ∃ i, b = UInt8.ofNat (i + 128) ∧ low.toNat ≤ i + 128 ∧
      i + 128 ≤ high.toNat := by
  simp only [UInt8.le_iff_toNat_le] at inside
  obtain ⟨i, le, same⟩ := exists_ofNat (show 128 ≤ b.toNat by omega)
  exact ⟨i, same, by omega⟩

/-- A lead byte with bytes that may follow it is the encoding of a character. -/
theorem exists_utf8EncodeChar {lead : UInt8} {intervals : List (UInt8 × UInt8)}
    {rest : List UInt8} (leads : followers lead = some intervals)
    (inside : List.Forall₂ (fun interval b => interval.1 ≤ b ∧ b ≤ interval.2)
      intervals rest) :
    ∃ c, String.utf8EncodeChar c = lead :: rest := by
  rcases lead_of_followers leads with one | two | three | four
  · obtain ⟨k, lower, same⟩ := exists_ofNat (Nat.zero_le lead.toNat)
    rw [Nat.add_zero] at lower same
    rw [same, followers_one (by omega)] at leads
    cases leads
    cases inside
    exact same ▸ exists_encoding_one (by omega)
  · obtain ⟨k, lower, same⟩ := exists_ofNat (show 192 ≤ lead.toNat by omega)
    rw [same, followers_two (by omega) (by omega)] at leads
    cases leads
    simp only [List.forall₂_cons_left_iff, List.forall₂_nil_left_iff] at inside
    obtain ⟨_, _, first, rfl, rfl⟩ := inside
    obtain ⟨i, rfl, bounds₁⟩ := exists_of_inside first (by decide)
    simp at bounds₁
    exact same ▸ exists_encoding_two (by omega) (by omega) (by omega)
  · obtain ⟨k, lower, same⟩ := exists_ofNat (show 224 ≤ lead.toNat by omega)
    rw [same, followers_three (by omega)] at leads
    cases leads
    simp only [List.forall₂_cons_left_iff, List.forall₂_nil_left_iff] at inside
    obtain ⟨_, _, first, ⟨_, _, second, rfl, rfl⟩, rfl⟩ := inside
    obtain ⟨i, rfl, bounds₁⟩ := exists_of_inside first (by split <;> decide)
    obtain ⟨j, rfl, bounds₂⟩ := exists_of_inside second (by decide)
    simp at bounds₂
    have range : i < 64 ∧ (k = 0 → 32 ≤ i) ∧ (k = 13 → i < 32) := by
      split at bounds₁ <;> split at bounds₁ <;> simp at bounds₁ <;> omega
    exact same ▸ exists_encoding_three (by omega) range.1 (by omega) range.2.1
      range.2.2
  · obtain ⟨k, lower, same⟩ := exists_ofNat (show 240 ≤ lead.toNat by omega)
    rw [same, followers_four (by omega)] at leads
    cases leads
    simp only [List.forall₂_cons_left_iff, List.forall₂_nil_left_iff] at inside
    obtain ⟨_, _, first, ⟨_, _, second, ⟨_, _, third, rfl, rfl⟩, rfl⟩, rfl⟩ :=
      inside
    obtain ⟨i, rfl, bounds₁⟩ := exists_of_inside first (by split <;> decide)
    obtain ⟨j, rfl, bounds₂⟩ := exists_of_inside second (by decide)
    obtain ⟨m, rfl, bounds₃⟩ := exists_of_inside third (by decide)
    simp at bounds₂ bounds₃
    have range : i < 64 ∧ (k = 0 → 16 ≤ i) ∧ (k = 4 → i < 16) := by
      split at bounds₁ <;> split at bounds₁ <;> simp at bounds₁ <;> omega
    exact same ▸ exists_encoding_four (by omega) range.1 (by omega)
      (by omega) range.2.1 range.2.2

/-- The bytes that fit are in their intervals. -/
theorem forall₂_of_fitting {intervals : List (UInt8 × UInt8)}
    {bytes : List UInt8} (full : fitting intervals bytes = intervals.length) :
    List.Forall₂ (fun interval b => interval.1 ≤ b ∧ b ≤ interval.2) intervals
      (bytes.take intervals.length) := by
  induction intervals generalizing bytes with
  | nil => exact .nil
  | cons interval intervals ih =>
    obtain ⟨low, high⟩ := interval
    cases bytes with
    | nil => cases full
    | cons b bytes =>
      rw [fitting] at full
      split at full
      · next inside => exact .cons inside (ih (Nat.succ_inj.mp full))
      · cases full

/-- The character at the front is the one whose encoding stands there. -/
theorem charAtFront?_eq_some_iff {bytes : List UInt8} {c : Char} {n : Nat} :
    charAtFront? bytes = some (c, n)
      ↔ bytes.take n = String.utf8EncodeChar c ∧
      n = (String.utf8EncodeChar c).length := by
  constructor
  · intro front
    have alone := charAtFront?_take front
    cases bytes with
    | nil => cases front
    | cons lead rest =>
      obtain ⟨intervals, leads, full, rfl, -⟩ :=
        charAtFront?_cons_eq_some.mp front
      obtain ⟨c', encoded⟩ :=
        exists_utf8EncodeChar leads (forall₂_of_fitting full)
      have own := charAtFront?_utf8EncodeChar c'
      rw [encoded, ← List.take_succ_cons, alone,
        Option.some.injEq, Prod.mk.injEq] at own
      obtain ⟨rfl, length⟩ := own
      exact ⟨encoded.symm, by rw [encoded, length]; rfl⟩
  · rintro ⟨front, length⟩
    have own :=
      charAtFront?_append (charAtFront?_utf8EncodeChar c) (bytes.drop n)
    rw [← front, List.take_append_drop, front] at own
    rw [own, length]

/-! ## Decoding -/

/-- Decoding goes on behind a character. -/
theorem decodeLossy_of_charAtFront? {bytes : List UInt8} {c : Char} {n : Nat}
    (front : charAtFront? bytes = some (c, n)) :
    decodeLossy bytes = c :: decodeLossy (bytes.drop n) := by
  cases bytes with
  | nil => cases front
  | cons lead rest =>
    rw [charAtFront?] at front
    split at front
    · next scalar =>
      cases front
      have pos := length_head_pos lead rest
      rw [scalar] at pos
      rw [decodeLossy, scalar]
      obtain ⟨n, rfl⟩ :=
        Nat.exists_eq_succ_of_ne_zero (Nat.pos_iff_ne_zero.mp pos)
      rfl
    · cases front

/-- Decoding undoes encoding. -/
theorem lossy_bytesOf (s : String) : lossy (bytesOf s) = s := by
  have decoded (cs : List Char) : decodeLossy (cs.flatMap String.utf8EncodeChar)
      = cs := by
    induction cs with
    | nil => rw [List.flatMap_nil, decodeLossy]
    | cons c cs ih =>
      have front := charAtFront?_append (charAtFront?_utf8EncodeChar c)
        (cs.flatMap String.utf8EncodeChar)
      rw [List.flatMap_cons, decodeLossy_of_charAtFront? front,
        List.drop_left, ih]
  rw [lossy, bytesOf_eq, decoded, String.ofList_toList]

end Text

end Lexigram
