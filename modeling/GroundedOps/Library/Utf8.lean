import Mathlib.Tactic

/-!
# Prefixes of a UTF-8 text

A prefix of the bytes of a text holds some whole characters and at most one that is cut.
How many characters it touches grows with its length.
-/

namespace GroundedOps.Utf8

/-- The bytes of a text. -/
def encode (s : List Char) : List UInt8 := s.flatMap String.utf8EncodeChar

@[simp] theorem encode_nil : encode [] = [] := rfl

@[simp] theorem encode_cons (c : Char) (s : List Char) :
    encode (c :: s) = String.utf8EncodeChar c ++ encode s := List.flatMap_cons

/-- Some bytes of a character, but not all. -/
structure Cut (c : Char) (part : List UInt8) : Prop where
  nonempty : part ≠ []
  isPrefix : part <+: String.utf8EncodeChar c
  proper : part ≠ String.utf8EncodeChar c

/-- The number of characters with a byte among the first `k`. -/
def touched : List Char → ℕ → ℕ
  | [], _ => 0
  | c :: s, k => if k = 0 then 0 else 1 + touched s (k - (String.utf8EncodeChar c).length)

@[simp] theorem touched_zero (s : List Char) : touched s 0 = 0 := by
  cases s <;> simp [touched]

theorem touched_mono (s : List Char) : Monotone (touched s) := by
  induction s with
  | nil => exact monotone_const
  | cons c s ih =>
    intro k l hkl
    by_cases hk : k = 0
    · simp [touched, hk]
    · have hl : l ≠ 0 := by omega
      have hrest := ih (Nat.sub_le_sub_right hkl (String.utf8EncodeChar c).length)
      simp only [touched, hk, hl, ↓reduceIte]
      omega

theorem length_utf8EncodeChar_ne_zero (c : Char) : (String.utf8EncodeChar c).length ≠ 0 := by
  simp [-String.length_utf8EncodeChar]

theorem touched_length (s : List Char) : touched s (encode s).length = s.length := by
  induction s with
  | nil => rfl
  | cons c s ih =>
    have hpos := length_utf8EncodeChar_ne_zero c
    have hlen : (encode (c :: s)).length ≠ 0 := by
      rw [encode_cons, List.length_append]
      omega
    rw [touched, if_neg hlen, encode_cons, List.length_append, Nat.add_sub_cancel_left, ih,
      List.length_cons, Nat.add_comm]

theorem touched_le (s : List Char) (k : ℕ) : touched s k ≤ k := by
  induction s generalizing k with
  | nil => exact Nat.zero_le k
  | cons c s ih =>
    have hpos := length_utf8EncodeChar_ne_zero c
    have hrest := ih (k - (String.utf8EncodeChar c).length)
    rw [touched]
    split_ifs with hk <;> omega

theorem length_le_encode (s : List Char) : s.length ≤ (encode s).length := by
  rw [← touched_length]
  exact touched_le _ _

/-- The whole characters of a prefix, and what it has of the next one. -/
theorem exists_whole {s : List Char} {bs : List UInt8} (h : bs <+: encode s) :
    ∃ whole, (bs = encode whole ∧ touched s bs.length = whole.length) ∨
      ∃ c part, Cut c part ∧ bs = encode whole ++ part ∧
        touched s bs.length = whole.length + 1 := by
  induction s generalizing bs with
  | nil =>
    obtain rfl := List.prefix_nil.mp h
    exact ⟨[], .inl ⟨rfl, rfl⟩⟩
  | cons c s ih =>
    rw [encode_cons] at h
    by_cases hbs : bs = []
    · subst hbs
      exact ⟨[], .inl ⟨rfl, touched_zero _⟩⟩
    have hpos : bs.length ≠ 0 := by simpa using hbs
    by_cases hlen : bs.length < (String.utf8EncodeChar c).length
    · have hpart : bs <+: String.utf8EncodeChar c :=
        List.prefix_of_prefix_length_le h (List.prefix_append _ _) hlen.le
      have hcut : Cut c bs := ⟨hbs, hpart, fun heq => hlen.ne (by rw [heq])⟩
      refine ⟨[], .inr ⟨c, bs, hcut, rfl, ?_⟩⟩
      have hzero : bs.length - (String.utf8EncodeChar c).length = 0 := by omega
      rw [touched, if_neg hpos, hzero, touched_zero, List.length_nil]
    · obtain ⟨bs, rfl⟩ : String.utf8EncodeChar c <+: bs :=
        List.prefix_of_prefix_length_le (List.prefix_append _ _) h (by omega)
      have htouched : touched (c :: s) (String.utf8EncodeChar c ++ bs).length =
          1 + touched s bs.length := by
        rw [touched, if_neg hpos, List.length_append, Nat.add_sub_cancel_left]
      obtain ⟨whole, ⟨rfl, hwhole⟩ | ⟨d, part, hcut, rfl, hwhole⟩⟩ :=
        ih ((List.prefix_append_right_inj _).mp h)
      · refine ⟨c :: whole, .inl ⟨rfl, ?_⟩⟩
        rw [htouched, hwhole, List.length_cons, Nat.add_comm]
      · refine ⟨c :: whole, .inr ⟨d, part, hcut, ?_, ?_⟩⟩
        · rw [encode_cons, List.append_assoc]
        · rw [htouched, hwhole, List.length_cons]
          omega

/-! ### Decoding -/

/-- Reads whole characters. What no character starts with becomes one replacement
character. -/
def decode : ℕ → List UInt8 → List Char
  | _, [] => []
  | 0, _ :: _ => ['\uFFFD']
  | fuel + 1, b :: bs =>
    match (b :: bs).toByteArray.utf8DecodeChar? 0 with
    | some c => c :: decode fuel ((b :: bs).drop c.utf8Size)
    | none => ['\uFFFD']

theorem utf8DecodeChar?_append (c : Char) (bs : List UInt8) :
    (String.utf8EncodeChar c ++ bs).toByteArray.utf8DecodeChar? 0 = some c := by
  rw [List.toByteArray_append]
  exact ByteArray.utf8DecodeChar?_utf8EncodeChar_append

theorem isPrefix_of_utf8DecodeChar? {c : Char} {bs : List UInt8}
    (h : bs.toByteArray.utf8DecodeChar? 0 = some c) : String.utf8EncodeChar c <+: bs := by
  have hextract := String.toByteArray_utf8EncodeChar_of_utf8DecodeChar?_eq_some h
  have hdata := congrArg (fun b => b.data.toList) hextract
  simp only [List.data_toByteArray, ByteArray.data_extract, List.extract_toArray,
    List.extract_eq_take_drop, List.drop_zero, Nat.sub_zero] at hdata
  rw [hdata]
  exact List.take_prefix _ _

theorem Cut.utf8DecodeChar? {c : Char} {part : List UInt8} (h : Cut c part) :
    part.toByteArray.utf8DecodeChar? 0 = none := by
  rw [Option.eq_none_iff_forall_ne_some]
  intro d hd
  obtain ⟨rest, hrest⟩ := h.isPrefix
  obtain ⟨more, hmore⟩ := isPrefix_of_utf8DecodeChar? hd
  have hc := utf8DecodeChar?_append c []
  rw [List.append_nil, ← hrest, ← hmore, List.append_assoc, utf8DecodeChar?_append] at hc
  obtain rfl := Option.some.inj hc
  apply h.proper
  have hlen : (String.utf8EncodeChar d).length ≤ part.length :=
    List.IsPrefix.length_le ⟨more, hmore⟩
  exact h.isPrefix.eq_of_length_le hlen

theorem decode_encode_append {s : List Char} {bs : List UInt8} {fuel : ℕ} (h : s.length ≤ fuel) :
    decode fuel (encode s ++ bs) = s ++ decode (fuel - s.length) bs := by
  induction s generalizing fuel with
  | nil => simp
  | cons c s ih =>
    obtain ⟨b, rest, hb⟩ := List.exists_cons_of_ne_nil (String.utf8EncodeChar_ne_nil (c := c))
    obtain ⟨fuel, rfl⟩ := Nat.exists_eq_add_of_le' (show 1 ≤ fuel by simp at h; omega)
    have hchar := utf8DecodeChar?_append c (encode s ++ bs)
    have hdrop : (String.utf8EncodeChar c ++ (encode s ++ bs)).drop c.utf8Size = encode s ++ bs :=
      List.drop_left' (String.length_utf8EncodeChar c)
    rw [hb, List.cons_append] at hchar hdrop
    rw [encode_cons, List.append_assoc, hb, List.cons_append, decode, hchar]
    simp only [hdrop, List.cons_append, List.cons.injEq, true_and]
    rw [ih (by simpa using h), List.length_cons, Nat.add_sub_add_right]

theorem decode_encode {s : List Char} {fuel : ℕ} (h : s.length ≤ fuel) :
    decode fuel (encode s) = s := by
  have hall : decode fuel (encode s ++ []) = s ++ decode (fuel - s.length) [] :=
    decode_encode_append h
  simpa [decode] using hall

theorem decode_cut {s : List Char} {c : Char} {part : List UInt8} {fuel : ℕ} (hcut : Cut c part)
    (h : s.length ≤ fuel) : decode fuel (encode s ++ part) = s ++ ['\uFFFD'] := by
  obtain ⟨b, bs, hb⟩ := List.exists_cons_of_ne_nil hcut.nonempty
  have hnone := hcut.utf8DecodeChar?
  rw [decode_encode_append h]
  rw [hb] at hnone ⊢
  cases fuel - s.length with
  | zero => rfl
  | succ fuel => simp only [decode, hnone]

end GroundedOps.Utf8
